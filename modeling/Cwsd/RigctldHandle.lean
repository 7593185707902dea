import Cwsd.RigctldLines

namespace Cwsd.RigctldHandle

open StringUtil Effects RigctldServer RigctldSafety RigctldReplies RigctldClients RigctldWork RigctldLines Runs

/-- The calls on hamlib as whole lives of handles, one after the other: how many
handles there were, and the one that is open at the end. -/
inductive History : List RigCall → Nat → Option Nat → Prop
  | empty : History [] 0 none
  | failed {calls : List RigCall} {n : Nat} :
      History calls n none → History (calls ++ [.init n, .openFailed n, .cleanup n]) (n + 1) none
  | opened {calls : List RigCall} {n : Nat} :
      History calls n none → History (calls ++ [.init n, .opened n]) (n + 1) (some n)
  | closed {calls : List RigCall} {n rig : Nat} :
      History calls n (some rig) → History (calls ++ [.close rig, .cleanup rig]) n none

/-- Obtained from rig_init and not yet passed to rig_cleanup. -/
def Live (calls : List RigCall) (rig : Nat) : Prop := .init rig ∈ calls ∧ .cleanup rig ∉ calls

section

variable {calls : List RigCall} {n : Nat} {rig : Option Nat}

theorem History.count_init (h : History calls n rig) : calls.countP (fun c => c matches .init _) = n := by
  induction h with
  | empty => rfl
  | failed _ ih => simp [ih]
  | opened _ ih => simp [ih]
  | closed _ ih => simpa using ih

theorem History.fresh (h : History calls n rig) :
    ∀ rig', .init rig' ∈ calls ∨ .cleanup rig' ∈ calls ∨ rig = some rig' → rig' < n := by
  induction h with
  | empty => simp
  | @failed calls n _ ih =>
      intro rig' hmem
      simp only [List.mem_append, List.mem_cons, List.not_mem_nil, or_false, reduceCtorEq, false_or,
        RigCall.init.injEq, RigCall.cleanup.injEq] at hmem
      rcases hmem with (h | h) | h | h
      · exact Nat.lt_succ_of_lt (ih rig' (.inl h))
      · omega
      · exact Nat.lt_succ_of_lt (ih rig' (.inr (.inl h)))
      · omega
  | @opened calls n _ ih =>
      intro rig' hmem
      simp only [List.mem_append, List.mem_cons, List.not_mem_nil, or_false, reduceCtorEq,
        RigCall.init.injEq, Option.some.injEq] at hmem
      rcases hmem with (h | h) | h | h
      · exact Nat.lt_succ_of_lt (ih rig' (.inl h))
      · omega
      · exact Nat.lt_succ_of_lt (ih rig' (.inr (.inl h)))
      · omega
  | @closed calls n rig _ ih =>
      intro rig' hmem
      simp only [List.mem_append, List.mem_cons, List.not_mem_nil, or_false, reduceCtorEq, false_or,
        RigCall.cleanup.injEq] at hmem
      rcases hmem with h | h | h
      · exact ih rig' (.inl h)
      · exact ih rig' (.inr (.inl h))
      · exact ih rig' (.inr (.inr (by rw [h])))

theorem History.count_cleanup (h : History calls n rig) (rig' : Nat) (hinit : .init rig' ∈ calls) :
    calls.count (.cleanup rig') = if rig = some rig' then 0 else 1 := by
  have hzero {calls : List RigCall} {n : Nat} {rig : Option Nat} (h : History calls n rig) :
      calls.count (.cleanup n) = 0 := by
    refine List.count_eq_zero_of_not_mem fun hmem => ?_
    exact absurd (h.fresh n (.inr (.inl hmem))) (Nat.lt_irrefl n)
  induction h with
  | empty => cases hinit
  | @failed calls n h ih =>
      simp only [List.mem_append, List.mem_cons, List.not_mem_nil, or_false, reduceCtorEq,
        RigCall.init.injEq] at hinit
      rcases hinit with hold | rfl
      · have hlt := h.fresh rig' (.inl hold)
        have hne : n ≠ rig' := by omega
        simp [List.count_append, ih hold, hne]
      · simp [List.count_append, hzero h]
  | @opened calls n h ih =>
      simp only [List.mem_append, List.mem_cons, List.not_mem_nil, or_false, reduceCtorEq,
        RigCall.init.injEq] at hinit
      rcases hinit with hold | rfl
      · have hlt := h.fresh rig' (.inl hold)
        have hne : n ≠ rig' := by omega
        simp [List.count_append, ih hold, hne]
      · simp [List.count_append, hzero h]
  | @closed calls n rig h ih =>
      simp only [List.mem_append, List.mem_cons, List.not_mem_nil, or_false, reduceCtorEq] at hinit
      by_cases heq : rig = rig'
      · simp [List.count_append, ih hinit, heq]
      · simp [List.count_append, ih hinit, heq]

theorem History.live (h : History calls n rig) {rig' : Nat} (hlive : Live calls rig') : rig = some rig' := by
  by_contra hno
  have hcount := h.count_cleanup rig' hlive.1
  rw [if_neg hno] at hcount
  exact hlive.2 (List.count_pos_iff.mp (by omega))

theorem History.open_live (h : History calls n (some rig')) : .opened rig' ∈ calls ∧ Live calls rig' := by
  cases h with
  | @opened calls n h =>
      refine ⟨by simp, by simp, ?_⟩
      intro hmem
      simp only [List.mem_append, List.mem_cons, List.not_mem_nil, or_false, reduceCtorEq] at hmem
      exact absurd (h.fresh _ (.inr (.inl hmem))) (Nat.lt_irrefl _)

theorem History.cleanup_once (h : History calls n rig) (rig' : Nat) : calls.count (.cleanup rig') ≤ 1 := by
  induction h with
  | empty => simp
  | @failed calls n h ih =>
      by_cases heq : n = rig'
      · have hnot : .cleanup rig' ∉ calls := fun hmem => by have := h.fresh rig' (.inr (.inl hmem)); omega
        simp [List.count_append, List.count_eq_zero_of_not_mem hnot, heq]
      · simpa [List.count_append, heq] using ih
  | opened h ih => simpa [List.count_append] using ih
  | @closed calls n rig h ih =>
      by_cases heq : rig = rig'
      · subst heq
        simp [List.count_append, List.count_eq_zero_of_not_mem h.open_live.2.2]
      · simpa [List.count_append, heq] using ih

theorem live_append {part : List RigCall} {rig' : Nat} (h : Live (calls ++ part) rig') :
    Live calls rig' ∨ .init rig' ∈ part := by
  have hclean : .cleanup rig' ∉ calls := fun hmem => h.2 (List.mem_append_left part hmem)
  exact (List.mem_append.mp h.1).imp_left fun hinit => ⟨hinit, hclean⟩

theorem one_live_block {block done rest : List RigCall} {a b : Nat} (only : Nat)
    (hlive : ∀ c, Live calls c → c = only) (hinit : ∀ c, .init c ∈ block → c = only)
    (ha : Live done a) (hb : Live done b) (ih : ∀ part, calls = done ++ part → a = b)
    (heq : calls ++ block = done ++ rest) : a = b := by
  rcases List.append_eq_append_iff.mp heq with ⟨part, rfl, hpart⟩ | ⟨part, hcalls, -⟩
  · have hn (c : Nat) (hc : Live (calls ++ part) c) : c = only := by
      refine (live_append hc).elim (hlive c) fun hmem => hinit c ?_
      rw [hpart]
      exact List.mem_append_left rest hmem
    rw [hn a ha, hn b hb]
  · exact ih part hcalls

/-- At every moment in the history at most one handle is live. -/
theorem History.one_live (h : History calls n rig) {done : List RigCall} {a b : Nat} (ha : Live done a)
    (hb : Live done b) (rest : List RigCall) (heq : calls = done ++ rest) : a = b := by
  induction h generalizing rest with
  | empty =>
      rw [(List.append_eq_nil_iff.mp heq.symm).1] at ha
      cases ha.1
  | @failed calls n h ih => exact one_live_block n (fun c hc => by cases h.live hc) (by simp) ha hb ih heq
  | @opened calls n h ih => exact one_live_block n (fun c hc => by cases h.live hc) (by simp) ha hb ih heq
  | @closed calls n rig h ih =>
      exact one_live_block rig (fun c hc => (Option.some.inj (h.live hc)).symm) (by simp) ha hb ih heq

theorem cleaned_block {block done rest : List RigCall} {first : RigCall} {next rig' : Nat}
    (h : History calls n none) (hno : .init next ∉ block) (hinit : .init rig' ∈ done)
    (ih : ∀ part, calls = done ++ .init next :: part → done.count (.cleanup rig') = 1)
    (heq : calls ++ first :: block = done ++ .init next :: rest) : done.count (.cleanup rig') = 1 := by
  rcases List.append_eq_append_iff.mp heq with ⟨part, rfl, hpart⟩ | ⟨part, hcalls, hpart⟩
  · cases part with
    | nil => simpa using h.count_cleanup rig' (by simpa using hinit)
    | cons c part =>
        refine absurd ?_ hno
        rw [(List.cons.inj hpart).2]
        simp
  · cases part with
    | nil =>
        rw [List.append_nil] at hcalls
        rw [← hcalls] at hinit ⊢
        simpa using h.count_cleanup rig' hinit
    | cons c part => exact ih part (by rw [hcalls, ← (List.cons.inj hpart).1])

/-- Whenever a handle is obtained, every earlier one has been cleaned up exactly once. -/
theorem History.cleaned_before_init (h : History calls n rig) {done : List RigCall} {next rig' : Nat}
    (hinit : .init rig' ∈ done) (rest : List RigCall) (heq : calls = done ++ .init next :: rest) :
    done.count (.cleanup rig') = 1 := by
  induction h generalizing rest with
  | empty => simp at heq
  | failed h ih => exact cleaned_block h (by simp) hinit ih heq
  | opened h ih => exact cleaned_block h (by simp) hinit ih heq
  | @closed calls n rig h ih =>
      rcases List.append_eq_append_iff.mp heq with ⟨part, -, hpart⟩ | ⟨part, hcalls, hpart⟩
      · have hmem : RigCall.init next ∈ part ++ .init next :: rest := by simp
        simp [← hpart] at hmem
      · cases part with
        | nil => simp at hpart
        | cons c part => exact ih part (by rw [hcalls, ← (List.cons.inj hpart).1])

end

/-- Where read_from_client stands: not in it, between the append and the test of
rig_disconnected, or at the head of the loop over the lines. -/
inductive Reading
  | idle
  | received (scan : Scan) (fd : Int)
  | lines (scan : Scan) (fd : Int)
  deriving DecidableEq, Repr

/-- The worker with read_from_client taken apart, so that the callback of hamlib can
come between its recv, its test of rig_disconnected and each command. -/
structure Worker where
  work : Work
  reading : Reading

def atInput (w : Work) : Option (Scan × Int) :=
  match w.pc with
  | .scanIn scan =>
      if scan.index < w.pfdNr ∧ scan.index ≠ 0 then do
        let p ← w.pfds[scan.index]?
        let r ← scan.revents[scan.index]?
        if r.error = false ∧ r.pollIn = true then some (scan, p.fd) else none
      else none
  | _ => none

def Worker.finish (w : Worker) (scan : Scan) (fd : Int) (keep : Bool) (server : Server) : Worker :=
  ⟨{ w.work with server, pc := .scanOut (scan.marked fd keep) }, .idle⟩

section

variable (env : Environment)

def recvStep (w : Worker) (scan : Scan) (fd : Int) : Worker :=
  let s := (clientAt fd w.work).server
  match env.received s.calls with
  | none => w.finish scan fd false { s with calls := s.calls ++ [Call.recv (s.client fd).fd] }
  | some [] => w.finish scan fd false { s with calls := s.calls ++ [Call.recv (s.client fd).fd] }
  | some msg => ⟨{ w.work with server := received fd msg s }, .received scan fd⟩

def testStep (w : Worker) (scan : Scan) (fd : Int) : Worker :=
  if w.work.server.rigDisconnected then w.finish scan fd true w.work.server
  else { w with reading := .lines scan fd }

/-- One pass of the loop over the lines, with its call of interpret_command. -/
def lineStep (w : Worker) (scan : Scan) (fd : Int) : Option Worker :=
  let s := w.work.server
  match find (s.client fd).readBuffer ['\n'.toUInt8] 0 with
  | none => some (w.finish scan fd true s)
  | some pos =>
      match handleLine env ((s.client fd).readBuffer.take pos) (s.client fd).fd s with
      | .returned true t =>
          some { w with work := { w.work with server := t.updateClient fd fun c => { c with
            readBuffer := c.readBuffer.drop (((s.client fd).readBuffer.take pos).length + 1) } } }
      | .returned false t => some (w.finish scan fd false t)
      | .threw _ t => some ⟨{ w.work with server := t, pc := .threw }, .idle⟩
      | .undefined => none

def workerAdvance (w : Worker) : Option Worker :=
  match w.reading with
  | .idle =>
      match atInput w.work with
      | some (scan, fd) => some (recvStep env w scan fd)
      | none => (step env w.work .advance).map (⟨·, .idle⟩)
  | .received scan fd => some (testStep w scan fd)
  | .lines scan fd => lineStep env w scan fd

def workerStep (w : Worker) : Action → Option Worker
  | .advance => workerAdvance env w
  | .disconnect => (step env w.work .disconnect).map fun work => { w with work }
  | .stop => (step env w.work .stop).map fun work => { w with work }
  | a => if w.reading = .idle then (step env w.work a).map (⟨·, .idle⟩) else none

end

def startWorker (rigModel serverFd : Int) : Worker := ⟨start rigModel serverFd, .idle⟩

/-- Where the line ends that the next step of the worker passes to interpret_command. -/
def lineEnd (w : Worker) : Option Nat :=
  match w.reading with
  | .lines _ fd => find (w.work.server.client fd).readBuffer ['\n'.toUInt8] 0
  | _ => none

def Interprets (w : Worker) : Prop := ∃ pos, lineEnd w = some pos

def HamlibWorks : Action → Prop
  | .opened result => result = .opened ∨ result = .failed
  | _ => True

instance : DecidablePred HamlibWorks
  | .opened result => inferInstanceAs (Decidable (result = .opened ∨ result = .failed))
  | .advance | .polled _ | .timeout | .accepted _ | .disconnect | .stop => inferInstanceAs (Decidable True)

def Reconnecting : Pc → Bool
  | .closing | .opening | .connected => true
  | _ => false

/-- While the worker holds no handle the flag says so, and nothing resets it before
the next handle is open. -/
structure Inv (w : Worker) : Prop where
  history : History w.work.rigCalls (nextRig w.work) w.work.rig
  gone : w.work.rig = none → w.work.server.rigDisconnected = true
  losing : Reconnecting w.work.pc = true → w.work.server.rigDisconnected = true
  opening : w.work.pc = .opening → w.work.rig = none
  connected : w.work.pc = .connected → w.work.rig ≠ none
  reading : w.reading ≠ .idle → ∃ scan, w.work.pc = .scanIn scan
  lines : ∀ scan fd, w.reading = .lines scan fd → w.work.rig ≠ none

/-- What every step outside of the reconnecting leaves alone. -/
structure Kept (w w' : Work) : Prop where
  rigCalls : w'.rigCalls = w.rigCalls
  rig : w'.rig = w.rig
  rigDisconnected : w.rig = none → w.server.rigDisconnected = true → w'.server.rigDisconnected = true

theorem kept_pc (w : Work) (pc : Pc) : Kept w { w with pc } := ⟨rfl, rfl, fun _ => id⟩

theorem kept_server {w : Work} {server : Server}
    (h : w.rig = none → server.rigDisconnected = w.server.rigDisconnected) (pc : Pc) :
    Kept w { w with server, pc } := ⟨rfl, rfl, fun hrig => (h hrig).trans⟩

theorem Inv.of_kept {w w' : Worker} (h : Inv w) (hkept : Kept w.work w'.work)
    (hpc : Reconnecting w'.work.pc = false) (hreading : w'.reading ≠ .idle → ∃ scan, w'.work.pc = .scanIn scan)
    (hlines : ∀ scan fd, w'.reading = .lines scan fd → w.work.rig ≠ none) : Inv w' where
  history := by
    rw [nextRig, hkept.rigCalls, hkept.rig]
    exact h.history
  gone := by
    intro hrig
    rw [hkept.rig] at hrig
    exact hkept.rigDisconnected hrig (h.gone hrig)
  losing := by
    intro hlosing
    rw [hpc] at hlosing
    cases hlosing
  opening := by
    intro hopening
    rw [hopening] at hpc
    cases hpc
  connected := by
    intro hconnected
    rw [hconnected] at hpc
    cases hpc
  reading := hreading
  lines := by
    intro scan fd hreading
    rw [hkept.rig]
    exact hlines scan fd hreading

theorem Inv.idle {w : Worker} {w' : Work} (h : Inv w) (hkept : Kept w.work w')
    (hpc : Reconnecting w'.pc = false) : Inv ⟨w', .idle⟩ :=
  h.of_kept hkept hpc (fun hne => absurd rfl hne) (by simp)

theorem History.next {w : Work} {n : Nat} {rig : Option Nat} (h : History w.rigCalls n rig) :
    History w.rigCalls (nextRig w) rig := by
  have hn : nextRig w = n := h.count_init
  rwa [hn]

theorem inv_start (rigModel serverFd : Int) : Inv (startWorker rigModel serverFd) where
  history := .empty
  gone := fun _ => rfl
  losing := by simp [startWorker, start, updatePollDescriptors, Reconnecting]
  opening := by simp [startWorker, start, updatePollDescriptors]
  connected := by simp [startWorker, start, updatePollDescriptors]
  reading := by simp [startWorker]
  lines := by simp [startWorker]

section

variable {env : Environment} {w : Worker}

theorem writeFromClient_rigDisconnected {key : Int} {keep : Bool} {s s' : Server}
    (h : writeFromClient env key s = .returned keep s') : s'.rigDisconnected = s.rigDisconnected := by
  rw [writeFromClient_eq] at h
  split at h
  · cases h
    rfl
  · split at h <;>
      (cases h; rfl)

theorem inv_close (h : Inv w) (hpc : w.work.pc = .closing) :
    Inv ⟨{ closeRig w.work with pc := .opening }, .idle⟩ := by
  have hflag := h.losing (by rw [hpc]; rfl)
  have hhistory : History (closeRig w.work).rigCalls (nextRig (closeRig w.work)) (closeRig w.work).rig := by
    have hnow := h.history
    rw [closeRig]
    split
    · exact hnow
    · rename_i rig hrig
      rw [hrig] at hnow
      exact History.next (.closed hnow)
  have hnone : (closeRig w.work).rig = none := by
    rw [closeRig]
    split
    · assumption
    · rfl
  have hlost : (closeRig w.work).server.rigDisconnected = true := by
    rw [closeRig]
    split <;> exact hflag
  exact
    { history := hhistory
      gone := fun _ => hlost
      losing := fun _ => hlost
      opening := fun _ => hnone
      connected := by simp
      reading := by simp
      lines := by simp }

theorem inv_opened (h : Inv w) (hpc : w.work.pc = .opening) {result : OpenResult}
    (hworks : HamlibWorks (.opened result)) : Inv ⟨openRig result w.work, .idle⟩ := by
  have hflag := h.losing (by rw [hpc]; rfl)
  have hnow := h.history
  rw [h.opening hpc] at hnow
  rcases hworks with rfl | rfl
  · exact
      { history := History.next (.opened hnow)
        gone := fun _ => hflag
        losing := fun _ => hflag
        opening := by simp [openRig]
        connected := by simp [openRig]
        reading := by simp
        lines := by simp }
  · exact
      { history := History.next (.failed hnow)
        gone := fun _ => hflag
        losing := fun _ => hflag
        opening := by simp [openRig]
        connected := by simp [openRig]
        reading := by simp
        lines := by simp }

theorem inv_connect (h : Inv w) (hpc : w.work.pc = .connected) :
    Inv ⟨{ w.work with server := { w.work.server with rigDisconnected := false }, pc := .poll }, .idle⟩ where
  history := h.history
  gone := fun hrig => absurd hrig (h.connected hpc)
  losing := by simp [Reconnecting]
  opening := by simp
  connected := by simp
  reading := by simp
  lines := by simp

theorem atInput_some {w : Work} {scan : Scan} {fd : Int} (h : atInput w = some (scan, fd)) :
    ∃ p r, w.pc = .scanIn scan ∧ At w scan p r ∧ p.fd = fd ∧ scan.index < w.pfdNr ∧ scan.index ≠ 0 ∧
      r.error = false ∧ r.pollIn = true := by
  unfold atInput at h
  split at h
  · rename_i scan' hpc
    split at h
    · rename_i hindex
      obtain ⟨p, hp, h⟩ := Option.bind_eq_some_iff.mp h
      obtain ⟨r, hr, h⟩ := Option.bind_eq_some_iff.mp h
      split at h
      · rename_i hready
        cases h
        exact ⟨p, r, hpc, ⟨hp, hr⟩, rfl, hindex.1, hindex.2, hready.1, hready.2⟩
      · cases h
    · cases h
  · cases h

theorem atInput_at {w : Work} {scan : Scan} {p : PollFd} {r : Revents} (hpc : w.pc = .scanIn scan)
    (hat : At w scan p r) (hlt : scan.index < w.pfdNr) (hne : scan.index ≠ 0) (herror : r.error = false)
    (hin : r.pollIn = true) : atInput w = some (scan, p.fd) := by
  simp [atInput, hpc, hlt, hne, hat.entry, hat.report, herror, hin]

theorem inv_lost (h : Inv w) (hflag : w.work.server.rigDisconnected = true) :
    Inv ⟨{ w.work with pc := .closing }, .idle⟩ where
  history := h.history
  gone := h.gone
  losing := fun _ => hflag
  opening := by simp
  connected := by simp
  reading := by simp
  lines := by simp

theorem inv_disconnect (h : Inv w) :
    Inv { w with work := { w.work with server := { w.work.server with rigDisconnected := true } } } :=
  { h with gone := fun _ => rfl, losing := fun _ => rfl }

theorem Inv.to_idle (h : Inv w) : Inv ⟨w.work, .idle⟩ := { h with reading := by simp, lines := by simp }

theorem inv_steps {w' : Work} {a : Action} (h : Inv w) (hinput : a = .advance → atInput w.work = none)
    (hworks : HamlibWorks a) (hs : Steps env w.work a w') : Inv ⟨w', .idle⟩ := by
  cases hs with
  | disconnect => exact (inv_disconnect h).to_idle
  | stop => exact { h.to_idle with }
  | started => exact h.idle ⟨rfl, rfl, fun _ => id⟩ rfl
  | leave | live | timeout | poll | error | noInput | noOutput | scanned => exact h.idle (kept_pc w.work _) rfl
  | lost _ hflag => exact inv_lost h hflag
  | close hpc => exact inv_close h hpc
  | opened hpc => exact inv_opened h hpc hworks
  | connect hpc => exact inv_connect h hpc
  | accept =>
      refine h.idle ?_ rfl
      rw [acceptClient]
      split <;> exact ⟨rfl, rfl, fun _ => id⟩
  | read hpc hat hlt hne herror hin _ =>
      have hnone := hinput rfl
      rw [atInput_at hpc hat hlt hne herror hin] at hnone
      cases hnone
  | write hpc hat hout hwrite =>
      have hflag := writeFromClient_rigDisconnected hwrite
      exact h.idle (kept_server (w := w.work) (fun _ => hflag) _) rfl
  | sweep hpc =>
      refine h.idle ?_ ?_
      · rw [sweep]
        split <;> exact ⟨rfl, rfl, fun _ => id⟩
      · rw [sweep]
        rfl
  | flags hpc hflags =>
      obtain ⟨flags, -, rfl⟩ := Option.map_eq_some_iff.mp hflags
      exact h.idle ⟨rfl, rfl, fun _ => id⟩ rfl

theorem inv_finish (h : Inv w) (scan : Scan) (fd : Int) (keep : Bool) {server : Server}
    (hflag : w.work.rig = none → server.rigDisconnected = w.work.server.rigDisconnected) :
    Inv (w.finish scan fd keep server) :=
  h.idle (kept_server hflag _) rfl

theorem inv_reading {server : Server} {reading : Reading} {scan : Scan} (h : Inv w)
    (hpc : w.work.pc = .scanIn scan)
    (hflag : w.work.rig = none → server.rigDisconnected = w.work.server.rigDisconnected)
    (hlines : ∀ scan fd, reading = .lines scan fd → w.work.rig ≠ none) :
    Inv ⟨{ w.work with server }, reading⟩ := by
  refine h.of_kept ⟨rfl, rfl, fun hrig => (hflag hrig).trans⟩ ?_ (fun _ => ⟨scan, hpc⟩) hlines
  simp [hpc, Reconnecting]

theorem inv_recvStep {scan : Scan} {fd : Int} (h : Inv w) (hpc : w.work.pc = .scanIn scan) :
    Inv (recvStep env w scan fd) := by
  rw [recvStep]
  split
  · exact inv_finish h scan fd false fun _ => rfl
  · exact inv_finish h scan fd false fun _ => rfl
  · exact inv_reading h hpc (fun _ => rfl) (by simp)

theorem inv_testStep {scan scan' : Scan} {fd : Int} (h : Inv w) (hpc : w.work.pc = .scanIn scan') :
    Inv (testStep w scan fd) := by
  rw [testStep]
  split
  · exact inv_finish h scan fd true fun _ => rfl
  · rename_i hflag
    exact inv_reading h hpc (fun _ => rfl) fun _ _ _ hrig => hflag (h.gone hrig)

theorem inv_lineStep {w' : Worker} {scan scan' : Scan} {fd : Int} (h : Inv w) (hpc : w.work.pc = .scanIn scan')
    (hreading : w.reading = .lines scan fd) (hs : lineStep env w scan fd = some w') : Inv w' := by
  have hrig := h.lines scan fd hreading
  have hflag {server : Server} : w.work.rig = none → server.rigDisconnected = w.work.server.rigDisconnected :=
    fun hnone => absurd hnone hrig
  simp only [lineStep] at hs
  split at hs
  · cases hs
    exact inv_finish h scan fd true hflag
  · split at hs
    · cases hs
      exact inv_reading h hpc hflag fun _ _ _ => hrig
    · cases hs
      exact inv_finish h scan fd false hflag
    · cases hs
      exact h.idle (kept_server hflag _) rfl
    · cases hs

theorem inv_advance {w' : Worker} (h : Inv w) (hs : workerAdvance env w = some w') : Inv w' := by
  unfold workerAdvance at hs
  split at hs
  · cases hinput : atInput w.work with
    | some at' =>
        obtain ⟨scan, fd⟩ := at'
        rw [hinput] at hs
        cases hs
        obtain ⟨p, r, hpc, -⟩ := atInput_some hinput
        exact inv_recvStep h hpc
    | none =>
        rw [hinput] at hs
        obtain ⟨work, hwork, rfl⟩ := Option.map_eq_some_iff.mp hs
        exact inv_steps (a := .advance) h (fun _ => hinput) trivial (steps_of_step hwork)
  · rename_i scan fd hreading
    obtain ⟨scan', hpc⟩ := h.reading (by simp [hreading])
    cases hs
    exact inv_testStep h hpc
  · rename_i scan fd hreading
    obtain ⟨scan', hpc⟩ := h.reading (by simp [hreading])
    exact inv_lineStep h hpc hreading hs

theorem workerStep_idle {w' : Worker} {a : Action}
    (hs : (if w.reading = .idle then (step env w.work a).map (⟨·, .idle⟩) else none) = some w') :
    ∃ work, step env w.work a = some work ∧ w' = ⟨work, .idle⟩ := by
  split at hs
  · obtain ⟨work, hwork, rfl⟩ := Option.map_eq_some_iff.mp hs
    exact ⟨work, hwork, rfl⟩
  · cases hs

theorem inv_step {w' : Worker} {a : Action} (h : Inv w) (hworks : HamlibWorks a)
    (hs : workerStep env w a = some w') : Inv w' := by
  cases a with
  | advance => exact inv_advance h hs
  | disconnect =>
      cases hs
      exact inv_disconnect h
  | stop =>
      cases hs
      exact { h with }
  | opened | polled | timeout | accepted =>
      obtain ⟨work, hwork, rfl⟩ := workerStep_idle hs
      exact inv_steps h (by simp) hworks (steps_of_step hwork)

variable {rigModel serverFd : Int} {scan : Scan} {fd : Int} {keep : Bool} {work : Work} {server : Server}

theorem run_advance {w' : Worker} {bs : List Action}
    (hrun : Run (workerStep env) (fun _ a => HamlibWorks a) (startWorker rigModel serverFd) bs w)
    (hs : workerAdvance env w = some w') :
    Run (workerStep env) (fun _ a => HamlibWorks a) (startWorker rigModel serverFd) (bs ++ [.advance]) w' := by
  have hworks : HamlibWorks .advance := trivial
  have hstep : workerStep env w .advance = some w' := hs
  exact hrun.next _ hworks hstep

/-- Without the callback in between, the passes of the loop over the lines are the loop. -/
theorem lines_run {bs : List Action} {n : Nat}
    (hrun : Run (workerStep env) (fun _ a => HamlibWorks a) (startWorker rigModel serverFd) bs
      ⟨work, .lines scan fd⟩)
    (hlen : (work.server.client fd).readBuffer.length ≤ n)
    (h : readLoop env fd n work.server = .returned keep server) :
    ∃ bs, Run (workerStep env) (fun _ a => HamlibWorks a) (startWorker rigModel serverFd) bs
      ⟨{ work with server, pc := .scanOut (scan.marked fd keep) }, .idle⟩ := by
  induction n generalizing bs work with
  | zero =>
      cases h
      refine ⟨_, run_advance hrun ?_⟩
      have hnil := List.length_eq_zero_iff.mp (Nat.le_zero.mp hlen)
      simp only [workerAdvance, lineStep, hnil]
      rfl
  | succ n ih =>
      rw [readLoop_succ] at h
      cases hfind : find (work.server.client fd).readBuffer ['\n'.toUInt8] 0 with
      | none =>
          rw [hfind] at h
          cases h
          refine ⟨_, run_advance hrun ?_⟩
          simp only [workerAdvance, lineStep, hfind]
          rfl
      | some pos =>
          obtain ⟨-, -, hpos⟩ := find_newline hfind
          rw [hfind] at h
          simp only [] at h
          cases hline : handleLine env ((work.server.client fd).readBuffer.take pos) (work.server.client fd).fd
              work.server with
          | returned more t =>
              rw [hline] at h
              cases more with
              | false =>
                  cases h
                  refine ⟨_, run_advance hrun ?_⟩
                  simp only [workerAdvance, lineStep, hfind, hline]
                  rfl
              | true =>
                  let next : Work := { work with server := t.updateClient fd fun c => { c with
                    readBuffer := c.readBuffer.drop (((work.server.client fd).readBuffer.take pos).length + 1)
                      } }
                  have hnext : workerAdvance env ⟨work, .lines scan fd⟩ = some ⟨next, .lines scan fd⟩ := by
                    simp only [workerAdvance, lineStep, hfind, hline]
                    rfl
                  have hshorter : (next.server.client fd).readBuffer.length ≤ n := by
                    rw [updateClient_self, handleLine_readBuffer hline fd, List.length_drop]
                    omega
                  have hrest := ih (run_advance hrun hnext) hshorter h
                  exact hrest
          | threw e t =>
              rw [hline] at h
              cases h
          | undefined =>
              rw [hline] at h
              cases h

theorem read_run {bs : List Action}
    (hrun : Run (workerStep env) (fun _ a => HamlibWorks a) (startWorker rigModel serverFd) bs ⟨work, .idle⟩)
    (hinput : atInput work = some (scan, fd))
    (h : readFromClient env fd (clientAt fd work).server = .returned keep server) :
    ∃ bs, Run (workerStep env) (fun _ a => HamlibWorks a) (startWorker rigModel serverFd) bs
      ⟨{ work with server, pc := .scanOut (scan.marked fd keep) }, .idle⟩ := by
  have hrecv : workerAdvance env ⟨work, .idle⟩ = some (recvStep env ⟨work, .idle⟩ scan fd) := by
    simp only [workerAdvance, hinput]
  have hread := run_advance hrun hrecv
  rw [readFromClient_eq] at h
  cases hmsg : env.received (clientAt fd work).server.calls with
  | none =>
      rw [hmsg] at h
      cases h
      simp only [recvStep, hmsg] at hread
      exact ⟨_, hread⟩
  | some msg =>
      cases msg with
      | nil =>
          rw [hmsg] at h
          cases h
          simp only [recvStep, hmsg] at hread
          exact ⟨_, hread⟩
      | cons c msg =>
          rw [hmsg] at h
          simp only [recvStep, hmsg] at hread
          simp only [] at h
          let next : Work := { work with server := received fd (c :: msg) (clientAt fd work).server }
          by_cases hflag : (clientAt fd work).server.rigDisconnected = true
          · rw [if_pos hflag] at h
            cases h
            have htest : testStep ⟨next, .received scan fd⟩ scan fd =
                Worker.finish ⟨next, .received scan fd⟩ scan fd true next.server := if_pos hflag
            exact ⟨_, run_advance hread (congrArg some htest)⟩
          · rw [if_neg hflag] at h
            have htest : testStep ⟨next, .received scan fd⟩ scan fd = ⟨next, .lines scan fd⟩ := if_neg hflag
            have hlines := lines_run (run_advance hread (congrArg some htest)) (Nat.le_refl _) h
            exact hlines

theorem advance_run {work' : Work} {bs : List Action}
    (hrun : Run (workerStep env) (fun _ a => HamlibWorks a) (startWorker rigModel serverFd) bs ⟨work, .idle⟩)
    (hs : step env work .advance = some work') :
    ∃ bs, Run (workerStep env) (fun _ a => HamlibWorks a) (startWorker rigModel serverFd) bs
      ⟨work', .idle⟩ := by
  cases hinput : atInput work with
  | none =>
      refine ⟨_, run_advance hrun ?_⟩
      simp only [workerAdvance, hinput, hs, Option.map_some]
  | some input =>
      obtain ⟨scan, fd⟩ := input
      obtain ⟨p, r, hpc, hat, rfl, hlt, hne, herror, hin⟩ := atInput_some hinput
      have hread : scanIn env work scan p r .advance = some work' := by
        simp only [step, workStep, hpc, if_pos hlt, hat.entry, hat.report] at hs
        exact hs
      simp only [scanIn, herror, hin, hne, if_true, if_false, Bool.false_eq_true] at hread
      cases hcall : readFromClient env p.fd (clientAt p.fd work).server with
      | returned keep server =>
          rw [hcall] at hread
          cases hread
          have hread := read_run hrun hinput hcall
          exact hread
      | threw e server => exact absurd hcall readFromClient_not_threw
      | undefined =>
          rw [hcall] at hread
          cases hread

/-- Every run of the worker with its reads in one step is a run of it with the reads taken apart. -/
theorem run_of_work {as : List Action}
    (h : Run (step env) (fun _ a => HamlibWorks a) (start rigModel serverFd) as work) :
    ∃ bs, Run (workerStep env) (fun _ a => HamlibWorks a) (startWorker rigModel serverFd) bs ⟨work, .idle⟩ := by
  induction h with
  | start => exact ⟨[], .start⟩
  | next a _ hok hs ih =>
      obtain ⟨bs, hrun⟩ := ih
      cases a with
      | advance => exact advance_run hrun hs
      | disconnect | stop | opened | polled | timeout | accepted =>
          refine ⟨_, hrun.next _ hok ?_⟩
          simp [workerStep, hs]

end

theorem lineEnd_some {w : Worker} {pos : Nat} (h : lineEnd w = some pos) :
    ∃ scan fd, w.reading = .lines scan fd := by
  unfold lineEnd at h
  split at h
  · exact ⟨_, _, ‹_›⟩
  · cases h

/-- A command is interpreted with an open handle; the handles live one after the other, and each was
cleaned up once when the next one is obtained. -/
theorem rig_used_while_live (env : Environment) (rigModel serverFd : Int) (as : List Action) (w : Worker)
    (h : Run (workerStep env) (fun _ a => HamlibWorks a) (startWorker rigModel serverFd) as w) :
    (Interprets w → ∃ rig, w.work.rig = some rig ∧ .opened rig ∈ w.work.rigCalls ∧
      .cleanup rig ∉ w.work.rigCalls) ∧
    (∀ done rest a b, w.work.rigCalls = done ++ rest → Live done a → Live done b → a = b) ∧
    (∀ done next rest rig, w.work.rigCalls = done ++ .init next :: rest → .init rig ∈ done →
      done.count (.cleanup rig) = 1) ∧
    (∀ rig, w.work.rigCalls.count (.cleanup rig) ≤ 1) := by
  have hinv : Inv w := by
    refine h.invariant Inv (inv_start rigModel serverFd) ?_
    intro w a w' hw hworks hs
    exact inv_step hw hworks hs
  refine ⟨?_, ?_, ?_, ?_⟩
  · rintro ⟨pos, hpos⟩
    obtain ⟨scan, fd, hreading⟩ := lineEnd_some hpos
    obtain ⟨rig, hrig⟩ := Option.ne_none_iff_exists'.mp (hinv.lines scan fd hreading)
    have hhistory := hinv.history
    rw [hrig] at hhistory
    exact ⟨rig, hrig, hhistory.open_live.1, hhistory.open_live.2.2⟩
  · intro done rest a b heq ha hb
    exact hinv.history.one_live ha hb rest heq
  · intro done next rest rig heq hinit
    exact hinv.history.cleaned_before_init hinit rest heq
  · exact hinv.history.cleanup_once

def askedWhilePulled : List Action :=
  [.advance, .advance, .advance, .opened .failed, .timeout, .advance, .advance, .opened .opened, .advance,
    .polled [⟨false, true, false⟩], .accepted 4, .advance, .advance, .advance, .advance, .advance,
    .polled [{}, ⟨false, true, false⟩], .advance, .advance, .advance, .advance, .disconnect]

theorem rig_used_while_pulled : ∃ w : Worker, Interprets w ∧ w.work.server.rigDisconnected = true ∧
    ∃ rig, w.work.rig = some rig ∧ .opened rig ∈ w.work.rigCalls ∧ .cleanup rig ∉ w.work.rigCalls := by
  obtain ⟨w, hrun, hview⟩ := run_of_exec_map (workerStep askingRig) (fun _ a => HamlibWorks a)
    (startWorker modelIC7300 3) askedWhilePulled (fun w => (lineEnd w, w.work.server.rigDisconnected))
    (some 1, true) (by decide +kernel)
  simp only [Prod.mk.injEq] at hview
  have hinterprets : Interprets w := ⟨1, hview.1⟩
  exact ⟨w, hinterprets, hview.2,
    (rig_used_while_live askingRig modelIC7300 3 askedWhilePulled w hrun).1 hinterprets⟩

end Cwsd.RigctldHandle
