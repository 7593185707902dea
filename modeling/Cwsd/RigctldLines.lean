import Cwsd.RigctldPoll

namespace Cwsd.RigctldLines

open Runs Effects RigctldServer RigctldSafety RigctldClients RigctldWork RigctldPoll

/-- The client has a complete line that nobody has looked at. -/
def Waiting (w : Work) (key : Int) : Prop :=
  key ∈ w.clients ∧ '\n'.toUInt8 ∈ (w.server.client key).readBuffer

def stranded (w : Work) : List Int :=
  (w.clients.toList.filter fun c => '\n'.toUInt8 ∈ c.2.readBuffer).map Prod.fst

def reported (w : Work) (revents : List Revents) (i : Nat) : List Int :=
  (((w.pfds.zip revents).drop i).filter fun e => e.2.error || e.2.pollIn).map fun e => e.1.fd

theorem mem_stranded {w : Work} {key : Int} : key ∈ stranded w ↔ Waiting w key := by
  simp only [stranded, List.mem_map, List.mem_filter, decide_eq_true_eq, Prod.exists, exists_and_right,
    exists_eq_right, Std.ExtTreeMap.mem_toList_iff_getElem?_eq_some]
  constructor
  · rintro ⟨c, hget, hline⟩
    refine ⟨?_, ?_⟩
    · rw [Std.ExtTreeMap.mem_iff_isSome_getElem?, hget]
      rfl
    · rw [Server.client]
      have hget' : w.server.clients[key]? = some c := hget
      rwa [hget', Option.getD_some]
  · rintro ⟨hmem, hline⟩
    obtain ⟨c, hget⟩ := Option.isSome_iff_exists.mp (Std.ExtTreeMap.mem_iff_isSome_getElem?.mp hmem)
    have hget' : w.server.clients[key]? = some c := hget
    rw [Server.client, hget', Option.getD_some] at hline
    exact ⟨c, hget, hline⟩

/-- While the rig is connected, poll tells of every client that has a complete line. -/
def Heard (w : Work) (a : Action) : Prop :=
  w.server.rigDisconnected = false →
    match a with
    | .polled revents => ∀ key ∈ stranded w, key ∈ reported w revents 1
    | .timeout => stranded w = []
    | _ => True

instance (w : Work) (a : Action) : Decidable (Heard w a) := by
  unfold Heard
  split <;> infer_instance

/-- Whether the rig was connected when poll was called, and has been since. -/
def noteConnected (w : Work) (a : Action) (connected : Bool) : Bool :=
  match a with
  | .polled _ => !w.server.rigDisconnected
  | .timeout => !w.server.rigDisconnected
  | .disconnect => false
  | _ => connected

theorem mem_reported_succ {w : Work} {scan : Scan} {p : PollFd} {r : Revents} (hat : At w scan p r) {key : Int}
    (h : key ∈ reported w scan.revents scan.index) :
    (key = p.fd ∧ (r.error = true ∨ r.pollIn = true)) ∨ key ∈ reported w scan.revents (scan.index + 1) := by
  have hzip : (w.pfds.zip scan.revents)[scan.index]? = some (p, r) :=
    List.getElem?_zip_eq_some.mpr ⟨hat.entry, hat.report⟩
  obtain ⟨hlt, hget⟩ := List.getElem?_eq_some_iff.mp hzip
  rw [reported, List.drop_eq_getElem_cons hlt, hget, List.filter_cons] at h
  split at h
  · rename_i hset
    rcases List.mem_cons.mp h with rfl | hrest
    · exact .inl ⟨rfl, by simpa using hset⟩
    · exact .inr hrest
  · exact .inr h

/-- Where the clients with a complete line are while the worker goes through the descriptors. -/
def Covered (w : Work) (fdsToRemove : List Int) (revents : List Revents) (i : Nat) : Prop :=
  ∀ key, Waiting w key → key ∈ fdsToRemove ∨ key ∈ reported w revents i

def Found (w : Work) : Prop :=
  match w.pc with
  | .scanIn scan => Covered w scan.fdsToRemove scan.revents (max scan.index 1)
  | .scanOut scan => Covered w scan.fdsToRemove scan.revents (scan.index + 1)
  | .sweep _ fdsToRemove => ∀ key, Waiting w key → key ∈ fdsToRemove
  | .flags => ∀ key, ¬ Waiting w key
  | .starting | .top => ∀ key, ¬ Waiting w key
  | _ => True

theorem Covered.mono {w w' : Work} {fdsToRemove : List Int} {revents : List Revents} {i : Nat}
    (h : Covered w fdsToRemove revents i) (hpfds : w'.pfds = w.pfds)
    (hsub : ∀ key, Waiting w' key → Waiting w key) :
    Covered w' fdsToRemove revents i := by
  intro key hkey
  rw [reported, hpfds]
  exact h key (hsub key hkey)

theorem Covered.next {w w' : Work} {scan : Scan} {p : PollFd} {r : Revents} (hat : At w scan p r)
    (h : Covered w scan.fdsToRemove scan.revents (max scan.index 1)) {fdsToRemove : List Int}
    (hpfds : w'.pfds = w.pfds) (hfds : scan.fdsToRemove ⊆ fdsToRemove)
    (hsub : ∀ key, Waiting w' key → key ∈ fdsToRemove ∨ Waiting w key)
    (hdone : scan.index ≠ 0 → (r.error = true ∨ r.pollIn = true) → Waiting w' p.fd → p.fd ∈ fdsToRemove) :
    Covered w' fdsToRemove scan.revents (scan.index + 1) := by
  intro key hkey
  rw [reported, hpfds]
  rcases hsub key hkey with hrem | hold
  · exact .inl hrem
  rcases h key hold with hrem | hrep
  · exact .inl (hfds hrem)
  · by_cases hzero : scan.index = 0
    · right
      rw [hzero] at hrep ⊢
      exact hrep
    · rw [Nat.max_eq_left (Nat.one_le_iff_ne_zero.mpr hzero)] at hrep
      rcases mem_reported_succ hat hrep with ⟨rfl, hset⟩ | hrest
      · exact .inl (hdone hzero hset hkey)
      · exact .inr hrest

theorem waiting_of_client {w w' : Work} {key : Int} (hmem : key ∈ w'.clients → key ∈ w.clients)
    (hbuffer : (w'.server.client key).readBuffer = (w.server.client key).readBuffer) (h : Waiting w' key) :
    Waiting w key := by
  refine ⟨hmem h.1, ?_⟩
  rw [← hbuffer]
  exact h.2

theorem marked_fdsToRemove_subset (scan : Scan) (fd : Int) (keep : Bool) :
    scan.fdsToRemove ⊆ (scan.marked fd keep).fdsToRemove := by
  cases keep with
  | true => exact List.Subset.refl _
  | false => exact List.subset_append_left _ _

theorem mem_marked_false (scan : Scan) (fd : Int) : fd ∈ (scan.marked fd false).fdsToRemove :=
  List.mem_append_right _ (List.mem_singleton.mpr rfl)

theorem covered_nextIndex {w : Work} (scan : Scan)
    (h : Covered w scan.fdsToRemove scan.revents (scan.index + 1)) :
    Covered w scan.fdsToRemove scan.revents (max (scan.index + 1) 1) := by
  rwa [Nat.max_eq_left (Nat.le_add_left 1 scan.index)]

theorem waiting_acceptClient {w : Work} {fd key : Int} (pc : Pc)
    (h : Waiting { acceptClient fd w with pc } key) : Waiting w key := by
  by_cases hold : key ∈ w.clients
  · exact waiting_of_client (fun _ => hold) (congrArg Client.readBuffer (client_acceptClient_of_mem fd hold)) h
  · obtain hmem | ⟨hpos, rfl⟩ := (mem_acceptClient fd w key).mp h.1
    · exact absurd hmem hold
    · have hnew := h.2
      rw [show ({ acceptClient key w with pc } : Work).server = (acceptClient key w).server from rfl,
        client_acceptClient_self hpos hold] at hnew
      exact absurd hnew List.not_mem_nil

theorem waiting_write {env : Environment} {w : Work} {fd key : Int} {keep : Bool} {server : Server} {pc : Pc}
    (hmem : fd ∈ w.clients) (hwrite : writeFromClient env fd (clientAt fd w).server = .returned keep server)
    (h : Waiting { w with server, pc } key) : Waiting w key := by
  refine ⟨((write_serves hmem hwrite).members key).mp h.1, ?_⟩
  rw [clientAt_eq hmem] at hwrite
  rw [← (meets_writeFromClient.returned hwrite).readBuffer key]
  exact h.2

theorem waiting_read {env : Environment} {w : Work} {fd key : Int} {keep : Bool} {server : Server} {pc : Pc}
    (hkeyed : Keyed w.server) (hmem : fd ∈ w.clients) (hlive : w.server.rigDisconnected = false)
    (hread : readFromClient env fd (clientAt fd w).server = .returned keep server)
    (h : Waiting { w with server, pc } key) : (key = fd ∧ keep = false) ∨ (key ≠ fd ∧ Waiting w key) := by
  rw [clientAt_eq hmem] at hread
  obtain ⟨hserves, hnone⟩ := readFromClient_serves hmem (hkeyed fd hmem) hread
  by_cases hkey : key = fd
  · subst hkey
    cases keep with
    | true => exact absurd h.2 (hnone rfl hlive)
    | false => exact .inl ⟨rfl, rfl⟩
  · refine .inr ⟨hkey, (hserves.members key).mp h.1, ?_⟩
    rw [← hserves.others key hkey]
    exact h.2

theorem covered_read {env : Environment} {w : Work} {scan : Scan} {p : PollFd} {r : Revents} {keep : Bool}
    {server : Server} {pc : Pc} (hkeyed : Keyed w.server) (hmem : p.fd ∈ w.clients)
    (hlive : w.server.rigDisconnected = false) (hat : At w scan p r)
    (hread : readFromClient env p.fd (clientAt p.fd w).server = .returned keep server)
    (h : Covered w scan.fdsToRemove scan.revents (max scan.index 1)) :
    Covered { w with server, pc } (scan.marked p.fd keep).fdsToRemove scan.revents (scan.index + 1) := by
  refine h.next hat rfl (marked_fdsToRemove_subset scan p.fd keep) ?_ ?_
  · intro key hkey
    rcases waiting_read hkeyed hmem hlive hread hkey with ⟨rfl, rfl⟩ | ⟨-, hold⟩
    · exact .inl (mem_marked_false scan p.fd)
    · exact .inr hold
  · intro _ _ hkey
    rcases waiting_read hkeyed hmem hlive hread hkey with ⟨-, rfl⟩ | ⟨hself, -⟩
    · exact mem_marked_false scan p.fd
    · exact absurd rfl hself

theorem covered_noInput {w : Work} {scan : Scan} {p : PollFd} {r : Revents} {pc : Pc} (hat : At w scan p r)
    (herror : r.error = false) (hin : r.pollIn = false)
    (h : Covered w scan.fdsToRemove scan.revents (max scan.index 1)) :
    Covered { w with pc } scan.fdsToRemove scan.revents (scan.index + 1) := by
  refine h.next hat rfl (List.Subset.refl _) (fun _ => .inr) ?_
  rintro - (hset | hset) -
  · rw [herror] at hset
    cases hset
  · rw [hin] at hset
    cases hset

theorem covered_write {env : Environment} {w : Work} {scan : Scan} {fd : Int} {keep : Bool} {server : Server}
    {pc : Pc} (hmem : fd ∈ w.clients)
    (hwrite : writeFromClient env fd (clientAt fd w).server = .returned keep server)
    (h : Covered w scan.fdsToRemove scan.revents (scan.index + 1)) :
    Covered { w with server, pc } (scan.marked fd keep).fdsToRemove scan.revents (scan.index + 1) := by
  intro key hkey
  exact (h key (waiting_write hmem hwrite hkey)).imp
    (fun hrem => marked_fdsToRemove_subset scan fd keep hrem) id

theorem waiting_sweep {w : Work} {fdToAdd key : Int} {fdsToRemove : List Int}
    (h : Waiting (sweep w fdToAdd fdsToRemove) key) : Waiting w key ∧ key ∉ fdsToRemove := by
  obtain ⟨hmem, hline⟩ := h
  rw [Work.clients, sweep_server] at hmem
  rw [sweep_server] at hline
  obtain ⟨hmem, hout⟩ := (mem_removeClients _ w key).mp hmem
  rw [client_removeClients hout] at hline
  exact ⟨⟨hmem, hline⟩, hout⟩

theorem found_step {env : Environment} {w w' : Work} {a : Action} {connected : Bool} (hkeyed : Keyed w.server)
    (hplaced : Placed w) (h : connected = true → w.server.rigDisconnected = false ∧ Found w) (hok : Heard w a)
    (hs : Steps env w a w') (hc : noteConnected w a connected = true) :
    w'.server.rigDisconnected = false ∧ Found w' := by
  cases hs with
  | disconnect => cases hc
  | stop => exact h hc
  | started hpc =>
      obtain ⟨hlive, hfound⟩ := h hc
      rw [Found, hpc] at hfound
      exact ⟨hlive, hfound⟩
  | leave hpc | lost hpc _ | live hpc _ => exact ⟨(h hc).1, trivial⟩
  | close hpc =>
      refine ⟨?_, trivial⟩
      rw [closeRig]
      split <;> exact (h hc).1
  | opened hpc result => cases result <;> exact ⟨(h hc).1, trivial⟩
  | connect hpc => exact ⟨rfl, trivial⟩
  | timeout hpc =>
      have hlive : w.server.rigDisconnected = false := by simpa [noteConnected] using hc
      refine ⟨hlive, fun key hkey => ?_⟩
      have hmem := mem_stranded.mpr (show Waiting w key from hkey)
      rw [hok hlive] at hmem
      exact List.not_mem_nil hmem
  | poll hpc revents hreports =>
      have hlive : w.server.rigDisconnected = false := by simpa [noteConnected] using hc
      exact ⟨hlive, fun key hkey => .inr (hok hlive key (mem_stranded.mpr hkey))⟩
  | @error scan p r hpc hat herror =>
      obtain ⟨hlive, hfound⟩ := h hc
      rw [Found, hpc] at hfound
      exact ⟨hlive, covered_nextIndex (scan.marked p.fd false) (hfound.next hat rfl
        (marked_fdsToRemove_subset scan p.fd false) (fun _ => .inr) fun _ _ _ => mem_marked_false scan p.fd)⟩
  | @accept scan p r hpc hat hzero fd hfd =>
      obtain ⟨hlive, hfound⟩ := h hc
      rw [Found, hpc] at hfound
      obtain ⟨hpfds, -, hsame⟩ := acceptClient_frame fd w
      refine ⟨hsame.trans hlive, hfound.next hat hpfds (List.Subset.refl _) ?_ ?_⟩
      · exact fun key hkey => .inr (waiting_acceptClient _ hkey)
      · exact fun hne => absurd hzero hne
  | @read scan p r keep server hpc hat _ hne _ _ hread =>
      obtain ⟨hlive, hfound⟩ := h hc
      rw [Found, hpc] at hfound
      have hmem := readable_client hplaced hpc hat hne
      refine ⟨(read_serves hkeyed hmem hread).rigDisconnected.trans hlive, ?_⟩
      simp only [Found, marked_index, marked_revents]
      exact covered_read hkeyed hmem hlive hat hread hfound
  | noInput hpc hat herror hin =>
      obtain ⟨hlive, hfound⟩ := h hc
      rw [Found, hpc] at hfound
      exact ⟨hlive, covered_noInput hat herror hin hfound⟩
  | @write scan p r keep server hpc hat hout hwrite =>
      obtain ⟨hlive, hfound⟩ := h hc
      rw [Found, hpc] at hfound
      have hmem := writable_client hplaced hpc hat hout
      refine ⟨(write_serves hmem hwrite).rigDisconnected.trans hlive, ?_⟩
      apply covered_nextIndex (scan.marked p.fd keep)
      rw [marked_index, marked_revents]
      exact covered_write hmem hwrite hfound
  | noOutput hpc _ _ =>
      obtain ⟨hlive, hfound⟩ := h hc
      rw [Found, hpc] at hfound
      exact ⟨hlive, covered_nextIndex _ (hfound.mono rfl fun _ => id)⟩
  | scanned hpc hend =>
      obtain ⟨hlive, hfound⟩ := h hc
      rw [Found, hpc] at hfound
      rw [Placed, hpc] at hplaced
      refine ⟨hlive, fun key hkey => (hfound key hkey).resolve_right ?_⟩
      rw [reported, List.drop_eq_nil_of_le]
      · exact List.not_mem_nil
      · rw [List.length_zip, ← hplaced.1.pfdNr]
        omega
  | sweep hpc =>
      obtain ⟨hlive, hfound⟩ := h hc
      rw [Found, hpc] at hfound
      refine ⟨?_, fun key hkey => ?_⟩
      · rw [sweep_server]
        exact hlive
      · obtain ⟨hold, hout⟩ := waiting_sweep hkey
        exact hout (hfound key hold)
  | flags hpc hflags =>
      obtain ⟨hlive, hfound⟩ := h hc
      rw [Found, hpc] at hfound
      obtain ⟨flags, -, rfl⟩ := Option.map_eq_some_iff.mp hflags
      exact ⟨hlive, hfound⟩

/-- Once the rig is back, an iteration that it has been connected for leaves no complete line behind. -/
theorem no_line_stranded (env : Environment) (rigModel serverFd : Int) (as : List Action) (w : Work)
    (connected : Bool)
    (h : Run (observed (step env) noteConnected) (fun s a => Heard s.1 a) (start rigModel serverFd, false) as
      (w, connected)) :
    w.pc = .top → connected = true → ∀ key ∈ w.clients, '\n'.toUInt8 ∉ (w.server.client key).readBuffer := by
  have hinv := h.invariant (fun s => (Keyed s.1.server ∧ Placed s.1) ∧
    (s.2 = true → s.1.server.rigDisconnected = false ∧ Found s.1)) ?_ ?_
  · intro hpc hconnected key hmem hline
    have hfound := (hinv.2 hconnected).2
    rw [Found, hpc] at hfound
    exact hfound key ⟨hmem, hline⟩
  · exact ⟨placed_start rigModel serverFd, nofun⟩
  · rintro s a s' ⟨⟨hkeyed, hplaced⟩, hfound⟩ hok hstep
    obtain ⟨hs, hnote⟩ := observed_eq_some.mp hstep
    have hsteps := steps_of_step hs
    refine ⟨placed_step hkeyed hplaced hsteps, fun hc => ?_⟩
    rw [hnote] at hc
    exact found_step hkeyed hplaced hfound hok hsteps hc

def askingRig : Environment := { idleRig with received := fun _ => some (StringUtil.ascii "f\n") }

def askedTooEarly : List Action :=
  [.advance, .advance, .advance, .opened .failed, .polled [⟨false, true, false⟩], .accepted 4, .advance, .advance,
    .advance, .advance, .advance, .advance, .opened .failed, .polled [{}, ⟨false, true, false⟩], .advance, .advance,
    .advance, .advance, .advance, .advance, .advance, .advance, .advance, .opened .opened, .advance]

def waitingClients (s : Work × Bool) : Pc × Bool × List Int × List Int :=
  (s.1.pc, s.2, s.1.clients.keys, stranded s.1)

theorem no_line_stranded_heard : ∃ w : Work, w.pc = .top ∧ w.clients.keys = [4] ∧
    ∀ key ∈ w.clients, '\n'.toUInt8 ∉ (w.server.client key).readBuffer := by
  obtain ⟨⟨w, connected⟩, hrun, hview⟩ := run_of_exec_map (observed (step askingRig) noteConnected)
    (fun s a => Heard s.1 a) (start modelIC7300 3, false)
    (askedTooEarly ++ [.polled [{}, ⟨false, true, false⟩], .advance, .advance, .advance, .advance, .advance,
      .advance, .advance])
    waitingClients (.top, true, [4], []) (by decide +kernel)
  simp only [waitingClients, Prod.mk.injEq] at hview
  exact ⟨w, hview.1, hview.2.2.1,
    no_line_stranded askingRig modelIC7300 3 _ w connected hrun hview.1 hview.2.1⟩

/-- The command waits until the client sends something else: the poll that follows reports nothing. -/
theorem line_stranded : ¬ ∀ (env : Environment) (rigModel serverFd : Int) (as : List Action) (w : Work)
    (connected : Bool),
    Run (observed (step env) noteConnected) (fun _ _ => True) (start rigModel serverFd, false) as
      (w, connected) →
    w.pc = .top → connected = true → ∀ key ∈ w.clients, '\n'.toUInt8 ∉ (w.server.client key).readBuffer := by
  intro hall
  obtain ⟨⟨w, connected⟩, hrun, hview⟩ := run_of_exec_map (observed (step askingRig) noteConnected)
    (fun _ _ => True) (start modelIC7300 3, false) (askedTooEarly ++ [.timeout])
    waitingClients (.top, true, [4], [4]) (by decide +kernel)
  simp only [waitingClients, Prod.mk.injEq] at hview
  have hwaiting : Waiting w 4 := by
    rw [← mem_stranded, hview.2.2.2]
    exact List.mem_singleton.mpr rfl
  exact hall askingRig modelIC7300 3 _ w connected hrun hview.1 hview.2.1 4 hwaiting.1 hwaiting.2

end Cwsd.RigctldLines
