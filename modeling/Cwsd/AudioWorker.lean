import Cwsd.AudioSubscribers
import Mathlib.Data.List.Forall2

namespace Cwsd.AudioWorker

open AudioStreamServer AudioSubscribers Runs

inductive Call
  | opened (pcm : Nat)
  | hwParams (pcm : Nat)
  | readi (pcm : Nat)
  | prepare (pcm : Nat)
  | closed (pcm : Nat)
  deriving DecidableEq, Repr

inductive Log
  | capturing
  | unavailable
  deriving DecidableEq, Repr

/-- Where work is: each point that waits for the device, the sockets or the clock is one of its own. -/
inductive Pc
  | loop
  | opening
  | waiting
  | reading
  | sweeping
  | encoding
  | sending (payload : List UInt8)
  | returned
  deriving DecidableEq, Repr

/-- Where the owner is: the destructor calls stop, which joins the worker. -/
inductive OwnerPc
  | serving
  | joining
  | stopped
  | destroyed
  deriving DecidableEq, Repr

structure Input where
  openErr : Int
  paramsErr : Int
  frames : Int
  encoded : Option (List UInt8)
  arrivals : List Arrival
  now : Nat
  deriving DecidableEq, Repr

/-- The audio stream server with its threads. Handles are numbered as they are handed out; the
calls on them and the messages logged are kept newest first and read by nothing. -/
structure Worker where
  server : Server
  pcm : Option Nat
  captureWasOpen : Bool
  isRunning : Bool
  pc : Pc
  owner : OwnerPc
  handedOut : Nat
  calls : List Call
  logs : List Log
  deriving DecidableEq, Repr

def launch : Worker :=
  { server := start, pcm := none, captureWasOpen := false, isRunning := true, pc := .loop, owner := .serving
    handedOut := 0, calls := [], logs := [] }

def epipe : Int := 32

def openCapture (input : Input) (s : Worker) : Worker :=
  if input.openErr < 0 then { s with pcm := none }
  else if input.paramsErr < 0 then
    { s with
      pcm := none
      handedOut := s.handedOut + 1
      calls := .closed s.handedOut :: .hwParams s.handedOut :: .opened s.handedOut :: s.calls }
  else
    { s with
      pcm := some s.handedOut
      handedOut := s.handedOut + 1
      calls := .hwParams s.handedOut :: .opened s.handedOut :: s.calls }

def closeCapture (s : Worker) : Worker :=
  match s.pcm with
  | none => s
  | some pcm => { s with pcm := none, calls := .closed pcm :: s.calls }

def readCapture (input : Input) (pcm : Nat) (s : Worker) : Worker :=
  let s := { s with calls := .readi pcm :: s.calls }
  if input.frames = -epipe then { s with calls := .prepare pcm :: s.calls, pc := .loop }
  else if input.frames < 0 then { closeCapture s with pc := .loop }
  else { s with pc := .sweeping }

def work (cfg : Config) (input : Input) (s : Worker) : Worker :=
  match s.pc with
  | .loop =>
      { s with pc := if s.isRunning then if s.pcm = none then .opening else .reading else .returned }
  | .opening =>
      let s := openCapture input s
      if s.pcm = none then
        { s with
          logs := if s.captureWasOpen then .unavailable :: s.logs else s.logs
          captureWasOpen := false
          pc := .waiting }
      else { s with logs := .capturing :: s.logs, captureWasOpen := true, pc := .reading }
  | .waiting => { s with server := pollClients cfg input.arrivals input.now s.server, pc := .loop }
  | .reading =>
      match s.pcm with
      | none => s
      | some pcm => readCapture input pcm s
  | .sweeping => { s with server := pollClients cfg input.arrivals input.now s.server, pc := .encoding }
  | .encoding =>
      match input.encoded with
      | none => { s with pc := .loop }
      | some payload => { s with pc := .sending payload }
  | .sending payload => { s with server := broadcast (some payload) s.server, pc := .loop }
  | .returned => s

inductive Action
  | worker (input : Input)
  | stop
  | join
  | destroy
  deriving DecidableEq, Repr

/-- One step of one of the two threads, none where it has to wait. -/
def step (cfg : Config) (s : Worker) : Action → Option Worker
  | .worker input => some (work cfg input s)
  | .stop => if s.owner = .serving then some { s with isRunning := false, owner := .joining } else none
  | .join => if s.owner = .joining ∧ s.pc = .returned then some { s with owner := .stopped } else none
  | .destroy => if s.owner = .stopped then some { closeCapture s with owner := .destroyed } else none

/-- The handle that is open after some calls, none when one was used that was not open or a second
one was opened. -/
def holding : List Call → Option (Option Nat)
  | [] => some none
  | .opened pcm :: calls => if holding calls = some none then some (some pcm) else none
  | .closed pcm :: calls => if holding calls = some (some pcm) then some none else none
  | .hwParams pcm :: calls | .readi pcm :: calls | .prepare pcm :: calls =>
      if holding calls = some (some pcm) then some (some pcm) else none

/-- Each complaint follows the message that the device was there. -/
def Complains : List Log → Prop
  | [] => True
  | .capturing :: logs => Complains logs
  | .unavailable :: logs => logs.head? = some .capturing ∧ Complains logs

structure Held (s : Worker) : Prop where
  calls : holding s.calls = some s.pcm
  reading : s.pc = .reading → s.pcm ≠ none
  opening : s.pc = .opening → s.pcm = none
  logs : Complains s.logs
  latest : s.captureWasOpen = true → s.logs.head? = some .capturing
  stopped : s.owner = .stopped ∨ s.owner = .destroyed → s.pc = .returned
  destroyed : s.owner = .destroyed → s.pcm = none

theorem held_launch : Held launch := by
  refine ⟨rfl, ?_, ?_, trivial, ?_, ?_, ?_⟩
  all_goals simp [launch]

theorem closeCapture_eq (s : Worker) :
    closeCapture s = { s with pcm := none, calls := (closeCapture s).calls } := by
  rw [closeCapture]
  split
  · rename_i hpcm
    rw [← hpcm]
  · rfl

theorem openCapture_eq (input : Input) (s : Worker) : openCapture input s =
    { s with
      pcm := (openCapture input s).pcm
      handedOut := (openCapture input s).handedOut
      calls := (openCapture input s).calls } := by
  rw [openCapture]
  split
  · rfl
  split
  · rfl
  · rfl

theorem holding_closeCapture {s : Worker} (h : holding s.calls = some s.pcm) :
    holding (closeCapture s).calls = some none := by
  rw [closeCapture]
  split
  · rename_i hpcm
    exact h.trans (congrArg some hpcm)
  · rename_i pcm hpcm
    rw [holding, h, hpcm, if_pos rfl]

namespace Held

variable {s : Worker}

theorem working (h : Held s) (hpc : s.pc ≠ .returned) : ¬ (s.owner = .stopped ∨ s.owner = .destroyed) :=
  fun howner => hpc (h.stopped howner)

theorem unavailable (h : Held s) (howner : ¬ (s.owner = .stopped ∨ s.owner = .destroyed)) {calls : List Call}
    (hcalls : holding calls = some none) (handedOut : Nat) :
    Held { s with
      pcm := none
      handedOut := handedOut
      calls := calls
      logs := if s.captureWasOpen then .unavailable :: s.logs else s.logs
      captureWasOpen := false
      pc := .waiting } := by
  refine ⟨hcalls, (by simp), (by simp), ?_, (by simp), fun hstopped => absurd hstopped howner, fun _ => rfl⟩
  dsimp only
  split
  · rename_i hwas
    exact ⟨h.latest hwas, h.logs⟩
  · exact h.logs

theorem opens (cfg : Config) (input : Input) (h : Held s) (hpc : s.pc = .opening) :
    Held (work cfg input s) := by
  have howner := h.working (by simp [hpc])
  have hnone : holding s.calls = some none := h.calls.trans (congrArg some (h.opening hpc))
  simp only [work, hpc, openCapture]
  by_cases herr : input.openErr < 0
  · simp only [if_pos herr, if_true]
    exact h.unavailable howner hnone s.handedOut
  by_cases hparams : input.paramsErr < 0
  · simp only [if_neg herr, if_pos hparams, if_true]
    exact h.unavailable howner (by simp [holding, hnone]) (s.handedOut + 1)
  · simp only [if_neg herr, if_neg hparams, reduceCtorEq, if_false]
    refine ⟨by simp [holding, hnone], fun _ => by simp, (by simp), h.logs, fun _ => rfl, ?_, ?_⟩
    · exact fun hstopped => absurd hstopped howner
    · exact fun hdestroyed => absurd (.inr hdestroyed) howner

theorem reads (input : Input) (h : Held s) (hpc : s.pc = .reading) {pcm : Nat} (hpcm : s.pcm = some pcm) :
    Held (readCapture input pcm s) := by
  have howner := h.working (by simp [hpc])
  have hread : holding (.readi pcm :: s.calls) = some s.pcm := by
    rw [holding, h.calls, hpcm, if_pos rfl]
  simp only [readCapture]
  split
  · refine ⟨?_, (by simp), (by simp), h.logs, h.latest, fun hstopped => absurd hstopped howner, h.destroyed⟩
    rw [holding, hread, hpcm, if_pos rfl]
  split
  · rw [closeCapture_eq]
    exact ⟨holding_closeCapture hread, (by simp), (by simp), h.logs, h.latest,
      fun hstopped => absurd hstopped howner,
      fun _ => rfl⟩
  · exact ⟨hread, (by simp), (by simp), h.logs, h.latest, fun hstopped => absurd hstopped howner, h.destroyed⟩

theorem elsewhere (h : Held s) (hpc : s.pc ≠ .returned) (server : Server) {pc : Pc}
    (hreading : pc = .reading → s.pcm ≠ none) (hopening : pc = .opening → s.pcm = none) :
    Held { s with server := server, pc := pc } :=
  ⟨h.calls, hreading, hopening, h.logs, h.latest, fun hstopped => absurd hstopped (h.working hpc), h.destroyed⟩

theorem work (cfg : Config) (input : Input) (h : Held s) : Held (work cfg input s) := by
  cases hpc : s.pc with
  | opening => exact h.opens cfg input hpc
  | reading =>
      rw [AudioWorker.work, hpc]
      cases hpcm : s.pcm with
      | none => exact absurd hpcm (h.reading hpc)
      | some pcm => exact h.reads input hpc hpcm
  | loop =>
      have hnot : s.pc ≠ .returned := by simp [hpc]
      rw [AudioWorker.work, hpc]
      refine h.elsewhere hnot s.server ?_ ?_
      · intro hreading
        split_ifs at hreading with hrun hpcm
        exact hpcm
      · intro hopening
        split_ifs at hopening with hrun hpcm
        exact hpcm
  | waiting | sweeping | sending payload =>
      rw [AudioWorker.work, hpc]
      exact h.elsewhere (by simp [hpc]) _ (by simp) (by simp)
  | encoding =>
      rw [AudioWorker.work, hpc]
      have hnot : s.pc ≠ .returned := by simp [hpc]
      cases input.encoded with
      | none => exact h.elsewhere hnot s.server (by simp) (by simp)
      | some payload => exact h.elsewhere hnot s.server (by simp) (by simp)
  | returned =>
      rw [AudioWorker.work, hpc]
      exact h

theorem step {cfg : Config} {act : Action} {s' : Worker} (h : Held s) (hs : step cfg s act = some s') :
    Held s' := by
  cases act with
  | worker input =>
      cases hs
      exact h.work cfg input
  | stop =>
      obtain ⟨howner, heq⟩ := Option.ite_none_right_eq_some.mp hs
      cases heq
      exact ⟨h.calls, h.reading, h.opening, h.logs, h.latest, by simp, by simp⟩
  | join =>
      obtain ⟨⟨howner, hpc⟩, heq⟩ := Option.ite_none_right_eq_some.mp hs
      cases heq
      exact ⟨h.calls, h.reading, h.opening, h.logs, h.latest, fun _ => hpc, (by simp)⟩
  | destroy =>
      obtain ⟨howner, heq⟩ := Option.ite_none_right_eq_some.mp hs
      cases heq
      have hpc := h.stopped (.inl howner)
      rw [closeCapture_eq]
      exact ⟨holding_closeCapture h.calls, fun hreading => absurd (hpc.symm.trans hreading) (by simp),
        fun _ => rfl,
        h.logs, h.latest, fun _ => hpc, fun _ => rfl⟩

end Held

def stepsLeft : Pc → Nat
  | .opening => 6
  | .reading => 5
  | .sweeping => 4
  | .encoding => 3
  | .waiting | .sending _ => 2
  | .loop => 1
  | .returned => 0

theorem readCapture_goesOn (input : Input) (pcm : Nat) (s : Worker) :
    (readCapture input pcm s).isRunning = s.isRunning ∧ stepsLeft (readCapture input pcm s).pc ≤ 4 := by
  simp only [readCapture]
  split
  · exact ⟨rfl, Nat.le_add_left 1 3⟩
  split
  · rw [closeCapture_eq]
    exact ⟨rfl, Nat.le_add_left 1 3⟩
  · exact ⟨rfl, Nat.le_refl 4⟩

theorem work_stopped (cfg : Config) (input : Input) {s : Worker} (h : Held s) (hrun : s.isRunning = false) :
    (work cfg input s).isRunning = false ∧ stepsLeft (work cfg input s).pc ≤ stepsLeft s.pc - 1 := by
  cases hpc : s.pc with
  | loop | waiting | sweeping | sending payload | returned => simp [work, hpc, hrun, stepsLeft]
  | encoding => cases hencoded : input.encoded <;> simp [work, hpc, hrun, hencoded, stepsLeft]
  | opening =>
      have hopen : (openCapture input s).isRunning = false := by
        rw [openCapture_eq]
        exact hrun
      simp only [work, hpc]
      split
      · exact ⟨hopen, Nat.le_add_left 2 3⟩
      · exact ⟨hopen, Nat.le_refl 5⟩
  | reading =>
      cases hpcm : s.pcm with
      | none => exact absurd hpcm (h.reading hpc)
      | some pcm =>
          simp only [work, hpc, hpcm]
          obtain ⟨hread, hleft⟩ := readCapture_goesOn input pcm s
          exact ⟨hread.trans hrun, hleft⟩

def isWorker : Action → Bool
  | .worker _ => true
  | .stop | .join | .destroy => false

theorem stepsLeft_le (pc : Pc) : stepsLeft pc ≤ 6 := by
  cases pc <;> simp [stepsLeft]

/-- Once stopped, the worker uses up its steps, whatever the owner does meanwhile. -/
theorem stepsLeft_of_stopped {cfg : Config} {s s' : Worker} {acts : List Action} (h : Held s)
    (hrun : s.isRunning = false) (hacts : Run (step cfg) (fun _ _ => True) s acts s') :
    Held s' ∧ s'.isRunning = false ∧ stepsLeft s'.pc ≤ stepsLeft s.pc - acts.countP isWorker := by
  induction hacts with
  | start => exact ⟨h, hrun, Nat.le_refl _⟩
  | @next acts s₁ act s₂ _ _ hs ih =>
      obtain ⟨hheld, hrun₁, hleft⟩ := ih
      refine ⟨hheld.step hs, ?_⟩
      rw [List.countP_append, List.countP_singleton]
      cases act with
      | worker input =>
          cases hs
          obtain ⟨hrun₂, hless⟩ := work_stopped cfg input hheld hrun₁
          refine ⟨hrun₂, ?_⟩
          rw [if_pos (show isWorker (.worker input) = true from rfl)]
          omega
      | stop =>
          obtain ⟨-, heq⟩ := Option.ite_none_right_eq_some.mp hs
          cases heq
          exact ⟨rfl, hleft⟩
      | join =>
          obtain ⟨-, heq⟩ := Option.ite_none_right_eq_some.mp hs
          cases heq
          exact ⟨hrun₁, hleft⟩
      | destroy =>
          obtain ⟨-, heq⟩ := Option.ite_none_right_eq_some.mp hs
          cases heq
          rw [closeCapture_eq]
          exact ⟨hrun₁, hleft⟩

/-- The capture device is held and given back. In every run of the two threads, at most one handle is
open at a time, each call is on the open one, and the log complains of a missing device only right after a
message that the device was there; the destructor is through only when the worker has returned, and leaves no handle open; and
six steps of the worker after the stop are enough for it to return. -/
theorem capture_given_back (cfg : Config) (acts : List Action) (s : Worker)
    (h : Run (step cfg) (fun _ _ => True) launch acts s) :
    holding s.calls = some s.pcm ∧ Complains s.logs ∧
      (s.owner = .destroyed → s.pc = .returned ∧ holding s.calls = some none) ∧
      ∀ acts' s', s.isRunning = false → Run (step cfg) (fun _ _ => True) s acts' s' →
        6 ≤ acts'.countP isWorker → s'.pc = .returned := by
  have hheld : Held s := h.invariant Held held_launch fun _ _ _ hk _ hs => hk.step hs
  refine ⟨hheld.calls, hheld.logs, ?_, ?_⟩
  · intro hdestroyed
    exact ⟨hheld.stopped (.inr hdestroyed), hheld.calls.trans (congrArg some (hheld.destroyed hdestroyed))⟩
  · intro acts' s' hrun hacts hmany
    obtain ⟨-, -, hleft⟩ := stepsLeft_of_stopped hheld hrun hacts
    have hbound := stepsLeft_le s.pc
    have hzero : stepsLeft s'.pc = 0 := by omega
    cases hpc : s'.pc with
    | returned => rfl
    | _ =>
        rw [hpc] at hzero
        cases hzero

def answers : Input :=
  { openErr := 0, paramsErr := 0, frames := 160, encoded := some [7], arrivals := [], now := 0 }

def lostDevice : List Action :=
  [.worker answers, .worker { answers with openErr := -2 }, .worker answers, .worker answers, .worker answers,
    .worker { answers with frames := -32 }, .worker answers, .worker answers, .worker answers, .worker answers,
    .worker answers, .worker answers, .worker { answers with frames := -19 }, .stop, .worker answers, .join,
      .destroy]

theorem lostDevice_given_back :
    ∃ s, Run (step ⟨10000⟩) (fun _ _ => True) launch lostDevice s ∧ s.owner = .destroyed ∧
      s.calls.reverse = [.opened 0, .hwParams 0, .readi 0, .prepare 0, .readi 0, .readi 0, .closed 0] ∧
      holding s.calls = some none := by
  obtain ⟨s, hrun, hview⟩ := run_of_exec_map (step ⟨10000⟩) (fun _ _ => True) launch lostDevice
    (fun s => (s.owner, s.calls.reverse))
    (.destroyed, [.opened 0, .hwParams 0, .readi 0, .prepare 0, .readi 0, .readi 0, .closed 0])
      (by decide +kernel)
  obtain ⟨howner, hcalls⟩ := Prod.mk.inj hview
  exact ⟨s, hrun, howner, hcalls, ((capture_given_back ⟨10000⟩ lostDevice s hrun).2.2.1 howner).2⟩

/-- A frame that the encoder put out, and what had been heard from subscribers by then. -/
structure Turn where
  past : Past
  payload : List UInt8
  deriving DecidableEq, Repr

structure Heard where
  past : Past
  turns : List Turn
  deriving DecidableEq, Repr

def noteHeard (s : Worker) (act : Action) (g : Heard) : Heard :=
  match act with
  | .worker input =>
      match s.pc with
      | .waiting | .sweeping => { g with past := notePast s.server (.poll input.arrivals input.now) g.past }
      | .encoding =>
          match input.encoded with
          | none => g
          | some payload => { g with turns := g.turns ++ [⟨g.past, payload⟩] }
      | _ => g
  | .stop | .join | .destroy => g

def InTime (w : Worker × Heard) : Action → Prop
  | .worker input => w.1.pc = .waiting ∨ w.1.pc = .sweeping →
      SweepsInTime (w.1.server, w.2.past) (.poll input.arrivals input.now)
  | .stop | .join | .destroy => True

instance (w : Worker × Heard) (act : Action) : Decidable (InTime w act) :=
  match act with
  | .worker _ => inferInstanceAs (Decidable (_ → _))
  | .stop | .join | .destroy => inferInstanceAs (Decidable True)

def Served (cfg : Config) (turn : Turn) : Prop :=
  turn.payload ≠ [] ∧ headerBytes + turn.payload.length ≤ maxPacket ∧ ∃ d ∈ turn.past.heard,
    Live cfg turn.past d.sender

instance (cfg : Config) (turn : Turn) : Decidable (Served cfg turn) := inferInstanceAs (Decidable (_ ∧ _ ∧ _))

/-- Broadcast number n carries the frame of a turn, once to each sender live at its sweep. -/
structure Delivered (cfg : Config) (turn : Turn) (n : Nat) (sends : List (Address × List UInt8)) : Prop where
  packet : ∀ d ∈ sends, d.2 = putBe32 (UInt32.ofNat n) ++ turn.payload
  once : ∀ a, (sends.map Prod.fst).count a = if Live cfg turn.past a then 1 else 0

/-- The broadcasts are those of the turns that are served, one for each, in their order. -/
def Delivers (cfg : Config) (turns : List Turn) (sent : List (List (Address × List UInt8))) : Prop :=
  List.Forall₂ (fun numbered sends => Delivered cfg numbered.1 numbered.2 sends)
    (turns.filter fun turn => decide (Served cfg turn)).zipIdx sent

theorem Delivers.snoc {cfg : Config} {turns : List Turn} {sent : List (List (Address × List UInt8))}
    {turn : Turn} (h : Delivers cfg turns sent) (hserved : Served cfg turn)
    {sends : List (Address × List UInt8)} (hsends : Delivered cfg turn sent.length sends) :
    Delivers cfg (turns ++ [turn]) (sent ++ [sends]) := by
  have hlen := h.length_eq
  rw [List.length_zipIdx] at hlen
  have hlast : [turn].filter (fun turn => decide (Served cfg turn)) = [turn] :=
    List.filter_cons_of_pos (p := fun turn => decide (Served cfg turn)) (decide_eq_true hserved)
  rw [Delivers, List.filter_append, hlast, List.zipIdx_append]
  refine List.rel_append h (.cons ?_ .nil)
  rw [Nat.zero_add, hlen]
  exact hsends

theorem Delivers.skip {cfg : Config} {turns : List Turn} {sent : List (List (Address × List UInt8))}
    {turn : Turn} (h : Delivers cfg turns sent) (hnot : ¬ Served cfg turn) :
    Delivers cfg (turns ++ [turn]) sent := by
  rw [Delivers, List.filter_append, List.filter_cons_of_neg (by simpa using hnot), List.filter_nil,
    List.append_nil]
  exact h

theorem audience_iff {cfg : Config} {s : Server} {past : Past} (h : Inv cfg s past)
    (hpos : 0 < cfg.clientTimeoutMs) :
    (∃ d ∈ past.heard, Live cfg past d.sender) ↔ s.clients ≠ [] := by
  constructor
  · rintro ⟨d, -, hlive⟩ hnil
    have hmem := (h.live_iff hpos d.sender).mp hlive
    rw [hnil] at hmem
    cases hmem
  · intro hne
    obtain ⟨entry, clients, hclients⟩ := List.exists_cons_of_ne_nil hne
    have hmem : entry.2.addr ∈ s.clients.map (·.2.addr) := by simp [hclients]
    have hlive := (h.live_iff hpos _).mpr hmem
    have hheard := hlive
    obtain ⟨t, ht, -⟩ := hheard
    obtain ⟨d, hd, -⟩ := Option.map_eq_some_iff.mp ht
    have hsender : d.sender = entry.2.addr := by simpa using List.find?_some hd
    exact ⟨d, List.mem_of_find?_eq_some hd, by rw [hsender]; exact hlive⟩

theorem broadcast_served {cfg : Config} {s : Server} {past : Past} (h : Inv cfg s past)
    (hpos : 0 < cfg.clientTimeoutMs) {payload : List UInt8} (hserved : Served cfg ⟨past, payload⟩) :
    broadcast (some payload) s =
      { s with
        sequence := s.sequence + 1
        sent := s.clients.map (fun entry => (entry.2.addr, putBe32 s.sequence ++ payload)) :: s.sent } := by
  obtain ⟨hne, hfits, haudience⟩ := hserved
  have hclients := (audience_iff h hpos).mp haudience
  have hsome : ¬ (s.clients.isEmpty || payload.length == 0) = true := by simp [hclients, hne]
  rw [broadcast, if_neg hsome, if_neg (Nat.not_lt.mpr hfits)]

theorem broadcast_unserved {cfg : Config} {s : Server} {past : Past} (h : Inv cfg s past)
    (hpos : 0 < cfg.clientTimeoutMs) {payload : List UInt8} (hnot : ¬ Served cfg ⟨past, payload⟩) :
    broadcast (some payload) s = s := by
  rw [broadcast]
  split
  · rfl
  split
  · rfl
  · rename_i hsome hfits
    simp only [Bool.or_eq_true, List.isEmpty_iff, beq_iff_eq, List.length_eq_zero_iff, not_or] at hsome
    exact absurd ⟨hsome.2, Nat.not_lt.mp hfits, (audience_iff h hpos).mpr hsome.1⟩ hnot

/-- The turn whose frame is still to be sent. -/
def underWay (s : Worker) (past : Past) : List Turn :=
  match s.pc with
  | .sending payload => [⟨past, payload⟩]
  | _ => []

structure Fanned (cfg : Config) (w : Worker × Heard) : Prop where
  inv : Inv cfg w.1.server w.2.past
  delivers : ∃ turns, w.2.turns = turns ++ underWay w.1 w.2.past ∧ Delivers cfg turns w.1.server.sent.reverse

namespace Fanned

variable {cfg : Config} {s s' : Worker} {g : Heard}

theorem unheard (h : Fanned cfg (s, g)) (hserver : s'.server = s.server) (hbefore : underWay s g.past = [])
    (hafter : underWay s' g.past = []) : Fanned cfg (s', g) := by
  obtain ⟨turns, hturns, hdelivers⟩ := h.delivers
  refine ⟨?_, turns, ?_, ?_⟩
  · rw [hserver]
    exact h.inv
  · rw [hafter]
    rwa [hbefore] at hturns
  · rw [hserver]
    exact hdelivers

theorem sweeps (h : Fanned cfg (s, g)) (hpos : 0 < cfg.clientTimeoutMs) {arrivals : List Arrival} {now : Nat}
    (hok : SweepsInTime (s.server, g.past) (.poll arrivals now)) (hbefore : underWay s g.past = []) (pc : Pc)
    (hafter : ∀ payload, pc ≠ .sending payload) :
    Fanned cfg ({ s with server := pollClients cfg arrivals now s.server, pc := pc },
      { g with past := notePast s.server (.poll arrivals now) g.past }) := by
  obtain ⟨-, hpos', hsmall⟩ := toInt_timeout hpos
  obtain ⟨turns, hturns, hdelivers⟩ := h.delivers
  refine ⟨inv_poll h.inv hpos' hsmall hok, turns, ?_, hdelivers⟩
  rw [hbefore] at hturns
  rw [hturns, underWay]
  cases pc with
  | sending payload => exact absurd rfl (hafter payload)
  | _ => rfl

theorem sends (h : Fanned cfg (s, g)) (hpos : 0 < cfg.clientTimeoutMs) {payload : List UInt8}
    (hpc : s.pc = .sending payload) :
    Fanned cfg ({ s with server := broadcast (some payload) s.server, pc := .loop }, g) := by
  obtain ⟨turns, hturns, hdelivers⟩ := h.delivers
  rw [underWay, hpc] at hturns
  refine ⟨inv_broadcast (some payload) h.inv, g.turns, (List.append_nil _).symm, ?_⟩
  rw [hturns]
  dsimp only
  by_cases hserved : Served cfg ⟨g.past, payload⟩
  · rw [broadcast_served h.inv hpos hserved, List.reverse_cons]
    refine hdelivers.snoc hserved ⟨?_, ?_⟩
    · intro d hd
      obtain ⟨entry, -, rfl⟩ := List.mem_map.mp hd
      rw [h.inv.sequence, List.length_reverse]
    · intro a
      rw [List.map_map]
      split
      · rename_i hlive
        exact List.count_eq_one_of_mem h.inv.table.addresses_nodup ((h.inv.live_iff hpos a).mp hlive)
      · rename_i hdead
        exact List.count_eq_zero_of_not_mem fun ha => hdead ((h.inv.live_iff hpos a).mpr ha)
  · rw [broadcast_unserved h.inv hpos hserved]
    exact hdelivers.skip hserved

theorem work (h : Fanned cfg (s, g)) (hpos : 0 < cfg.clientTimeoutMs) (hheld : Held s) (input : Input)
    (hok : InTime (s, g) (.worker input)) : Fanned cfg (work cfg input s, noteHeard s (.worker input) g) := by
  cases hpc : s.pc with
  | loop =>
      simp only [AudioWorker.work, noteHeard, hpc]
      refine h.unheard rfl (by simp [underWay, hpc]) ?_
      rw [underWay]
      dsimp only
      split_ifs <;> rfl
  | opening =>
      have hserver : (openCapture input s).server = s.server := by rw [openCapture_eq]
      simp only [AudioWorker.work, noteHeard, hpc]
      split
      · exact h.unheard hserver (by simp [underWay, hpc]) rfl
      · exact h.unheard hserver (by simp [underWay, hpc]) rfl
  | reading =>
      simp only [AudioWorker.work, noteHeard, hpc]
      cases hpcm : s.pcm with
      | none => exact absurd hpcm (hheld.reading hpc)
      | some pcm =>
          simp only [readCapture]
          split
          · exact h.unheard rfl (by simp [underWay, hpc]) rfl
          split
          · rw [closeCapture_eq]
            exact h.unheard rfl (by simp [underWay, hpc]) rfl
          · exact h.unheard rfl (by simp [underWay, hpc]) rfl
  | waiting =>
      simp only [AudioWorker.work, noteHeard, hpc]
      exact h.sweeps hpos (hok (.inl hpc)) (by simp [underWay, hpc]) .loop (by simp)
  | sweeping =>
      simp only [AudioWorker.work, noteHeard, hpc]
      exact h.sweeps hpos (hok (.inr hpc)) (by simp [underWay, hpc]) .encoding (by simp)
  | encoding =>
      simp only [AudioWorker.work, noteHeard, hpc]
      cases input.encoded with
      | none => exact h.unheard rfl (by simp [underWay, hpc]) rfl
      | some payload =>
          obtain ⟨turns, hturns, hdelivers⟩ := h.delivers
          have hall : g.turns = turns := by simpa [underWay, hpc] using hturns
          exact ⟨h.inv, turns, by rw [hall]; rfl, hdelivers⟩
  | sending payload =>
      simp only [AudioWorker.work, noteHeard, hpc]
      exact h.sends hpos hpc
  | returned =>
      simp only [AudioWorker.work, noteHeard, hpc]
      exact h

theorem step {act : Action} (h : Fanned cfg (s, g)) (hpos : 0 < cfg.clientTimeoutMs) (hheld : Held s)
    (hok : InTime (s, g) act) (hs : step cfg s act = some s') : Fanned cfg (s', noteHeard s act g) := by
  cases act with
  | worker input =>
      cases hs
      exact h.work hpos hheld input hok
  | stop | join =>
      obtain ⟨-, heq⟩ := Option.ite_none_right_eq_some.mp hs
      cases heq
      exact ⟨h.inv, h.delivers⟩
  | destroy =>
      obtain ⟨-, heq⟩ := Option.ite_none_right_eq_some.mp hs
      cases heq
      rw [closeCapture_eq]
      exact ⟨h.inv, h.delivers⟩

end Fanned

/-- Every frame that the encoder puts out reaches those who are there for it. In every run of the two
threads whose sweeps are in time, the broadcasts are, in their order and numbered one after the other,
the frames that fit into a packet and find someone live at the sweep of their own turn, and each is
sent once to each address live then and to no other; the last frame may still be on its way. -/
theorem frames_fanned_out (cfg : Config) (hpos : 0 < cfg.clientTimeoutMs) (acts : List Action) (s : Worker)
    (g : Heard)
    (h : Run (observed (step cfg) noteHeard) InTime (launch, ⟨⟨[], 0⟩, []⟩) acts (s, g)) :
    ∃ turns, g.turns = turns ++ underWay s g.past ∧ Delivers cfg turns s.server.sent.reverse := by
  have hstart : Fanned cfg (launch, ⟨⟨[], 0⟩, []⟩) := ⟨inv_start cfg, [], rfl, .nil⟩
  have hinv := h.invariant (fun w => Held w.1 ∧ Fanned cfg w) ⟨held_launch, hstart⟩ ?_
  · exact hinv.2.delivers
  · rintro ⟨s, g⟩ act ⟨s', g'⟩ ⟨hheld, hfanned⟩ hok hstep
    obtain ⟨hs, hg⟩ := observed_eq_some.mp hstep
    dsimp only at hs hg
    subst hg
    exact ⟨hheld.step hs, hfanned.step hpos hheld hok hs⟩

def twoFrames : List Action :=
  [.worker answers, .worker answers, .worker answers,
    .worker { answers with arrivals := [⟨⟨1, 2⟩, 10⟩], now := 20 },
    .worker answers, .worker answers, .worker answers, .worker answers, .worker { answers with now := 20000 },
    .worker answers, .worker answers]

theorem twoFrames_fanned :
    ∃ s g, Run (observed (step ⟨10000⟩) noteHeard) InTime (launch, ⟨⟨[], 0⟩, []⟩) twoFrames (s, g) ∧
      g.turns.length = 2 ∧ s.server.sent.reverse.map (·.map Prod.fst) = [[⟨1, 2⟩]] ∧
      Delivers ⟨10000⟩ g.turns s.server.sent.reverse := by
  obtain ⟨⟨s, g⟩, hrun, hview⟩ := run_of_exec_map (observed (step ⟨10000⟩) noteHeard) InTime
    (launch, ⟨⟨[], 0⟩, []⟩) twoFrames
    (fun w => (w.1.pc, w.2.turns.length, w.1.server.sent.reverse.map (·.map Prod.fst)))
    (.loop, 2, [[⟨1, 2⟩]]) (by decide +kernel)
  simp only [Prod.mk.injEq] at hview
  obtain ⟨hpc, htwo, hsent⟩ := hview
  obtain ⟨turns, hturns, hdelivers⟩ := frames_fanned_out ⟨10000⟩ (by decide) twoFrames s g hrun
  rw [underWay, hpc, List.append_nil] at hturns
  exact ⟨s, g, hrun, htwo, hsent, hturns ▸ hdelivers⟩

end Cwsd.AudioWorker
