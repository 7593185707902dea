import Cwsd.TuneDeadline

namespace Cwsd.Deadlines

open KeyerState KeyerMachine KeyerPass CwDaemon Stoi UdpServer CwdaemonServer WinkeyerData WinkeyerFeed KeyLine
open KeyRelease ServiceSteps Runs Wraparound TuneDeadline

/-- A call of update at a real time, or what is left of the call that entered the element: the bytes
that come in before it, and its passes, the first of which reads the time modulo 2 ^ 32. -/
structure Tick where
  bytes : List UInt8
  time : Nat
  first : Answers
  others : List Answers

def Tick.passes (t : Tick) : List Answers := { t.first with nowMs := UInt32.ofNat t.time } :: t.others

section

variable {F : Type} [SinglePrecision F]

def Tick.run (k : Keyer F) (t : Tick) : Keyer F := updateLoop t.passes (feedBytes t.bytes k)

theorem update_eq_run (bytes : List UInt8) (time : Nat) (hardware : Fin maxTransitionsPerTick → Answers)
    (htime : (hardware ⟨0, by decide⟩).nowMs = UInt32.ofNat time) (k : Keyer F) :
    update hardware (feedBytes bytes k) =
      Tick.run k ⟨bytes, time, hardware ⟨0, by decide⟩, List.ofFn fun i : Fin 15 => hardware i.succ⟩ := by
  rw [Tick.run, Tick.passes, ← htime]
  exact congrArg (fun passes => updateLoop passes (feedBytes bytes k)) (List.ofFn_succ (f := hardware))

def elementsEnded (k : Keyer F) : Nat := (line k).calls.count (.keyUp .element)

theorem count_keys (c : UInt8) (p : FrameParser) : (p.keys c).count (.keyUp .element) = 0 := by
  rw [List.count_eq_zero, FrameParser.keys]
  split
  · rw [FrameParser.execute]
    split
    · split <;> simp
    · simp
  · simp

theorem elementsEnded_winkeyerData (c : UInt8) (k : Keyer F) :
    elementsEnded (winkeyerData c k) = elementsEnded k := by
  rw [elementsEnded, line_winkeyerData, List.count_append, count_keys, Nat.zero_add]
  rfl

theorem elementsEnded_pass (a : Answers) (k : Keyer F) : elementsEnded k ≤ elementsEnded (updatePass a k) := by
  rw [elementsEnded, elementsEnded]
  rcases line_pass a k with heq | ⟨st, next, -, -, heq⟩
  · rw [heq]
  · rw [heq, List.count_append]
    exact Nat.le_add_left _ _

theorem elementsEnded_loop (passes : List Answers) (k : Keyer F) :
    elementsEnded k ≤ elementsEnded (updateLoop passes k) :=
  updateLoop_invariant (fun k' => elementsEnded k ≤ elementsEnded k') passes
    (fun a _ k' hk' => hk'.trans (elementsEnded_pass a k')) (Nat.le_refl _)

theorem elementsEnded_bytes (bytes : List UInt8) (k : Keyer F) :
    elementsEnded (feedBytes bytes k) = elementsEnded k := by
  induction bytes generalizing k with
  | nil => rfl
  | cons c bytes ih => exact (ih (winkeyerData c k)).trans (elementsEnded_winkeyerData c k)

theorem elementsEnded_run (k : Keyer F) (ticks : List Tick) :
    elementsEnded k ≤ elementsEnded (ticks.foldl Tick.run k) := by
  induction ticks generalizing k with
  | nil => exact Nat.le_refl _
  | cons t ticks ih =>
      have hbytes := elementsEnded_bytes t.bytes k
      have hloop := elementsEnded_loop t.passes (feedBytes t.bytes k)
      rw [hbytes] at hloop
      exact hloop.trans (ih (t.run k))

/-- An element is being sent, it ends at deadline, and ended others have ended. -/
structure InElement (deadline : UInt32) (ended : Nat) (k : Keyer F) : Prop where
  state : k.currentState = some .sendElement
  deadline : k.sendTimeToExitState = deadline
  ended : elementsEnded k = ended

theorem winkeyerData_deadline (c : UInt8) (k : Keyer F) :
    (winkeyerData c k).sendTimeToExitState = k.sendTimeToExitState :=
  winkeyerData_frame Keyer.sendTimeToExitState (fun _ _ _ _ _ _ => rfl) (fun _ _ _ _ => rfl) (fun _ _ _ => rfl) c k

variable {deadline : UInt32} {ended : Nat} {k : Keyer F}

theorem InElement.bytes (h : InElement deadline ended k) (bytes : List UInt8) :
    InElement deadline ended (feedBytes bytes k) := by
  induction bytes generalizing k with
  | nil => exact h
  | cons c bytes ih =>
      refine ih ⟨?_, (winkeyerData_deadline c k).trans h.deadline,
        (elementsEnded_winkeyerData c k).trans h.ended⟩
      exact (congrArg Line.state (line_winkeyerData c k)).trans h.state

omit [SinglePrecision F] in
theorem updateSendElement_next (a : Answers) (k : Keyer F) :
    (updateSendElement a k).1 =
      if k.sendTimeToExitState ≤ a.nowMs then .interElementSpace else .sendElement := by
  simp only [updateSendElement]
  split
  · rw [KeyerFrame.checkOppositePaddle_eq]
  · rfl

omit [SinglePrecision F] in
theorem updateSendElement_deadline (a : Answers) (k : Keyer F) :
    (updateSendElement a k).2.sendTimeToExitState = k.sendTimeToExitState := by
  simp only [updateSendElement]
  split
  · rw [KeyerFrame.checkOppositePaddle_eq]
  · rfl

theorem InElement.stays (h : InElement deadline ended k) {a : Answers} (hearly : ¬ deadline ≤ a.nowMs)
    (others : List Answers) : InElement deadline ended (updateLoop (a :: others) k) := by
  have hnext : (stateUpdate a .sendElement k).1 = .sendElement := by
    rw [stateUpdate, updateSendElement_next, h.deadline, if_neg hearly]
  have hline := line_stateUpdate a .sendElement k
  have hloop : updateLoop (a :: others) k = (stateUpdate a .sendElement k).2 := by
    simp only [updateLoop, h.state, hnext, if_true]
  rw [hloop]
  refine ⟨(congrArg Line.state hline).trans h.state, (updateSendElement_deadline a k).trans h.deadline, ?_⟩
  rw [elementsEnded, hline]
  exact h.ended

theorem InElement.leaves (h : InElement deadline ended k) {a : Answers} (hdue : deadline ≤ a.nowMs)
    (others : List Answers) : ended < elementsEnded (updateLoop (a :: others) k) := by
  have hnext : (stateUpdate a .sendElement k).1 = .interElementSpace := by
    rw [stateUpdate, updateSendElement_next, h.deadline, if_pos hdue]
  have hline := line_stateUpdate a .sendElement k
  have hloop : updateLoop (a :: others) k =
      updateLoop others (switchTo a .interElementSpace (stateUpdate a .sendElement k).2) := by
    simp only [updateLoop, h.state, hnext, reduceCtorEq, if_false]
  have hended : elementsEnded (switchTo a .interElementSpace (stateUpdate a .sendElement k).2) = ended + 1 := by
    rw [elementsEnded, line_switchTo a ((congrArg Line.state hline).trans h.state) (by decide), hline,
      List.count_append,
      ← h.ended, Nat.add_comm]
    rfl
  rw [hloop]
  exact Nat.lt_of_lt_of_le (by rw [hended]; exact Nat.lt_succ_self ended) (elementsEnded_loop others _)

theorem InElement.ended_iff (h : InElement deadline ended k) (ticks : List Tick) :
    ended < elementsEnded (ticks.foldl Tick.run k) ↔ ∃ τ ∈ ticks.map Tick.time, deadline ≤ UInt32.ofNat τ := by
  induction ticks generalizing k with
  | nil => simp [h.ended]
  | cons t ticks ih =>
      rw [List.map_cons, List.foldl_cons]
      by_cases hdue : deadline ≤ UInt32.ofNat t.time
      · have hleft : ended < elementsEnded (t.run k) := (h.bytes t.bytes).leaves hdue t.others
        exact iff_of_true (Nat.lt_of_lt_of_le hleft (elementsEnded_run (t.run k) ticks))
          ⟨_, List.mem_cons_self, hdue⟩
      · have hin : InElement deadline ended (t.run k) := (h.bytes t.bytes).stays hdue t.others
        rw [ih hin]
        simp only [List.mem_cons, exists_eq_or_imp, hdue, false_or]

theorem enterSendElement_deadline (a : Answers) (k : Keyer F) :
    (enterSendElement a k).sendTimeToExitState = a.enterMs + weightedElementLengthMs k k.sentElement := by
  simp only [enterSendElement]
  split <;> rfl

theorem inElement_switchTo (a : Answers) {st : StateType} (hst : k.currentState = some st)
    (hne : st ≠ .sendElement) :
    InElement (a.enterMs + weightedElementLengthMs k k.sentElement) (elementsEnded k)
      (switchTo a .sendElement k) := by
  have hline := line_switchTo a hst hne.symm
  refine ⟨congrArg Line.state hline, ?_, ?_⟩
  · have hexit : exit a st k = k := by
      cases st with
      | sendElement => exact absurd rfl hne
      | _ => rfl
    rw [KeyerFrame.switchTo_eq hst hne.symm, hexit]
    exact enterSendElement_deadline a _
  · have hcalls : (transitionCalls st .sendElement).count (.keyUp .element) = 0 := by
      simp [transitionCalls, hne]
    rw [elementsEnded, hline, List.count_append, hcalls, Nat.zero_add]
    rfl

/-- After every number of ticks, the element has ended exactly when one of them came at the real
time d or later. -/
def ElementTimely (d : Nat) (k : Keyer F) (ticks : List Tick) : Prop :=
  ∀ n, elementsEnded k < elementsEnded ((ticks.take n).foldl Tick.run k) ↔
    ∃ τ ∈ (ticks.take n).map Tick.time, d ≤ τ

theorem elementTimely_iff (a : Answers) {st : StateType} (hst : k.currentState = some st)
    (hne : st ≠ .sendElement) {t : Nat} (ht : a.enterMs = UInt32.ofNat t)
    (hlength : (weightedElementLengthMs k k.sentElement).toNat < 2 ^ 31) {d : Nat}
    (hd : d = t + (weightedElementLengthMs k k.sentElement).toNat) {ticks : List Tick}
    (htimes : (t :: ticks.map Tick.time).Pairwise (· ≤ ·)) :
    ElementTimely d (switchTo a .sendElement k) ticks ↔
      (∀ τ ∈ ticks.map Tick.time, τ < d → τ / 2 ^ 32 = d / 2 ^ 32) ∧
        ∀ τ ∈ (ticks.map Tick.time).find? (d ≤ ·), d % 2 ^ 32 ≤ τ % 2 ^ 32 := by
  obtain ⟨hfrom, hsorted⟩ := List.pairwise_cons.mp htimes
  have hin := inElement_switchTo a hst hne
  have hread (τ : Nat) : a.enterMs + weightedElementLengthMs k k.sentElement ≤ UInt32.ofNat τ ↔
      d % 2 ^ 32 ≤ τ % 2 ^ 32 := by
    rw [UInt32.le_iff_toNat_le, ht, toNat_ofNat_add, UInt32.toNat_ofNat', hd]
  have htimely : ElementTimely d (switchTo a .sendElement k) ticks ↔
      Timely (d ≤ ·) (fun τ => d % 2 ^ 32 ≤ τ % 2 ^ 32) (ticks.map Tick.time) := by
    refine forall_congr' fun n => ?_
    rw [hin.ended, hin.ended_iff, List.map_take]
    simp only [hread]
  rw [htimely, timely_iff (fun hdue hle => hdue.trans hle) hsorted]
  refine and_congr_left' (forall₂_congr fun τ hτ => ?_)
  rw [Nat.not_le]
  refine forall_congr' fun hlt => ?_
  rw [Nat.not_le]
  exact mod_lt_iff_same_period hlt (by have := hfrom τ hτ; omega)

/-- The tune that a datagram starts, for any number of seconds n that it brings: the code keeps n
modulo 256 and the deadline modulo 2 ^ 32. -/
theorem tuneTimely_of_datagram {char : CharType} {s s₀ s' : Service F} (hserving : Serving (fun _ _ => True) s)
    (hpc : s.client = .receiving) {payload text : List UInt8} {n : Int}
    (hm : receive (some payload) = some (esc :: 'c'.toUInt8 :: text)) (hn : stoi text = .ok n) {t : Nat}
    (hs : step char s (.client ⟨some payload, UInt32.ofNat t⟩) = some s₀) (d : Int) {moments : List Moment}
    (hleaves : ∀ m ∈ moments, m.LeavesTune) {polls : List Nat}
    (hrun : moments.foldlM (watch char) (s₀, []) = some (s', polls)) (hsorted : polls.Pairwise (· ≤ ·)) :
    TuneTimely char d s₀ moments ↔
      (∀ τ ∈ polls, (τ : Int) ≤ d → (τ : Int) % 2 ^ 32 ≤ (t + 1000 * (n % 256)) % 2 ^ 32) ∧
        ∀ τ ∈ polls.find? (fun τ : Nat => d < (τ : Int)), (t + 1000 * (n % 256)) % 2 ^ 32 < (τ : Int) % 2 ^ 32 :=
  tuneTimely_iff (serving_next hserving hs) (tuning_of_datagram hserving hpc hm hn hs) (toNat_deadline t n) hleaves
    hrun hsorted

theorem polls_in_period {t : Nat} {n : Int} (hn : 0 ≤ n ∧ n ≤ 255) {polls : List Nat} (hfrom : ∀ τ ∈ polls, t ≤ τ) :
    (∀ τ ∈ polls, (τ : Int) ≤ t + 1000 * n → (τ : Int) % 2 ^ 32 ≤ (t + 1000 * n) % 2 ^ 32) ↔
      ∀ τ ∈ polls, (τ : Int) ≤ t + 1000 * n → (τ : Int) / 2 ^ 32 = (t + 1000 * n) / 2 ^ 32 := by
  obtain ⟨seconds, rfl⟩ := Int.eq_ofNat_of_zero_le hn.1
  refine forall₂_congr fun τ hτ => forall_congr' fun hle => ?_
  have hfrom := hfrom τ hτ
  norm_cast at hle ⊢
  exact mod_le_iff_same_period hle (by omega)

/-- The deadlines across the wrap of the clock. An element ends at the first tick from its deadline
on and not before exactly when the ticks before the deadline read the clock in the period of the
deadline and the first one after it reads a clock that is not below it, and the same of the polls
that follow a tune of up to 255 seconds. A tune of any other length is ended in time only where the
polls happen to part at the deadline of the length modulo 256. -/
theorem deadlines_met_iff (char : CharType) :
    (∀ (a : Answers) (k : Keyer F) (st : StateType) (t d : Nat) (ticks : List Tick),
      k.currentState = some st → st ≠ .sendElement → a.enterMs = UInt32.ofNat t →
      (weightedElementLengthMs k k.sentElement).toNat < 2 ^ 31 →
      d = t + (weightedElementLengthMs k k.sentElement).toNat →
      (t :: ticks.map Tick.time).Pairwise (· ≤ ·) →
      (ElementTimely d (switchTo a .sendElement k) ticks ↔
        (∀ τ ∈ ticks.map Tick.time, τ < d → τ / 2 ^ 32 = d / 2 ^ 32) ∧
          ∀ τ ∈ (ticks.map Tick.time).find? (d ≤ ·), d % 2 ^ 32 ≤ τ % 2 ^ 32)) ∧
    (∀ (a : Readings) (initialWpm : UInt8) (acts : List KeyRelease.Action) (s s₀ s' : Service F)
      (payload text : List UInt8) (n d : Int) (t : Nat) (moments : List Moment) (polls : List Nat),
      Run (step char) (fun _ _ => True) (start a initialWpm) acts s → s.client = .receiving →
      receive (some payload) = some (esc :: 'c'.toUInt8 :: text) → stoi text = .ok n →
      step char s (.client ⟨some payload, UInt32.ofNat t⟩) = some s₀ → d = t + 1000 * n →
      (∀ m ∈ moments, m.LeavesTune) → moments.foldlM (watch char) (s₀, []) = some (s', polls) →
      (t :: polls).Pairwise (· ≤ ·) →
      (0 ≤ n ∧ n ≤ 255 →
        (TuneTimely char d s₀ moments ↔
          (∀ τ ∈ polls, (τ : Int) ≤ d → (τ : Int) / 2 ^ 32 = d / 2 ^ 32) ∧
            ∀ τ ∈ polls.find? (fun τ : Nat => d < (τ : Int)), d % 2 ^ 32 < (τ : Int) % 2 ^ 32)) ∧
      (¬ (0 ≤ n ∧ n ≤ 255) →
        (TuneTimely char d s₀ moments ↔
          (∀ τ ∈ polls, (τ : Int) ≤ d → (τ : Int) % 2 ^ 32 ≤ (t + 1000 * (n % 256)) % 2 ^ 32) ∧
            ∀ τ ∈ polls.find? (fun τ : Nat => d < (τ : Int)),
              (t + 1000 * (n % 256)) % 2 ^ 32 < (τ : Int) % 2 ^ 32))) := by
  constructor
  · intro a k st t d ticks hst hne ht hlength hd htimes
    exact elementTimely_iff a hst hne ht hlength hd htimes
  · intro a initialWpm acts s s₀ s' payload text n d t moments polls hreach hpc hm hn hs hd hleaves hrun hpolls
    obtain ⟨hfrom, hsorted⟩ := List.pairwise_cons.mp hpolls
    have htimely := tuneTimely_of_datagram (serving_any hreach) hpc hm hn hs d hleaves hrun hsorted
    refine ⟨fun hfits => ?_, fun _ => htimely⟩
    have hkept : n % 256 = n := by omega
    rw [hkept, ← hd] at htimely
    rw [htimely, hd, polls_in_period hfits hfrom]

def beforeDit : Keyer ℚ :=
  let k := (start (.at 0) 24 : Service ℚ).keyer
  (stateUpdate (.quiet 0) .winkeyer (switchTo (.quiet 0) .winkeyer (winkeyerData 0x45 k))).2

def tickAt (time : Nat) : Tick := ⟨[], time, .quiet 0, []⟩

def workerAt (time : Nat) : Moment := .worker none time

theorem workerAt_leaves (time : Nat) : (workerAt time).LeavesTune := by
  intro message hm
  cases hm

theorem beforeDit_state : beforeDit.currentState = some .winkeyer := by decide +kernel

theorem beforeDit_length : (weightedElementLengthMs beforeDit beforeDit.sentElement).toNat = 50 := by
  decide +kernel

theorem run_listening : Run (step .signed) (fun _ _ => True) (start (.at 0) 24 : Service ℚ) [quiet 0] listening :=
  .next (quiet 0) .start trivial rfl

def tuned (seconds : UInt8) (t : Nat) : Service ℚ := startFeeding [0x0B, 1, seconds] (UInt32.ofNat t) listening

theorem deadlines_met_away_from_wrap :
    ElementTimely 50 (switchTo (.quiet 0) .sendElement beforeDit) [tickAt 10, tickAt 60] ∧
      step .signed listening (datagram [27, 0x63, 0x31] 0) = some (tuned 1 0) ∧
      TuneTimely .signed 1000 (tuned 1 0) (List.replicate 4 (workerAt 500) ++ List.replicate 5 (workerAt 1001)) := by
  have hstep : step .signed listening (datagram [27, 0x63, 0x31] 0) = some (tuned 1 0) := by decide +kernel
  have hrun : ((List.replicate 4 (workerAt 500) ++ List.replicate 5 (workerAt 1001)).foldlM (watch .signed)
      (tuned 1 0, [])).map Prod.snd = some [500, 1001] := by
    decide +kernel
  obtain ⟨⟨s', polls⟩, hrun, rfl⟩ := Option.map_eq_some_iff.mp hrun
  have h := deadlines_met_iff (F := ℚ) .signed
  refine ⟨?_, hstep, ?_⟩
  · refine (h.1 (.quiet 0) beforeDit .winkeyer 0 50 _ beforeDit_state (by decide) rfl ?_ ?_ (by decide)).mpr
      (by decide)
    · rw [beforeDit_length]
      decide
    · rw [beforeDit_length]
  · refine ((h.2 (.at 0) 24 [quiet 0] listening (tuned 1 0) s' [27, 0x63, 0x31] [0x31, 0] 1 1000 0 _ _ run_listening
      rfl (by decide) (by decide) hstep (by decide) ?_ hrun (by decide)).1 (by decide)).mpr (by decide)
    intro m hm
    rcases List.mem_append.mp hm with hm | hm
    · exact List.eq_of_mem_replicate hm ▸ workerAt_leaves 500
    · exact List.eq_of_mem_replicate hm ▸ workerAt_leaves 1001

/-- Ten milliseconds before the wrap a dit ends at once, a tune whose end the last millisecond
of the period shows is not ended by a poll six milliseconds later, and a tune of 300 seconds ends
after 44. -/
theorem deadlines_missed :
    ¬ ElementTimely (2 ^ 32 + 40) (switchTo (.quiet (UInt32.ofNat (2 ^ 32 - 10))) .sendElement beforeDit)
        [tickAt (2 ^ 32 - 9)] ∧
      (∃ s₀, Run (step .signed) (fun _ _ => True) (start (.at 0) 24 : Service ℚ)
          [quiet 0, datagram [27, 0x63, 0x31] (UInt32.ofNat (2 ^ 32 - 1001))] s₀ ∧
        ¬ TuneTimely .signed (2 ^ 32 - 1) s₀ (List.replicate 4 (workerAt (2 ^ 32 + 5)))) ∧
      ∃ s₀, Run (step .signed) (fun _ _ => True) (start (.at 0) 24 : Service ℚ)
          [quiet 0, datagram [27, 0x63, 0x33, 0x30, 0x30] 0] s₀ ∧
        ¬ TuneTimely .signed 300000 s₀ (List.replicate 4 (workerAt 44001)) := by
  have hserving := serving_any run_listening
  refine ⟨?_, ⟨tuned 1 (2 ^ 32 - 1001), ?_⟩, ⟨tuned 44 0, ?_⟩⟩
  · rw [elementTimely_iff (t := 2 ^ 32 - 10) _ beforeDit_state (by decide) rfl
      (by rw [beforeDit_length]; decide)
      (by rw [beforeDit_length]; decide) (by decide)]
    decide
  · have hstep : step .signed listening (datagram [27, 0x63, 0x31] (UInt32.ofNat (2 ^ 32 - 1001))) =
        some (tuned 1 (2 ^ 32 - 1001)) := by
      decide +kernel
    have hrun : ((List.replicate 4 (workerAt (2 ^ 32 + 5))).foldlM (watch .signed)
        (tuned 1 (2 ^ 32 - 1001), [])).map Prod.snd = some [2 ^ 32 + 5] := by
      decide +kernel
    obtain ⟨⟨s', polls⟩, hrun, rfl⟩ := Option.map_eq_some_iff.mp hrun
    have hm : receive (some [27, 0x63, 0x31]) = some (esc :: 'c'.toUInt8 :: [0x31, 0]) := by decide
    have hn : stoi [0x31, 0] = .ok 1 := by decide
    refine ⟨run_listening.next _ trivial hstep, ?_⟩
    rw [tuneTimely_of_datagram hserving rfl hm hn hstep _
      (fun m hm => List.eq_of_mem_replicate hm ▸ workerAt_leaves _) hrun (by decide)]
    decide
  · have hstep : step .signed listening (datagram [27, 0x63, 0x33, 0x30, 0x30] 0) = some (tuned 44 0) := by
      decide +kernel
    have hrun : ((List.replicate 4 (workerAt 44001)).foldlM (watch .signed) (tuned 44 0, [])).map Prod.snd =
        some [44001] := by
      decide +kernel
    obtain ⟨⟨s', polls⟩, hrun, rfl⟩ := Option.map_eq_some_iff.mp hrun
    have hm : receive (some [27, 0x63, 0x33, 0x30, 0x30]) = some (esc :: 'c'.toUInt8 :: [0x33, 0x30, 0x30, 0]) := by
      decide
    have hn : stoi [0x33, 0x30, 0x30, 0] = .ok 300 := by decide
    refine ⟨run_listening.next _ trivial hstep, ?_⟩
    rw [tuneTimely_of_datagram hserving rfl hm hn (t := 0) hstep _
      (fun m hm => List.eq_of_mem_replicate hm ▸ workerAt_leaves _) hrun (by decide)]
    decide

end

end Cwsd.Deadlines
