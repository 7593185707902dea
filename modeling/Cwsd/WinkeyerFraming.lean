import Cwsd.Framing
import Cwsd.Runs
import Cwsd.WinkeyerData

namespace Cwsd.WinkeyerFraming

open KeyerState KeyerMachine KeyerTrack KeyerPass WinkeyerData Framing Runs

/-- Text stands alone; a command is followed by its arguments. -/
def frameArity (c : UInt8) : Nat := if isWinkeyerCommand c then parameterCount c else 0

def frameOp : Event → Option (Op UInt8)
  | .put c => some (.put c)
  | .cleared => some .clear
  | .fetched c arguments => some (.take c arguments)
  | _ => none

theorem filterMap_marks (trace : List Event) :
    (trace.filter isMark).filterMap frameOp = trace.filterMap frameOp := by
  apply filterMap_filter_isMark
  intro e he
  cases e <;> first | rfl | cases he

/-- The abstract queue after a trace, none when the trace took anything but the
oldest complete frame or cleared in the middle of one. -/
def frameQueue (trace : List Event) : Option (Queue frameArity) :=
  Queue.replay (trace.filterMap frameOp)

/-- The concrete buffer and its counter represent the abstract queue. -/
structure Framed (t : Track) (q : Queue frameArity) : Prop where
  log : frameQueue t.marks = some q
  buffer : t.buffer.contents = q.symbols
  heads : q.Heads FrameHead
  missing : q.missing = t.remaining.toNat
  taken : ∀ c arguments, .fetched c arguments ∈ t.marks →
    FrameHead c ∧ arguments.length = frameArity c

theorem frameArity_text {c : UInt8} (hc : isWinkeyerCommand c = false) : frameArity c = 0 := by
  simp [frameArity, hc]

theorem frameArity_command {c : UInt8} (hc : isWinkeyerCommand c = true) :
    frameArity c = parameterCount c := by
  simp [frameArity, hc]

theorem replay_cons {e : Event} {op : Op UInt8} (he : frameOp e = some op) {marks : List Event}
    {q : Queue frameArity} (hq : frameQueue marks = some q) :
    frameQueue (e :: marks) = q.apply op := by
  simp only [frameQueue] at hq
  simp [frameQueue, he, Queue.replay, hq]

theorem replay_skip {e : Event} (he : frameOp e = none) (marks : List Event) :
    frameQueue (e :: marks) = frameQueue marks := by
  simp [frameQueue, he]

namespace Framed

variable {t : Track} {q : Queue frameArity}

theorem front_head (h : Framed t q) (c : UInt8) (rest : List UInt8) (hc : t.buffer.contents = c :: rest) :
    FrameHead c := by
  rw [h.buffer] at hc
  cases hp : q.pending with
  | nil =>
      simp only [Queue.symbols, hp, List.flatMap_nil, List.nil_append] at hc
      exact h.heads.2 c rest hc
  | cons f fs =>
      simp only [Queue.symbols, hp, List.flatMap_cons, Frame.symbols, List.cons_append,
        List.append_assoc, List.cons.injEq] at hc
      exact hc.1 ▸ h.heads.1 f (by simp [hp])

theorem front_ne (h : Framed t q) (c : UInt8) (rest : List UInt8) (hc : t.buffer.contents = c :: rest) :
    c ≠ 0x0A := by
  rintro rfl
  exact absurd (h.front_head _ rest hc) (by decide)

theorem take (h : Framed t q) {c : UInt8} {rest : List UInt8} (hc : t.buffer.contents = c :: rest)
    (hlen : frameArity c ≤ rest.length) (buffer : CircularBuffer UInt8)
    (hrest : buffer.contents = rest.drop (frameArity c)) :
    ∃ q', Framed { t with
      buffer := buffer
      marks := .fetched c (rest.take (frameArity c)) :: t.marks } q' := by
  obtain ⟨f, fs, hp, rfl, hargs, hdrop⟩ := Queue.front_complete (h.buffer.symm.trans hc) hlen
  refine ⟨⟨fs, q.started, q.short⟩, ?_, ?_, ?_, h.missing, ?_⟩
  · rw [replay_cons rfl h.log, ← hargs]
    exact Queue.apply_take hp
  · exact hrest.trans hdrop.symm
  · exact ⟨fun g hg => h.heads.1 g (by simp [hp, hg]), h.heads.2⟩
  · intro c arguments hmem
    rcases List.mem_cons.mp hmem with heq | hmem
    · cases heq
      exact ⟨h.front_head _ rest hc, by rw [List.length_take, Nat.min_eq_left hlen]⟩
    · exact h.taken c arguments hmem

theorem enter (h : Framed t q) (next : StateType) (sent : Element) (state : Option StateType)
    (bit : UInt8) (data : UInt16) (played enabled : Bool) :
    Framed { t with
      state := state, bit := bit, data := data, played := played, enabled := enabled
      marks := .entered next sent :: t.marks } q :=
  ⟨(replay_skip rfl _).trans h.log, h.buffer, h.heads, h.missing,
    fun c arguments hmem => h.taken c arguments (by simpa using hmem)⟩

theorem move {t' : Track} (h : Framed t q) (hm : Move t t') : ∃ q', Framed t' q' := by
  cases hm with
  | stay heq => exact ⟨q, heq ▸ h⟩
  | route st next hst hne hnext sent heq =>
      subst heq
      exact ⟨q, h.enter next sent (some next) t.bit t.data t.played _⟩
  | space hst hbit hplayed sent heq =>
      subst heq
      exact ⟨q, h.enter .autospace sent (some .autospace) t.bit t.data true t.enabled⟩
  | send hst hbit heq =>
      subst heq
      exact ⟨q, h.enter .sendElement _ (some .sendElement) (t.bit - 1) t.data t.played t.enabled⟩
  | command hst hbit hplayed c rest hc hbuf hlen buffer hrest heq =>
      subst heq
      rw [← frameArity_command hc] at hlen hrest ⊢
      exact h.take hbuf hlen buffer hrest
  | gap hst hbit hplayed c rest hc hbuf hpat next hnext sent buffer hrest heq =>
      subst heq
      have ha := frameArity_text hc
      obtain ⟨q', h'⟩ := h.take hbuf (by simp [ha]) buffer (by simpa [ha] using hrest)
      simp only [ha, List.take_zero] at h'
      exact ⟨q', h'.enter next sent (some next) t.bit t.data t.played t.enabled⟩
  | char hst hbit hplayed c rest hc hbuf hbar p hpat buffer hrest heq =>
      subst heq
      have ha := frameArity_text hc
      obtain ⟨q', h'⟩ := h.take hbuf (by simp [ha]) buffer (by simpa [ha] using hrest)
      simp only [ha, List.take_zero] at h'
      exact ⟨q', h'.enter .sendElement _ (some .sendElement) (p.sentCharBits - 1) p.sentCharData false t.enabled⟩

theorem feed {t' : Track} {c : UInt8} (h : Framed t q) (hf : Feed c t t')
    (hroom : t.waiting = 0 → (t.remaining ≠ 0 ∨ FrameHead c) → t.buffer.full = false) :
    ∃ q', Framed t' q' := by
  have hzero : t.remaining = 0 ↔ q.missing = 0 := by
    rw [h.missing, ← UInt8.toNat_inj, UInt8.toNat_zero]
  cases hf with
  | argument hw heq =>
      subst heq
      exact ⟨q, h.log, h.buffer, h.heads, h.missing, h.taken⟩
  | command hw hr hc hne heq =>
      subst heq
      exact ⟨q, h.log, h.buffer, h.heads, h.missing, h.taken⟩
  | clear hw hr hc heq =>
      subst heq
      refine ⟨Queue.nil, ?_, ?_, Queue.heads_nil _, ?_, fun c arguments hmem =>
        h.taken c arguments (by simpa using hmem)⟩
      · rw [replay_cons rfl h.log]
        simp [Queue.apply, hzero.mp hr]
      · simp [Queue.nil, Queue.symbols]
      · simp [Queue.nil, Queue.missing, hr]
  | put hw hput heq =>
      subst heq
      refine ⟨q.put c, ?_, ?_, ?_, ?_, fun c arguments hmem =>
        h.taken c arguments (by simpa using hmem)⟩
      · rw [replay_cons rfl h.log]
        rfl
      · rw [t.buffer.contents_put c (hroom hw hput), h.buffer, Queue.symbols_put]
      · exact Queue.heads_put h.heads fun hm => hput.resolve_left (not_not.mpr (hzero.mpr hm))
      · by_cases hr : t.remaining = 0
        · rw [Queue.missing_put_zero (hzero.mp hr), frameArity]
          simp only [hr, ne_eq, not_true_eq_false, if_false]
          split
          · exact (toNat_parameterCount c).symm
          · rfl
        · rw [Queue.missing_put_pos (fun hm => hr (hzero.mpr hm)), h.missing]
          simp only [ne_eq, hr, not_false_eq_true, if_true]
          exact (toNat_sub_one hr).symm

end Framed

section

variable {F : Type} [SinglePrecision F]

inductive Action
  | data (c : UInt8)
  | tick (hardware : Fin maxTransitionsPerTick → Answers)

def step (k : Keyer F) : Action → Option (Keyer F)
  | .data c => some (winkeyerData c k)
  | .tick hardware => some (update hardware k)

/-- No byte is put into a full buffer and no paddle is pressed. -/
def Undisturbed (k : Keyer F) : Action → Prop
  | .data c => Puts k c → k.winkeyerBuffer.full = false
  | .tick hardware => ∀ i, (hardware i).Released

structure Good (t : Track) (q : Queue frameArity) : Prop where
  sending : Sending t
  pending : t.waiting ≠ 0 → t.pending ≠ 0x0A
  framed : Framed t q

theorem good_init (a : Answers) : Good (track (init a (Keyer.zero : Keyer F))) Queue.nil := by
  have htrack : track (init a (Keyer.zero : Keyer F)) =
      { state := some .idle, buffer := .ofSize 160 (by decide), remaining := 0, waiting := 0,
        pending := 0, dit := false, dah := false, bit := 0, data := 0, played := true,
        enabled := false, playing := false, marks := [.entered .idle .none] } := rfl
  rw [htrack]
  refine ⟨⟨rfl, rfl, rfl, .inl rfl⟩, by simp, rfl, ?_, Queue.heads_nil _, rfl, by simp⟩
  simp [Queue.symbols, Queue.nil]

theorem good_pass {a : Answers} (ha : a.Released) {k : Keyer F} {q : Queue frameArity}
    (h : Good (track k) q) :
    Move (track k) (track (updatePass a k)) ∧ ∃ q', Good (track (updatePass a k)) q' := by
  have hm := pass_moves ha h.sending h.framed.front_ne
  obtain ⟨q', hq'⟩ := h.framed.move hm
  refine ⟨hm, q', hm.sending h.sending, ?_, hq'⟩
  cases hm with
  | stay heq | route _ _ _ _ _ _ heq | space _ _ _ _ heq | send _ _ heq
  | command _ _ _ _ _ _ _ _ _ _ heq | gap _ _ _ _ _ _ _ _ _ _ _ _ _ heq
  | char _ _ _ _ _ _ _ _ _ _ _ _ heq =>
      rw [heq]
      exact h.pending

theorem good_data (c : UInt8) {k : Keyer F} {q : Queue frameArity} (h : Good (track k) q)
    (hroom : Puts k c → k.winkeyerBuffer.full = false) :
    Feed c (track k) (track (winkeyerData c k)) ∧ ∃ q', Good (track (winkeyerData c k)) q' := by
  have hf := winkeyerData_feeds c (k := k) h.pending
  obtain ⟨q', hq'⟩ := h.framed.feed hf fun hw hput => hroom ⟨hw, hput⟩
  refine ⟨hf, q', ?_, ?_, hq'⟩
  · cases hf with
    | argument _ heq | command _ _ _ _ heq | clear _ _ _ heq | put _ _ heq =>
        rw [heq]
        exact ⟨h.sending.dit, h.sending.dah, h.sending.notPlaying, h.sending.state⟩
  · cases hf with
    | argument hw heq =>
        rw [heq]
        exact fun _ => h.pending hw
    | command hw hr hc hne heq =>
        rw [heq]
        exact fun _ => hne
    | clear hw hr hc heq =>
        rw [heq]
        exact fun hne => absurd hw hne
    | put hw hput heq =>
        rw [heq]
        exact fun hne => absurd hw hne

theorem good_step {k k' : Keyer F} {act : Action} (h : ∃ q, Good (track k) q) (hok : Undisturbed k act)
    (hs : step k act = some k') : ∃ q, Good (track k') q := by
  cases act with
  | data c =>
      cases hs
      exact (good_data c h.choose_spec hok).2
  | tick hardware =>
      cases hs
      exact update_invariant (fun k => ∃ q, Good (track k) q) hardware
        (fun i k hk => (good_pass (hok i) hk.choose_spec).2) h

/-- The producer and the consumer of the WinKeyer buffer agree on its framing. In
every undisturbed run the buffer holds complete frames and at most one open frame
that waits for exactly the counted arguments, and the trace is one of the frame
queue: each time the winkeyer state took bytes out, they were the oldest complete
frame, a head with all its arguments. -/
theorem buffer_refines_frames (a : Answers) (acts : List Action) (k : Keyer F)
    (h : Run step Undisturbed (init a Keyer.zero) acts k) :
    ∃ q : Queue frameArity, frameQueue k.trace = some q ∧
      k.winkeyerBuffer.contents = q.pending.flatMap Frame.symbols ++ q.started ∧
      q.Heads FrameHead ∧
      q.missing = k.winkeyerRemainingBufferedArguments.toNat ∧
      ∀ c arguments, .fetched c arguments ∈ k.trace →
        FrameHead c ∧ arguments.length = frameArity c := by
  obtain ⟨q, hq⟩ := h.invariant (fun k => ∃ q, Good (track k) q) ⟨_, good_init a⟩
    fun k act k' hk hok hs => good_step hk hok hs
  have hlog := hq.framed.log
  rw [frameQueue, track, filterMap_marks] at hlog
  refine ⟨q, hlog, hq.framed.buffer, hq.framed.heads, hq.framed.missing, ?_⟩
  intro c arguments hmem
  exact hq.framed.taken c arguments (List.mem_filter.mpr ⟨hmem, rfl⟩)

/-- A letter, a buffered speed with its argument, and a tick. -/
def letterAndSpeed : List Action :=
  [.data 0x45, .data 0x1C, .data 0x1E, .tick fun _ => .quiet 1000]

def afterLetterAndSpeed : Keyer ℚ :=
  update (fun _ => .quiet 1000)
    (winkeyerData 0x1E (winkeyerData 0x1C (winkeyerData 0x45 (init (.quiet 0) Keyer.zero))))

theorem letterAndSpeed_framed :
    Run step Undisturbed (init (.quiet 0) Keyer.zero) letterAndSpeed afterLetterAndSpeed ∧
      ∃ q : Queue frameArity, frameQueue afterLetterAndSpeed.trace = some q ∧
        q.missing = afterLetterAndSpeed.winkeyerRemainingBufferedArguments.toNat := by
  have hdata (c : UInt8) (k : Keyer ℚ) (hroom : k.winkeyerBuffer.full = false) :
      Undisturbed k (.data c) := fun _ => hroom
  have htick (k : Keyer ℚ) : Undisturbed k (.tick fun _ => .quiet 1000) :=
    fun _ => Answers.quiet_released 1000
  have h₀ : Run step Undisturbed (init (.quiet 0) (Keyer.zero : Keyer ℚ)) [] _ := .start
  have h₁ := h₀.next (.data 0x45) (hdata _ _ rfl) rfl
  have h₂ := h₁.next (.data 0x1C) (hdata _ _ rfl) rfl
  have h₃ := h₂.next (.data 0x1E) (hdata _ _ rfl) rfl
  have hrun := h₃.next (.tick fun _ => .quiet 1000) (htick _) rfl
  obtain ⟨q, hq, -, -, hmissing, -⟩ := buffer_refines_frames (.quiet 0) letterAndSpeed _ hrun
  exact ⟨hrun, q, hq, hmissing⟩

end

end Cwsd.WinkeyerFraming
