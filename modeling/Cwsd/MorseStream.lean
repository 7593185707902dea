import Cwsd.WinkeyerFraming

namespace Cwsd.MorseStream

open KeyerState KeyerMachine KeyerTrack KeyerPass WinkeyerData Framing Runs WinkeyerFraming CharPatterns

/-- A state as an observer sees it: only send_element shows which element it sends. -/
abbrev Entry := StateType × Element

def entriesOf (group : List Element) : List Entry :=
  group.flatMap fun e => [(.sendElement, e), (.interElementSpace, .none)]

def elements (data : UInt16) (bits : Nat) : List Entry := entriesOf (elementsOf data bits)

@[simp] theorem elements_zero (data : UInt16) : elements data 0 = [] := rfl

/-- The Morse of one frame: a character and its space, a half-dot gap, a word
space, and nothing for a command. -/
def morse (c : UInt8) : List Entry :=
  if isWinkeyerCommand c then []
  else if c = '|'.toUInt8 then [(.halfDotGap, .none)]
  else match getCharPattern c with
    | none => [(.interWordSpace, .none)]
    | some p => elements p.sentCharData p.sentCharBits.toNat ++ [(.autospace, .none)]

def entry : Event → Option Entry
  | .entered .winkeyer _ => none
  | .entered .sendElement sent => some (.sendElement, sent)
  | .entered next _ => some (next, .none)
  | _ => none

def entries (trace : List Event) : List Entry := (trace.filterMap entry).reverse

def putBytes (trace : List Event) : List UInt8 := puts (trace.filterMap frameOp)

def takenHeads (trace : List Event) : List UInt8 := takes (trace.filterMap frameOp)

theorem entries_marks (trace : List Event) : entries (trace.filter isMark) = entries trace := by
  rw [entries, filterMap_filter_isMark, entries]
  intro e he
  cases e <;> first | rfl | cases he

theorem entries_cons {e : Event} {x : Entry} (he : entry e = some x) (marks : List Event) :
    entries (e :: marks) = entries marks ++ [x] := by
  simp [entries, he]

theorem entries_skip {e : Event} (he : entry e = none) (marks : List Event) :
    entries (e :: marks) = entries marks := by
  simp [entries, he]

theorem takenHeads_fetched (c : UInt8) (arguments : List UInt8) (marks : List Event) :
    takenHeads (.fetched c arguments :: marks) = takenHeads marks ++ [c] := by
  have hops : (Event.fetched c arguments :: marks).filterMap frameOp =
      .take c arguments :: marks.filterMap frameOp := rfl
  rw [takenHeads, hops]
  simp [takenHeads, takes]

theorem takenHeads_entered (next : StateType) (sent : Element) (marks : List Event) :
    takenHeads (.entered next sent :: marks) = takenHeads marks := rfl

def rest (t : Track) : List Entry :=
  (if t.state = some .sendElement then [(.interElementSpace, .none)] else []) ++
    elements t.data t.bit.toNat ++ if t.played then [] else [(.autospace, .none)]

/-- Entered and still to be entered together are the Morse of the frames taken. -/
structure Streaming (t : Track) : Prop where
  out : ∃ seq, entries t.marks = (.idle, .none) :: seq ∧
    seq ++ rest t = (takenHeads t.marks).flatMap morse
  noClear : .cleared ∉ t.marks

theorem elements_pos (data : UInt16) {bit : UInt8} (h : bit ≠ 0) :
    elements data bit.toNat =
      (.sendElement, nextElement data bit) :: (.interElementSpace, .none) :: elements data (bit - 1).toNat := by
  rw [elements, elementsOf_pos data h]
  rfl

theorem rest_ready {t : Track} (hst : t.state = some .winkeyer) (hbit : t.bit = 0)
    (hplayed : t.played = true) : rest t = [] := by
  simp [rest, hst, hbit, hplayed]

theorem morse_gap {c : UInt8} (hc : isWinkeyerCommand c = false)
    (hpat : c = '|'.toUInt8 ∨ getCharPattern c = none) :
    morse c = [(if c = '|'.toUInt8 then .halfDotGap else .interWordSpace, .none)] := by
  by_cases hbar : c = '|'.toUInt8
  · rw [morse, hc, if_neg Bool.false_ne_true, if_pos hbar, if_pos hbar]
  · simp only [morse, hc, Bool.false_eq_true, if_false, hbar, hpat.resolve_left hbar]

theorem morse_char {c : UInt8} {p : CharPattern} (hc : isWinkeyerCommand c = false) (hbar : c ≠ '|'.toUInt8)
    (hpat : getCharPattern c = some p) :
    morse c = (.sendElement, nextElement p.sentCharData p.sentCharBits) :: (.interElementSpace, .none) ::
      (elements p.sentCharData (p.sentCharBits - 1).toNat ++ [(.autospace, .none)]) := by
  have hbits : p.sentCharBits ≠ 0 := by
    rintro h0
    have h := getCharPattern_bits hpat
    simp [h0] at h
  simp only [morse, hc, Bool.false_eq_true, if_false, hbar, hpat, elements_pos p.sentCharData hbits, List.cons_append]

namespace Streaming

theorem move {t t' : Track} (h : Streaming t) (hm : Move t t') : Streaming t' := by
  obtain ⟨⟨seq, hseq, hrest⟩, hclear⟩ := h
  cases hm with
  | stay heq => exact heq ▸ ⟨⟨seq, hseq, hrest⟩, hclear⟩
  | route st next hst hne hnext sent heq =>
      subst heq
      refine ⟨?_, by simpa using hclear⟩
      simp only [takenHeads_entered]
      by_cases hsend : st = .sendElement
      · simp only [hsend, if_true] at hnext hst
        subst hnext
        refine ⟨seq ++ [(.interElementSpace, .none)], ?_, ?_⟩
        · rw [entries_cons rfl, hseq]
          rfl
        · rw [← hrest]
          simp [rest, hst]
      · simp only [hsend, if_false] at hnext
        subst hnext
        refine ⟨seq, (entries_skip rfl _).trans hseq, ?_⟩
        rw [← hrest]
        simp [rest, hst, hsend]
  | space hst hbit hplayed sent heq =>
      subst heq
      refine ⟨⟨seq ++ [(.autospace, .none)], ?_, ?_⟩, by simpa using hclear⟩
      · rw [entries_cons rfl, hseq]
        rfl
      · rw [takenHeads_entered, ← hrest]
        simp [rest, hst, hbit, hplayed]
  | send hst hbit heq =>
      subst heq
      refine ⟨⟨seq ++ [(.sendElement, nextElement t.data t.bit)], ?_, ?_⟩, by simpa using hclear⟩
      · rw [entries_cons rfl, hseq]
        rfl
      · rw [takenHeads_entered, ← hrest]
        simp [rest, hst, elements_pos t.data hbit]
  | command hst hbit hplayed c bytes hc hbuf hlen buffer hdrop heq =>
      subst heq
      refine ⟨⟨seq, (entries_skip rfl _).trans hseq, ?_⟩, by simpa using hclear⟩
      rw [takenHeads_fetched, List.flatMap_append, ← hrest]
      simp [rest, morse, hc]
  | gap hst hbit hplayed c bytes hc hbuf hpat next hnext sent buffer hdrop heq =>
      subst heq
      rw [rest_ready hst hbit hplayed, List.append_nil] at hrest
      have hmorse : morse c = [(next, .none)] := by rw [morse_gap hc hpat, hnext]
      have hentry : entry (.entered next sent) = some (next, .none) := by
        rw [hnext]
        split <;> rfl
      have hne : next ≠ .sendElement := by
        rw [hnext]
        split <;> decide
      refine ⟨⟨seq ++ [(next, .none)], ?_, ?_⟩, by simpa using hclear⟩
      · rw [entries_cons hentry, entries_skip rfl, hseq]
        rfl
      · rw [takenHeads_entered, takenHeads_fetched, List.flatMap_append, ← hrest]
        simp [rest, hne, hbit, hplayed, hmorse]
  | char hst hbit hplayed c bytes hc hbuf hbar p hpat buffer hdrop heq =>
      subst heq
      rw [rest_ready hst hbit hplayed, List.append_nil] at hrest
      refine ⟨⟨seq ++ [(.sendElement, nextElement p.sentCharData p.sentCharBits)], ?_, ?_⟩,
        by simpa using hclear⟩
      · rw [entries_cons rfl, entries_skip rfl, hseq]
        rfl
      · rw [takenHeads_entered, takenHeads_fetched, List.flatMap_append, ← hrest]
        simp [rest, morse_char hc hbar hpat]

theorem feed {t t' : Track} {c : UInt8} (h : Streaming t) (hf : Feed c t t')
    (hclear : ¬ (t.waiting = 0 ∧ t.remaining = 0 ∧ c = 0x0A)) : Streaming t' := by
  obtain ⟨⟨seq, hseq, hrest⟩, hmark⟩ := h
  cases hf with
  | argument hw heq =>
      subst heq
      exact ⟨⟨seq, hseq, hrest⟩, hmark⟩
  | command hw hr hc hne heq =>
      subst heq
      exact ⟨⟨seq, hseq, hrest⟩, hmark⟩
  | clear hw hr hc heq => exact absurd ⟨hw, hr, hc⟩ hclear
  | put hw hput heq =>
      subst heq
      refine ⟨⟨seq, (entries_skip rfl _).trans hseq, ?_⟩, by simpa using hmark⟩
      exact hrest

end Streaming

section

variable {F : Type} [SinglePrecision F]

def Plain (k : Keyer F) (act : Action) : Prop :=
  Undisturbed k act ∧ ∀ c, act = .data c →
    ¬ (k.winkeyerWaitingForArguments = 0 ∧ k.winkeyerRemainingBufferedArguments = 0 ∧ c = 0x0A)

theorem streaming_step {k k' : Keyer F} {act : Action}
    (h : (∃ q, Good (track k) q) ∧ Streaming (track k)) (hok : Plain k act)
    (hs : step k act = some k') : (∃ q, Good (track k') q) ∧ Streaming (track k') := by
  refine ⟨good_step h.1 hok.1 hs, ?_⟩
  obtain ⟨q, hq⟩ := h.1
  cases act with
  | data c =>
      cases hs
      exact h.2.feed (good_data c hq hok.1).1 (hok.2 c rfl)
  | tick hardware =>
      cases hs
      have hinv := update_invariant (fun k => (∃ q, Good (track k) q) ∧ Streaming (track k)) hardware
        (fun i k hk => ⟨(good_pass (hok.1 i) hk.1.choose_spec).2,
          hk.2.move (good_pass (hok.1 i) hk.1.choose_spec).1⟩) h
      exact hinv.2

/-- The keyer sends exactly the Morse of what was put into its buffer: however
ticks and bytes interleave, the states entered after the idle state of init are a
prefix of the Morse of the frames put so far, in order. -/
theorem sends_morse_of_frames (a : Answers) (acts : List Action) (k : Keyer F)
    (h : Run step Plain (init a Keyer.zero) acts k) :
    ∃ seq, entries k.trace = (.idle, .none) :: seq ∧
      seq <+: (Queue.ofSymbols (putBytes k.trace) : Queue frameArity).pending.flatMap
        fun f => morse f.head := by
  have hinit : (track (init a (Keyer.zero : Keyer F))).marks = [.entered .idle .none] := rfl
  have hstart : Streaming (track (init a (Keyer.zero : Keyer F))) := ⟨⟨[], rfl, rfl⟩, by simp [hinit]⟩
  obtain ⟨⟨q, hq⟩, ⟨seq, hseq, hrest⟩, hclear⟩ :=
    h.invariant (fun k => (∃ q, Good (track k) q) ∧ Streaming (track k)) ⟨⟨_, good_init a⟩, hstart⟩
      fun k act k' hk hok hs => streaming_step hk hok hs
  have hmarks : (track k).marks.filterMap frameOp = k.trace.filterMap frameOp := filterMap_marks k.trace
  have hops : Op.clear ∉ k.trace.filterMap frameOp := by
    rw [← hmarks]
    intro hmem
    obtain ⟨e, he, hop⟩ := List.mem_filterMap.mp hmem
    cases e with
    | cleared => exact hclear he
    | _ => cases hop
  have hlog := hq.framed.log
  rw [frameQueue, hmarks] at hlog
  obtain ⟨pre, hpre, hof⟩ := Queue.ofSymbols_puts hops hlog
  refine ⟨seq, (entries_marks k.trace).symm.trans hseq, ?_⟩
  rw [takenHeads, hmarks, ← hpre, List.flatMap_map] at hrest
  rw [putBytes, hof, List.flatMap_append, ← hrest, List.append_assoc]
  exact List.prefix_append _ _

/-- Two letters and a word space between them, and two ticks a minute apart. -/
def twoLetters : List Action :=
  [.data 0x45, .data 0x20, .data 0x54, .tick fun _ => .quiet 1000, .tick fun _ => .quiet 61000]

def afterTwoLetters : Keyer ℚ :=
  update (fun _ => .quiet 61000) (update (fun _ => .quiet 1000)
    (winkeyerData 0x54 (winkeyerData 0x20 (winkeyerData 0x45 (init (.quiet 0) Keyer.zero)))))

theorem twoLetters_morse :
    Run step Plain (init (.quiet 0) Keyer.zero) twoLetters afterTwoLetters ∧
      ∃ seq, entries afterTwoLetters.trace = (.idle, .none) :: seq ∧
        seq <+: (Queue.ofSymbols (putBytes afterTwoLetters.trace) : Queue frameArity).pending.flatMap
          fun f => morse f.head := by
  have hdata (c : UInt8) (hc : c ≠ 0x0A) (k : Keyer ℚ) (hroom : k.winkeyerBuffer.full = false) :
      Plain k (.data c) :=
    ⟨fun _ => hroom, fun d hd h => hc (by cases hd; exact h.2.2)⟩
  have htick (t : UInt32) (k : Keyer ℚ) : Plain k (.tick fun _ => .quiet t) :=
    ⟨fun _ => Answers.quiet_released t, fun d hd => by cases hd⟩
  have h₀ : Run step Plain (init (.quiet 0) (Keyer.zero : Keyer ℚ)) [] _ := .start
  have h₁ := h₀.next (.data 0x45) (hdata _ (by decide) _ rfl) rfl
  have h₂ := h₁.next (.data 0x20) (hdata _ (by decide) _ rfl) rfl
  have h₃ := h₂.next (.data 0x54) (hdata _ (by decide) _ rfl) rfl
  have h₄ := h₃.next (.tick fun _ => .quiet 1000) (htick _ _) rfl
  have hrun := h₄.next (.tick fun _ => .quiet 61000) (htick _ _) rfl
  exact ⟨hrun, sends_morse_of_frames (.quiet 0) twoLetters _ hrun⟩

end

end Cwsd.MorseStream
