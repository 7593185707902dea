import Cwsd.ServiceSteps

namespace Cwsd.NonzeroSpeeds

open KeyerState KeyerMachine CwDaemon Stoi UdpServer CwdaemonServer WinkeyerFeed KeyRelease Runs
    WinkeyerEffects MessageEffects ServiceSteps

/-- The speed after a text that starts at speed: each sign moves it by two, modulo 256. -/
def inlineSpeed (text : List UInt8) (speed : UInt8) : UInt8 :=
  speed + UInt8.ofNat (2 * text.count '+'.toUInt8) - UInt8.ofNat (2 * text.count '-'.toUInt8)

/-- No run of equal signs ends at the speed zero. -/
def RunsNonzero (text : List UInt8) (speed : UInt8) : Prop :=
  ∀ before sign after, text = before ++ sign :: after → sign = '+'.toUInt8 ∨ sign = '-'.toUInt8 →
    after.head? ≠ some sign → inlineSpeed (before ++ [sign]) speed ≠ 0

instance (text : List UInt8) (speed : UInt8) : Decidable (RunsNonzero text speed) :=
  decidable_of_iff (∀ i < text.length, text.getD i 0 = '+'.toUInt8 ∨ text.getD i 0 = '-'.toUInt8 →
      (text.drop (i + 1)).head? ≠ some (text.getD i 0) →
        inlineSpeed (text.take i ++ [text.getD i 0]) speed ≠ 0) (by
    constructor
    · rintro h before sign after rfl
      have := h before.length (by simp)
      simpa [List.getD_eq_getElem?_getD] using this
    · intro h i hi
      have hsplit : text = text.take i ++ text.getD i 0 :: text.drop (i + 1) := by
        rw [List.getD_eq_getElem?_getD, List.getElem?_eq_getElem hi, Option.getD_some, List.getElem_cons_drop,
          List.take_append_drop]
      exact h _ _ _ hsplit)

def readText (char : CharType) (message : List UInt8) : List UInt8 :=
  message.takeWhile fun c => 0 < plainChar char c

theorem inlineSpeed_append (xs ys : List UInt8) (speed : UInt8) :
    inlineSpeed (xs ++ ys) speed = inlineSpeed ys (inlineSpeed xs speed) := by
  simp only [inlineSpeed, List.count_append, Nat.mul_add, UInt8.ofNat_add]
  grind

theorem inlineSpeed_minus (times : Nat) (speed : UInt8) :
    inlineSpeed (List.replicate times '-'.toUInt8) speed = speed - UInt8.ofNat (2 * times) := by
  have hplus : (List.replicate times '-'.toUInt8).count '+'.toUInt8 = 0 := by
    rw [List.count_replicate]
    rfl
  rw [inlineSpeed, hplus, List.count_replicate_self]
  simp

theorem inlineSpeed_plus (times : Nat) (speed : UInt8) :
    inlineSpeed (List.replicate times '+'.toUInt8) speed = speed + UInt8.ofNat (2 * times) := by
  have hminus : (List.replicate times '+'.toUInt8).count '-'.toUInt8 = 0 := by
    rw [List.count_replicate]
    rfl
  rw [inlineSpeed, hminus, List.count_replicate_self]
  simp

theorem RunsNonzero.drop {xs ys : List UInt8} {speed : UInt8} (h : RunsNonzero (xs ++ ys) speed) :
    RunsNonzero ys (inlineSpeed xs speed) := by
  intro before sign after heq hsign hafter
  rw [← inlineSpeed_append, ← List.append_assoc]
  refine h (xs ++ before) sign after ?_ hsign hafter
  rw [heq, List.append_assoc]

theorem readText_cons {char : CharType} {c : UInt8} (hc : ¬ plainChar char c ≤ 0) (ptr : List UInt8) :
    readText char (c :: ptr) = c :: readText char ptr := by
  rw [readText, List.takeWhile_cons_of_pos (by simpa using hc)]
  rfl

theorem readText_run {char : CharType} {sign : UInt8} (hc : ¬ plainChar char sign ≤ 0) (ptr : List UInt8) :
    readText char (sign :: ptr) =
        List.replicate ((ptr.takeWhile (· == sign)).length + 1) sign ++
          readText char (ptr.dropWhile (· == sign)) ∧
      (readText char (ptr.dropWhile (· == sign))).head? ≠ some sign := by
  constructor
  · induction ptr with
    | nil => simp [readText, List.takeWhile_cons, hc]
    | cons d ptr ih =>
        by_cases hd : d = sign
        · subst hd
          rw [readText_cons hc, ih]
          simp [List.replicate_succ]
        · rw [readText_cons hc]
          simp [hd]
  · induction ptr with
    | nil => nofun
    | cons d ptr ih =>
        by_cases hd : d = sign
        · rw [List.dropWhile_cons_of_pos (by simpa using hd)]
          exact ih
        · rw [List.dropWhile_cons_of_neg (by simpa using hd), readText, List.takeWhile_cons]
          split
          · simpa using hd
          · nofun

theorem runsNonzero_run {char : CharType} {sign : UInt8} (hsign : sign = '+'.toUInt8 ∨ sign = '-'.toUInt8)
    (hc : ¬ plainChar char sign ≤ 0) {ptr : List UInt8} {speed : UInt8}
    (h : RunsNonzero (readText char (sign :: ptr)) speed) :
    inlineSpeed (List.replicate ((ptr.takeWhile (· == sign)).length + 1) sign) speed ≠ 0 ∧
      RunsNonzero (readText char (ptr.dropWhile (· == sign)))
        (inlineSpeed (List.replicate ((ptr.takeWhile (· == sign)).length + 1) sign) speed) := by
  obtain ⟨heq, hhead⟩ := readText_run hc ptr
  rw [heq] at h
  refine ⟨?_, h.drop⟩
  rw [List.replicate_succ']
  refine h _ sign _ ?_ hsign hhead
  rw [List.replicate_succ', List.append_assoc]
  rfl

theorem toUpper_ne_zero {c : UInt8} (hc : isWinkeyerCommand c = false) : toUpper c ≠ 0 := by
  intro hzero
  have hup := toUpper_not_command hc
  rw [hzero] at hup
  cases hup

theorem zero_notMem_pushChar {char : CharType} {c : UInt8} (hc : 32 ≤ plainChar char c) {s : TextState}
    (h : 0 ∉ s.result) :
    0 ∉ (s.pushChar c).result := by
  have hup := toUpper_ne_zero (not_command_of_le hc)
  simp only [TextState.pushChar, List.mem_append, List.mem_cons, not_or]
  refine ⟨h, hup.symm, ?_⟩
  split
  · decide
  · nofun

theorem zero_notMem_textLoop (char : CharType) (ptr : List UInt8) (s : TextState) (h : 0 ∉ s.result)
    (hruns : RunsNonzero (readText char ptr) s.currentSpeed) : 0 ∉ (textLoop char ptr s).result := by
  have hpush {s : TextState} {speed : UInt8} (h : 0 ∉ s.result) (hspeed : speed ≠ 0) :
    0 ∉ (s.changeSpeed speed).result := by
    simp only [TextState.changeSpeed, List.mem_append, List.mem_cons, List.not_mem_nil, or_false, not_or]
    exact ⟨h, by decide, hspeed.symm⟩
  have hskip {c : UInt8} {ptr : List UInt8} {speed : UInt8} (hstop : ¬ plainChar char c ≤ 0)
    (hminus : c ≠ '-'.toUInt8)
      (hplus : c ≠ '+'.toUInt8) (hruns : RunsNonzero (readText char (c :: ptr)) speed) :
      RunsNonzero (readText char ptr) speed := by
    rw [readText_cons hstop] at hruns
    have hsame : inlineSpeed [c] speed = speed := by simp [inlineSpeed, hminus, hplus]
    rw [← hsame]
    exact RunsNonzero.drop hruns
  induction ptr, s using textLoop.induct char with
  | case1 s => simpa only [textLoop] using h
  | case2 c ptr s hstop => simpa only [textLoop, hstop, if_true] using h
  | case3 ptr s times hstop ih =>
      rw [textLoop, if_neg hstop, if_pos rfl]
      obtain ⟨hne, hrest⟩ := runsNonzero_run (.inr rfl) hstop hruns
      rw [inlineSpeed_minus] at hne hrest
      exact ih (hpush h hne) hrest
  | case4 ptr s times hstop hminus ih =>
      rw [textLoop, if_neg hstop, if_neg hminus, if_pos rfl]
      obtain ⟨hne, hrest⟩ := runsNonzero_run (.inl rfl) hstop hruns
      rw [inlineSpeed_plus] at hne hrest
      exact ih (hpush h hne) hrest
  | case5 ptr s hstop hminus hplus ih =>
      rw [textLoop, if_neg hstop, if_neg hminus, if_neg hplus, if_pos rfl]
      exact ih h (hskip hstop hminus hplus hruns)
  | case6 c ptr s hstop hminus hplus htilde ih =>
      rw [textLoop, if_neg hstop, if_neg hminus, if_neg hplus, if_neg htilde]
      have hruns := hskip hstop hminus hplus hruns
      refine ih ?_ ?_
      · split
        · rename_i hc
          exact zero_notMem_pushChar hc h
        · exact h
      · split
        · exact hruns
        · exact hruns

theorem zero_notMem_textMessage {char : CharType} {message : List UInt8} {speed : UInt8} (hspeed : speed ≠ 0)
    (hruns : RunsNonzero (readText char message) speed) : 0 ∉ textMessage char message speed := by
  have hloop := zero_notMem_textLoop char message ⟨speed, false, []⟩ List.not_mem_nil hruns
  simp only [textMessage, List.mem_append, not_or]
  refine ⟨hloop, ?_⟩
  split
  · simp [hspeed.symm]
  · exact List.not_mem_nil

section

variable {F : Type} [SinglePrecision F]

/-- A message brings no zero speed: its command asks for none, and none of its runs of signs reaches
zero. -/
def BringsNoZero (char : CharType) (p : Pace F) (message : List UInt8) : Prop :=
  if message.headD 0 = esc then ¬ SetsSpeed message (setSpeed p) 0
  else RunsNonzero (readText char message) (setSpeed p)

instance (char : CharType) (p : Pace F) (message : List UInt8) :
    Decidable (BringsNoZero char p message) :=
  inferInstanceAs (Decidable (if message.headD 0 = esc then ¬ SetsSpeed message (setSpeed p) 0
    else RunsNonzero (readText char message) (setSpeed p)))

structure Nonzero (p : Pace F) (es : List Effect) : Prop where
  speed : ∃ w : UInt8, w ≠ 0 ∧ p.speed = (w.toNat : F)
  characterWpm : ∃ c : UInt8, c ≠ 0 ∧ p.characterWpm = (c.toNat : F)
  farnsworthWpm : ∃ c : UInt8, c ≠ 0 ∧ p.farnsworthWpm = (c.toNat : F)
  buffer : 0 ∉ p.buffer.contents
  puts : .put 0 ∉ es
  speeds : .speed 0 ∉ es

theorem nonzero_fetch {p p' : Pace F} {es : List Effect} (h : Fetch p p') (hp : Nonzero p es) :
    Nonzero p' es := by
  have hbuffer := hp.buffer
  cases h with
  | same heq => exact heq ▸ hp
  | take c rest hbuf hlen hne buffer hrest hmax heq =>
      subst heq
      rw [hbuf, List.mem_cons, not_or] at hbuffer
      refine ⟨?_, hp.characterWpm, hp.farnsworthWpm, ?_, hp.puts, hp.speeds⟩
      · dsimp only
        split
        · rename_i hspeed
          subst hspeed
          cases rest with
          | nil => cases hlen
          | cons v rest =>
              refine ⟨v, ?_, rfl⟩
              rintro rfl
              exact hbuffer.2 List.mem_cons_self
        · exact hp.speed
      · dsimp only
        rw [hrest]
        exact fun hmem => hbuffer.2 (List.mem_of_mem_drop hmem)
  | reset rest hbuf buffer hempty hmax heq =>
      subst heq
      refine ⟨hp.speed, hp.characterWpm, hp.farnsworthWpm, ?_, hp.puts, hp.speeds⟩
      dsimp only
      rw [hempty]
      nofun

theorem nonzero_perform {p : Pace F} {e : Effect} {es : List Effect} (hp : Nonzero p (e :: es)) :
    Nonzero (p.perform e) es := by
  obtain ⟨hput, hputs⟩ := not_or.mp (List.mem_cons.not.mp hp.puts)
  obtain ⟨hset, hspeeds⟩ := not_or.mp (List.mem_cons.not.mp hp.speeds)
  cases e with
  | put b =>
      have hb : b ≠ 0 := fun hb => hput (by rw [hb])
      refine ⟨hp.speed, hp.characterWpm, hp.farnsworthWpm, ?_, hputs, hspeeds⟩
      cases hfull : p.buffer.full with
      | false =>
          have hcontents : (p.perform (.put b)).buffer.contents = p.buffer.contents ++ [b] :=
            p.buffer.contents_put b hfull
          rw [hcontents, List.mem_append, List.mem_singleton, not_or]
          exact ⟨hp.buffer, hb.symm⟩
      | true =>
          have hcontents : (p.perform (.put b)).buffer.contents = p.buffer.contents.tail ++ [b] :=
            p.buffer.contents_put_full b hfull
          rw [hcontents, List.mem_append, List.mem_singleton, not_or]
          exact ⟨fun hmem => hp.buffer (List.mem_of_mem_tail hmem), hb.symm⟩
  | speed wpm =>
      have hwpm : wpm ≠ 0 := fun hwpm => hset (by rw [hwpm])
      exact ⟨⟨wpm, hwpm, rfl⟩, ⟨wpm, hwpm, rfl⟩, ⟨wpm, hwpm, rfl⟩, hp.buffer, hputs, hspeeds⟩
  | clear =>
      refine ⟨hp.speed, hp.characterWpm, hp.farnsworthWpm, ?_, hputs, hspeeds⟩
      have hcontents : (p.perform .clear).buffer.contents = [] := CircularBuffer.contents_reset _
      rw [hcontents]
      nofun

theorem nonzero_receive [ExactBytes F] {char : CharType} {p : Pace F} {message : List UInt8}
    {es : List Effect} (hok : BringsNoZero char p message) (ht : Translation char message (setSpeed p) es)
    (hp : Nonzero p []) : Nonzero p es := by
  have hwith {es : List Effect} (hputs : .put 0 ∉ es) (hspeeds : .speed 0 ∉ es) : Nonzero p es :=
    ⟨hp.speed, hp.characterWpm, hp.farnsworthWpm, hp.buffer, hputs, hspeeds⟩
  cases ht with
  | text htext =>
      rw [BringsNoZero, if_neg htext] at hok
      obtain ⟨c, hc, hset⟩ := hp.characterWpm
      have hspeed : setSpeed p = c := by
        rw [setSpeed, hset, ExactBytes.toUInt8_cast]
      have hzero := zero_notMem_textMessage (by rw [hspeed]; exact hc) hok
      refine hwith ?_ ?_
      · intro hmem
        obtain ⟨b, hb, heq⟩ := List.mem_map.mp hmem
        cases heq
        exact hzero hb
      · intro hmem
        obtain ⟨b, -, heq⟩ := List.mem_map.mp hmem
        cases heq
  | speed hesc v hv =>
      rw [BringsNoZero, if_pos hesc] at hok
      refine hwith (by simp) ?_
      intro hmem
      cases List.mem_singleton.mp hmem
      exact hok hv
  | clear hesc hc => exact hwith (by simp) (by simp)
  | silent hesc => exact hp

/-- No speed is ever zero in a run whose messages bring none, between two calls of update and within one. -/
theorem speeds_nonzero [ExactBytes F] (char : CharType) (a : Readings) (initialWpm : UInt8)
    (hwpm : initialWpm ≠ 0) (acts : List Action) (s : Service F)
    (h : Run (step char) (Allowed (fun _ _ => True) (BringsNoZero char)) (start a initialWpm) acts s)
    (passes : List Readings) (k : Keyer F) (hk : k = updateLoop (passes.map keyInterface) s.keyer) :
    k.winkeyerSpeedWpm ≠ ((0 : Nat) : F) ∧ k.profile.style.characterWpm ≠ ((0 : Nat) : F) ∧
      k.profile.style.farnsworthWpm ≠ ((0 : Nat) : F) := by
  have hstart : Nonzero (pace (start a initialWpm : Service F).keyer) [] := by
    rw [pace_start]
    exact ⟨⟨_, hwpm, rfl⟩, ⟨_, hwpm, rfl⟩, ⟨_, hwpm, rfl⟩, by simp, nofun, nofun⟩
  have hserving := serving_run Nonzero (fun p p' es hf hp => nonzero_fetch hf hp)
    (fun p e es _ hp => nonzero_perform hp) (fun p message es hok ht hp => nonzero_receive hok ht hp) hstart h
  have hpasses := (passes_fetch (Nonzero · (todo s)) (fun p p' hf hp => nonzero_fetch hf hp) passes
    hserving.unlatched hserving.inv).2
  rw [← hk] at hpasses
  have hne {x : F} (hx : ∃ c : UInt8, c ≠ 0 ∧ x = (c.toNat : F)) : x ≠ ((0 : Nat) : F) := by
    obtain ⟨c, hc, rfl⟩ := hx
    exact fun hzero => hc (ExactBytes.cast_inj.mp hzero)
  exact ⟨hne hpasses.speed, hne hpasses.characterWpm, hne hpasses.farnsworthWpm⟩

end

def twoMessages : List Action :=
  [quiet 0, datagram [27, 0x32, 0x33, 0x30] 0, quiet 0, quiet 0, quiet 0, quiet 0, quiet 0,
    datagram [0x2B, 0x45, 0x2D, 0x2D] 0]

theorem speeds_nonzero_after_twoMessages :
    ∃ s, Run (step .signed) (Allowed (fun _ _ => True) (BringsNoZero .signed)) (start (.at 0) 24 : Service ℚ)
      twoMessages s ∧ s.keyer.winkeyerSpeedWpm ≠ ((0 : Nat) : ℚ) := by
  obtain ⟨s, hrun, -⟩ := run_of_exec_map (step .signed) (Allowed (fun _ _ => True) (BringsNoZero .signed))
    (start (.at 0) 24 : Service ℚ) twoMessages (fun s => toFeed s.client) [0x1C, 32, 0x45, 0x1C, 28, 0x1C, 30]
    (by decide +kernel)
  exact ⟨s, hrun, (speeds_nonzero .signed (.at 0) 24 (by decide) twoMessages s hrun [] s.keyer rfl).1⟩

/-- ESC 2 0 sets all three speeds to zero. -/
theorem speed_zero_reached :
    ∃ s, Run (step .signed) (fun _ _ => True) (start (.at 0) 24 : Service ℚ)
        [quiet 0, datagram [27, 0x32, 0x30] 0, quiet 0, quiet 0] s ∧
      s.keyer.winkeyerSpeedWpm = 0 ∧ s.keyer.profile.style.characterWpm = 0 ∧
      s.keyer.profile.style.farnsworthWpm = 0 := by
  obtain ⟨s, hrun, hview⟩ := run_of_exec_map (step .signed) (fun _ _ => True) (start (.at 0) 24 : Service ℚ)
    [quiet 0, datagram [27, 0x32, 0x30] 0, quiet 0, quiet 0]
    (fun s => (s.keyer.winkeyerSpeedWpm, s.keyer.profile.style.characterWpm,
      s.keyer.profile.style.farnsworthWpm)) (0, 0, 0) (by decide +kernel)
  simp only [Prod.mk.injEq] at hview
  exact ⟨s, hrun, hview⟩

end Cwsd.NonzeroSpeeds
