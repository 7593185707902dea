import Cwsd.Stoi

namespace Cwsd.CwDaemon

open Stoi

/-- Whether plain char is signed: it is on x86_64 and is not on arm64. -/
inductive CharType
  | signed
  | unsigned
  deriving DecidableEq, Repr

def plainChar : CharType → UInt8 → Int
  | .signed, c => if c < 0x80 then c.toNat else (c.toNat : Int) - 256
  | .unsigned, c => c.toNat

def toUpper (c : UInt8) : UInt8 := if 0x61 ≤ c ∧ c ≤ 0x7A then c - 0x20 else c

def esc : UInt8 := 27

structure TextState where
  currentSpeed : UInt8
  isGap : Bool
  result : List UInt8
  deriving DecidableEq, Repr

def TextState.changeSpeed (s : TextState) (speed : UInt8) : TextState :=
  { s with currentSpeed := speed, result := s.result ++ [0x1C, speed] }

def TextState.pushChar (s : TextState) (c : UInt8) : TextState :=
  { s with
    isGap := false
    result := s.result ++ toUpper c :: if s.isGap then List.replicate 4 '|'.toUInt8 else [] }

/-- The loop over the text: ptr is the part of the message not yet read. -/
def textLoop (char : CharType) : List UInt8 → TextState → TextState
  | [], s => s
  | c :: ptr, s =>
      if plainChar char c ≤ 0 then s
      else if c = '-'.toUInt8 then
        let times := (ptr.takeWhile (· == '-'.toUInt8)).length + 1
        textLoop char (ptr.dropWhile (· == '-'.toUInt8))
          (s.changeSpeed (s.currentSpeed - UInt8.ofNat (2 * times)))
      else if c = '+'.toUInt8 then
        let times := (ptr.takeWhile (· == '+'.toUInt8)).length + 1
        textLoop char (ptr.dropWhile (· == '+'.toUInt8))
          (s.changeSpeed (s.currentSpeed + UInt8.ofNat (2 * times)))
      else if c = '~'.toUInt8 then textLoop char ptr { s with isGap := true }
      else textLoop char ptr (if 32 ≤ plainChar char c then s.pushChar c else s)
termination_by ptr => ptr.length
decreasing_by
  all_goals
    try have hd := (List.dropWhile_sublist (l := ptr) (· == '-'.toUInt8)).length_le
    try have hp := (List.dropWhile_sublist (l := ptr) (· == '+'.toUInt8)).length_le
    simp only [List.length_cons]
    omega

theorem toNat_ofInt (value : Int) : ((UInt8.ofInt value).toNat : Int) = value % 256 := by
  have hnonneg := Int.emod_nonneg value (by decide : (256 : Int) ≠ 0)
  have hlt := Int.emod_lt_of_pos value (by decide : (0 : Int) < 256)
  rw [UInt8.ofInt, UInt8.toNat_ofNat']
  omega

/-- The weight of ESC 7, narrowed to a byte before it is clamped. -/
def clampWeight (weight : UInt8) : UInt8 :=
  let weight := if weight < 10 then 10 else weight
  if 90 < weight then 90 else weight

def escapeCommand (command : UInt8) (text : List UInt8) (initialSpeed : UInt8) :
    Except StdException (List UInt8) :=
  if command = '2'.toUInt8 then do
    let speed ← stoi text
    pure [0x02, UInt8.ofInt speed]
  else if command = '4'.toUInt8 then pure [0x0A]
  else if command = '7'.toUInt8 then do
    let weight ← stoi text
    pure [0x03, clampWeight (UInt8.ofInt (50 + weight))]
  else if command = 'c'.toUInt8 then do
    let seconds ← stoi text
    pure [0x0B, 1, UInt8.ofInt seconds]
  else if command = 'u'.toUInt8 then do
    let delta ← stoi text
    pure [0x02, initialSpeed + UInt8.ofInt delta]
  else if command = 'd'.toUInt8 then do
    let delta ← stoi text
    pure [0x02, initialSpeed - UInt8.ofInt delta]
  else pure []

def textMessage (char : CharType) (input : List UInt8) (initialSpeed : UInt8) : List UInt8 :=
  let s := textLoop char input ⟨initialSpeed, false, []⟩
  s.result ++ if s.currentSpeed ≠ initialSpeed then [0x1C, initialSpeed] else []

/-- The message is terminated by NUL, so a first byte ESC is followed by another byte. -/
def toWinkeyer (char : CharType) (input : List UInt8) (initialSpeed : UInt8) :
    Except StdException (List UInt8) :=
  if input.headD 0 ≠ esc then pure (textMessage char input initialSpeed)
  else escapeCommand (input.getD 1 0) (input.drop 2) initialSpeed

def isTuningCommand (message : List UInt8) : Bool :=
  decide (2 < message.length) && message.getD 0 0 == 0x0B && message.getD 1 0 == 1

def numericCommands : List UInt8 :=
  ['2'.toUInt8, '7'.toUInt8, 'c'.toUInt8, 'u'.toUInt8, 'd'.toUInt8]

/-- A message that asks for a number either brings one that fits an int or is not
an escape command with a number at all. -/
def NumberPresent (message : List UInt8) : Prop :=
  ∀ command text, message = esc :: command :: text → command ∈ numericCommands →
    ∃ value, LeadingInt text value ∧ intMin ≤ value ∧ value ≤ intMax

theorem escapeCommand_ok_iff (command : UInt8) (text : List UInt8) (initialSpeed : UInt8) :
    (∃ bytes, escapeCommand command text initialSpeed = .ok bytes) ↔
      (command ∈ numericCommands → ∃ value, stoi text = .ok value) := by
  have hbind (f : Int → List UInt8) :
      (∃ bytes, (do let v ← stoi text; pure (f v) : Except StdException (List UInt8)) = .ok bytes) ↔
        ∃ value, stoi text = .ok value := by
    cases hs : stoi text with
    | error e => simp [bind, Except.bind]
    | ok v => simp [bind, Except.bind, pure, Except.pure]
  have hpure (bytes : List UInt8) :
      ∃ out, (pure bytes : Except StdException (List UInt8)) = .ok out := ⟨bytes, rfl⟩
  by_cases h2 : command = '2'.toUInt8
  · have hmem : command ∈ numericCommands := by simp [numericCommands, h2]
    rw [escapeCommand, if_pos h2, hbind]
    exact ⟨fun h _ => h, fun h => h hmem⟩
  by_cases h7 : command = '7'.toUInt8
  · have hmem : command ∈ numericCommands := by simp [numericCommands, h7]
    rw [escapeCommand, if_neg h2, if_neg (by rw [h7]; decide), if_pos h7, hbind]
    exact ⟨fun h _ => h, fun h => h hmem⟩
  by_cases hc : command = 'c'.toUInt8
  · have hmem : command ∈ numericCommands := by simp [numericCommands, hc]
    rw [escapeCommand, if_neg h2, if_neg (by rw [hc]; decide), if_neg h7, if_pos hc, hbind]
    exact ⟨fun h _ => h, fun h => h hmem⟩
  by_cases hu : command = 'u'.toUInt8
  · have hmem : command ∈ numericCommands := by simp [numericCommands, hu]
    rw [escapeCommand, if_neg h2, if_neg (by rw [hu]; decide), if_neg h7, if_neg hc, if_pos hu, hbind]
    exact ⟨fun h _ => h, fun h => h hmem⟩
  by_cases hd : command = 'd'.toUInt8
  · have hmem : command ∈ numericCommands := by simp [numericCommands, hd]
    rw [escapeCommand, if_neg h2, if_neg (by rw [hd]; decide), if_neg h7, if_neg hc, if_neg hu, if_pos hd, hbind]
    exact ⟨fun h _ => h, fun h => h hmem⟩
  have hnot : command ∉ numericCommands := by
    simp [numericCommands, h2, h7, hc, hu, hd]
  simp only [hnot, false_imp_iff, iff_true, escapeCommand, h2, h7, hc, hu, hd, if_false]
  split
  · exact hpure _
  · exact hpure _

inductive Escape (command : UInt8) (text : List UInt8) (initialSpeed : UInt8) : List UInt8 → Prop
  | speed (value : Int) (hc : command = '2'.toUInt8) (hv : stoi text = .ok value) :
      Escape command text initialSpeed [0x02, UInt8.ofInt value]
  | abort (hc : command = '4'.toUInt8) : Escape command text initialSpeed [0x0A]
  | weight (value : UInt8) (hc : command = '7'.toUInt8) : Escape command text initialSpeed [0x03, value]
  | tune (seconds : UInt8) (hc : command = 'c'.toUInt8) : Escape command text initialSpeed [0x0B, 1, seconds]
  | up (delta : Int) (hc : command = 'u'.toUInt8) (hv : stoi text = .ok delta) :
      Escape command text initialSpeed [0x02, initialSpeed + UInt8.ofInt delta]
  | down (delta : Int) (hc : command = 'd'.toUInt8) (hv : stoi text = .ok delta) :
      Escape command text initialSpeed [0x02, initialSpeed - UInt8.ofInt delta]
  | unknown : Escape command text initialSpeed []

theorem escape_of_ok {command initialSpeed : UInt8} {text bytes : List UInt8}
    (h : escapeCommand command text initialSpeed = .ok bytes) : Escape command text initialSpeed bytes := by
  have hbind {f : Int → List UInt8}
      (h : (do let v ← stoi text; pure (f v) : Except StdException (List UInt8)) = .ok bytes) :
      ∃ v, stoi text = .ok v ∧ bytes = f v := by
    cases hs : stoi text with
    | error e =>
        rw [hs] at h
        cases h
    | ok v =>
        rw [hs] at h
        cases h
        exact ⟨v, rfl, rfl⟩
  simp only [escapeCommand] at h
  split at h
  · rename_i hc
    obtain ⟨v, hv, rfl⟩ := hbind h
    exact .speed v hc hv
  split at h
  · rename_i hc
    cases h
    exact .abort hc
  split at h
  · rename_i hc
    obtain ⟨v, hv, rfl⟩ := hbind h
    exact .weight _ hc
  split at h
  · rename_i hc
    obtain ⟨v, hv, rfl⟩ := hbind h
    exact .tune _ hc
  split at h
  · rename_i hc
    obtain ⟨v, hv, rfl⟩ := hbind h
    exact .up v hc hv
  split at h
  · rename_i hc
    obtain ⟨v, hv, rfl⟩ := hbind h
    exact .down v hc hv
  · cases h
    exact .unknown

theorem toWinkeyer_ok_iff (char : CharType) (message : List UInt8) (hlen : 2 ≤ message.length)
    (initialSpeed : UInt8) :
    (∃ bytes, toWinkeyer char message initialSpeed = .ok bytes) ↔ NumberPresent message := by
  obtain ⟨a, b, text, rfl⟩ : ∃ a b text, message = a :: b :: text := by
    match message, hlen with
    | a :: b :: text, _ => exact ⟨a, b, text, rfl⟩
  by_cases ha : a = esc
  · subst ha
    simp only [toWinkeyer, List.headD_cons, ne_eq, not_true_eq_false, if_false, List.getD_cons_succ,
      List.getD_cons_zero, List.drop_succ_cons, List.drop_zero, escapeCommand_ok_iff, stoi_ok_iff]
    constructor
    · intro h command text' heq
      cases heq
      exact h
    · intro h
      exact h b text rfl
  · simp only [toWinkeyer, List.headD_cons, ne_eq, ha, not_false_eq_true, if_true]
    constructor
    · intro _ command text' heq
      cases heq
      exact absurd rfl ha
    · intro _
      exact ⟨_, rfl⟩

end Cwsd.CwDaemon
