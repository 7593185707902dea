import Cwsd.TextScan

namespace Cwsd.TextSaturation

open CwDaemon Stoi NonzeroSpeeds TextScan

variable {char : CharType} {message : List UInt8} {speed : UInt8}

def saturate (value : Int) : UInt8 := UInt8.ofInt (max 0 (min 255 value))

/-- The weight of ESC 7 for a value of any size. -/
def saturateWeight (value : Int) : UInt8 := UInt8.ofInt (max 10 (min 90 value))

/-- A longest run of one sign in a text. -/
structure SignRun (text before : List UInt8) (sign : UInt8) (times : Nat) (after : List UInt8) : Prop where
  split : text = before ++ (List.replicate times sign ++ after)
  isSign : IsSign sign
  pos : 0 < times
  left : before.getLast? ≠ some sign
  right : after.head? ≠ some sign

/-- Behind the bytes for the text before it, each run of signs writes a speed on its side of the
running one. -/
def RunsSaturate (char : CharType) (message : List UInt8) (speed : UInt8) : Prop :=
  ∀ before sign times after, SignRun (readText char message) before sign times after →
    ∃ v rest,
      textMessage char message speed =
        (textLoop char before ⟨speed, false, []⟩).result ++ 0x1C :: v :: rest ∧
      (sign = '-'.toUInt8 → v ≤ (textLoop char before ⟨speed, false, []⟩).currentSpeed) ∧
      (sign = '+'.toUInt8 → (textLoop char before ⟨speed, false, []⟩).currentSpeed ≤ v)

def EscapesSaturate (char : CharType) (message : List UInt8) (speed : UInt8) : Prop :=
  ∀ command text n, message = esc :: command :: text → stoi text = .ok n →
    (command = '2'.toUInt8 → toWinkeyer char message speed = .ok [0x02, saturate n]) ∧
    (command = '7'.toUInt8 → toWinkeyer char message speed = .ok [0x03, saturateWeight (50 + n)]) ∧
    (command = 'u'.toUInt8 → 0 ≤ n → toWinkeyer char message speed = .ok [0x02, saturate (speed.toNat + n)]) ∧
    (command = 'd'.toUInt8 → 0 ≤ n → toWinkeyer char message speed = .ok [0x02, saturate (speed.toNat - n)])

/-- The arithmetic of the translation does not wrap. -/
def NeverWraps (char : CharType) (message : List UInt8) (speed : UInt8) : Prop :=
  (message.headD 0 ≠ esc → RunsSaturate char message speed) ∧ EscapesSaturate char message speed

/-- Twice the length of each run, modulo 256, is in reach of the running speed. -/
def RunsFit (char : CharType) (message : List UInt8) (speed : UInt8) : Prop :=
  ∀ before sign times after, SignRun (readText char message) before sign times after →
    (sign = '-'.toUInt8 → 2 * times % 256 ≤ (inlineSpeed before speed).toNat) ∧
    (sign = '+'.toUInt8 → (inlineSpeed before speed).toNat + 2 * times % 256 ≤ 255)

/-- The value is a byte, or wraps to just the bound that it exceeds. -/
def Fits (value : Int) : Prop :=
  0 ≤ value ∧ value ≤ 255 ∨ value < 0 ∧ value % 256 = 0 ∨ 255 < value ∧ value % 256 = 255

def FitsWeight (value : Int) : Prop :=
  0 ≤ value ∧ value ≤ 255 ∨ value < 0 ∧ value % 256 ≤ 10 ∨ 255 < value ∧ 90 ≤ value % 256

instance (value : Int) : Decidable (FitsWeight value) := inferInstanceAs (Decidable (_ ∨ _))

def EscapesFit (message : List UInt8) (speed : UInt8) : Prop :=
  ∀ command text n, message = esc :: command :: text → stoi text = .ok n →
    (command = '2'.toUInt8 → Fits n) ∧
    (command = '7'.toUInt8 → FitsWeight (50 + n)) ∧
    (command = 'u'.toUInt8 → 0 ≤ n → Fits (speed.toNat + n)) ∧
    (command = 'd'.toUInt8 → 0 ≤ n → Fits (speed.toNat - n))

theorem ofInt_eq_iff {a b : Int} : UInt8.ofInt a = UInt8.ofInt b ↔ a % 256 = b % 256 := by
  rw [← UInt8.toNat_inj, ← Int.natCast_inj, toNat_ofInt, toNat_ofInt]

theorem saturate_iff (value : Int) : UInt8.ofInt value = saturate value ↔ Fits value := by
  rw [saturate, ofInt_eq_iff, Fits]
  omega

theorem toNat_clampWeight (weight : UInt8) : (clampWeight weight).toNat = max 10 (min 90 weight.toNat) := by
  by_cases hl : weight < 10
  · have hnot : ¬ (90 : UInt8) < 10 := by decide
    rw [clampWeight, if_pos hl, if_neg hnot]
    simp only [UInt8.lt_iff_toNat_lt, UInt8.reduceToNat] at hl ⊢
    omega
  by_cases hh : 90 < weight
  · rw [clampWeight, if_neg hl, if_pos hh]
    simp only [UInt8.lt_iff_toNat_lt, UInt8.reduceToNat] at hh ⊢
    omega
  · rw [clampWeight, if_neg hl, if_neg hh]
    simp only [UInt8.lt_iff_toNat_lt, UInt8.reduceToNat] at hl hh
    omega

theorem saturateWeight_iff (value : Int) :
    clampWeight (UInt8.ofInt value) = saturateWeight value ↔ FitsWeight value := by
  have hbyte := toNat_ofInt value
  have hbound := toNat_ofInt (max 10 (min 90 value))
  rw [← UInt8.toNat_inj, toNat_clampWeight, saturateWeight, FitsWeight]
  omega

theorem result_scan (text : List UInt8) (s : TextState) : ∃ tail, (scan text s).result = s.result ++ tail := by
  induction text generalizing s with
  | nil => exact ⟨[], (List.append_nil _).symm⟩
  | cons c text ih =>
      obtain ⟨tail, htail⟩ := ih (readByte c text.head? s)
      obtain ⟨bytes, hbytes⟩ : ∃ bytes, (readByte c text.head? s).result = s.result ++ bytes := by
        simp only [readByte]
        split
        · split
          · exact ⟨[], (List.append_nil _).symm⟩
          · exact ⟨_, rfl⟩
        split
        · exact ⟨[], (List.append_nil _).symm⟩
        split
        · exact ⟨_, rfl⟩
        · exact ⟨[], (List.append_nil _).symm⟩
      exact ⟨bytes ++ tail, by rw [scan, htail, hbytes, List.append_assoc]⟩

theorem scan_append {xs ys : List UInt8} (h : ∀ c ∈ xs.getLast?, ys.head? ≠ some c) (s : TextState) :
    scan (xs ++ ys) s = scan ys (scan xs s) := by
  induction xs generalizing s with
  | nil => rfl
  | cons c xs ih =>
      have hread : readByte c (xs ++ ys).head? s = readByte c xs.head? s := by
        cases xs with
        | nil =>
            have hne : ys.head? ≠ some c := h c rfl
            simp [readByte, hne]
        | cons d xs => rfl
      rw [List.cons_append, scan, scan, hread]
      refine ih ?_ _
      intro d hd
      refine h d ?_
      rw [List.getLast?_cons, Option.mem_def.mp hd]
      rfl

theorem textLoop_before {before rest : List UInt8} (htext : readText char message = before ++ rest) :
    textLoop char before ⟨speed, false, []⟩ = scan before ⟨speed, false, []⟩ := by
  have hread : readText char before = before := by
    have hself : (before ++ rest).takeWhile (fun c => 0 < plainChar char c) = before ++ rest := by
      rw [← htext, readText, List.takeWhile_takeWhile]
      simp
    rw [readText, List.takeWhile_eq_self_iff]
    intro c hc
    exact List.takeWhile_eq_self_iff.mp hself c (List.mem_append_left _ hc)
  rw [textLoop_eq, hread]

theorem currentSpeed_scan (text : List UInt8) :
    (scan text ⟨speed, false, []⟩).currentSpeed = inlineSpeed text speed := by
  have hscan := scan_eq speed [] text []
  have hstart : inlineSpeed [] speed = speed := by simp [inlineSpeed]
  rw [hstart, show gapAfter [] = false from rfl] at hscan
  rw [hscan]
  rfl

theorem textMessage_run (speed : UInt8) {before after : List UInt8} {sign : UInt8} {times : Nat}
    (hrun : SignRun (readText char message) before sign times after) :
    ∃ rest, textMessage char message speed = (textLoop char before ⟨speed, false, []⟩).result ++
      0x1C :: inlineSpeed (List.replicate times sign) (inlineSpeed before speed) :: rest := by
  obtain ⟨n, rfl⟩ : ∃ n, times = n + 1 := ⟨times - 1, by have := hrun.pos; omega⟩
  have hcut (c : UInt8) (hc : c ∈ before.getLast?) :
      (List.replicate (n + 1) sign ++ after).head? ≠ some c := by
    intro hhead
    rw [List.replicate_succ, List.cons_append, List.head?_cons] at hhead
    exact hrun.left (hhead ▸ hc)
  rw [textMessage, textLoop_eq, hrun.split, scan_append hcut, scan_run hrun.isSign _ hrun.right,
    textLoop_before hrun.split, currentSpeed_scan]
  obtain ⟨tail, htail⟩ := result_scan after ((scan before ⟨speed, false, []⟩).changeSpeed
    (inlineSpeed (List.replicate (n + 1) sign) (inlineSpeed before speed)))
  rw [htail]
  simp [TextState.changeSpeed]

theorem minus_le_iff (times : Nat) (w : UInt8) :
    inlineSpeed (List.replicate times '-'.toUInt8) w ≤ w ↔ 2 * times % 256 ≤ w.toNat := by
  have hlt := w.toNat_lt
  rw [inlineSpeed_minus, UInt8.le_iff_toNat_le, UInt8.toNat_sub, UInt8.toNat_ofNat']
  omega

theorem le_plus_iff (times : Nat) (w : UInt8) :
    w ≤ inlineSpeed (List.replicate times '+'.toUInt8) w ↔ w.toNat + 2 * times % 256 ≤ 255 := by
  have hlt := w.toNat_lt
  rw [inlineSpeed_plus, UInt8.le_iff_toNat_le, UInt8.toNat_add, UInt8.toNat_ofNat']
  omega

theorem runsSaturate_iff : RunsSaturate char message speed ↔ RunsFit char message speed := by
  constructor
  · intro h before sign times after hrun
    obtain ⟨v, rest, hbytes, hminus, hplus⟩ := h before sign times after hrun
    obtain ⟨rest', hbytes'⟩ := textMessage_run speed hrun
    have hcons := List.append_cancel_left (hbytes.symm.trans hbytes')
    obtain ⟨rfl, -⟩ := List.cons.inj (List.cons.inj hcons).2
    rw [textLoop_before hrun.split, currentSpeed_scan] at hminus hplus
    constructor
    · rintro rfl
      exact (minus_le_iff times _).mp (hminus rfl)
    · rintro rfl
      exact (le_plus_iff times _).mp (hplus rfl)
  · intro h before sign times after hrun
    obtain ⟨hminus, hplus⟩ := h before sign times after hrun
    obtain ⟨rest, hbytes⟩ := textMessage_run speed hrun
    refine ⟨_, rest, hbytes, ?_⟩
    rw [textLoop_before hrun.split, currentSpeed_scan]
    constructor
    · rintro rfl
      exact (minus_le_iff times _).mpr (hminus rfl)
    · rintro rfl
      exact (le_plus_iff times _).mpr (hplus rfl)

theorem add_ofInt (speed : UInt8) (n : Int) : speed + UInt8.ofInt n = UInt8.ofInt (speed.toNat + n) := by
  have hbyte := toNat_ofInt n
  have hsum := toNat_ofInt (speed.toNat + n)
  rw [← UInt8.toNat_inj, UInt8.toNat_add]
  omega

theorem sub_ofInt (speed : UInt8) (n : Int) : speed - UInt8.ofInt n = UInt8.ofInt (speed.toNat - n) := by
  have hbyte := toNat_ofInt n
  have hsum := toNat_ofInt (speed.toNat - n)
  have hlt := (UInt8.ofInt n).toNat_lt
  rw [← UInt8.toNat_inj, UInt8.toNat_sub]
  omega

section

variable {text : List UInt8} {n : Int}

theorem escapeCommand_speed (hn : stoi text = .ok n) :
    escapeCommand '2'.toUInt8 text speed = .ok [0x02, UInt8.ofInt n] := by
  rw [escapeCommand, if_pos rfl, hn]
  rfl

theorem escapeCommand_weight (hn : stoi text = .ok n) :
    escapeCommand '7'.toUInt8 text speed = .ok [0x03, clampWeight (UInt8.ofInt (50 + n))] := by
  rw [escapeCommand, if_neg (by decide), if_neg (by decide), if_pos rfl, hn]
  rfl

theorem escapeCommand_up (hn : stoi text = .ok n) :
    escapeCommand 'u'.toUInt8 text speed = .ok [0x02, UInt8.ofInt (speed.toNat + n)] := by
  rw [escapeCommand, if_neg (by decide), if_neg (by decide), if_neg (by decide), if_neg (by decide), if_pos rfl,
    hn, ← add_ofInt]
  rfl

theorem escapeCommand_down (hn : stoi text = .ok n) :
    escapeCommand 'd'.toUInt8 text speed = .ok [0x02, UInt8.ofInt (speed.toNat - n)] := by
  rw [escapeCommand, if_neg (by decide), if_neg (by decide), if_neg (by decide), if_neg (by decide),
    if_neg (by decide), if_pos rfl, hn, ← sub_ofInt]
  rfl

end

theorem escapesSaturate_iff : EscapesSaturate char message speed ↔ EscapesFit message speed := by
  have hok (command : UInt8) (a b : UInt8) :
      (Except.ok [command, a] : Except StdException (List UInt8)) = .ok [command, b] ↔ a = b := by simp
  refine forall_congr' fun command => forall_congr' fun text => forall_congr' fun n =>
    forall_congr' fun hmessage => forall_congr' fun hn => ?_
  have htranslate : toWinkeyer char message speed = escapeCommand command text speed := by
    rw [hmessage]
    rfl
  rw [htranslate]
  refine and_congr ?_ (and_congr ?_ (and_congr ?_ ?_))
  · refine forall_congr' ?_
    rintro rfl
    rw [escapeCommand_speed hn, hok, saturate_iff]
  · refine forall_congr' ?_
    rintro rfl
    rw [escapeCommand_weight hn, hok, saturateWeight_iff]
  · refine forall_congr' ?_
    rintro rfl
    rw [escapeCommand_up hn, hok, saturate_iff]
  · refine forall_congr' ?_
    rintro rfl
    rw [escapeCommand_down hn, hok, saturate_iff]

/-- The translation saturates where its sums stay in range, and only there. -/
theorem never_wraps_iff (char : CharType) (message : List UInt8) (speed : UInt8) :
    NeverWraps char message speed ↔
      (message.headD 0 ≠ esc → RunsFit char message speed) ∧ EscapesFit message speed :=
  and_congr (imp_congr_right fun _ => runsSaturate_iff) escapesSaturate_iff

def lowWeight : List UInt8 := [27, 0x37, 0x2D, 0x35, 0x31, 0]

def thirteenMinus : List UInt8 := List.replicate 13 '-'.toUInt8 ++ [0]

theorem lowWeight_wraps :
    toWinkeyer .signed lowWeight 24 = .ok [0x03, 90] ∧
      toWinkeyer .signed thirteenMinus 24 = .ok [0x1C, 254, 0x1C, 24] ∧
      ¬ NeverWraps .signed lowWeight 24 ∧ ¬ NeverWraps .signed thirteenMinus 24 := by
  have hweight : ¬ EscapesFit lowWeight 24 := by
    intro h
    have hn : stoi [0x2D, 0x35, 0x31, 0] = .ok (-51) := by decide
    have hfits := (h 0x37 [0x2D, 0x35, 0x31, 0] (-51) rfl hn).2.1 rfl
    revert hfits
    decide
  have hrun : ¬ RunsFit .signed thirteenMinus 24 := by
    intro h
    have hfits := (h [] '-'.toUInt8 13 [] ⟨by decide, .inr rfl, by decide, nofun, nofun⟩).1 rfl
    revert hfits
    decide
  refine ⟨rfl, ?_, fun h => hweight (escapesSaturate_iff.mp h.2),
    fun h => hrun (runsSaturate_iff.mp (h.1 (by decide)))⟩
  rw [toWinkeyer, if_pos (by decide), textMessage_eq]
  rfl

end Cwsd.TextSaturation
