import Cwsd.InlineSpeed
import Cwsd.TextScan

namespace Cwsd.TextFrames

open KeyerMachine CwDaemon WinkeyerFeed Framing NonzeroSpeeds TextScan
open WinkeyerFraming (frameArity frameArity_text)

/-- The bytes of each frame, when the last one is complete. -/
def frames (bytes : List UInt8) : Option (List (List UInt8)) :=
  (Queue.parse bytes : Option (List (Frame frameArity))).map (List.map Frame.symbols)

def speedFrames (fs : List (List UInt8)) : List (List UInt8) := fs.filter fun f => f.head? = some 0x1C

/-- A translated text is made of single characters and of speed changes. -/
inductive TextFrame : List UInt8 → Prop
  | text {c : UInt8} (hc : isWinkeyerCommand c = false) : TextFrame [c]
  | speed (v : UInt8) : TextFrame [0x1C, v]

theorem TextFrame.complete {l : List UInt8} (h : TextFrame l) : ∃ f : Frame frameArity, f.symbols = l := by
  cases h with
  | @text c hc => exact ⟨⟨c, [], (frameArity_text hc).symm⟩, rfl⟩
  | speed v => exact ⟨⟨0x1C, [v], rfl⟩, rfl⟩

theorem textFrame_of_mem_byteFrames {speed c : UInt8} {before l : List UInt8} {next : Option UInt8}
    (h : l ∈ byteFrames speed before c next) : TextFrame l := by
  simp only [byteFrames] at h
  split at h
  · split at h
    · cases h
    · cases List.mem_singleton.mp h
      exact .speed _
  split at h
  · rename_i hc
    have hcmd : isWinkeyerCommand c = false := by
      have hle := hc.1
      simp only [isWinkeyerCommand, decide_eq_false_iff_not, UInt8.le_iff_toNat_le, UInt8.reduceToNat] at hle ⊢
      omega
    rcases List.mem_cons.mp h with rfl | h
    · exact .text (toUpper_not_command hcmd)
    · split at h
      · rw [List.eq_of_mem_replicate h]
        exact .text rfl
      · cases h
  · cases h

theorem textFrame_of_mem {speed : UInt8} {text l : List UInt8}
    (h : l ∈ textFrames speed text ++ restoreFrames speed text) : TextFrame l := by
  rcases List.mem_append.mp h with h | h
  · obtain ⟨i, -, h⟩ := List.mem_flatMap.mp h
    exact textFrame_of_mem_byteFrames h
  · simp only [restoreFrames] at h
    split at h
    · cases List.mem_singleton.mp h
      exact .speed _
    · cases h

theorem frames_textMessage (char : CharType) (message : List UInt8) (speed : UInt8) :
    frames (textMessage char message speed) =
      some (textFrames speed (readText char message) ++ restoreFrames speed (readText char message)) := by
  rw [frames, textMessage_eq]
  exact Queue.parse_flatten _ fun l hl => (textFrame_of_mem hl).complete

theorem settles_flatten {fs : List (List UInt8)} (hfs : ∀ l ∈ fs, TextFrame l) {w f : UInt8}
    (h : Settles w fs.flatten f) : (speedFrames fs).getLast?.getD [0x1C, w] = [0x1C, f] := by
  induction fs generalizing w with
  | nil =>
      cases h
      rfl
  | cons l fs ih =>
      have hrest (l : List UInt8) (hl : l ∈ fs) : TextFrame l := hfs l (List.mem_cons_of_mem _ hl)
      cases hfs l List.mem_cons_self with
      | @text c hc =>
          rcases InlineSpeed.Settles.cons_iff h with ⟨-, h⟩ | ⟨rfl, -⟩
          · have hskip : speedFrames ([c] :: fs) = speedFrames fs := by
              have hne : c ≠ 0x1C := by
                rintro rfl
                cases hc
              simp [speedFrames, hne]
            rw [hskip]
            exact ih hrest h
          · cases hc
      | speed v =>
          rcases InlineSpeed.Settles.cons_iff h with ⟨hc, -⟩ | ⟨-, u, tail, heq, h⟩
          · cases hc
          · cases heq
            have hkeep : speedFrames ([0x1C, v] :: fs) = [0x1C, v] :: speedFrames fs := by simp [speedFrames]
            rw [hkeep, List.getLast?_cons, Option.getD_some]
            exact ih hrest h

theorem readText_ascii (char : CharType) {message : List UInt8} (h : ∀ c ∈ message, 1 ≤ c ∧ c ≤ 127) :
    readText char (message ++ [0]) = message := by
  have hpos {c : UInt8} (hc : 1 ≤ c ∧ c ≤ 127) : 0 < plainChar char c := by
    obtain ⟨hone, hsmall⟩ := hc
    simp only [UInt8.le_iff_toNat_le, UInt8.reduceToNat] at hone hsmall
    cases char with
    | unsigned =>
        simp only [plainChar]
        omega
    | signed =>
        have hlt : c < 0x80 := by
          rw [UInt8.lt_iff_toNat_lt]
          exact Nat.lt_succ_of_le hsmall
        simp only [plainChar, if_pos hlt]
        omega
  have hstop : ¬ 0 < plainChar char 0 := by cases char <;> decide
  induction message with
  | nil => simp [readText, hstop]
  | cons c message ih =>
      rw [List.cons_append, readText_cons (Int.not_le.mpr (hpos (h c List.mem_cons_self))),
        ih fun c hc => h c (List.mem_cons_of_mem _ hc)]

/-- The frames that a text becomes are those of its bytes in order and the one that restores the
speed, and the last speed among them is the one the text began with. -/
theorem text_frames (char : CharType) (message : List UInt8) (speed : UInt8)
    (hmessage : ∀ c ∈ message, 1 ≤ c ∧ c ≤ 127) (htext : message.head? ≠ some esc) :
    ∃ bytes fs, toWinkeyer char (message ++ [0]) speed = .ok bytes ∧ frames bytes = some fs ∧
      fs = textFrames speed message ++ restoreFrames speed message ∧
      ∀ f ∈ (speedFrames fs).getLast?, f = [0x1C, speed] := by
  have hhead : (message ++ [0]).headD 0 ≠ esc := by
    cases message with
    | nil => decide
    | cons c message => simpa using htext
  have hframes := frames_textMessage char (message ++ [0]) speed
  rw [readText_ascii char hmessage] at hframes
  refine ⟨_, _, by rw [toWinkeyer, if_pos hhead]; rfl, hframes, rfl, ?_⟩
  intro f hf
  have hsettles := settles_textMessage char (message ++ [0]) speed
  rw [textMessage_eq, readText_ascii char hmessage] at hsettles
  have hlast := settles_flatten (fun l hl => textFrame_of_mem hl) hsettles
  rwa [Option.mem_def.mp hf, Option.getD_some] at hlast

def gapAndRuns : List UInt8 := ['~'.toUInt8, '+'.toUInt8, 'a'.toUInt8, '-'.toUInt8, 'b'.toUInt8]

theorem gapAndRuns_frames :
    ∃ bytes, toWinkeyer .signed (gapAndRuns ++ [0]) 24 = .ok bytes ∧
      frames bytes = some [[0x1C, 26], [0x41], [0x7C], [0x7C], [0x7C], [0x7C], [0x1C, 24], [0x42]] := by
  have hbytes : ∀ c ∈ gapAndRuns, 1 ≤ c ∧ c ≤ 127 := by
    rw [gapAndRuns, List.forall_mem_cons, List.forall_mem_cons, List.forall_mem_cons, List.forall_mem_cons,
      List.forall_mem_singleton]
    decide
  obtain ⟨bytes, fs, hok, hframes, heq, -⟩ := text_frames .signed gapAndRuns 24 hbytes (by decide)
  refine ⟨bytes, hok, hframes.trans ?_⟩
  rw [heq]
  decide

end Cwsd.TextFrames
