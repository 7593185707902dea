import Cwsd.RigctldStreams

namespace Cwsd.RigctldCommands

open Runs Effects Stoi StringUtil RigctldServer RigctldSafety RigctldReplies RigctldClients RigctldWork
open RigctldPoll RigctldStreams

/-- What stands between two blanks of a command: nothing in it ends a line, a piece or a C string. -/
def Solid (text : List UInt8) : Prop := text ≠ [] ∧ ∀ c ∈ text, isSpace c = false ∧ c ≠ 0

def solid (text : List UInt8) : Bool := !text.isEmpty && text.all fun c => !isSpace c && c != 0

theorem solid_iff (text : List UInt8) : solid text = true ↔ Solid text := by
  simp only [solid, Solid, Bool.and_eq_true, Bool.not_eq_true', List.isEmpty_eq_false_iff, List.all_eq_true,
    bne_iff_ne]

instance (text : List UInt8) : Decidable (Solid text) := decidable_of_iff _ (solid_iff text)

abbrev Word : Type := { text : List UInt8 // Solid text }

abbrev NamedVfo : Type := { vfo : Vfo // vfoToString vfo ≠ ascii "UNKNOWN" }

abbrev NamedMode : Type := { mode : Mode // modeToString mode ≠ ascii "UNKNOWN" }

/-- The commands that a client can give, and what it says with them. -/
inductive Command
  | getPowerstat
  | setPowerstat (status : Int32)
  | chkVfo
  | getLockMode
  | dumpState
  | getFreq
  | getSplitVfo
  | setSplitVfo (split : Split) (txvfo : NamedVfo)
  | getPtt
  | setPtt (ptt : Int32)
  | setVfo (vfo : NamedVfo)
  | getMode
  | setMode (mode : NamedMode) (width : Int32)
  | setFreq (freq : Word)
  | getLevel (name : Word)
  | setLevel (name value : Word)
  | getRit
  | getVfo

namespace Command

def words : Command → List (List UInt8)
  | getPowerstat => [ascii "\\get_powerstat"]
  | setPowerstat status => [ascii "\\set_powerstat", toText status.toInt]
  | chkVfo => [ascii "\\chk_vfo"]
  | getLockMode => [ascii "\\get_lock_mode"]
  | dumpState => [ascii "\\dump_state"]
  | getFreq => [ascii "f"]
  | getSplitVfo => [ascii "s"]
  | setSplitVfo split txvfo => [ascii "S", splitToString split, vfoToString txvfo.val]
  | getPtt => [ascii "t"]
  | setPtt ptt => [ascii "T", toText ptt.toInt]
  | setVfo vfo => [ascii "V", vfoToString vfo.val]
  | getMode => [ascii "m"]
  | setMode mode width => [ascii "M", modeToString mode.val, toText width.toInt]
  | setFreq freq => [ascii "F", freq.val]
  | getLevel name => [ascii "l", name.val]
  | setLevel name value => [ascii "L", name.val, value.val]
  | getRit => [ascii "j"]
  | getVfo => [ascii "v"]

def text (cmd : Command) : List UInt8 := [' '.toUInt8].intercalate cmd.words

end Command

def levelValue (env : Environment) (model : Int) (level : UInt64) (text : List UInt8) :
    Except StdException Value := do
  let val ← if env.levelIsFloat level then Value.mk <$> env.stof text else Value.ofInt <$> stoi text
  return if level = env.levelAgc ∧ val.i = agcOff ∧ model = modelIC7300 then Value.ofInt agcFast else val

namespace Command

variable (env : Environment)

/-- The calls of hamlib that a command comes to. A number that is none keeps it from the rig. -/
def made (model : Int) : Command → List Call
  | getPowerstat => [.getPowerstat]
  | setPowerstat status => [.setPowerstat status.toInt]
  | getLockMode => [.getLockMode]
  | getFreq => [.getFreq .curr]
  | getSplitVfo => [.getSplitVfo .curr]
  | setSplitVfo split txvfo => [.setSplitVfo .curr split txvfo.val]
  | getPtt => [.getPtt .curr]
  | setPtt ptt => [.setPtt .curr ptt.toInt]
  | setVfo vfo => [.setVfo vfo.val]
  | getMode => [.getMode .curr]
  | setMode mode width => [.setMode .curr mode.val width.toInt]
  | setFreq freq => ((env.stod freq.val).toOption.map (Call.setFreq .curr)).toList
  | getLevel name => [.getLevel .curr (env.parseLevel name.val)]
  | setLevel name value =>
      let level := env.parseLevel name.val
      ((levelValue env model level value.val).toOption.map (Call.setLevel .curr level)).toList
  | getRit => [.getRit .curr]
  | chkVfo | dumpState | getVfo => []

def done : List UInt8 := ascii "RPRT 0"

def failed : List UInt8 := ascii "RPRT -1"

/-- The responses to a command, by the answers that hamlib gives after the calls before it. -/
def responses (model : Int) (calls : List Call) : Command → List (List UInt8)
  | getPowerstat => [toClient (env.powerstat calls)]
  | chkVfo => [ascii "0"]
  | getLockMode => [toText (env.lockMode calls), []]
  | dumpState => [RigctldServer.dumpState env (env.state calls)]
  | getFreq => [env.doubleToString (env.freq calls)]
  | getSplitVfo =>
      let (split, txvfo) := reportedSplit (env.splitVfo calls)
      [splitToString split ++ ascii "\n" ++ vfoToString txvfo]
  | getPtt => [toText (env.ptt calls)]
  | getMode => [modeToString (env.mode calls).1 ++ ascii "\n" ++ toText (env.mode calls).2]
  | setPowerstat _ | setSplitVfo _ _ | setPtt _ | setVfo _ | setMode _ _ => [done]
  | setFreq freq => [if (env.stod freq.val).isOk then done else failed]
  | getLevel name =>
      let (rc, val) := env.level calls
      [if rc ≠ rigOk then ascii "RPRT " ++ toText rc
        else if env.levelIsFloat (env.parseLevel name.val) then env.floatToString val.bits
        else toText val.i]
  | setLevel name value =>
      [if (levelValue env model (env.parseLevel name.val) value.val).isOk then
          ascii "RPRT " ++ toText (env.setLevel calls)
        else failed]
  | getRit => [toText (env.rit calls)]
  | getVfo => [ascii "Main"]

end Command

/-- A line that a client may send for a command: the command, with blanks before and after it. -/
def Spells (line : List UInt8) (cmd : Command) : Prop :=
  ∃ before after, line = before ++ (cmd.text ++ after) ∧ (∀ c ∈ before, isSpace c = true) ∧
    ∀ c ∈ after, isSpace c = true

theorem isDigit_toUInt8 {c : Char} (h : c.isDigit = true) :
    isDigit c.toUInt8 = true ∧ c.toUInt8.toNat = c.toNat := by
  obtain ⟨hlow, hhigh⟩ := Char.isDigit_iff_toNat.mp h
  have hval : c.toUInt8.toNat = c.toNat := by
    rw [Char.toUInt8, UInt32.toNat_toUInt8]
    exact Nat.mod_eq_of_lt (Nat.lt_of_le_of_lt hhigh (by decide))
  refine ⟨?_, hval⟩
  rw [isDigit, Bool.and_eq_true, decide_eq_true_eq, decide_eq_true_eq, UInt8.le_iff_toNat_le,
    UInt8.le_iff_toNat_le,
    hval]
  exact ⟨hlow, hhigh⟩

def digitsOf (n : Nat) : List UInt8 := (Nat.toDigits 10 n).map Char.toUInt8

theorem digitsOf_digits (n : Nat) : ∀ d ∈ digitsOf n, isDigit d = true := by
  intro d hd
  obtain ⟨c, hc, rfl⟩ := List.mem_map.mp hd
  exact (isDigit_toUInt8 (Nat.isDigit_of_mem_toDigits (by decide) (by decide) hc)).1

theorem digitsValue_digitsOf (n : Nat) : digitsValue (digitsOf n) = n := by
  have hfold (chars : List Char) (h : ∀ c ∈ chars, c.isDigit = true) (init : Nat) :
      (chars.map Char.toUInt8).foldl (fun n d => 10 * n + (d.toNat - 0x30)) init =
        Nat.ofDigitChars 10 chars init := by
    induction chars generalizing init with
    | nil => rfl
    | cons c chars ih =>
        rw [List.map_cons, List.foldl_cons, (isDigit_toUInt8 (h c List.mem_cons_self)).2, Nat.ofDigitChars_cons]
        exact ih (fun c hc => h c (List.mem_cons_of_mem _ hc)) _
  rw [digitsValue, digitsOf, hfold _ fun c hc => Nat.isDigit_of_mem_toDigits (by decide) (by decide) hc]
  exact Nat.ofDigitChars_ten_toDigits

theorem toText_eq (i : Int) : toText i = (if i < 0 then ['-'.toUInt8] else []) ++ digitsOf i.natAbs := by
  rw [toText, ascii, Int.toString_eq_repr, Int.repr_eq_if]
  by_cases h : 0 ≤ i
  · rw [if_pos h, if_neg (by omega), Nat.toList_repr, List.nil_append, digitsOf,
      show i.toNat = i.natAbs by omega]
  · rw [if_neg h, if_pos (by omega), String.toList_append, Nat.toList_repr, List.map_append, digitsOf,
      show (-i).toNat = i.natAbs by omega]
    rfl

/-- The text of an int is read back as that int. -/
theorem stoi_toText (i : Int32) : stoi (toText i.toInt) = .ok i.toInt := by
  refine stoi_of_leadingInt ⟨[], decide (i.toInt < 0), digitsOf i.toInt.natAbs, [], _, ?_, by simp, .inl rfl,
    ?_,
    digitsOf_digits _, by simp, ?_⟩ i.le_toInt (Int.le_of_lt_add_one i.toInt_lt)
  · rw [toText_eq, List.nil_append, List.append_nil]
    simp only [decide_eq_true_eq]
  · exact mt List.map_eq_nil_iff.mp Nat.toDigits_ne_nil
  · rw [digitsValue_digitsOf, signed]
    simp only [decide_eq_true_eq]
    split <;> omega

theorem not_space_of_isDigit {c : UInt8} (h : isDigit c = true) : isSpace c = false ∧ c ≠ 0 := by
  refine ⟨not_isSpace_of_isDigit h, ?_⟩
  rintro rfl
  exact absurd h (by decide)

theorem solid_toText (i : Int) : Solid (toText i) := by
  rw [toText_eq]
  refine ⟨List.append_ne_nil_of_right_ne_nil _ (mt List.map_eq_nil_iff.mp Nat.toDigits_ne_nil), ?_⟩
  intro c hc
  rcases List.mem_append.mp hc with hsign | hdigit
  · split at hsign
    · rw [List.mem_singleton.mp hsign]
      decide
    · cases hsign
  · exact not_space_of_isDigit (digitsOf_digits _ c hdigit)

theorem solid_vfoToString (vfo : Vfo) : Solid (vfoToString vfo) := by
  rw [← solid_iff]
  cases vfo <;> rfl

theorem solid_modeToString (mode : Mode) : Solid (modeToString mode) := by
  rw [← solid_iff]
  cases mode <;> rfl

theorem solid_splitToString (split : Split) : Solid (splitToString split) := by
  rw [← solid_iff]
  cases split <;> rfl

theorem words_solid (cmd : Command) : ∀ word ∈ cmd.words, Solid word := by
  have hname {name : String} (h : solid (ascii name) = true) : Solid (ascii name) := (solid_iff _).mp h
  cases cmd <;>
    simp [Command.words, solid_toText, solid_vfoToString, solid_modeToString, solid_splitToString,
      Subtype.prop] <;>
    exact hname rfl

theorem words_ne_nil (cmd : Command) : cmd.words ≠ [] := by cases cmd <;> exact List.cons_ne_nil _ _

theorem trim_padded {before text after : List UInt8} (hbefore : ∀ c ∈ before, isSpace c = true)
    (hafter : ∀ c ∈ after, isSpace c = true) (hne : text ≠ []) (hhead : ∀ c ∈ text.head?, isSpace c = false)
    (hlast : ∀ c ∈ text.getLast?, isSpace c = false) : trim (before ++ (text ++ after)) = text := by
  have hright : rtrim (before ++ (text ++ after)) = before ++ text := by
    rw [rtrim, List.rdropWhile, ← List.append_assoc, List.reverse_append, dropWhile_space, List.reverse_reverse]
    · exact fun c hc => hafter c (List.mem_reverse.mp hc)
    · rwa [List.head?_reverse, List.getLast?_append_of_ne_nil _ hne]
  rw [trim, hright, ltrim]
  exact dropWhile_space hbefore hhead

theorem intercalate_ne_nil {words : List (List UInt8)} (hne : words ≠ []) (hsolid : ∀ word ∈ words, Solid word)
    (separator : List UInt8) : separator.intercalate words ≠ [] := by
  obtain ⟨word, rest, rfl⟩ := List.exists_cons_of_ne_nil hne
  have hword := (hsolid word List.mem_cons_self).1
  by_cases hrest : rest = []
  · rwa [hrest, List.intercalate_singleton]
  · rw [List.intercalate_cons_of_ne_nil hrest, List.append_assoc]
    exact List.append_ne_nil_of_left_ne_nil hword _

theorem intercalate_head {words : List (List UInt8)} (hsolid : ∀ word ∈ words, Solid word)
    (separator : List UInt8) :
    ∀ c ∈ (separator.intercalate words).head?, isSpace c = false := by
  cases words with
  | nil => simp
  | cons word rest =>
      obtain ⟨hne, hplain⟩ := hsolid word List.mem_cons_self
      have hhead : (separator.intercalate (word :: rest)).head? = word.head? := by
        by_cases hrest : rest = []
        · rw [hrest, List.intercalate_singleton]
        · rw [List.intercalate_cons_of_ne_nil hrest, List.append_assoc, List.head?_append_of_ne_nil _ hne]
      rw [hhead]
      exact fun c hc => (hplain c (List.mem_of_mem_head? hc)).1

theorem intercalate_last {words : List (List UInt8)} (hsolid : ∀ word ∈ words, Solid word)
    (separator : List UInt8) :
    ∀ c ∈ (separator.intercalate words).getLast?, isSpace c = false := by
  induction words with
  | nil => simp
  | cons word rest ih =>
      have hrestSolid : ∀ word ∈ rest, Solid word := fun w hw => hsolid w (List.mem_cons_of_mem _ hw)
      by_cases hrest : rest = []
      · rw [hrest, List.intercalate_singleton]
        exact fun c hc => ((hsolid word List.mem_cons_self).2 c (List.mem_of_getLast? hc)).1
      · rw [List.intercalate_cons_of_ne_nil hrest,
          List.getLast?_append_of_ne_nil _ (intercalate_ne_nil hrest hrestSolid separator)]
        exact ih hrestSolid

theorem trim_spelled {line : List UInt8} {cmd : Command} (h : Spells line cmd) : trim line = cmd.text := by
  obtain ⟨before, after, rfl, hbefore, hafter⟩ := h
  exact trim_padded hbefore hafter (intercalate_ne_nil (words_ne_nil cmd) (words_solid cmd) _)
    (intercalate_head (words_solid cmd) _) (intercalate_last (words_solid cmd) _)

theorem not_mem_of_solid {word : List UInt8} {c : UInt8} (h : Solid word) (hc : isSpace c = true ∨ c = 0) :
    c ∉ word := by
  intro hmem
  obtain ⟨hspace, hnul⟩ := h.2 c hmem
  rcases hc with hc | hc
  · rw [hc] at hspace
    cases hspace
  · exact hnul hc

/-- Splitting a command gives back the words it was joined of. -/
theorem pieces_text (cmd : Command) : pieces cmd.text = cmd.words := by
  rw [pieces]
  have hsplit := splitString_eq_splitOn cmd.text ' '.toUInt8
  rw [Command.text, List.splitOn_intercalate _
    (fun word hword => not_mem_of_solid (words_solid cmd word hword) (.inl rfl))
    (words_ne_nil cmd)] at hsplit
  exact hsplit

theorem cString_of_solid {word : List UInt8} (h : Solid word) : cString word = word :=
  cString_of_not_mem (not_mem_of_solid h (.inr rfl))

theorem vfoFromString_name (vfo : NamedVfo) : vfoFromString (vfoToString vfo.val) = vfo.val := by
  obtain ⟨vfo, hname⟩ := vfo
  cases vfo with
  | a | b | c => rfl
  | none | curr | other => exact absurd rfl hname

theorem modeFromString_name (mode : NamedMode) : modeFromString (modeToString mode.val) = mode.val := by
  obtain ⟨mode, hname⟩ := mode
  cases mode with
  | all | other => exact absurd rfl hname
  | _ => rfl

variable {env : Environment} {fd : Int}

/-- What a command leaves behind: its responses for its client, and its calls. -/
def carriedOut (env : Environment) (cmd : Command) (fd : Int) (s : Server) : Server :=
  { respond s fd (cmd.responses env s.rigModel s.calls) with calls := s.calls ++ cmd.made env s.rigModel }

theorem handleLine_spelled {line : List UInt8} {cmd : Command} (h : Spells line cmd) (s : Server) :
    handleLine env line fd s = tryCatch (dispatch env cmd.text fd)
      (fun _ => do sendResponseToClient (ascii "RPRT -1") fd; return true) s := by
  rw [handleLine, interpretCommand, trim_spelled h]

theorem drop_argument (name : List UInt8) {word : List UInt8} (h : Solid word) :
    cString (([' '.toUInt8].intercalate [name, word]).drop (name.length + 1)) = word := by
  have hjoined : [' '.toUInt8].intercalate [name, word] = (name ++ [' '.toUInt8]) ++ word := by
    rw [List.intercalate_cons_cons, List.intercalate_singleton]
  have hlen : (name ++ [' '.toUInt8]).length = name.length + 1 := List.length_append
  rw [hjoined, ← hlen, List.drop_left]
  exact cString_of_solid h

/-- A branch that converts its argument: without a value there is no call. -/
theorem handled_order {α : Type} (e : Except StdException α) (c : α → Call) (s : Server) :
    tryCatch (do
      let a ← ofExcept e
      call (c a) fun _ => ()
      sendResponseToClient (ascii "RPRT 0") fd
      return true) (fun _ => do sendResponseToClient (ascii "RPRT -1") fd; return true) s =
      .returned true { respond s fd [if e.isOk then Command.done else Command.failed] with
        calls := s.calls ++ (e.toOption.map c).toList } := by
  cases e with
  | ok a => rfl
  | error e =>
      rw [Except.toOption, Option.map_none, Option.toList_none, List.append_nil]
      rfl

theorem setMode_text (mode : NamedMode) (width : Int32) (s : Server) :
    setMode (Command.setMode mode width).text fd s = .returned () { respond s fd [Command.done] with
      calls := s.calls ++ [.setMode .curr mode.val width.toInt] } := by
  have hwidth : (subscript (Command.setMode mode width).words 2 : Action _) s =
      .returned (toText width.toInt) s := rfl
  have hmode : (subscript (Command.setMode mode width).words 1 : Action _) s =
      .returned (modeToString mode.val) s := rfl
  have hname : modeFromString (cString (modeToString mode.val)) = mode.val := by
    rw [cString_of_solid (solid_modeToString _), modeFromString_name]
  have hnumber : (ofExcept (stoi (toText width.toInt)) : Action Int) s = .returned width.toInt s := by
    rw [stoi_toText]
    rfl
  simp only [setMode, pieces_text, bind_apply, hwidth, hnumber, hmode, hname, Outcome.andThen]
  rfl

theorem setLevel_text (name value : Word) (s : Server) :
    setLevel env (Command.setLevel name value).text fd s =
      match levelValue env s.rigModel (env.parseLevel name.val) value.val with
      | .ok val => .returned () { respond s fd [ascii "RPRT " ++ toText (env.setLevel s.calls)] with
          calls := s.calls ++ [.setLevel .curr (env.parseLevel name.val) val] }
      | .error e => .threw e s := by
  have hname : (pieceOr (Command.setLevel name value).words 1 [] fun piece => return cString piece :
      Action _) s = .returned name.val s := by
    rw [← cString_of_solid name.property]
    rfl
  have hvalue (f : List UInt8 → RigctldServer.Action Value) :
      pieceOr (Command.setLevel name value).words 2 ⟨0⟩ f s = f value.val s := rfl
  simp only [setLevel, pieces_text, bind_apply, hname, hvalue, Outcome.andThen]
  cases hfloat : env.levelIsFloat (env.parseLevel name.val) with
  | false => cases hval : stoi value.val <;> simp only [levelValue, hfloat, hval] <;> rfl
  | true => cases hval : env.stof value.val <;> simp only [levelValue, hfloat, hval] <;> rfl

/-- A line that spells a command has its effect, whichever way hamlib and the conversions answer. -/
theorem handleLine_carriedOut {line : List UInt8} {cmd : Command} (h : Spells line cmd) (s : Server) :
    handleLine env line fd s = .returned true (carriedOut env cmd fd s) := by
  rw [handleLine_spelled h]
  cases cmd with
  | getPowerstat | getLockMode | getFreq | getSplitVfo | getPtt | getMode | getRit => rfl
  | chkVfo | dumpState | getVfo =>
      rw [carriedOut, Command.made, List.append_nil]
      rfl
  | setPowerstat status =>
      have hdispatch : dispatch env (Command.setPowerstat status).text fd = (do
          let status ← ofExcept (stoi (cString ((Command.setPowerstat status).text.drop 15)))
          call (.setPowerstat status) fun _ => ()
          sendResponseToClient (ascii "RPRT 0") fd
          return true) := rfl
      have harg : cString ((Command.setPowerstat status).text.drop 15) = toText status.toInt :=
        drop_argument (ascii "\\set_powerstat") (solid_toText status.toInt)
      rw [hdispatch, harg, stoi_toText]
      exact handled_order (.ok status.toInt) Call.setPowerstat s
  | setPtt ptt =>
      have hdispatch : dispatch env (Command.setPtt ptt).text fd = (do
          let ptt ← ofExcept (stoi (cString ((Command.setPtt ptt).text.drop 2)))
          call (.setPtt .curr ptt) fun _ => ()
          sendResponseToClient (ascii "RPRT 0") fd
          return true) := rfl
      have harg : cString ((Command.setPtt ptt).text.drop 2) = toText ptt.toInt :=
        drop_argument (ascii "T") (solid_toText ptt.toInt)
      rw [hdispatch, harg, stoi_toText]
      exact handled_order (.ok ptt.toInt) (Call.setPtt .curr) s
  | setFreq freq =>
      have hdispatch : dispatch env (Command.setFreq freq).text fd = (do
          let freq ← ofExcept (env.stod (cString ((Command.setFreq freq).text.drop 2)))
          call (.setFreq .curr freq) fun _ => ()
          sendResponseToClient (ascii "RPRT 0") fd
          return true) := rfl
      have harg : cString ((Command.setFreq freq).text.drop 2) = freq.val :=
        drop_argument (ascii "F") freq.property
      rw [hdispatch, harg]
      exact handled_order (env.stod freq.val) (Call.setFreq .curr) s
  | setVfo vfo =>
      have hdispatch : dispatch env (Command.setVfo vfo).text fd = (do
          call (.setVfo (vfoFromString (cString ((Command.setVfo vfo).text.drop 2)))) fun _ => ()
          sendResponseToClient (ascii "RPRT 0") fd
          return true) := rfl
      have harg : cString ((Command.setVfo vfo).text.drop 2) = vfoToString vfo.val :=
        drop_argument (ascii "V") (solid_vfoToString vfo.val)
      rw [hdispatch, harg, vfoFromString_name]
      rfl
  | setSplitVfo split txvfo =>
      have hdispatch : dispatch env (Command.setSplitVfo split txvfo).text fd = (do
          setSplitVfo (Command.setSplitVfo split txvfo).text fd
          return true) := rfl
      have hsplit : (pieceOr (Command.setSplitVfo split txvfo).words 1 .off fun piece =>
          return if piece = ascii "1" then .on else .off : Action Split) = pure split := by cases split <;> rfl
      have hvfo : (pieceOr (Command.setSplitVfo split txvfo).words 2 .a fun piece =>
          return vfoFromString (cString piece) : Action Vfo) = pure txvfo.val := by
        have hpiece : (pieceOr (Command.setSplitVfo split txvfo).words 2 .a fun piece =>
            return vfoFromString (cString piece) : Action Vfo) =
            pure (vfoFromString (cString (vfoToString txvfo.val))) := rfl
        rw [hpiece, cString_of_solid (solid_vfoToString _), vfoFromString_name]
      rw [hdispatch, setSplitVfo, pieces_text, hsplit, hvfo]
      rfl
  | setMode mode width =>
      have hdispatch : dispatch env (Command.setMode mode width).text fd = (do
          setMode (Command.setMode mode width).text fd
          return true) := rfl
      rw [hdispatch, tryCatch.eq_def, bind_apply, setMode_text]
      rfl
  | getLevel name =>
      have hdispatch : dispatch env (Command.getLevel name).text fd = (do
          getLevel env (Command.getLevel name).text fd
          return true) := rfl
      have harg : cString ((Command.getLevel name).text.drop 2) = name.val :=
        drop_argument (ascii "l") name.property
      rw [hdispatch, getLevel, harg]
      rfl
  | setLevel name value =>
      have hdispatch : dispatch env (Command.setLevel name value).text fd = (do
          setLevel env (Command.setLevel name value).text fd
          return true) := rfl
      rw [hdispatch, tryCatch.eq_def, bind_apply, setLevel_text, carriedOut, Command.made, Command.responses]
      cases levelValue env s.rigModel (env.parseLevel name.val) value.val with
      | ok val => rfl
      | error e =>
          simp only [Except.toOption, Option.map_none, Option.toList_none, List.append_nil]
          rfl

end Cwsd.RigctldCommands
