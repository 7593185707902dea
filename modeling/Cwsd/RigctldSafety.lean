import Cwsd.RigctldServer

namespace Cwsd.RigctldSafety

open Effects Stoi StringUtil RigctldServer

/-- What a command of the client fd may change: the responses to this client, and the
calls that were made. -/
structure Touches (fd : Int) (s s' : Server) : Prop where
  rigModel : s'.rigModel = s.rigModel
  rigDisconnected : s'.rigDisconnected = s.rigDisconnected
  readBuffer : ∀ key, (s'.client key).readBuffer = (s.client key).readBuffer
  clientFd : ∀ key, (s'.client key).fd = (s.client key).fd
  writeBuffer : ∀ key, key ≠ fd → (s'.client key).writeBuffer = (s.client key).writeBuffer
  calls : s.calls <+: s'.calls

instance (fd : Int) : Std.Refl (Touches fd) where
  refl _ := ⟨rfl, rfl, fun _ => rfl, fun _ => rfl, fun _ _ => rfl, List.prefix_rfl⟩

instance (fd : Int) : IsTrans Server (Touches fd) where
  trans _ _ _ h h' := ⟨h'.rigModel.trans h.rigModel, h'.rigDisconnected.trans h.rigDisconnected,
    fun key => (h'.readBuffer key).trans (h.readBuffer key),
      fun key => (h'.clientFd key).trans (h.clientFd key),
    fun key hkey => (h'.writeBuffer key hkey).trans (h.writeBuffer key hkey), h.calls.trans h'.calls⟩

theorem updateClient_self (s : Server) (fd : Int) (f : Client → Client) :
    (s.updateClient fd f).client fd = f (s.client fd) := by
  simp [Server.updateClient, Server.client]

theorem updateClient_of_ne (s : Server) {fd key : Int} (h : key ≠ fd) (f : Client → Client) :
    (s.updateClient fd f).client key = s.client key := by
  simp [Server.updateClient, Server.client, Std.ExtTreeMap.getElem?_insert, Ne.symm h]

variable {env : Environment} {fd : Int}

theorem meets_call {α : Type} (c : Call) (answer : List Call → α) : Meets (Touches fd) (call c answer) :=
  fun s => ⟨rfl, rfl, fun _ => rfl, fun _ => rfl, fun _ _ => rfl, List.prefix_append s.calls [c]⟩

theorem touches_updateClient (s : Server) (g : List UInt8 → List UInt8) :
    Touches fd s (s.updateClient fd fun c => { c with writeBuffer := g c.writeBuffer }) := by
  refine ⟨rfl, rfl, ?_, ?_, ?_, List.prefix_rfl⟩
  · intro key
    by_cases h : key = fd
    · rw [h, updateClient_self]
    · rw [updateClient_of_ne s h]
  · intro key
    by_cases h : key = fd
    · rw [h, updateClient_self]
    · rw [updateClient_of_ne s h]
  · intro key h
    rw [updateClient_of_ne s h]

theorem meets_sendResponseToClient (response : List UInt8) :
    Meets (Touches fd) (sendResponseToClient response fd) :=
  meets_modifyState fun s => touches_updateClient s fun text => text ++ response ++ ascii "\n"

theorem meets_writeFromClient : Meets (Touches fd) (writeFromClient env fd) := by
  refine meets_bind meets_getState fun s => meets_ite (fun _ => meets_pure _) fun _ => ?_
  refine meets_bind (meets_call _ _) fun n => meets_ite (fun _ => meets_pure _) fun _ => ?_
  exact meets_bind (meets_modifyState fun s => touches_updateClient s _) fun _ => meets_pure _

theorem meets_pieceOr {α : Type} {R : Server → Server → Prop} [Std.Refl R] [IsTrans Server R]
    {pieces : List (List UInt8)} {i : Nat} {default : α} {f : List UInt8 → Action α}
    (hf : ∀ piece, Meets R (f piece)) :
    Meets R (pieceOr pieces i default f) :=
  meets_ite (fun h => meets_bind (meets_subscript h) hf) fun _ => meets_pure _

/-- A call on the socket of a client. -/
def OnSocket : Call → Bool
  | .recv _ | .write _ _ => true
  | _ => false

/-- What a relation has to allow for to hold of every command of the client fd: calls on the rig, responses to
this client and the write of what is buffered for it. -/
structure Serving (env : Environment) (fd : Int) (R : Server → Server → Prop) : Prop where
  call : ∀ {α : Type} (c : Call) (answer : List Call → α), OnSocket c = false → Meets R (call c answer)
  respond : ∀ response, Meets R (sendResponseToClient response fd)
  write : Meets R (writeFromClient env fd)

section

variable {R : Server → Server → Prop} [Std.Refl R] [IsTrans Server R]

theorem serving_answer (serving : Serving env fd R) (response : List UInt8) :
    Meets R (do sendResponseToClient response fd; return true) :=
  meets_bind (serving.respond response) fun _ => meets_pure _

theorem serving_query {α : Type} (serving : Serving env fd R) {c : Call} (hrig : OnSocket c = false)
    (answer : List Call → α) (text : α → List UInt8) :
    Meets R (do sendResponseToClient (text (← call c answer)) fd; return true) :=
  meets_bind (serving.call c answer hrig) fun _ => serving_answer serving _

theorem serving_order {α : Type} (serving : Serving env fd R) (x : Except StdException α) {c : α → Call}
    (hrig : ∀ a, OnSocket (c a) = false) :
    Meets R (do
      let a ← ofExcept x
      call (c a) fun _ => ()
      sendResponseToClient (ascii "RPRT 0") fd
      return true) :=
  meets_bind (meets_ofExcept x) fun a => meets_bind (serving.call _ _ (hrig a)) fun _ =>
    serving_answer serving _

omit [Std.Refl R] in
theorem serving_getSplitVfo (serving : Serving env fd R) : Meets R (getSplitVfo env fd) :=
  meets_bind (serving.call _ _ rfl) fun _ => serving.respond _

theorem serving_setSplitVfo (serving : Serving env fd R) (cmd : List UInt8) : Meets R (setSplitVfo cmd fd) := by
  refine meets_bind (meets_pieceOr fun _ => meets_pure _) fun split => ?_
  refine meets_bind (meets_pieceOr fun _ => meets_pure _) fun txvfo => ?_
  exact meets_bind (serving.call _ _ rfl) fun _ => serving.respond _

theorem serving_setMode (serving : Serving env fd R) {cmd : List UInt8} (h : 2 < (pieces cmd).length) :
    Meets R (setMode cmd fd) := by
  refine meets_bind (meets_subscript h) fun text => meets_bind (meets_ofExcept _) fun pbwidth => ?_
  refine meets_bind (meets_subscript (Nat.lt_of_succ_lt h)) fun name => ?_
  exact meets_bind (serving.call _ _ rfl) fun _ => serving.respond _

theorem serving_setLevel (serving : Serving env fd R) (cmd : List UInt8) : Meets R (setLevel env cmd fd) := by
  refine meets_bind (meets_pieceOr fun _ => meets_pure _) fun name => ?_
  refine meets_bind (meets_pieceOr fun piece => ?_) fun val => ?_
  · exact meets_ite (fun _ => meets_bind (meets_ofExcept _) fun _ => meets_pure _)
      fun _ => meets_bind (meets_ofExcept _) fun _ => meets_pure _
  · exact meets_bind meets_getState fun s => meets_bind (serving.call _ _ rfl) fun rc => serving.respond _

omit [Std.Refl R] in
theorem serving_getLevel (serving : Serving env fd R) (cmd : List UInt8) : Meets R (getLevel env cmd fd) :=
  meets_bind (serving.call _ _ rfl) fun _ => serving.respond _

theorem serving_quit (serving : Serving env fd R) : Meets R (do
    sendResponseToClient (ascii "RPRT 0") fd
    let _ ← writeFromClient env fd
    return false) :=
  meets_bind (serving.respond _) fun _ => meets_bind serving.write fun _ => meets_pure _

theorem serving_dispatch (serving : Serving env fd R) {cmd : List UInt8}
    (hmode : startsWith cmd (ascii "M ") = true → 2 < (pieces cmd).length) :
    Meets R (dispatch env cmd fd) := by
  have hdone {m : Action Unit} (hm : Meets R m) : Meets R (do m; return true) :=
    meets_bind hm fun _ => meets_pure _
  unfold dispatch
  refine meets_ite (fun _ => serving_query serving rfl _ _) fun _ => ?_
  refine meets_ite (fun _ => serving_order serving _ fun _ => rfl) fun _ => ?_
  refine meets_ite (fun _ => serving_answer serving _) fun _ => ?_
  refine meets_ite (fun _ => meets_bind (serving.call _ _ rfl) fun _ =>
    meets_bind (serving.respond _) fun _ => serving_answer serving _) fun _ => ?_
  refine meets_ite (fun _ => meets_bind meets_getState fun _ => serving_answer serving _) fun _ => ?_
  refine meets_ite (fun _ => serving_query serving rfl _ _) fun _ => ?_
  refine meets_ite (fun _ => hdone (serving_getSplitVfo serving)) fun _ => ?_
  refine meets_ite (fun _ => hdone (serving_setSplitVfo serving cmd)) fun _ => ?_
  refine meets_ite (fun _ => serving_query serving rfl _ _) fun _ => ?_
  refine meets_ite (fun _ => serving_order serving _ fun _ => rfl) fun _ => ?_
  refine meets_ite (fun _ => meets_bind (serving.call _ _ rfl) fun _ => serving_answer serving _) fun _ => ?_
  refine meets_ite (fun _ => serving_query serving rfl _ _) fun _ => ?_
  refine meets_ite (fun h => hdone (serving_setMode serving (hmode h))) fun _ => ?_
  refine meets_ite (fun _ => serving_order serving _ fun _ => rfl) fun _ => ?_
  refine meets_ite (fun _ => hdone (serving_getLevel serving cmd)) fun _ => ?_
  refine meets_ite (fun _ => hdone (serving_setLevel serving cmd)) fun _ => ?_
  refine meets_ite (fun _ => serving_quit serving) fun _ => ?_
  refine meets_ite (fun _ => serving_query serving rfl _ _) fun _ => ?_
  exact meets_ite (fun _ => serving_answer serving _) fun _ => meets_pure _

end

theorem touches_serving : Serving env fd (Touches fd) :=
  ⟨fun c answer _ => meets_call c answer, meets_sendResponseToClient, meets_writeFromClient⟩

theorem ne_of_startsWith {cmd needle text : List UInt8} (h : startsWith cmd needle = true)
    (hne : startsWith text needle = false) : cmd ≠ text := by
  rintro rfl
  rw [h] at hne
  cases hne

theorem startsWith_exclusive {cmd needle text : List UInt8} (h : startsWith cmd needle = true)
    (hlen : needle.length ≤ text.length) (hne : startsWith text needle = false) :
    ¬ startsWith cmd text = true := by
  intro htext
  have hp := List.prefix_of_prefix_length_le (startsWith_iff.mp h) (startsWith_iff.mp htext) hlen
  rw [startsWith_iff.mpr hp] at hne
  cases hne

theorem dispatch_setMode {cmd : List UInt8} (h : startsWith cmd (ascii "M ") = true) :
    dispatch env cmd fd = (do setMode cmd fd; return true) := by
  unfold dispatch
  rw [if_neg (ne_of_startsWith h (by decide)), if_neg (startsWith_exclusive h (by decide) (by decide)),
    if_neg (ne_of_startsWith h (by decide)), if_neg (ne_of_startsWith h (by decide)),
    if_neg (ne_of_startsWith h (by decide)), if_neg (ne_of_startsWith h (by decide)),
    if_neg (ne_of_startsWith h (by decide)), if_neg (startsWith_exclusive h (by decide) (by decide)),
    if_neg (ne_of_startsWith h (by decide)), if_neg (startsWith_exclusive h (by decide) (by decide)),
    if_neg (startsWith_exclusive h (by decide) (by decide)), if_neg (ne_of_startsWith h (by decide)), if_pos h]

theorem pieces_length (cmd : List UInt8) : (pieces cmd).length = cmd.count ' '.toUInt8 + 1 :=
  splitString_length cmd ' '.toUInt8

/-- A line that is a mode command and has no room for the width: it is the one that
the subscripts of the branch do not allow for. -/
def LacksWidth (command : List UInt8) : Prop :=
  startsWith (trim command) (ascii "M ") = true ∧ (trim command).count ' '.toUInt8 < 2

theorem serving_interpretCommand {R : Server → Server → Prop} [Std.Refl R] [IsTrans Server R]
    (serving : Serving env fd R) {command : List UInt8} (h : ¬ LacksWidth command) :
    Meets R (interpretCommand env command fd) := by
  apply serving_dispatch serving
  intro hmode
  have hcount := mt (And.intro hmode) h
  rw [pieces_length]
  omega

theorem serving_handleLine {R : Server → Server → Prop} [Std.Refl R] [IsTrans Server R]
    (serving : Serving env fd R) {command : List UInt8} (h : ¬ LacksWidth command) :
    Meets R (handleLine env command fd) :=
  meets_tryCatch (serving_interpretCommand serving h) fun _ => serving_answer serving _

theorem meets_interpretCommand (env : Environment) (fd : Int) {command : List UInt8}
    (h : ¬ LacksWidth command) :
    Meets (Touches fd) (interpretCommand env command fd) :=
  serving_interpretCommand touches_serving h

theorem interpretCommand_undefined (env : Environment) (fd : Int) {command : List UInt8}
    (h : LacksWidth command) (s : Server) :
    interpretCommand env command fd s = .undefined := by
  have hlen : (pieces (trim command)).length ≤ 2 := by
    rw [pieces_length]
    exact h.2
  rw [interpretCommand, dispatch_setMode h.1]
  exact bind_undefined (bind_undefined (subscript_undefined hlen s))

/-- The service outlives the line: interpret_command returns, or it throws and
read_from_client answers with an error. -/
def Contained (env : Environment) (command : List UInt8) (fd : Int) (s : Server) : Prop :=
  (∃ more s', interpretCommand env command fd s = .returned more s') ∨
    ∃ e s', interpretCommand env command fd s = .threw e s' ∧
      handleLine env command fd s = .returned true
        (s'.updateClient fd fun c => { c with writeBuffer := c.writeBuffer ++ ascii "RPRT -1\n" })

theorem handleLine_of_threw {command : List UInt8} {s s' : Server} {e : StdException}
    (h : interpretCommand env command fd s = .threw e s') :
    handleLine env command fd s = .returned true
      (s'.updateClient fd fun c => { c with writeBuffer := c.writeBuffer ++ ascii "RPRT -1\n" }) := by
  have htext : ascii "RPRT -1\n" = ascii "RPRT -1" ++ ascii "\n" := by decide
  simp only [htext, ← List.append_assoc]
  exact tryCatch_of_threw h

theorem not_contained_of_lacksWidth {command : List UInt8} (h : LacksWidth command) (s : Server) :
    ¬ Contained env command fd s := by
  have hu := interpretCommand_undefined env fd h s
  rintro (⟨more, s', hr⟩ | ⟨e, s', ht, -⟩)
  · rw [hu] at hr
    cases hr
  · rw [hu] at ht
    cases ht

/-- Whatever hamlib answers, a line is contained exactly when it is not a mode
command that lacks its width. -/
theorem line_contained_iff (env : Environment) (command : List UInt8) (fd : Int) (s : Server) :
    Contained env command fd s ↔
      ¬ (startsWith (trim command) (ascii "M ") = true ∧ (trim command).count ' '.toUInt8 < 2) := by
  constructor
  · intro h hlacks
    exact not_contained_of_lacksWidth hlacks s h
  · intro h
    have hdef := (meets_interpretCommand env fd h).defined s
    cases hc : interpretCommand env command fd s with
    | returned more s' => exact .inl ⟨more, s', hc⟩
    | threw e s' => exact .inr ⟨e, s', hc, handleLine_of_threw hc⟩
    | undefined => exact absurd hc hdef

/-- A rig that answers zero to everything, and sockets that neither bring nor take a byte. -/
def idleRig : Environment where
  stod _ := .error .invalidArgument
  stof _ := .error .invalidArgument
  doubleToString _ := ascii "0.000000"
  floatToString _ := ascii "0.000000"
  parseLevel _ := 0
  levelIsFloat _ := false
  levelAgc := 8192
  state _ := ⟨modelIC7300, [], [], [], [], 0, 0, 0, 0, [], [], 0, 0, 0, 0, 0, 0⟩
  powerstat _ := 0
  lockMode _ := 0
  freq _ := 0
  splitVfo _ := (rigOk, .off, .a)
  ptt _ := 0
  mode _ := (.usb, 0)
  level _ := (rigOk, ⟨0⟩)
  setLevel _ := rigOk
  rit _ := 0
  received _ := some []
  written _ := 0

def oneClient : Server := ⟨modelIC7300, false, Std.ExtTreeMap.empty.insert 4 ⟨4, [], []⟩, []⟩

theorem mode_without_width : ¬ Contained idleRig (ascii "M USB") 4 oneClient :=
  not_contained_of_lacksWidth ⟨by decide, by decide⟩ oneClient

theorem meets_handleLine (env : Environment) (fd : Int) {command : List UInt8} (h : ¬ LacksWidth command) :
    Meets (Touches fd) (handleLine env command fd) :=
  serving_handleLine touches_serving h

def completeLines (buffer : List UInt8) : List (List UInt8) := (buffer.splitOn '\n'.toUInt8).dropLast

theorem completeLines_cons {line rest : List UInt8} (h : '\n'.toUInt8 ∉ line) :
    completeLines (line ++ '\n'.toUInt8 :: rest) = line :: completeLines rest := by
  rw [completeLines, completeLines, List.splitOn_append_cons_self, List.splitOn_eq_singleton h,
    List.singleton_append, List.dropLast_cons_of_ne_nil (List.splitOn_ne_nil _ _)]

theorem readLoop_defined (env : Environment) (key : Int) (n : Nat) (s : Server)
    (h : ∀ line ∈ completeLines (s.client key).readBuffer, ¬ LacksWidth line) :
    Defined (readLoop env key n) s := by
  induction n generalizing s with
  | zero => exact defined_pure true s
  | succ n ih =>
      apply defined_getState_bind
      cases hfind : find (s.client key).readBuffer ['\n'.toUInt8] 0 with
      | none =>
          simp only [hfind]
          exact defined_pure true s
      | some pos =>
          simp only [hfind]
          obtain ⟨hcut, hnot⟩ := find_byte hfind
          rw [List.drop_zero, Nat.sub_zero] at hcut hnot
          rw [hcut, completeLines_cons hnot] at h
          have hline := meets_handleLine env (s.client key).fd (h _ List.mem_cons_self)
          refine defined_bind (hline.defined s) ?_
          intro more s' hs'
          cases more with
          | false => exact defined_pure false s'
          | true =>
              apply defined_modifyState_bind
              apply ih
              have hlen : ((s.client key).readBuffer.take pos).length = pos := by
                have hbound := find_bound hfind (List.cons_ne_nil _ _)
                rw [List.length_take]
                exact Nat.min_eq_left (Nat.le_of_succ_le hbound)
              rw [updateClient_self, (hline.returned hs').readBuffer key, hlen]
              exact fun line hmem => h line (List.mem_cons_of_mem _ hmem)

/-- A chunk can only take the service down through a line that lacks the width of its mode. -/
theorem readFromClient_defined (env : Environment) (key : Int) (s : Server)
    (h : ∀ msg, env.received s.calls = some msg →
      ∀ line ∈ completeLines ((s.client key).readBuffer ++ cString (msg.take msgSize)), ¬ LacksWidth line) :
    Defined (readFromClient env key) s := by
  apply defined_getState_bind
  refine defined_bind (fun hs => nomatch hs) ?_
  rintro _ _ ⟨⟩
  cases hmsg : env.received s.calls with
  | none => exact defined_pure false _
  | some msg =>
      cases msg with
      | nil => exact defined_pure false _
      | cons c msg =>
          apply defined_modifyState_bind
          apply defined_getState_bind
          by_cases hdis : s.rigDisconnected = true
          · rw [if_pos (by exact hdis)]
            exact defined_pure true _
          · rw [if_neg (by exact hdis)]
            apply readLoop_defined
            rw [updateClient_self]
            exact h (c :: msg) hmsg

end Cwsd.RigctldSafety
