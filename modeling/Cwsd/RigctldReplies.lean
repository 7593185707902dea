import Cwsd.RigctldSafety

namespace Cwsd.RigctldReplies

open Effects Stoi StringUtil RigctldServer RigctldSafety

variable {α β : Type}

def respond (s : Server) (fd : Int) (responses : List (List UInt8)) : Server :=
  responses.foldl (fun s response =>
    s.updateClient fd fun c => { c with writeBuffer := c.writeBuffer ++ response ++ ascii "\n" }) s

/-- What a command comes to for its client: a value or an exception, the responses that were sent, and the
calls that were made. -/
structure Reply (α : Type) where
  result : Except StdException α
  responses : List (List UInt8)
  made : List Call

def Reply.toOutcome (r : Reply α) (fd : Int) (s : Server) : Outcome StdException Server α :=
  let s' := { respond s fd r.responses with calls := s.calls ++ r.made }
  match r.result with
  | .ok a => .returned a s'
  | .error e => .threw e s'

def Reply.andThen (r : Reply α) (next : α → List Call → Reply β) (calls : List Call) : Reply β :=
  match r.result with
  | .ok a =>
      let q := next a (calls ++ r.made)
      ⟨q.result, r.responses ++ q.responses, r.made ++ q.made⟩
  | .error e => ⟨.error e, r.responses, r.made⟩

/-- Of the server, m reads the model of the rig and the calls before it, and nothing else; where it is
answering, it does not return without a response. -/
def Speaks (fd : Int) (answering : Bool) (m : Action α) : Prop :=
  ∃ reply : Int → List Call → Reply α, (∀ s, m s = (reply s.rigModel s.calls).toOutcome fd s) ∧
    (answering = true → ∀ model calls a, (reply model calls).result = .ok a →
      (reply model calls).responses ≠ [])

theorem respond_calls (s : Server) (fd : Int) (responses : List (List UInt8)) (calls : List Call) :
    respond { s with calls } fd responses = { respond s fd responses with calls } := by
  induction responses generalizing s with
  | nil => rfl
  | cons response responses ih =>
      exact ih (s.updateClient fd fun c => { c with writeBuffer := c.writeBuffer ++ response ++ ascii "\n" })

theorem respond_append (s : Server) (fd : Int) (first second : List (List UInt8)) :
    respond s fd (first ++ second) = respond (respond s fd first) fd second := List.foldl_append

@[simp]
theorem respond_rigModel (s : Server) (fd : Int) (responses : List (List UInt8)) :
    (respond s fd responses).rigModel = s.rigModel := by
  induction responses generalizing s with
  | nil => rfl
  | cons response responses ih => exact ih _

/-- The bytes of the responses as the client reads them. -/
def responseText (responses : List (List UInt8)) : List UInt8 := responses.flatMap fun r => r ++ ascii "\n"

theorem respond_writeBuffer (s : Server) (fd : Int) (responses : List (List UInt8)) :
    ((respond s fd responses).client fd).writeBuffer =
      (s.client fd).writeBuffer ++ responseText responses := by
  induction responses generalizing s with
  | nil => simp [respond, responseText]
  | cons response responses ih =>
      have hstep : respond s fd (response :: responses) =
          respond (s.updateClient fd fun c =>
            { c with writeBuffer := c.writeBuffer ++ response ++ ascii "\n" }) fd responses := rfl
      rw [hstep, ih, updateClient_self, responseText, responseText, List.flatMap_cons]
      simp only [List.append_assoc]

theorem toOutcome_andThen (r : Reply α) (next : α → Int → List Call → Reply β) (fd : Int) (s : Server)
    {f : α → Action β} (hf : ∀ a s, f a s = (next a s.rigModel s.calls).toOutcome fd s) :
    (r.toOutcome fd s).andThen f =
      (r.andThen (fun a => next a s.rigModel) s.calls).toOutcome fd s := by
  cases hr : r.result with
  | ok a =>
      simp only [Reply.toOutcome, Reply.andThen, hr, Outcome.andThen, hf, respond_append, respond_calls,
        List.append_assoc]
      rw [respond_rigModel]
  | error e => simp only [Reply.toOutcome, Reply.andThen, hr, Outcome.andThen]

variable {fd : Int} {x y : Bool}

theorem speaks_bind {m : Action α} {f : α → Action β} (hm : Speaks fd x m) (hf : ∀ a, Speaks fd y (f a)) :
    Speaks fd (x || y) (m >>= f) := by
  obtain ⟨reply, hreply, hx⟩ := hm
  choose next hnext hy using hf
  refine ⟨fun model calls => (reply model calls).andThen (fun a => next a model) calls, ?_, ?_⟩
  · intro s
    rw [bind_apply, hreply, toOutcome_andThen _ next fd s hnext]
  · intro hxy model calls b hb
    cases hr : (reply model calls).result with
    | error e => simp [Reply.andThen, hr] at hb
    | ok a =>
        simp only [Reply.andThen, hr] at hb ⊢
        intro hnil
        obtain ⟨hfirst, hsecond⟩ := List.append_eq_nil_iff.mp hnil
        cases x with
        | true => exact hx rfl model calls a hr hfirst
        | false => exact hy a (by simpa using hxy) model _ b hb hsecond

theorem Speaks.weaken {m : Action α} (h : Speaks fd true m) : Speaks fd x m := by
  obtain ⟨reply, hreply, hx⟩ := h
  exact ⟨reply, hreply, fun _ => hx rfl⟩

theorem speaks_pure (a : α) : Speaks fd false (pure a : Action α) := by
  refine ⟨fun _ _ => ⟨.ok a, [], []⟩, ?_, ?_⟩
  · intro s
    simp only [Reply.toOutcome, List.append_nil]
    rfl
  · intro h
    cases h

theorem speaks_call (c : Call) (answer : List Call → α) : Speaks fd false (call c answer) := by
  refine ⟨fun _ calls => ⟨.ok (answer calls), [], [c]⟩, ?_, ?_⟩
  · intro s
    rfl
  · intro h
    cases h

theorem speaks_ofExcept (e : Except StdException α) : Speaks fd false (ofExcept e : Action α) := by
  refine ⟨fun _ _ => ⟨e, [], []⟩, ?_, ?_⟩
  · intro s
    cases e <;> simp only [Reply.toOutcome, List.append_nil] <;> rfl
  · intro h
    cases h

theorem speaks_subscript {pieces : List α} {i : Nat} (h : i < pieces.length) :
    Speaks fd false (subscript pieces i : Action α) := by
  rw [subscript, List.getElem?_eq_getElem h]
  exact speaks_pure _

theorem speaks_getState {f : Server → Action α} (g : Int → List Call → Action α)
    (hfg : ∀ s, f s = g s.rigModel s.calls) (hg : ∀ model calls, Speaks fd x (g model calls)) :
    Speaks fd x (getState >>= f) := by
  choose reply hreply hx using hg
  refine ⟨fun model calls => reply model calls model calls, ?_, ?_⟩
  · intro s
    have hstate : (getState >>= f) s = f s s := rfl
    rw [hstate, hfg, hreply]
  · intro hxt model calls
    exact hx model calls hxt model calls

theorem speaks_ite {c : Prop} [Decidable c] {m n : Action α} (hm : c → Speaks fd x m)
    (hn : ¬ c → Speaks fd x n) : Speaks fd x (if c then m else n) := by
  split
  · exact hm ‹_›
  · exact hn ‹_›

theorem speaks_tryCatch {m : Action α} {handler : StdException → Action α} (hm : Speaks fd x m)
    (hh : ∀ e, Speaks fd x (handler e)) : Speaks fd x (tryCatch m handler) := by
  obtain ⟨reply, hreply, hx⟩ := hm
  choose next hnext hy using hh
  let caught (model : Int) (calls : List Call) (r : Reply α) : Reply α :=
    match r.result with
    | .ok a => r
    | .error e => Reply.andThen ⟨.ok (), r.responses, r.made⟩ (fun _ => next e model) calls
  refine ⟨fun model calls => caught model calls (reply model calls), ?_, ?_⟩
  · intro s
    rw [tryCatch.eq_def, hreply]
    cases hr : (reply s.rigModel s.calls).result with
    | ok a => simp only [caught, hr, Reply.toOutcome]
    | error e =>
        have hstep := toOutcome_andThen ⟨.ok (), (reply s.rigModel s.calls).responses,
          (reply s.rigModel s.calls).made⟩
          (fun _ => next e) fd s (f := fun _ => handler e) fun _ => hnext e
        simp only [caught, hr]
        rw [← hstep]
        simp only [Reply.toOutcome, hr, Outcome.andThen]
  · intro hxt model calls a ha
    cases hr : (reply model calls).result with
    | ok b =>
        simp only [caught, hr] at ha ⊢
        exact hx hxt model calls b hr
    | error e =>
        simp only [caught, hr, Reply.andThen] at ha ⊢
        intro hnil
        exact hy e hxt model _ a ha (List.append_eq_nil_iff.mp hnil).2

theorem speaks_sendResponseToClient (response : List UInt8) :
    Speaks fd true (sendResponseToClient response fd) := by
  refine ⟨fun _ _ => ⟨.ok (), [response], []⟩, ?_, ?_⟩
  · intro s
    simp only [Reply.toOutcome, List.append_nil]
    rfl
  · intro _ _ _ _ _
    exact List.cons_ne_nil _ _

variable {env : Environment}

theorem speaks_pieceOr {pieces : List (List UInt8)} {i : Nat} {default : α} {f : List UInt8 → Action α}
    (hf : ∀ piece, Speaks fd false (f piece)) : Speaks fd false (pieceOr pieces i default f) :=
  speaks_ite (fun h => speaks_bind (speaks_subscript h) hf) fun _ => speaks_pure _

theorem speaks_answer (response : List UInt8) :
    Speaks fd true (do sendResponseToClient response fd; return true) :=
  speaks_bind (speaks_sendResponseToClient response) fun _ => speaks_pure _

theorem speaks_query (c : Call) (answer : List Call → α) (text : α → List UInt8) :
    Speaks fd true (do sendResponseToClient (text (← call c answer)) fd; return true) :=
  speaks_bind (speaks_call c answer) fun _ => speaks_answer _

theorem speaks_order (e : Except StdException α) (c : α → Call) :
    Speaks fd true (do
      let a ← ofExcept e
      call (c a) fun _ => ()
      sendResponseToClient (ascii "RPRT 0") fd
      return true) :=
  speaks_bind (speaks_ofExcept e) fun _ => speaks_bind (speaks_call _ _) fun _ => speaks_answer _

theorem speaks_getSplitVfo : Speaks fd true (getSplitVfo env fd) :=
  speaks_bind (speaks_call _ _) fun _ => speaks_sendResponseToClient _

theorem speaks_setSplitVfo (cmd : List UInt8) : Speaks fd true (setSplitVfo cmd fd) := by
  refine speaks_bind (speaks_pieceOr fun _ => speaks_pure _) fun split => ?_
  refine speaks_bind (speaks_pieceOr fun _ => speaks_pure _) fun txvfo => ?_
  exact speaks_bind (speaks_call _ _) fun _ => speaks_sendResponseToClient _

theorem speaks_setMode {cmd : List UInt8} (h : 2 < (pieces cmd).length) : Speaks fd true (setMode cmd fd) := by
  refine speaks_bind (speaks_subscript h) fun text => speaks_bind (speaks_ofExcept _) fun pbwidth => ?_
  refine speaks_bind (speaks_subscript (Nat.lt_of_succ_lt h)) fun name => ?_
  exact speaks_bind (speaks_call _ _) fun _ => speaks_sendResponseToClient _

theorem speaks_getLevel (cmd : List UInt8) : Speaks fd true (getLevel env cmd fd) :=
  speaks_bind (speaks_call _ _) fun _ => speaks_sendResponseToClient _

theorem speaks_setLevel (cmd : List UInt8) : Speaks fd true (setLevel env cmd fd) := by
  refine speaks_bind (speaks_pieceOr fun _ => speaks_pure _) fun name => ?_
  refine speaks_bind (y := true) (speaks_pieceOr fun piece => ?_) fun val => ?_
  · exact speaks_ite (fun _ => speaks_bind (speaks_ofExcept _) fun _ => speaks_pure _)
      fun _ => speaks_bind (speaks_ofExcept _) fun _ => speaks_pure _
  · let level := env.parseLevel name
    let sent (model : Int) : Value :=
      if level = env.levelAgc ∧ val.i = agcOff ∧ model = modelIC7300 then Value.ofInt agcFast else val
    refine speaks_getState (fun model _ => do
      let rc ← call (.setLevel .curr level (sent model)) env.setLevel
      sendResponseToClient (ascii "RPRT " ++ toText rc) fd) (fun _ => rfl) fun model calls => ?_
    exact speaks_bind (speaks_call _ _) fun rc => speaks_sendResponseToClient _

def words : List (List UInt8) :=
  ["\\get_powerstat", "\\chk_vfo", "\\get_lock_mode", "\\dump_state", "f", "s", "t", "m", "q", "Q", "j",
    "v"].map ascii

def orders : List (List UInt8) :=
  ["\\set_powerstat ", "S ", "T ", "V ", "M ", "F ", "l ", "L "].map ascii

/-- The trimmed lines that a branch of interpret_command is for. -/
def Recognised (cmd : List UInt8) : Prop := cmd ∈ words ∨ ∃ order ∈ orders, startsWith cmd order = true

instance (cmd : List UInt8) : Decidable (Recognised cmd) := inferInstanceAs (Decidable (_ ∨ _))

/-- Every branch but the one that quits speaks to its client, and every branch that there is for the line
answers it. -/
theorem speaks_dispatch {cmd : List UInt8}
    (hmode : startsWith cmd (ascii "M ") = true → 2 < (pieces cmd).length)
    (hquit : ¬ (cmd = ascii "q" ∨ cmd = ascii "Q")) :
    Speaks fd (decide (Recognised cmd)) (dispatch env cmd fd) := by
  have hdone {m : Action Unit} (hm : Speaks fd true m) : Speaks fd true (do m; return true) :=
    speaks_bind hm fun _ => speaks_pure _
  unfold dispatch
  refine speaks_ite (fun _ => (speaks_query _ _ _).weaken) fun h₁ => ?_
  refine speaks_ite (fun _ => (speaks_order _ _).weaken) fun h₂ => ?_
  refine speaks_ite (fun _ => (speaks_answer _).weaken) fun h₃ => ?_
  refine speaks_ite (fun _ => (speaks_bind (y := true) (speaks_call _ _) fun _ =>
    speaks_bind (speaks_sendResponseToClient _) fun _ => speaks_answer _).weaken) fun h₄ => ?_
  refine speaks_ite (fun _ => (speaks_getState _ (fun s => rfl) fun model calls =>
    speaks_answer (dumpState env (env.state calls))).weaken) fun h₅ => ?_
  refine speaks_ite (fun _ => (speaks_query _ _ _).weaken) fun h₆ => ?_
  refine speaks_ite (fun _ => (hdone speaks_getSplitVfo).weaken) fun h₇ => ?_
  refine speaks_ite (fun _ => (hdone (speaks_setSplitVfo cmd)).weaken) fun h₈ => ?_
  refine speaks_ite (fun _ => (speaks_query _ _ _).weaken) fun h₉ => ?_
  refine speaks_ite (fun _ => (speaks_order _ _).weaken) fun h₁₀ => ?_
  refine speaks_ite (fun _ => (speaks_bind (speaks_call _ _) fun _ => speaks_answer _).weaken) fun h₁₁ => ?_
  refine speaks_ite (fun _ => (speaks_bind (speaks_call _ _) fun _ => speaks_answer _).weaken) fun h₁₂ => ?_
  refine speaks_ite (fun h => (hdone (speaks_setMode (hmode h))).weaken) fun h₁₃ => ?_
  refine speaks_ite (fun _ => (speaks_order _ _).weaken) fun h₁₄ => ?_
  refine speaks_ite (fun _ => (hdone (speaks_getLevel cmd)).weaken) fun h₁₅ => ?_
  refine speaks_ite (fun _ => (hdone (speaks_setLevel cmd)).weaken) fun h₁₆ => ?_
  refine speaks_ite (fun h => absurd h hquit) fun _ => ?_
  refine speaks_ite (fun _ => (speaks_query _ _ _).weaken) fun h₁₇ => ?_
  refine speaks_ite (fun _ => (speaks_answer _).weaken) fun h₁₈ => ?_
  have hnone : ¬ Recognised cmd := by
    simp only [not_or] at hquit
    simp [Recognised, words, orders, *]
  rw [decide_eq_false hnone]
  exact speaks_pure true

/-- m leaves the connection open. -/
def Continues (m : Action Bool) : Prop := ∀ s s', m s ≠ .returned false s'

theorem continues_true : Continues (pure true) := fun _ _ h => nomatch h

theorem continues_ite {c : Prop} [Decidable c] {m n : Action Bool} (hm : c → Continues m)
    (hn : ¬ c → Continues n) : Continues (if c then m else n) := by
  split
  · exact hm ‹_›
  · exact hn ‹_›

theorem continues_bind {m : Action α} {f : α → Action Bool} (hf : ∀ a, Continues (f a)) :
    Continues (m >>= f) := by
  intro s s'
  rw [bind_apply]
  cases m s with
  | returned a t => exact hf a t s'
  | threw e t => exact fun h => nomatch h
  | undefined => exact fun h => nomatch h

theorem continues_dispatch {cmd : List UInt8} (hquit : ¬ (cmd = ascii "q" ∨ cmd = ascii "Q")) :
    Continues (dispatch env cmd fd) := by
  unfold dispatch
  repeat' first
    | exact continues_true
    | exact absurd ‹_› hquit
    | refine continues_ite (fun _ => ?_) fun _ => ?_
    | refine continues_bind fun _ => ?_

theorem continues_handleLine {line : List UInt8} (hquit : ¬ (trim line = ascii "q" ∨ trim line = ascii "Q")) :
    Continues (handleLine env line fd) := by
  intro s s'
  rw [handleLine, tryCatch.eq_def]
  cases h : interpretCommand env line fd s with
  | returned more t =>
      rintro ⟨⟩
      exact continues_dispatch hquit s s' h
  | threw e t | undefined =>
      intro hs
      cases hs

def Quits (line : List UInt8) : Prop := trim line = ascii "q" ∨ trim line = ascii "Q"

theorem speaks_handleLine (env : Environment) (fd : Int) {line : List UInt8} (hwidth : ¬ LacksWidth line)
    (hquit : ¬ Quits line) :
    Speaks fd (decide (Recognised (trim line))) (handleLine env line fd) := by
  refine speaks_tryCatch (speaks_dispatch ?_ hquit) fun _ => (speaks_answer _).weaken
  intro hmode
  have hcount := mt (And.intro hmode) hwidth
  rw [pieces_length]
  omega

/-- A server that has just been told the model of the rig and the calls before the line. -/
def blankServer (model : Int) (calls : List Call) : Server := ⟨model, false, ∅, calls⟩

/-- The response to a line, for the answers of hamlib that the calls before it bring about. -/
def responseTo (env : Environment) (line : List UInt8) (fd : Int) (model : Int) (calls : List Call) :
    List UInt8 :=
  match handleLine env line fd (blankServer model calls) with
  | .returned _ s => (s.client fd).writeBuffer
  | .threw _ s => (s.client fd).writeBuffer
  | .undefined => []

theorem blankServer_client (model : Int) (calls : List Call) (fd : Int) :
    (blankServer model calls).client fd = {} := by
  simp [blankServer, Server.client]

theorem handleLine_not_threw {line : List UInt8} {s s' : Server} {e : StdException} :
    handleLine env line fd s ≠ .threw e s' := by
  rw [handleLine, tryCatch.eq_def]
  cases interpretCommand env line fd s with
  | returned more t | threw e' t | undefined =>
      intro h
      cases h

/-- What handling a line does: its responses go to the client it came from. -/
theorem handleLine_returned (env : Environment) {line : List UInt8} (hwidth : ¬ LacksWidth line)
    (hquit : ¬ Quits line) (fd : Int) (s : Server) :
    ∃ responses made,
      handleLine env line fd s = .returned true { respond s fd responses with calls := s.calls ++ made } ∧
      responseTo env line fd s.rigModel s.calls = responseText responses ∧
      (Recognised (trim line) → responses ≠ []) := by
  obtain ⟨reply, hreply, hanswers⟩ := speaks_handleLine env fd hwidth hquit
  have hs := hreply s
  have hblank := hreply (blankServer s.rigModel s.calls)
  have hmodel : (blankServer s.rigModel s.calls).rigModel = s.rigModel := rfl
  have hcalls : (blankServer s.rigModel s.calls).calls = s.calls := rfl
  rw [hmodel, hcalls] at hblank
  rw [Reply.toOutcome] at hs hblank
  cases hr : (reply s.rigModel s.calls).result with
  | error e =>
      rw [hr] at hs
      exact absurd hs handleLine_not_threw
  | ok more =>
      rw [hr] at hs hblank
      have hmore : more = true := by
        cases more with
        | true => rfl
        | false => exact absurd hs (continues_handleLine hquit s _)
      subst hmore
      refine ⟨(reply s.rigModel s.calls).responses, (reply s.rigModel s.calls).made, hs, ?_, ?_⟩
      · have hnew := respond_writeBuffer (blankServer s.rigModel s.calls) fd
          (reply s.rigModel s.calls).responses
        rw [blankServer_client, List.nil_append] at hnew
        rw [responseTo, hblank]
        exact hnew
      · intro hrec
        exact hanswers (decide_eq_true hrec) _ _ _ hr

theorem dispatch_quit (env : Environment) {cmd : List UInt8} (h : cmd = ascii "q" ∨ cmd = ascii "Q")
    (fd : Int) :
    dispatch env cmd fd = (do
      sendResponseToClient (ascii "RPRT 0") fd
      let _ ← writeFromClient env fd
      return false) := by
  rcases h with rfl | rfl <;> rfl

theorem dispatch_unrecognised {cmd : List UInt8} (h : ¬ Recognised cmd) : dispatch env cmd fd = pure true := by
  simp only [Recognised, words, orders, List.map_cons, List.map_nil, List.mem_cons, List.not_mem_nil, or_false,
    not_or, exists_eq_or_imp, exists_eq_left] at h
  unfold dispatch
  simp [h]

/-- The client gets a response, or the connection is closed after an attempt to write what is due to it. -/
def Answered (env : Environment) (line : List UInt8) (fd : Int) (s : Server) : Prop :=
  ∃ more s', handleLine env line fd s = .returned more s' ∧
    ((∃ text, (s'.client fd).writeBuffer = (s.client fd).writeBuffer ++ text ++ ascii "\n") ∨
      (more = false ∧ s'.calls = s.calls ++
        [.write (s.client fd).fd ((s.client fd).writeBuffer ++ ascii "RPRT 0\n")]))

theorem responseText_ne_nil {responses : List (List UInt8)} (h : responses ≠ []) :
    ∃ text, responseText responses = text ++ ascii "\n" := by
  rcases responses.eq_nil_or_concat with hnil | ⟨before, last, hlast⟩
  · exact absurd hnil h
  · refine ⟨responseText before ++ last, ?_⟩
    rw [hlast, List.concat_eq_append, responseText, List.flatMap_append, responseText]
    simp

theorem answered_of_recognised {line : List UInt8} (hwidth : ¬ LacksWidth line) (hquit : ¬ Quits line)
    (hrec : Recognised (trim line)) (s : Server) : Answered env line fd s := by
  obtain ⟨responses, made, hs', -, hne⟩ := handleLine_returned env hwidth hquit fd s
  obtain ⟨text, htext⟩ := responseText_ne_nil (hne hrec)
  refine ⟨true, _, hs', .inl ⟨text, ?_⟩⟩
  rw [List.append_assoc, ← htext]
  exact respond_writeBuffer s fd responses

theorem writeFromClient_eq (env : Environment) (key : Int) (s : Server) :
    writeFromClient env key s =
      if (s.client key).writeBuffer = [] then .returned true s
      else
        let s₁ := { s with calls := s.calls ++ [.write (s.client key).fd (s.client key).writeBuffer] }
        if env.written s.calls < 0 then .returned false s₁
        else .returned true (s₁.updateClient key fun c =>
          { c with writeBuffer := c.writeBuffer.drop (env.written s.calls).toNat }) := by
  rw [writeFromClient, bind_apply, getState, Outcome.andThen]
  split
  · rfl
  · rw [bind_apply, call, Outcome.andThen]
    split <;> rfl

theorem writeFromClient_returns (env : Environment) (key : Int) (s : Server) :
    ∃ more s', writeFromClient env key s = .returned more s' := by
  rw [writeFromClient_eq]
  split
  · exact ⟨_, _, rfl⟩
  · split <;> exact ⟨_, _, rfl⟩

theorem handleLine_quit (env : Environment) {line : List UInt8} (h : Quits line) (fd : Int) (s : Server) :
    ∃ more s', handleLine env line fd s = .returned false s' ∧
      writeFromClient env fd (respond s fd [ascii "RPRT 0"]) = .returned more s' := by
  have hline : interpretCommand env line fd s =
      (writeFromClient env fd (respond s fd [ascii "RPRT 0"])).andThen fun _ => pure false := by
    rw [interpretCommand, dispatch_quit env h]
    rfl
  obtain ⟨more, s', hwrite⟩ := writeFromClient_returns env fd (respond s fd [ascii "RPRT 0"])
  refine ⟨more, s', ?_, hwrite⟩
  rw [handleLine, tryCatch.eq_def, hline, hwrite]
  rfl

theorem answered_of_quits {line : List UInt8} (h : Quits line) (s : Server) : Answered env line fd s := by
  obtain ⟨more, s', hs', hwrite⟩ := handleLine_quit env h fd s
  refine ⟨false, s', hs', .inr ⟨rfl, ?_⟩⟩
  have hbuffer := respond_writeBuffer s fd [ascii "RPRT 0"]
  have hfd : ((respond s fd [ascii "RPRT 0"]).client fd).fd = (s.client fd).fd := by
    rw [respond, List.foldl_cons, List.foldl_nil, updateClient_self]
  have hne : (s.client fd).writeBuffer ++ responseText [ascii "RPRT 0"] ≠ [] :=
    List.append_ne_nil_of_right_ne_nil _ (by decide)
  rw [writeFromClient_eq, hbuffer, hfd, if_neg hne] at hwrite
  split at hwrite <;>
  · cases hwrite
    rfl

/-- A line is answered exactly when interpret_command has a branch for it: what it does not know it
logs, and the client waits. -/
theorem line_answered_iff (env : Environment) (line : List UInt8) (fd : Int) (s : Server)
    (h : Defined (interpretCommand env line fd) s) : Answered env line fd s ↔ Recognised (trim line) := by
  have hwidth : ¬ LacksWidth line := fun hlacks => h (interpretCommand_undefined env fd hlacks s)
  constructor
  · intro hanswered
    by_contra hrec
    obtain ⟨more, s', hs', hwhat⟩ := hanswered
    have hcommand : handleLine env line fd s = .returned true s := by
      rw [handleLine, tryCatch.eq_def, interpretCommand, dispatch_unrecognised hrec]
      rfl
    rw [hcommand] at hs'
    cases hs'
    obtain ⟨text, htext⟩ | ⟨hmore, -⟩ := hwhat
    · have hlen := congrArg List.length htext
      rw [List.length_append, List.length_append] at hlen
      have hone : (ascii "\n").length = 1 := rfl
      omega
    · cases hmore
  · intro hrec
    by_cases hquit : Quits line
    · exact answered_of_quits hquit s
    · exact answered_of_recognised hwidth hquit hrec s

theorem frequency_answered : Answered idleRig (ascii " f\r") 4 oneClient :=
  (line_answered_iff idleRig (ascii " f\r") 4 oneClient (fun h => nomatch h)).mpr (by decide)

/-- A set split without its arguments has no branch: the trim takes the blank that the prefix asks for. -/
theorem unknown_line_unanswered : ¬ ∀ (env : Environment) (line : List UInt8) (fd : Int) (s : Server),
    trim line ≠ [] → Defined (interpretCommand env line fd) s → Answered env line fd s := by
  intro hall
  obtain ⟨more, s', hs', hwhat⟩ := hall idleRig (ascii "S ") 4 oneClient (by decide) (fun h => nomatch h)
  have hcommand : handleLine idleRig (ascii "S ") 4 oneClient = .returned true oneClient := rfl
  rw [hcommand] at hs'
  cases hs'
  obtain ⟨text, htext⟩ | ⟨hmore, -⟩ := hwhat
  · have hlen := congrArg List.length htext
    simp [oneClient, Server.client, ascii] at hlen
  · cases hmore

end Cwsd.RigctldReplies
