import Cwsd.RigctldCommands

namespace Cwsd.RigctldSessions

open Runs Effects StringUtil RigctldServer RigctldSafety RigctldReplies RigctldClients RigctldWork RigctldPoll
open RigctldStreams RigctldCommands

/-- What one client after the other has had served, each line with its response. -/
abbrev Issued : Type := List (Int × List UInt8 × List UInt8)

/-- The server as a machine that carries out one command at a time, whoever has sent it: the next command
finds the rig as the commands before it have left it. What is no command does not reach the rig. -/
inductive Sequential (env : Environment) (model : Int) : Issued → List Call → Prop
  | start : Sequential env model [] []
  | socket {issued : Issued} {calls : List Call} (c : Call) :
      Sequential env model issued calls → OnSocket c = true → Sequential env model issued (calls ++ [c])
  | command {issued : Issued} {calls : List Call} (key : Int) (line : List UInt8) (cmd : Command) :
      Sequential env model issued calls → Spells line cmd →
      Sequential env model (issued ++ [(key, line, responseText (cmd.responses env model calls))])
        (calls ++ cmd.made env model)
  | quit {issued : Issued} {calls : List Call} (key : Int) (line response : List UInt8) :
      Sequential env model issued calls → Quits line →
        Sequential env model (issued ++ [(key, line, response)]) calls
  | unknown {issued : Issued} {calls : List Call} (key : Int) (line : List UInt8) :
      Sequential env model issued calls → ¬ Recognised (trim line) →
      Sequential env model (issued ++ [(key, line, [])]) calls

/-- A line that spells a command or asks for the end, or that interpret_command has no branch for. -/
def Understood (line : List UInt8) : Prop := (∃ cmd, Spells line cmd) ∨ Quits line ∨ ¬ Recognised (trim line)

variable {env : Environment} {key : Int}

theorem responseTo_spelled {line : List UInt8} {cmd : Command} (h : Spells line cmd) (model : Int)
    (calls : List Call) :
    responseTo env line key model calls = responseText (cmd.responses env model calls) := by
  have hbuffer := respond_writeBuffer (blankServer model calls) key (cmd.responses env model calls)
  rw [blankServer_client, List.nil_append] at hbuffer
  rw [responseTo, handleLine_carriedOut h]
  exact hbuffer

theorem handleLine_unknown {line : List UInt8} (h : ¬ Recognised (trim line)) (s : Server) :
    handleLine env line key s = .returned true s := by
  rw [handleLine, tryCatch.eq_def, interpretCommand, dispatch_unrecognised h]
  rfl

theorem responseTo_unknown {line : List UInt8} (h : ¬ Recognised (trim line)) (model : Int)
    (calls : List Call) :
    responseTo env line key model calls = [] := by
  rw [responseTo, handleLine_unknown h]
  exact congrArg Client.writeBuffer (blankServer_client model calls key)

theorem writeFromClient_calls {s s' : Server} {keep : Bool}
    (h : writeFromClient env key s = .returned keep s') :
    s'.calls = s.calls ∨ ∃ c, OnSocket c = true ∧ s'.calls = s.calls ++ [c] := by
  rw [writeFromClient_eq] at h
  split at h
  · cases h
    exact .inl rfl
  · split at h <;>
    · cases h
      exact .inr ⟨_, rfl, rfl⟩

theorem Sequential.write {model : Int} {issued : Issued} {s s' : Server} {keep : Bool}
    (h : Sequential env model issued s.calls) (hwrite : writeFromClient env key s = .returned keep s') :
    Sequential env model issued s'.calls := by
  obtain hsame | ⟨c, hc, hcalls⟩ := writeFromClient_calls hwrite
  · rwa [hsame]
  · rw [hcalls]
    exact .socket c h hc

theorem sequential_line {s t : Server} {more : Bool} {line : List UInt8} {issued : Issued}
    (h : Sequential env s.rigModel issued s.calls) (hline : Understood line)
    (ht : handleLine env line key s = .returned more t) :
    Sequential env s.rigModel (issued ++ [(key, line, responseTo env line key s.rigModel s.calls)]) t.calls := by
  rcases hline with ⟨cmd, hspells⟩ | hquit | hunknown
  · rw [handleLine_carriedOut hspells] at ht
    cases ht
    rw [responseTo_spelled hspells]
    exact .command key line cmd h hspells
  · obtain ⟨more', s', hs', hwrite⟩ := handleLine_quit env hquit key s
    rw [hs'] at ht
    cases ht
    refine Sequential.write ?_ hwrite
    exact .quit key line _ h hquit
  · rw [handleLine_unknown hunknown] at ht
    cases ht
    rw [responseTo_unknown hunknown]
    exact .unknown key line h hunknown

def issuedTo (key : Int) (served : List (List UInt8 × List UInt8)) : Issued := served.map (Prod.mk key)

theorem sequential_readLoop {n : Nat} {s s' : Server} {keep : Bool} {issued : Issued}
    (hkey : key ∈ s.clients) (hfd : (s.client key).fd = key)
    (hunderstood : ∀ line ∈ completeLines (s.client key).readBuffer, Understood line)
    (h : Sequential env s.rigModel issued s.calls) (hread : readLoop env key n s = .returned keep s') :
    Sequential env s.rigModel (issued ++ issuedTo key (served env key n s)) s'.calls := by
  induction n generalizing s issued with
  | zero =>
      cases hread
      rwa [served, issuedTo, List.map_nil, List.append_nil]
  | succ n ih =>
      rw [readLoop_succ] at hread
      cases hfind : find (s.client key).readBuffer ['\n'.toUInt8] 0 with
      | none =>
          rw [hfind] at hread
          cases hread
          simpa [served, hfind, issuedTo] using h
      | some pos =>
          obtain ⟨hcut, hnot, hlen⟩ := find_newline hfind
          rw [hcut, completeLines_cons hnot, List.forall_mem_cons] at hunderstood
          obtain ⟨hfirst, hothers⟩ := hunderstood
          rw [hfind, hfd] at hread
          simp only [hlen] at hread
          cases hline : handleLine env ((s.client key).readBuffer.take pos) key s with
          | returned more t =>
              have hnext := sequential_line h hfirst hline
              have hserves := handleLine_serves hkey hline
              rw [hline] at hread
              cases more with
              | false =>
                  cases hread
                  simpa only [served, hfind, hfd, hline, issuedTo, List.map_cons, List.map_nil] using hnext
              | true =>
                  have hmem := (hserves.members key).mpr hkey
                  have herase := serves_updateClient hmem (f := fun c =>
                    { c with readBuffer := c.readBuffer.drop (pos + 1) }) fun _ => rfl
                  have hmodel := (hserves.trans herase).rigModel
                  rw [← hmodel] at hnext ⊢
                  have hrest := ih ((herase.members key).mpr hmem)
                    (by rw [herase.clientFd, hserves.clientFd, hfd])
                    (by rwa [updateClient_self, handleLine_readBuffer hline key]) hnext hread
                  rw [hmodel, List.append_assoc, List.singleton_append] at hrest
                  rw [hmodel]
                  simpa only [served, hfind, hfd, hlen, hline, issuedTo, List.map_cons] using hrest
          | threw e t =>
              rw [hline] at hread
              cases hread
          | undefined =>
              rw [hline] at hread
              cases hread

def readServed (env : Environment) (s : Server) (key : Int) : List (List UInt8 × List UInt8) :=
  match env.received s.calls with
  | none => []
  | some [] => []
  | some msg =>
      let t := received key msg s
      if s.rigDisconnected then [] else served env key (t.client key).readBuffer.length t

theorem readLog_served (s : Server) (key : Int) (log : Log) :
    (readLog env s key log).served = log.served ++ readServed env s key := by
  rw [readLog, readServed]
  cases env.received s.calls with
  | none => rw [List.append_nil]
  | some msg =>
      cases msg with
      | nil => rw [List.append_nil]
      | cons c rest => rfl

theorem writeLog_served (s : Server) (key : Int) (log : Log) :
    (writeLog env s key log).served = log.served := by
  rw [writeLog]
  split <;> rfl

/-- The lines that a read completes are understood, unless the rig is gone and nobody looks at them. -/
def Conversant (env : Environment) (w : Work) (a : Action) : Prop :=
  ∀ key ∈ reading w a, ∀ msg ∈ env.received w.server.calls, w.server.rigDisconnected = false →
    ∀ line ∈ completeLines ((received key msg w.server).client key).readBuffer, Understood line

theorem sequential_read {s s' : Server} {keep : Bool} {issued : Issued} (hkey : key ∈ s.clients)
    (hfd : (s.client key).fd = key) (hunderstood : ∀ msg ∈ env.received s.calls, s.rigDisconnected = false →
      ∀ line ∈ completeLines ((received key msg s).client key).readBuffer, Understood line)
    (h : Sequential env s.rigModel issued s.calls) (hread : readFromClient env key s = .returned keep s') :
    Sequential env s.rigModel (issued ++ issuedTo key (readServed env s key)) s'.calls := by
  have hrecv : Sequential env s.rigModel issued (s.calls ++ [.recv (s.client key).fd]) := .socket _ h rfl
  rw [readFromClient_eq] at hread
  rw [readServed]
  cases hreceived : env.received s.calls with
  | none =>
      rw [hreceived] at hread
      cases hread
      simpa [issuedTo] using hrecv
  | some msg =>
      rw [hreceived] at hread
      cases msg with
      | nil =>
          cases hread
          simpa [issuedTo] using hrecv
      | cons c rest =>
          dsimp only at hread ⊢
          split at hread
          · rename_i hdis
            cases hread
            rw [if_pos hdis, issuedTo, List.map_nil, List.append_nil]
            exact hrecv
          · rename_i hlive
            have hserves := serves_received hkey (c :: rest)
            rw [if_neg hlive]
            exact sequential_readLoop ((hserves.members key).mpr hkey) (hserves.clientFd.trans hfd)
              (hunderstood _ hreceived (by simpa using hlive)) hrecv hread

/-- The logs of the connections beside the one list of all that has been served. -/
def noteSessions (env : Environment) (w : Work) (a : Action) (notes : (Int → Log) × Issued) :
    (Int → Log) × Issued :=
  (noteStreams env w a notes.1,
    match reading w a with
    | some key => notes.2 ++ issuedTo key (readServed env w.server key)
    | none => notes.2)

theorem steps_calls {w w' : Work} {a : Action} {model : Int} {issued : Issued} (hs : Steps env w a w')
    (hread : reading w a = none) (h : Sequential env model issued w.server.calls) :
    Sequential env model issued w'.server.calls := by
  cases hs with
  | close =>
      rw [closeRig]
      split <;> exact h
  | opened hpc result => cases result <;> exact h
  | accept hpc hat hzero fd hfd =>
      rw [acceptClient]
      split <;> exact h
  | read hpc hat hlt hne herror hin =>
      rw [reading_eq_some.mpr ⟨_, _, _, hpc, rfl, hat, ⟨hlt, hne, herror, hin⟩, rfl⟩] at hread
      cases hread
  | @write scan p r keep server hpc hat hout hwrite =>
      exact Sequential.write (s := (clientAt p.fd w).server) h hwrite
  | @sweep fdToAdd fdsToRemove hpc =>
      rw [sweep_server]
      exact h
  | flags hpc hflags =>
      obtain ⟨flags, -, rfl⟩ := Option.map_eq_some_iff.mp hflags
      exact h
  | _ => exact h

theorem steps_rigModel {w w' : Work} {a : Action} (hkeyed : Keyed w.server) (hplaced : Placed w)
    (hs : Steps env w a w') : w'.server.rigModel = w.server.rigModel := by
  cases hs with
  | close =>
      rw [closeRig]
      split <;> rfl
  | opened hpc result => cases result <;> rfl
  | accept hpc hat hzero fd hfd =>
      rw [acceptClient]
      split <;> rfl
  | read hpc hat _ hne _ _ hcall =>
      exact (read_serves hkeyed (readable_client hplaced hpc hat hne) hcall).rigModel
  | write hpc hat hout hcall => exact (write_serves (writable_client hplaced hpc hat hout) hcall).rigModel
  | @sweep fdToAdd fdsToRemove hpc =>
      rw [sweep_server]
      rfl
  | flags hpc hflags =>
      obtain ⟨flags, -, rfl⟩ := Option.map_eq_some_iff.mp hflags
      rfl
  | _ => rfl

def servedTo (key : Int) (issued : Issued) : List (List UInt8 × List UInt8) :=
  (issued.filter fun e => e.1 = key).map Prod.snd

theorem servedTo_issuedTo (key reader : Int) (issued : Issued) (served : List (List UInt8 × List UInt8)) :
    servedTo key (issued ++ issuedTo reader served) =
      servedTo key issued ++ if reader = key then served else [] := by
  rw [servedTo, List.filter_append, List.map_append, issuedTo, List.filter_map, servedTo]
  by_cases h : reader = key
  · rw [if_pos h]
    simp [h, Function.comp_def]
  · rw [if_neg h]
    simp [h, Function.comp_def]

theorem suffix_note {w : Work} {a : Action} {logs : Int → Log} {issued : Issued}
    (h : ∀ key, (logs key).served <:+ servedTo key issued) (key : Int) :
    ((noteSessions env w a (logs, issued)).1 key).served <:+
      servedTo key (noteSessions env w a (logs, issued)).2 := by
  simp only [noteSessions, noteStreams]
  cases hread : reading w a with
  | some reader =>
      simp only [servedTo_issuedTo]
      by_cases hkey : reader = key
      · subst hkey
        rw [Function.update_self, readLog_served, if_pos rfl]
        exact List.suffix_append_self_iff.mpr (h reader)
      · rw [Function.update_of_ne (Ne.symm hkey), if_neg hkey, List.append_nil]
        exact h key
  | none =>
      cases hwrite : writing w a with
      | some writer =>
          by_cases hkey : key = writer
          · subst hkey
            simp only [Function.update_self, writeLog_served]
            exact h key
          · simp only [Function.update_of_ne hkey]
            exact h key
      | none =>
          cases a with
          | accepted fd =>
              dsimp only
              split
              · exact h key
              · by_cases hkey : key = fd
                · subst hkey
                  rw [Function.update_self]
                  exact List.nil_suffix
                · rw [Function.update_of_ne hkey]
                  exact h key
          | _ => exact h key

/-- In every run of the worker the rig sees the commands of all the clients one after the other, with the
calls of a command together and in full, whatever chunks and whatever order they come in and however often
the rig goes away; and what is served over a connection is a part of what was served in this order. -/
theorem commands_sequential (env : Environment) (rigModel serverFd : Int) (as : List Action) (w : Work)
    (logs : Int → Log) (issued : Issued)
    (h : Run (observed (step env) (noteSessions env)) (fun s a => Conversant env s.1 a)
      (start rigModel serverFd, fun _ => {}, []) as (w, logs, issued)) :
    Sequential env rigModel issued w.server.calls ∧ ∀ key, (logs key).served <:+ servedTo key issued := by
  have hinv := h.invariant (fun s => (Keyed s.1.server ∧ Placed s.1) ∧ s.1.server.rigModel = rigModel ∧
    Sequential env rigModel s.2.2 s.1.server.calls ∧ ∀ key, (s.2.1 key).served <:+ servedTo key s.2.2)
    ⟨placed_start rigModel serverFd, rfl, .start, fun _ => List.suffix_rfl⟩ ?_
  · exact hinv.2.2
  · rintro ⟨w, logs, issued⟩ a s' ⟨⟨hkeyed, hplaced⟩, hmodel, hseq, hlogs⟩ hok hstep
    obtain ⟨hs, hnote⟩ := observed_eq_some.mp hstep
    have hsteps := steps_of_step hs
    refine ⟨placed_step hkeyed hplaced hsteps, (steps_rigModel hkeyed hplaced hsteps).trans hmodel, ?_, ?_⟩
    · rw [hnote, noteSessions]
      cases hread : reading w a with
      | none => exact steps_calls hsteps hread hseq
      | some key =>
          obtain ⟨scan, p, r, hpc, -, hat, ⟨-, hne, -, -⟩, rfl⟩ := reading_eq_some.mp hread
          have hmem := readable_client hplaced hpc hat hne
          obtain ⟨keep, server, hcall, hserver⟩ := steps_reading hsteps hread
          rw [clientAt_eq hmem] at hcall
          rw [hserver]
          subst hmodel
          exact sequential_read hmem (hkeyed _ hmem) (hok _ hread) hseq hcall
    · rw [hnote]
      exact fun key => suffix_note hlogs key

def askingInPieces : Environment :=
  { idleRig with
    received := fun calls => if calls.contains (.recv 4) then some (ascii "OB\n") else some (ascii " f\r\nV VF")
    written := fun _ => 3 }

theorem understood_pieces : ∀ line ∈ [ascii " f\r", ascii "V VFOB"], Understood line := by
  have hfreq : Spells (ascii " f\r") .getFreq :=
    ⟨ascii " ", ascii "\r", rfl, by decide +kernel, by decide +kernel⟩
  have hvfo : Spells (ascii "V VFOB") (.setVfo ⟨.b, by decide⟩) :=
    ⟨[], [], rfl, by decide +kernel, by decide +kernel⟩
  intro line hline
  rcases List.mem_cons.mp hline with rfl | hline
  · exact .inl ⟨_, hfreq⟩
  · rw [List.mem_singleton.mp hline]
    exact .inl ⟨_, hvfo⟩

theorem pieces_sequential : ∃ (w : Work) (logs : Int → Log) (issued : Issued),
    (logs 4).served.map Prod.fst = [ascii " f\r", ascii "V VFOB"] ∧
    w.server.calls.filter (fun c => OnSocket c = false) = [.getFreq .curr, .setVfo .b] ∧
    Sequential askingInPieces modelIC7300 issued w.server.calls ∧
    ∀ key, (logs key).served <:+ servedTo key issued := by
  obtain ⟨⟨w, logs, issued⟩, hrun, hview⟩ := run_of_exec_map
    (observed (step askingInPieces) (noteSessions askingInPieces))
    (fun s a => ∀ key ∈ reading s.1 a, ∀ msg ∈ askingInPieces.received s.1.server.calls,
      ∀ line ∈ completeLines ((received key msg s.1.server).client key).readBuffer,
        line ∈ [ascii " f\r", ascii "V VFOB"])
    (start modelIC7300 3, fun _ => {}, []) talking
    (fun s => ((s.2.1 4).served.map Prod.fst, s.1.server.calls.filter fun c => OnSocket c = false))
    ([ascii " f\r", ascii "V VFOB"], [.getFreq .curr, .setVfo .b]) (by decide +kernel)
  simp only [Prod.mk.injEq] at hview
  refine ⟨w, logs, issued, hview.1, hview.2, commands_sequential askingInPieces modelIC7300 3 talking w logs
    issued ?_⟩
  apply hrun.mono
  intro s a hknown key hkey msg hmsg _ line hline
  exact understood_pieces line (hknown key hkey msg hmsg line hline)

end Cwsd.RigctldSessions
