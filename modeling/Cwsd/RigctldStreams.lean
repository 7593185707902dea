import Cwsd.RigctldPoll

namespace Cwsd.RigctldStreams

open Runs Effects StringUtil RigctldServer RigctldSafety RigctldReplies RigctldClients RigctldWork RigctldPoll

/-- The commands that the loop over the lines passes to interpret_command, each with its response. -/
def served (env : Environment) (key : Int) : Nat → Server → List (List UInt8 × List UInt8)
  | 0, _ => []
  | n + 1, s =>
      let client := s.client key
      match find client.readBuffer ['\n'.toUInt8] 0 with
      | none => []
      | some pos =>
          let cmd := client.readBuffer.take pos
          (cmd, responseTo env cmd client.fd s.rigModel s.calls) ::
            match handleLine env cmd client.fd s with
            | .returned true t =>
                served env key n (t.updateClient key fun c =>
                  { c with readBuffer := c.readBuffer.drop (cmd.length + 1) })
            | _ => []

/-- What has gone over the connection that is open on a descriptor. -/
structure Log where
  received : List UInt8 := []
  served : List (List UInt8 × List UInt8) := []
  written : List UInt8 := []
  deriving DecidableEq, Repr

def lineText (command : List UInt8) : List UInt8 := command ++ ['\n'.toUInt8]

theorem completeLines_append {lines : List (List UInt8)} (h : ∀ line ∈ lines, '\n'.toUInt8 ∉ line)
    (rest : List UInt8) :
    completeLines (lines.flatMap lineText ++ rest) = lines ++ completeLines rest := by
  induction lines with
  | nil => rfl
  | cons line lines ih =>
      rw [List.flatMap_cons, lineText, List.append_assoc, List.append_assoc, List.singleton_append,
        completeLines_cons (h line List.mem_cons_self), ih fun l hl => h l (List.mem_cons_of_mem _ hl),
        List.cons_append]

theorem completeLines_of_not_mem {rest : List UInt8} (h : '\n'.toUInt8 ∉ rest) : completeLines rest = [] := by
  rw [completeLines, List.splitOn_eq_singleton h]
  rfl

/-- A line on which interpret_command has a defined behaviour and keeps the connection. -/
def Plain (line : List UInt8) : Prop := ¬ LacksWidth line ∧ ¬ Quits line

theorem readLoop_streams {env : Environment} {key : Int} {n : Nat} {s s' : Server} {keep : Bool}
    (hkey : key ∈ s.clients) (hfd : (s.client key).fd = key)
    (hplain : ∀ line ∈ completeLines (s.client key).readBuffer, Plain line)
    (h : readLoop env key n s = .returned keep s') :
    keep = true ∧
      (s.client key).readBuffer =
        ((served env key n s).map Prod.fst).flatMap lineText ++ (s'.client key).readBuffer ∧
      (s'.client key).writeBuffer = (s.client key).writeBuffer ++ (served env key n s).flatMap Prod.snd ∧
      ∀ e ∈ served env key n s, '\n'.toUInt8 ∉ e.1 := by
  induction n generalizing s with
  | zero =>
      cases h
      simp [served]
  | succ n ih =>
      rw [readLoop_succ] at h
      cases hfind : find (s.client key).readBuffer ['\n'.toUInt8] 0 with
      | none =>
          rw [hfind] at h
          cases h
          simp [served, hfind]
      | some pos =>
          obtain ⟨hcut, hnot, hlen⟩ := find_newline hfind
          rw [hcut, completeLines_cons hnot] at hplain
          obtain ⟨hwidth, hquit⟩ := hplain _ List.mem_cons_self
          obtain ⟨responses, made, hline, hresponse, -⟩ := handleLine_returned env hwidth hquit key s
          have hserves := handleLine_serves hkey hline
          have hbuffer := handleLine_readBuffer hline key
          have hmem := (hserves.members key).mpr hkey
          have herase := serves_updateClient hmem (f := fun c =>
            { c with readBuffer := c.readBuffer.drop (pos + 1) }) fun _ => rfl
          rw [hfind, hfd] at h
          simp only [hlen, hline] at h
          obtain ⟨hkeep, hread, hwrite, hlines⟩ := ih ((herase.members key).mpr hmem)
            (by rw [herase.clientFd, hserves.clientFd, hfd])
            (by
              rw [updateClient_self, hbuffer]
              exact fun line hl => hplain line (List.mem_cons_of_mem _ hl)) h
          rw [updateClient_self] at hread hwrite
          rw [hbuffer] at hread
          simp only [served, hfind, hfd, hlen, hline]
          refine ⟨hkeep, ?_, ?_, ?_⟩
          · rw [List.map_cons, List.flatMap_cons, lineText, List.append_assoc, List.append_assoc,
              List.singleton_append, ← hread]
            exact hcut
          · rw [hwrite, List.flatMap_cons, hresponse, ← List.append_assoc, ← respond_writeBuffer]
            rfl
          · intro e he
            rcases List.mem_cons.mp he with rfl | he
            · exact hnot
            · exact hlines e he

instance (line : List UInt8) : Decidable (Plain line) :=
  inferInstanceAs (Decidable (¬ (_ ∧ _) ∧ ¬ (_ ∨ _)))

def reading (w : Work) (a : Action) : Option Int :=
  match w.pc, a with
  | .scanIn scan, .advance => do
      let p ← w.pfds[scan.index]?
      let r ← scan.revents[scan.index]?
      if scan.index < w.pfdNr ∧ scan.index ≠ 0 ∧ r.error = false ∧ r.pollIn = true then some p.fd else none
  | _, _ => none

def writing (w : Work) (a : Action) : Option Int :=
  match w.pc, a with
  | .scanOut scan, .advance => do
      let p ← w.pfds[scan.index]?
      let r ← scan.revents[scan.index]?
      if r.pollOut = true then some p.fd else none
  | _, _ => none

def readLog (env : Environment) (s : Server) (key : Int) (log : Log) : Log :=
  match env.received s.calls with
  | none => log
  | some [] => log
  | some msg =>
      let t := received key msg s
      { log with
        received := log.received ++ msg
        served := log.served ++
          if s.rigDisconnected then [] else served env key (t.client key).readBuffer.length t }

def writeLog (env : Environment) (s : Server) (key : Int) (log : Log) : Log :=
  if (s.client key).writeBuffer = [] ∨ env.written s.calls < 0 then log
  else { log with written := log.written ++ (s.client key).writeBuffer.take (env.written s.calls).toNat }

/-- The logs of the connections; a descriptor that accept hands out begins a new one. -/
def noteStreams (env : Environment) (w : Work) (a : Action) (logs : Int → Log) : Int → Log :=
  match reading w a, writing w a, a with
  | some key, _, _ => Function.update logs key (readLog env w.server key (logs key))
  | none, some key, _ => Function.update logs key (writeLog env w.server key (logs key))
  | none, none, .accepted fd => if fd < 0 then logs else Function.update logs fd {}
  | none, none, _ => logs

/-- The rig stays connected while there are clients, and what they send is without NUL, in chunks that recv
has room for, and has plain lines only. -/
def Orderly (env : Environment) (w : Work) (a : Action) : Prop :=
  match a with
  | .disconnect => False
  | .accepted _ => w.server.rigDisconnected = false
  | a => ∀ key ∈ reading w a, ∀ msg ∈ env.received w.server.calls, msg.length ≤ msgSize ∧ 0 ∉ msg ∧
      ∀ line ∈ completeLines ((w.server.client key).readBuffer ++ msg), Plain line

instance (env : Environment) (w : Work) (a : Action) : Decidable (Orderly env w a) := by
  unfold Orderly
  split <;> infer_instance

theorem reading_eq_some {w : Work} {a : Action} {key : Int} :
    reading w a = some key ↔ ∃ scan p r, w.pc = .scanIn scan ∧ a = .advance ∧ At w scan p r ∧
      (scan.index < w.pfdNr ∧ scan.index ≠ 0 ∧ r.error = false ∧ r.pollIn = true) ∧ p.fd = key := by
  constructor
  · intro h
    unfold reading at h
    split at h
    · rename_i scan hpc
      obtain ⟨p, hp, h⟩ := Option.bind_eq_some_iff.mp h
      obtain ⟨r, hr, h⟩ := Option.bind_eq_some_iff.mp h
      split at h
      · rename_i hall
        exact ⟨scan, p, r, hpc, rfl, ⟨hp, hr⟩, hall, Option.some.inj h⟩
      · cases h
    · cases h
  · rintro ⟨scan, p, r, hpc, rfl, hat, hall, rfl⟩
    simp only [reading, hpc, hat.entry, hat.report, Option.bind_some, if_pos hall, bind]

theorem writing_eq_some {w : Work} {a : Action} {key : Int} :
    writing w a = some key ↔ ∃ scan p r, w.pc = .scanOut scan ∧ a = .advance ∧ At w scan p r ∧
      r.pollOut = true ∧ p.fd = key := by
  constructor
  · intro h
    unfold writing at h
    split at h
    · rename_i scan hpc
      obtain ⟨p, hp, h⟩ := Option.bind_eq_some_iff.mp h
      obtain ⟨r, hr, h⟩ := Option.bind_eq_some_iff.mp h
      split at h
      · rename_i hout
        exact ⟨scan, p, r, hpc, rfl, ⟨hp, hr⟩, hout, Option.some.inj h⟩
      · cases h
    · cases h
  · rintro ⟨scan, p, r, hpc, rfl, hat, hout, rfl⟩
    simp only [writing, hpc, hat.entry, hat.report, Option.bind_some, if_pos hout, bind]

variable {env : Environment} {w w' : Work} {a : Action} {key : Int} {logs : Int → Log}

theorem steps_reading (hs : Steps env w a w') (h : reading w a = some key) :
    ∃ keep server, readFromClient env key (clientAt key w).server = .returned keep server ∧
      w'.server = server := by
  obtain ⟨scan, p, r, hpc, rfl, hat, ⟨hlt, hne, herror, hin⟩, rfl⟩ := reading_eq_some.mp h
  cases hs with
  | error hpc' hat' herror' =>
      cases hpc'.symm.trans hpc
      cases hat'.report.symm.trans hat.report
      rw [herror'] at herror
      cases herror
  | read hpc' hat' _ _ _ _ hread =>
      cases hpc'.symm.trans hpc
      cases hat'.entry.symm.trans hat.entry
      exact ⟨_, _, hread, rfl⟩
  | noInput hpc' hat' _ hin' =>
      cases hpc'.symm.trans hpc
      cases hat'.report.symm.trans hat.report
      rw [hin'] at hin
      cases hin
  | scanned hpc' hend =>
      cases hpc'.symm.trans hpc
      omega
  | started hpc' | leave hpc' | lost hpc' | live hpc' | close hpc' | connect hpc' | write hpc' | noOutput hpc'
  | sweep hpc' | flags hpc' => cases hpc'.symm.trans hpc

theorem steps_writing (hs : Steps env w a w') (h : writing w a = some key) :
    ∃ keep server, writeFromClient env key (clientAt key w).server = .returned keep server ∧
      w'.server = server := by
  obtain ⟨scan, p, r, hpc, rfl, hat, hout, rfl⟩ := writing_eq_some.mp h
  cases hs with
  | write hpc' hat' _ hwrite =>
      cases hpc'.symm.trans hpc
      cases hat'.entry.symm.trans hat.entry
      exact ⟨_, _, hwrite, rfl⟩
  | noOutput hpc' hat' hout' =>
      cases hpc'.symm.trans hpc
      cases hat'.report.symm.trans hat.report
      rw [hout'] at hout
      cases hout
  | started hpc' | leave hpc' | lost hpc' | live hpc' | close hpc' | connect hpc' | error hpc' | read hpc'
  | noInput hpc' | scanned hpc' | sweep hpc' | flags hpc' => cases hpc'.symm.trans hpc

theorem other_clients (hkeyed : Keyed w.server) (hplaced : Placed w) (hs : Steps env w a w')
    (hread : reading w a ≠ some key) (hwrite : writing w a ≠ some key) (hkey : key ∈ w'.clients) :
    (key ∈ w.clients ∧ w'.server.client key = w.server.client key ∧
      ∀ fd, a = .accepted fd → 0 ≤ fd → fd ≠ key) ∨
      (a = .accepted key ∧ 0 ≤ key ∧ key ∉ w.clients ∧ w'.server.client key = ⟨key, [], []⟩) := by
  cases hs with
  | close hpc =>
      rw [Work.clients, closeRig] at hkey
      simp only [closeRig]
      split at hkey
      · exact .inl ⟨hkey, rfl, by simp⟩
      · exact absurd hkey Std.ExtTreeMap.not_mem_empty
  | opened hpc result => cases result <;> exact .inl ⟨hkey, rfl, by simp⟩
  | @accept scan p r hpc hat hzero fd hfd =>
      by_cases hold : key ∈ w.clients
      · refine .inl ⟨hold, client_acceptClient_of_mem fd hold, ?_⟩
        intro fd' ha hpos heq
        cases ha
        subst heq
        exact (hfd.resolve_left (by omega)).1 hold
      · obtain hmem | ⟨hpos, rfl⟩ := (mem_acceptClient fd w key).mp hkey
        · exact absurd hmem hold
        · exact .inr ⟨rfl, hpos, hold, client_acceptClient_self hpos hold⟩
  | @read scan p r keep server hpc hat hlt hne herror hin hcall =>
      have hother : key ≠ p.fd := by
        rintro rfl
        exact hread (reading_eq_some.mpr ⟨scan, p, r, hpc, rfl, hat, ⟨hlt, hne, herror, hin⟩, rfl⟩)
      have hserves := read_serves hkeyed (readable_client hplaced hpc hat hne) hcall
      exact .inl ⟨(hserves.members key).mp hkey, hserves.others key hother, by simp⟩
  | @write scan p r keep server hpc hat hout hcall =>
      have hother : key ≠ p.fd := by
        rintro rfl
        exact hwrite (writing_eq_some.mpr ⟨scan, p, r, hpc, rfl, hat, hout, rfl⟩)
      have hserves := write_serves (writable_client hplaced hpc hat hout) hcall
      exact .inl ⟨(hserves.members key).mp hkey, hserves.others key hother, by simp⟩
  | @sweep fdToAdd fdsToRemove hpc =>
      rw [Work.clients, sweep_server] at hkey
      rw [sweep_server]
      obtain ⟨hmem, hout⟩ := (mem_removeClients fdsToRemove w key).mp hkey
      exact .inl ⟨hmem, client_removeClients hout, by simp⟩
  | flags hpc hflags =>
      obtain ⟨flags, -, rfl⟩ := Option.map_eq_some_iff.mp hflags
      exact .inl ⟨hkey, rfl, by simp⟩
  | _ => exact .inl ⟨hkey, rfl, by simp⟩

/-- What the buffers of a client hold, by what has gone over its connection: the part of the stream
after the last complete line, and the part of the responses that is not written yet. -/
structure Streamed (c : Client) (log : Log) : Prop where
  lines : ∀ e ∈ log.served, '\n'.toUInt8 ∉ e.1
  received : log.received = (log.served.map Prod.fst).flatMap lineText ++ c.readBuffer
  rest : '\n'.toUInt8 ∉ c.readBuffer
  written : log.written ++ c.writeBuffer = log.served.flatMap Prod.snd

theorem streamed_write {s s' : Server} {keep : Bool} {log : Log} (h : Streamed (s.client key) log)
    (hwrite : writeFromClient env key s = .returned keep s') :
    Streamed (s'.client key) (writeLog env s key log) := by
  rw [writeFromClient_eq] at hwrite
  rw [writeLog]
  split at hwrite
  · rename_i hempty
    cases hwrite
    rw [if_pos (.inl hempty)]
    exact h
  · rename_i hfull
    split at hwrite
    · rename_i hneg
      cases hwrite
      rw [if_pos (.inr hneg)]
      exact h
    · rename_i hpos
      cases hwrite
      rw [if_neg (not_or.mpr ⟨hfull, hpos⟩), updateClient_self]
      refine ⟨h.lines, h.received, h.rest, ?_⟩
      rw [List.append_assoc]
      exact (congrArg _ (List.take_append_drop _ _)).trans h.written

theorem cString_of_not_mem {msg : List UInt8} (h : 0 ∉ msg) : cString msg = msg := by
  rw [cString, List.takeWhile_eq_self_iff]
  intro c hc
  simp only [ne_eq, decide_eq_true_eq]
  rintro rfl
  exact h hc

theorem streamed_read {s s' : Server} {keep : Bool} {log : Log} (hkey : key ∈ s.clients)
    (hfd : (s.client key).fd = key) (hlive : s.rigDisconnected = false) (h : Streamed (s.client key) log)
    (hmsg : ∀ msg ∈ env.received s.calls, msg.length ≤ msgSize ∧ 0 ∉ msg ∧
      ∀ line ∈ completeLines ((s.client key).readBuffer ++ msg), Plain line)
    (hread : readFromClient env key s = .returned keep s') :
    Streamed (s'.client key) (readLog env s key log) := by
  have hrest := (readFromClient_serves hkey hfd hread).2
  rw [readFromClient_eq] at hread
  rw [readLog]
  cases hreceived : env.received s.calls with
  | none =>
      rw [hreceived] at hread
      cases hread
      exact h
  | some msg =>
      rw [hreceived] at hread
      cases msg with
      | nil =>
          cases hread
          exact h
      | cons c rest =>
          obtain ⟨hlen, hnul, hplain⟩ := hmsg (c :: rest) hreceived
          simp only [hlive, Bool.false_eq_true, if_false] at hread
          have hserves := serves_received hkey (c :: rest)
          have hbuffer : ((received key (c :: rest) s).client key).readBuffer =
              (s.client key).readBuffer ++ c :: rest := by
            rw [received, updateClient_self, List.take_of_length_le hlen, cString_of_not_mem hnul]
            rfl
          have hwritten :
              ((received key (c :: rest) s).client key).writeBuffer = (s.client key).writeBuffer := by
            rw [received, updateClient_self]
            rfl
          rw [← hbuffer] at hplain
          obtain ⟨hkeep, hin, hout, hlines⟩ := readLoop_streams ((hserves.members key).mpr hkey)
            (hserves.clientFd.trans hfd) hplain hread
          simp only [hlive, Bool.false_eq_true, if_false]
          refine ⟨?_, ?_, hrest hkeep hlive, ?_⟩
          · intro e he
            rcases List.mem_append.mp he with he | he
            · exact h.lines e he
            · exact hlines e he
          · rw [h.received, List.map_append, List.flatMap_append, List.append_assoc, List.append_assoc, ← hin,
              hbuffer]
          · rw [hout, hwritten, ← List.append_assoc, h.written, List.flatMap_append]

/-- What is kept along a run: clients are there only while the rig is connected, and each has its stream. -/
structure Flowing (w : Work) (logs : Int → Log) : Prop where
  keyed : Keyed w.server
  placed : Placed w
  connected : w.server.rigDisconnected = true → ∀ key, key ∉ w.clients
  streams : ∀ key ∈ w.clients, Streamed (w.server.client key) (logs key)

theorem reading_client (h : Flowing w logs) (hread : reading w a = some key) : key ∈ w.clients := by
  obtain ⟨scan, p, r, hpc, -, hat, ⟨-, hne, -, -⟩, rfl⟩ := reading_eq_some.mp hread
  exact readable_client h.placed hpc hat hne

theorem writing_client (h : Flowing w logs) (hwrite : writing w a = some key) : key ∈ w.clients := by
  obtain ⟨scan, p, r, hpc, -, hat, hout, rfl⟩ := writing_eq_some.mp hwrite
  exact writable_client h.placed hpc hat hout

theorem Flowing.live (h : Flowing w logs) (hkey : key ∈ w.clients) : w.server.rigDisconnected = false := by
  rw [← Bool.not_eq_true]
  exact fun hdis => h.connected hdis key hkey

theorem connected_step (h : Flowing w logs) (hok : Orderly env w a) (hs : Steps env w a w')
    (hdis : w'.server.rigDisconnected = true) (key : Int) : key ∉ w'.clients := by
  cases hs with
  | disconnect => exact hok.elim
  | close hpc =>
      have hflag : (closeRig w).server.rigDisconnected = w.server.rigDisconnected := by
        rw [closeRig]
        split <;> rfl
      rw [Work.clients, closeRig]
      split
      · exact h.connected (hflag.symm.trans hdis) key
      · exact Std.ExtTreeMap.not_mem_empty
  | opened hpc result => cases result <;> exact h.connected hdis key
  | connect hpc => cases hdis
  | accept hpc hat hzero fd hfd =>
      have hflag : (acceptClient fd w).server.rigDisconnected = w.server.rigDisconnected := by
        rw [acceptClient]
        split <;> rfl
      have hlive : w.server.rigDisconnected = false := hok
      rw [← hflag] at hlive
      cases hdis.symm.trans hlive
  | read hpc hat _ hne _ _ hcall =>
      have hmem := readable_client h.placed hpc hat hne
      have hserves := read_serves h.keyed hmem hcall
      cases hdis.symm.trans (hserves.rigDisconnected.trans (h.live hmem))
  | write hpc hat hout hcall =>
      have hmem := writable_client h.placed hpc hat hout
      have hserves := write_serves hmem hcall
      cases hdis.symm.trans (hserves.rigDisconnected.trans (h.live hmem))
  | @sweep fdToAdd fdsToRemove hpc =>
      rw [sweep_server] at hdis
      rw [Work.clients, sweep_server]
      intro hkey
      exact h.connected hdis key ((mem_removeClients fdsToRemove w key).mp hkey).1
  | flags hpc hflags =>
      obtain ⟨flags, -, rfl⟩ := Option.map_eq_some_iff.mp hflags
      exact h.connected hdis key
  | _ => exact h.connected hdis key

theorem orderly_read (hok : Orderly env w a) (hread : reading w a = some key) :
    ∀ msg ∈ env.received w.server.calls, msg.length ≤ msgSize ∧ 0 ∉ msg ∧
      ∀ line ∈ completeLines ((w.server.client key).readBuffer ++ msg), Plain line := by
  obtain ⟨scan, p, r, hpc, rfl, -⟩ := reading_eq_some.mp hread
  exact hok key hread

theorem writing_of_reading {k : Int} (hread : reading w a = some k) : writing w a = none := by
  obtain ⟨scan, p, r, hpc, rfl, -⟩ := reading_eq_some.mp hread
  simp only [writing, hpc]

theorem streams_step (h : Flowing w logs) (hok : Orderly env w a) (hs : Steps env w a w')
    (hkey : key ∈ w'.clients) :
    Streamed (w'.server.client key) (noteStreams env w a logs key) := by
  -- a client that the step does not serve has kept its buffers, or has just connected
  have hother (hread : reading w a ≠ some key) (hwrite : writing w a ≠ some key) :=
    other_clients h.keyed h.placed hs hread hwrite hkey
  cases hread : reading w a with
  | some k =>
      have hwrite := writing_of_reading hread
      simp only [noteStreams, hread]
      by_cases hk : key = k
      · subst hk
        have hmem := reading_client h hread
        obtain ⟨keep, server, hcall, rfl⟩ := steps_reading hs hread
        rw [clientAt_eq hmem] at hcall
        rw [Function.update_self]
        exact streamed_read hmem (h.keyed key hmem) (h.live hmem) (h.streams key hmem)
          (orderly_read hok hread) hcall
      · rw [Function.update_of_ne hk]
        obtain ⟨-, -, -, -, rfl, -⟩ := reading_eq_some.mp hread
        obtain ⟨hmem, hsame, -⟩ | ⟨haccept, -⟩ := hother (by simp [hread, Ne.symm hk]) (by simp [hwrite])
        · rw [hsame]
          exact h.streams key hmem
        · cases haccept
  | none =>
      cases hwrite : writing w a with
      | some k =>
          simp only [noteStreams, hread, hwrite]
          by_cases hk : key = k
          · subst hk
            have hmem := writing_client h hwrite
            obtain ⟨keep, server, hcall, rfl⟩ := steps_writing hs hwrite
            rw [clientAt_eq hmem] at hcall
            rw [Function.update_self]
            exact streamed_write (h.streams key hmem) hcall
          · rw [Function.update_of_ne hk]
            obtain ⟨-, -, -, -, rfl, -⟩ := writing_eq_some.mp hwrite
            obtain ⟨hmem, hsame, -⟩ | ⟨haccept, -⟩ := hother (by simp [hread]) (by simp [hwrite, Ne.symm hk])
            · rw [hsame]
              exact h.streams key hmem
            · cases haccept
      | none =>
          obtain ⟨hmem, hsame, hnew⟩ | ⟨rfl, hpos, -, hnew⟩ := hother (by simp [hread]) (by simp [hwrite])
          · have hlog : noteStreams env w a logs key = logs key := by
              simp only [noteStreams, hread, hwrite]
              cases a with
              | accepted fd =>
                  dsimp only
                  split
                  · rfl
                  · rw [Function.update_of_ne (hnew fd rfl (by omega)).symm]
              | _ => rfl
            rw [hlog, hsame]
            exact h.streams key hmem
          · have hlog : noteStreams env w (.accepted key) logs key = {} := by
              simp only [noteStreams, hread, hwrite]
              rw [if_neg (by omega), Function.update_self]
            rw [hlog, hnew]
            exact ⟨nofun, rfl, List.not_mem_nil, rfl⟩

theorem flowing_step (h : Flowing w logs) (hok : Orderly env w a) (hs : Steps env w a w') :
    Flowing w' (noteStreams env w a logs) :=
  ⟨(placed_step h.keyed h.placed hs).1, (placed_step h.keyed h.placed hs).2, connected_step h hok hs,
    fun _ => streams_step h hok hs⟩

theorem flowing_start (rigModel serverFd : Int) : Flowing (start rigModel serverFd) fun _ => {} :=
  ⟨(placed_start rigModel serverFd).1, (placed_start rigModel serverFd).2,
    fun _ _ => Std.ExtTreeMap.not_mem_empty, fun _ hkey => absurd hkey Std.ExtTreeMap.not_mem_empty⟩

def chunkedRig : Environment :=
  { idleRig with
    received := fun calls => if calls.contains (.recv 4) then some (ascii "\n") else some (ascii "f\nv")
    written := fun _ => 3 }

def talking : List Action :=
  [.advance, .advance, .advance, .opened .opened, .advance, .polled [⟨false, true, false⟩], .accepted 4, .advance,
    .advance, .advance, .advance, .advance, .polled [{}, ⟨false, true, true⟩], .advance, .advance, .advance, .advance,
    .advance, .advance, .advance, .advance, .polled [{}, ⟨false, true, true⟩], .advance, .advance, .advance, .advance]

end Cwsd.RigctldStreams
