import Cwsd.RigctldReplies
import Cwsd.Runs

namespace Cwsd.RigctldWork

open Effects RigctldServer RigctldReplies

/-- An entry of pfds. POLLIN is always asked for, POLLOUT where pollOut says so. -/
structure PollFd where
  fd : Int
  pollOut : Bool
  deriving DecidableEq, Repr

/-- What poll reports of an entry; error stands for POLLERR, POLLHUP and POLLNVAL. -/
structure Revents where
  error : Bool := false
  pollIn : Bool := false
  pollOut : Bool := false
  deriving DecidableEq, Repr

inductive RigCall
  | init (rig : Nat)
  | opened (rig : Nat)
  | openFailed (rig : Nat)
  | close (rig : Nat)
  | cleanup (rig : Nat)
  deriving DecidableEq, Repr

inductive OpenResult
  | opened
  | failed
  | unknownRig
  | badConf
  deriving DecidableEq, Repr

structure Scan where
  index : Nat
  revents : List Revents
  fdToAdd : Int
  fdsToRemove : List Int
  deriving DecidableEq, Repr

/-- Where the worker is in its loop; it starts at the store of is_running before the loop. -/
inductive Pc
  | starting
  | top
  | closing
  | opening
  | connected
  | poll
  | scanIn (scan : Scan)
  | scanOut (scan : Scan)
  | sweep (fdToAdd : Int) (fdsToRemove : List Int)
  | flags
  | returned
  | threw
  deriving DecidableEq, Repr

structure Work where
  server : Server
  serverFd : Int
  pfds : List PollFd
  pfdNr : Nat
  rig : Option Nat
  rigCalls : List RigCall
  isRunning : Bool
  pc : Pc

def Work.clients (w : Work) : Std.ExtTreeMap Int Client := w.server.clients

def updatePollDescriptors (w : Work) : Work :=
  { w with
    pfds := ⟨w.serverFd, false⟩ :: w.clients.toList.map fun c => ⟨c.2.fd, c.2.writeBuffer ≠ []⟩
    pfdNr := w.clients.size + 1 }

def setFlags : List PollFd → List Client → Option (List PollFd)
  | pfds, [] => some pfds
  | [], _ :: _ => none
  | p :: pfds, c :: clients => (setFlags pfds clients).map ({ p with pollOut := c.writeBuffer ≠ [] } :: ·)

/-- The flags are set from index one on; none is a write beyond the array. -/
def updatePollFlags (w : Work) : Option Work :=
  (setFlags w.pfds.tail (w.clients.toList.map Prod.snd)).map fun flags =>
    { w with pfds := w.pfds.take 1 ++ flags }

def acceptClient (clientFd : Int) (w : Work) : Work :=
  if clientFd < 0 then w
  else { w with server := { w.server with clients := w.clients.insertIfNew clientFd ⟨clientFd, [], []⟩ } }

/-- The subscript of the map puts a client where there is none. -/
def clientAt (fd : Int) (w : Work) : Work := { w with server := w.server.updateClient fd id }

def removeClients (fdsToRemove : List Int) (w : Work) : Work :=
  { w with
    server := { w.server with clients := fdsToRemove.foldl (fun clients fd => clients.erase fd) w.clients } }

def closeRig (w : Work) : Work :=
  match w.rig with
  | none => w
  | some rig =>
      let w := updatePollDescriptors { w with server := { w.server with clients := ∅ } }
      { w with rigCalls := w.rigCalls ++ [.close rig, .cleanup rig], rig := none }

def nextRig (w : Work) : Nat := w.rigCalls.countP fun c => c matches .init _

def openRig (result : OpenResult) (w : Work) : Work :=
  let rig := nextRig w
  match result with
  | .unknownRig => { w with rig := none, pc := .threw }
  | .badConf => { w with rigCalls := w.rigCalls ++ [.init rig], rig := some rig, pc := .threw }
  | .failed =>
      { w with rigCalls := w.rigCalls ++ [.init rig, .openFailed rig, .cleanup rig], rig := none, pc := .poll }
  | .opened => { w with rigCalls := w.rigCalls ++ [.init rig, .opened rig], rig := some rig, pc := .connected }

def Scan.marked (scan : Scan) (fd : Int) (keep : Bool) : Scan :=
  if keep then scan else { scan with fdsToRemove := scan.fdsToRemove ++ [fd] }

@[simp] theorem marked_index (scan : Scan) (fd : Int) (keep : Bool) :
    (scan.marked fd keep).index = scan.index := by
  cases keep <;> rfl

@[simp] theorem marked_revents (scan : Scan) (fd : Int) (keep : Bool) :
    (scan.marked fd keep).revents = scan.revents := by
  cases keep <;> rfl

def afterCall (w : Work) (fd : Int) (scan : Scan) (next : Scan → Pc) :
    Outcome StdException Server Bool → Option Work
  | .returned keep server => some { w with server, pc := next (scan.marked fd keep) }
  | .threw _ server => some { w with server, pc := .threw }
  | .undefined => none

inductive Action
  | advance
  | opened (result : OpenResult)
  | polled (revents : List Revents)
  | timeout
  | accepted (clientFd : Int)
  | disconnect
  | stop
  deriving DecidableEq, Repr

def Unused (w : Work) (fd : Int) : Prop := fd ∉ w.clients ∧ fd ≠ w.serverFd

instance (w : Work) (fd : Int) : Decidable (Unused w fd) := inferInstanceAs (Decidable (_ ∧ _))

/-- What poll may report: it looks at every entry, and at the listener for input only, which is all that
it is asked for there. -/
def Reports (w : Work) (revents : List Revents) : Prop :=
  revents.length = w.pfdNr ∧ ∀ r ∈ revents.head?, r.pollOut = false

instance (w : Work) (revents : List Revents) : Decidable (Reports w revents) :=
  inferInstanceAs (Decidable (_ ∧ _))

def nextIndex (scan : Scan) : Pc := .scanIn { scan with index := scan.index + 1 }

section

variable (env : Environment)

def scanIn (w : Work) (scan : Scan) (p : PollFd) (r : Revents) : Action → Option Work
  | .advance =>
      if r.error then
        some { w with pc := nextIndex (scan.marked p.fd false) }
      else if r.pollIn then
        if scan.index = 0 then none
        else
          let w := clientAt p.fd w
          afterCall w p.fd scan .scanOut (readFromClient env p.fd w.server)
      else some { w with pc := .scanOut scan }
  | .accepted clientFd =>
      if r.error = false ∧ r.pollIn = true ∧ scan.index = 0 ∧ (clientFd < 0 ∨ Unused w clientFd) then
        some { acceptClient clientFd w with pc := .scanOut { scan with fdToAdd := clientFd } }
      else none
  | _ => none

def scanOut (w : Work) (scan : Scan) (p : PollFd) (r : Revents) : Option Work :=
  if r.pollOut then
    let w := clientAt p.fd w
    afterCall w p.fd scan nextIndex (writeFromClient env p.fd w.server)
  else some { w with pc := nextIndex scan }

def sweep (w : Work) (fdToAdd : Int) (fdsToRemove : List Int) : Work :=
  let w := removeClients fdsToRemove w
  let w := if 0 < fdToAdd ∨ fdsToRemove ≠ [] then updatePollDescriptors w else w
  { w with pc := .flags }

/-- The steps of the worker. There is none where the source reads or writes beyond pfds, or where
interpret_command has no defined behaviour. -/
def workStep (w : Work) (a : Action) : Option Work :=
  match w.pc, a with
  | .starting, .advance => some { w with isRunning := true, pc := .top }
  | .top, .advance =>
      if !w.isRunning then some { w with pc := .returned }
      else if w.server.rigDisconnected then some { w with pc := .closing }
      else some { w with pc := .poll }
  | .closing, .advance => some { closeRig w with pc := .opening }
  | .opening, .opened result => some (openRig result w)
  | .connected, .advance => some { w with server := { w.server with rigDisconnected := false }, pc := .poll }
  | .poll, .timeout => some { w with pc := .top }
  | .poll, .polled revents =>
      if Reports w revents then some { w with pc := .scanIn ⟨0, revents, -1, []⟩ } else none
  | .scanIn scan, a =>
      if scan.index < w.pfdNr then do
        scanIn env w scan (← w.pfds[scan.index]?) (← scan.revents[scan.index]?) a
      else if a = .advance then some { w with pc := .sweep scan.fdToAdd scan.fdsToRemove }
      else none
  | .scanOut scan, .advance => do
      scanOut env w scan (← w.pfds[scan.index]?) (← scan.revents[scan.index]?)
  | .sweep fdToAdd fdsToRemove, .advance => some (sweep w fdToAdd fdsToRemove)
  | .flags, .advance => (updatePollFlags w).map fun w => { w with pc := .top }
  | _, _ => none

/-- The worker against the callback of hamlib, which declares the rig gone, and against stop. -/
def step (w : Work) : Action → Option Work
  | .disconnect => some { w with server := { w.server with rigDisconnected := true } }
  | .stop => some { w with isRunning := false }
  | a => workStep env w a

end

/-- The constructor does not set is_running: work does, on its own thread. -/
def start (rigModel serverFd : Int) : Work :=
  updatePollDescriptors
    { server := ⟨rigModel, true, ∅, []⟩, serverFd, pfds := [], pfdNr := 0, rig := none, rigCalls := []
      isRunning := false, pc := .starting }

theorem readLoop_not_threw {env : Environment} {key : Int} {n : Nat} {s s' : Server} {e : Stoi.StdException} :
    readLoop env key n s ≠ .threw e s' := by
  induction n generalizing s with
  | zero => rintro ⟨⟩
  | succ n ih =>
      rw [readLoop, bind_apply, getState, Outcome.andThen]
      cases StringUtil.find (s.client key).readBuffer ['\n'.toUInt8] 0 with
      | none => rintro ⟨⟩
      | some pos =>
          simp only [bind_apply]
          cases h : handleLine env ((s.client key).readBuffer.take pos) (s.client key).fd s with
          | returned keep t =>
              cases keep with
              | false => rintro ⟨⟩
              | true => exact ih
          | threw e' t => exact absurd h handleLine_not_threw
          | undefined => rintro ⟨⟩

theorem readFromClient_not_threw {env : Environment} {key : Int} {s s' : Server} {e : Stoi.StdException} :
    readFromClient env key s ≠ .threw e s' := by
  rw [readFromClient, bind_apply, getState, Outcome.andThen, bind_apply, call, Outcome.andThen]
  cases env.received s.calls with
  | none => rintro ⟨⟩
  | some msg =>
      cases msg with
      | nil => rintro ⟨⟩
      | cons c msg =>
          simp only [bind_apply, modifyState, getState, Outcome.andThen]
          split
          · rintro ⟨⟩
          · exact readLoop_not_threw

structure At (w : Work) (scan : Scan) (p : PollFd) (r : Revents) : Prop where
  entry : w.pfds[scan.index]? = some p
  report : scan.revents[scan.index]? = some r

/-- Everything that a step can do. -/
inductive Steps (env : Environment) (w : Work) : Action → Work → Prop
  | disconnect : Steps env w .disconnect { w with server := { w.server with rigDisconnected := true } }
  | stop : Steps env w .stop { w with isRunning := false }
  | started (hpc : w.pc = .starting) : Steps env w .advance { w with isRunning := true, pc := .top }
  | leave (hpc : w.pc = .top) (hstop : w.isRunning = false) : Steps env w .advance { w with pc := .returned }
  | lost (hpc : w.pc = .top) (h : w.server.rigDisconnected = true) (hrun : w.isRunning = true) :
      Steps env w .advance { w with pc := .closing }
  | live (hpc : w.pc = .top) (h : w.server.rigDisconnected = false) (hrun : w.isRunning = true) :
      Steps env w .advance { w with pc := .poll }
  | close (hpc : w.pc = .closing) : Steps env w .advance { closeRig w with pc := .opening }
  | opened (hpc : w.pc = .opening) (result : OpenResult) : Steps env w (.opened result) (openRig result w)
  | connect (hpc : w.pc = .connected) :
      Steps env w .advance { w with server := { w.server with rigDisconnected := false }, pc := .poll }
  | timeout (hpc : w.pc = .poll) : Steps env w .timeout { w with pc := .top }
  | poll (hpc : w.pc = .poll) (revents : List Revents) (h : Reports w revents) :
      Steps env w (.polled revents) { w with pc := .scanIn ⟨0, revents, -1, []⟩ }
  | error {scan : Scan} {p : PollFd} {r : Revents} (hpc : w.pc = .scanIn scan) (hat : At w scan p r)
      (h : r.error = true) : Steps env w .advance { w with pc := nextIndex (scan.marked p.fd false) }
  | accept {scan : Scan} {p : PollFd} {r : Revents} (hpc : w.pc = .scanIn scan) (hat : At w scan p r)
      (hzero : scan.index = 0) (clientFd : Int) (h : clientFd < 0 ∨ Unused w clientFd) :
      Steps env w (.accepted clientFd)
        { acceptClient clientFd w with pc := .scanOut { scan with fdToAdd := clientFd } }
  | read {scan : Scan} {p : PollFd} {r : Revents} {keep : Bool} {server : Server} (hpc : w.pc = .scanIn scan)
      (hat : At w scan p r) (hlt : scan.index < w.pfdNr) (hne : scan.index ≠ 0) (herror : r.error = false)
      (hin : r.pollIn = true) (h : readFromClient env p.fd (clientAt p.fd w).server = .returned keep server) :
      Steps env w .advance { w with server, pc := .scanOut (scan.marked p.fd keep) }
  | noInput {scan : Scan} {p : PollFd} {r : Revents} (hpc : w.pc = .scanIn scan) (hat : At w scan p r)
      (herror : r.error = false) (h : r.pollIn = false) : Steps env w .advance { w with pc := .scanOut scan }
  | write {scan : Scan} {p : PollFd} {r : Revents} {keep : Bool} {server : Server} (hpc : w.pc = .scanOut scan)
      (hat : At w scan p r) (hout : r.pollOut = true)
      (h : writeFromClient env p.fd (clientAt p.fd w).server = .returned keep server) :
      Steps env w .advance { w with server, pc := nextIndex (scan.marked p.fd keep) }
  | noOutput {scan : Scan} {p : PollFd} {r : Revents} (hpc : w.pc = .scanOut scan) (hat : At w scan p r)
      (h : r.pollOut = false) : Steps env w .advance { w with pc := nextIndex scan }
  | scanned {scan : Scan} (hpc : w.pc = .scanIn scan) (h : w.pfdNr ≤ scan.index) :
      Steps env w .advance { w with pc := .sweep scan.fdToAdd scan.fdsToRemove }
  | sweep {fdToAdd : Int} {fdsToRemove : List Int} (hpc : w.pc = .sweep fdToAdd fdsToRemove) :
      Steps env w .advance (RigctldWork.sweep w fdToAdd fdsToRemove)
  | flags {w' : Work} (hpc : w.pc = .flags) (h : updatePollFlags w = some w') :
      Steps env w .advance { w' with pc := .top }

variable {env : Environment} {w w' : Work} {a : Action}

theorem steps_scanIn {scan : Scan} {p : PollFd} {r : Revents} (hpc : w.pc = .scanIn scan) (hat : At w scan p r)
    (hlt : scan.index < w.pfdNr) (h : scanIn env w scan p r a = some w') : Steps env w a w' := by
  cases a with
  | advance =>
      simp only [scanIn] at h
      by_cases herror : r.error = true
      · rw [if_pos herror] at h
        cases h
        exact .error hpc hat herror
      · rw [if_neg herror] at h
        rw [Bool.not_eq_true] at herror
        by_cases hin : r.pollIn = true
        · rw [if_pos hin] at h
          by_cases hzero : scan.index = 0
          · rw [if_pos hzero] at h
            cases h
          · rw [if_neg hzero] at h
            cases hread : readFromClient env p.fd (clientAt p.fd w).server with
            | returned keep server =>
                rw [hread, afterCall] at h
                cases h
                exact .read hpc hat hlt hzero herror hin hread
            | threw e server => exact absurd hread readFromClient_not_threw
            | undefined =>
                rw [hread, afterCall] at h
                cases h
        · rw [if_neg hin] at h
          cases h
          exact .noInput hpc hat herror (by simpa using hin)
  | accepted clientFd =>
      simp only [scanIn] at h
      split at h
      · rename_i hall
        cases h
        exact .accept hpc hat hall.2.2.1 clientFd hall.2.2.2
      · cases h
  | _ => cases h

theorem steps_scanOut {scan : Scan} {p : PollFd} {r : Revents} (hpc : w.pc = .scanOut scan)
    (hat : At w scan p r) (h : scanOut env w scan p r = some w') : Steps env w .advance w' := by
  simp only [scanOut] at h
  by_cases hout : r.pollOut = true
  · rw [if_pos hout] at h
    obtain ⟨keep, server, hwrite⟩ := writeFromClient_returns env p.fd (clientAt p.fd w).server
    rw [hwrite, afterCall] at h
    cases h
    exact .write hpc hat hout hwrite
  · rw [if_neg hout] at h
    cases h
    exact .noOutput hpc hat (by simpa using hout)

theorem steps_of_workStep (h : workStep env w a = some w') : Steps env w a w' := by
  unfold workStep at h
  split at h
  case h_1 hpc =>
      cases h
      exact .started hpc
  case h_2 hpc =>
      split at h
      · rename_i hstop
        cases h
        exact .leave hpc (by simpa using hstop)
      · rename_i hrun
        have hrun : w.isRunning = true := by simpa using hrun
        split at h
        · cases h
          exact .lost hpc ‹_› hrun
        · rename_i hdis
          cases h
          exact .live hpc (by simpa using hdis) hrun
  case h_3 hpc =>
      cases h
      exact .close hpc
  case h_4 hpc =>
      cases h
      exact .opened hpc _
  case h_5 hpc =>
      cases h
      exact .connect hpc
  case h_6 hpc =>
      cases h
      exact .timeout hpc
  case h_7 hpc =>
      split at h
      · rename_i hreports
        cases h
        exact .poll hpc _ hreports
      · cases h
  case h_8 scan a hpc =>
      split at h
      · rename_i hlt
        obtain ⟨p, hp, h⟩ := Option.bind_eq_some_iff.mp h
        obtain ⟨r, hr, h⟩ := Option.bind_eq_some_iff.mp h
        exact steps_scanIn hpc ⟨hp, hr⟩ hlt h
      · rename_i hend
        split at h
        · rename_i ha
          cases h
          rw [ha]
          exact .scanned hpc (by omega)
        · cases h
  case h_9 scan hpc =>
      obtain ⟨p, hp, h⟩ := Option.bind_eq_some_iff.mp h
      obtain ⟨r, hr, h⟩ := Option.bind_eq_some_iff.mp h
      exact steps_scanOut hpc ⟨hp, hr⟩ h
  case h_10 hpc =>
      cases h
      exact .sweep hpc
  case h_11 hpc =>
      obtain ⟨t, ht, h⟩ := Option.map_eq_some_iff.mp h
      cases h
      exact .flags hpc ht
  case h_12 => cases h

theorem steps_of_step (h : step env w a = some w') : Steps env w a w' := by
  cases a with
  | disconnect =>
      cases h
      exact .disconnect
  | stop =>
      cases h
      exact .stop
  | _ => exact steps_of_workStep h

end Cwsd.RigctldWork
