import Cwsd.Effects
import Cwsd.StringUtil
import Mathlib

namespace Cwsd.RigctldServer

open Effects Stoi StringUtil

inductive Vfo
  | none
  | a
  | b
  | c
  | curr
  | other (code : UInt32)
  deriving DecidableEq, Repr

inductive Split
  | off
  | on
  deriving DecidableEq, Repr

inductive Mode
  | usb
  | lsb
  | cw
  | rtty
  | rttyr
  | am
  | fm
  | pktlsb
  | pktusb
  | pktfm
  | all
  | other (code : UInt64)
  deriving DecidableEq, Repr

def rigOk : Int := 0
def agcOff : Int := 0
def agcFast : Int := 2
def modelIC7300 : Int := 3073

/-- A value_t by its bits, which the source reads as an int or as a float. -/
structure Value where
  bits : UInt32
  deriving DecidableEq, Repr

def Value.ofInt (i : Int) : Value := ⟨UInt32.ofInt i⟩

def Value.i (val : Value) : Int := val.bits.toInt32.toInt

inductive Call
  | getPowerstat
  | setPowerstat (status : Int)
  | getLockMode
  | getFreq (vfo : Vfo)
  | getSplitVfo (vfo : Vfo)
  | setSplitVfo (vfo : Vfo) (split : Split) (txvfo : Vfo)
  | getPtt (vfo : Vfo)
  | setPtt (vfo : Vfo) (ptt : Int)
  | setVfo (vfo : Vfo)
  | getMode (vfo : Vfo)
  | setMode (vfo : Vfo) (mode : Mode) (width : Int)
  | setFreq (vfo : Vfo) (freq : UInt64)
  | getLevel (vfo : Vfo) (level : UInt64)
  | setLevel (vfo : Vfo) (level : UInt64) (val : Value)
  | getRit (vfo : Vfo)
  | recv (fd : Int)
  | write (fd : Int) (text : List UInt8)
  deriving DecidableEq, Repr

structure FreqRange where
  startf : UInt64
  endf : UInt64
  modes : Nat
  lowPower : Int
  highPower : Int
  vfo : Nat
  ant : Nat

/-- What dump_state reads of the rig, each list up to its end mark. -/
structure RigState where
  rigModel : Int
  rxRangeList : List FreqRange
  txRangeList : List FreqRange
  tuningSteps : List (Nat × Int)
  filters : List (Nat × Int)
  maxRit : Int
  maxXit : Int
  maxIfshift : Int
  announces : Int
  preamp : List Int
  attenuator : List Int
  hasGetFunc : Nat
  hasSetFunc : Nat
  hasGetLevel : Nat
  hasSetLevel : Nat
  hasGetParm : Nat
  hasSetParm : Nat

/-- What the server gets from outside: the conversions of floating point numbers,
which follow the locale, the answers of hamlib and those of the sockets. An answer
may depend on all the calls before it, and says what the variables of the caller
hold afterwards, whether or not the call has succeeded. -/
structure Environment where
  stod : List UInt8 → Except StdException UInt64
  stof : List UInt8 → Except StdException UInt32
  doubleToString : UInt64 → List UInt8
  floatToString : UInt32 → List UInt8
  parseLevel : List UInt8 → UInt64
  levelIsFloat : UInt64 → Bool
  levelAgc : UInt64
  state : List Call → RigState
  powerstat : List Call → Int
  lockMode : List Call → Int
  freq : List Call → UInt64
  splitVfo : List Call → Int × Split × Vfo
  ptt : List Call → Int
  mode : List Call → Mode × Int
  level : List Call → Int × Value
  setLevel : List Call → Int
  rit : List Call → Int
  received : List Call → Option (List UInt8)
  written : List Call → Int

structure Client where
  fd : Int := 0
  readBuffer : List UInt8 := []
  writeBuffer : List UInt8 := []
  deriving DecidableEq, Repr

structure Server where
  rigModel : Int
  rigDisconnected : Bool
  clients : Std.ExtTreeMap Int Client
  calls : List Call

/-- What the subscript of the map refers to; a client that is not there is value-initialised. -/
def Server.client (s : Server) (fd : Int) : Client := s.clients[fd]?.getD {}

def Server.updateClient (s : Server) (fd : Int) (f : Client → Client) : Server :=
  { s with clients := s.clients.insert fd (f (s.client fd)) }

abbrev Action (α : Type) : Type := Effect StdException Server α

def call {α : Type} (c : Call) (answer : List Call → α) : Action α := fun s =>
  .returned (answer s.calls) { s with calls := s.calls ++ [c] }

def toText (i : Int) : List UInt8 := ascii (toString i)

def toHex (n : Nat) : List UInt8 := ascii "0x" ++ (Nat.toDigits 16 n).map Char.toUInt8

def toClient (status : Int) : List UInt8 := [UInt8.ofInt ('0'.toUInt8.toNat + status)]

def sendResponseToClient (response : List UInt8) (fd : Int) : Action Unit :=
  modifyState fun s => s.updateClient fd fun c => { c with writeBuffer := c.writeBuffer ++ response ++ ascii "\n" }

def vfoToString : Vfo → List UInt8
  | .a => ascii "VFOA"
  | .b => ascii "VFOB"
  | .c => ascii "VFOC"
  | _ => ascii "UNKNOWN"

def vfoFromString (name : List UInt8) : Vfo :=
  if name = ascii "VFOA" then .a
  else if name = ascii "VFOB" then .b
  else if name = ascii "VFOC" then .c
  else .curr

def modeToString : Mode → List UInt8
  | .usb => ascii "USB"
  | .lsb => ascii "LSB"
  | .cw => ascii "CW"
  | .rtty => ascii "RTTY"
  | .rttyr => ascii "RTTYR"
  | .am => ascii "AM"
  | .fm => ascii "FM"
  | .pktlsb => ascii "PKTLSB"
  | .pktusb => ascii "PKTUSB"
  | .pktfm => ascii "PKTFM"
  | _ => ascii "UNKNOWN"

def modeFromString (name : List UInt8) : Mode :=
  if name = ascii "USB" then .usb
  else if name = ascii "LSB" then .lsb
  else if name = ascii "CW" then .cw
  else if name = ascii "RTTY" then .rtty
  else if name = ascii "RTTYR" then .rttyr
  else if name = ascii "AM" then .am
  else if name = ascii "FM" then .fm
  else if name = ascii "PKTLSB" then .pktlsb
  else if name = ascii "PKTUSB" then .pktusb
  else if name = ascii "PKTFM" then .pktfm
  else .all

def splitToString : Split → List UInt8
  | .on => ascii "1"
  | .off => ascii "0"

section

variable (env : Environment)

def dumpRange (r : FreqRange) : List UInt8 :=
  env.doubleToString r.startf ++ ascii " " ++ env.doubleToString r.endf ++ ascii " " ++ toHex r.modes ++
    ascii " " ++ toText r.lowPower ++ ascii " " ++ toText r.highPower ++ ascii " " ++ toHex r.vfo ++
    ascii " " ++ toHex r.ant ++ ascii "\n"

def dumpPair (p : Nat × Int) : List UInt8 := toHex p.1 ++ ascii " " ++ toText p.2 ++ ascii "\n"

def dumpDb (values : List Int) : List UInt8 :=
  (values.takeWhile (· ≠ 0)).flatMap (fun v => toText v ++ ascii " ") ++ ascii "\n"

def dumpState (rs : RigState) : List UInt8 :=
  ascii "0\n" ++ toText rs.rigModel ++ ascii "\n" ++ ascii "0\n" ++
    rs.rxRangeList.flatMap (dumpRange env) ++ ascii "0 0 0 0 0 0 0\n" ++
    rs.txRangeList.flatMap (dumpRange env) ++ ascii "0 0 0 0 0 0 0\n" ++
    rs.tuningSteps.flatMap dumpPair ++ ascii "0 0\n" ++
    rs.filters.flatMap dumpPair ++ ascii "0 0\n" ++
    toText rs.maxRit ++ ascii "\n" ++ toText rs.maxXit ++ ascii "\n" ++ toText rs.maxIfshift ++ ascii "\n" ++
    toText rs.announces ++ ascii "\n" ++ dumpDb rs.preamp ++ dumpDb rs.attenuator ++
    [rs.hasGetFunc, rs.hasSetFunc, rs.hasGetLevel, rs.hasSetLevel, rs.hasGetParm, rs.hasSetParm].flatMap
      (fun n => toHex n ++ ascii "\n")

def writeFromClient (key : Int) : Action Bool := do
  let client := (← getState).client key
  if client.writeBuffer = [] then return true
  else
    let writtenBytes ← call (.write client.fd client.writeBuffer) env.written
    if writtenBytes < 0 then return false
    else
      modifyState fun s => s.updateClient key fun c =>
        { c with writeBuffer := c.writeBuffer.drop writtenBytes.toNat }
      return true

def pieces (cmd : List UInt8) : List (List UInt8) := splitString cmd (ascii " ") (by decide)

/-- The piece at i where there is one, else the default, as the branches that look at
the size of pieces read it. -/
def pieceOr {α : Type} (pieces : List (List UInt8)) (i : Nat) (default : α)
    (f : List UInt8 → Action α) : Action α :=
  if i < pieces.length then do f (← subscript pieces i) else return default

def reportedSplit : Int × Split × Vfo → Split × Vfo
  | (rc, split, txvfo) =>
      let (split, txvfo) := if rc ≠ rigOk ∨ txvfo = .none then (.off, .a) else (split, txvfo)
      (split, if txvfo ≠ .a ∧ txvfo ≠ .b ∧ txvfo ≠ .c then .a else txvfo)

def getSplitVfo (clientFd : Int) : Action Unit := do
  let (split, txvfo) := reportedSplit (← call (.getSplitVfo .curr) env.splitVfo)
  sendResponseToClient (splitToString split ++ ascii "\n" ++ vfoToString txvfo) clientFd

def setSplitVfo (cmd : List UInt8) (clientFd : Int) : Action Unit := do
  let pieces := pieces cmd
  let split ← pieceOr pieces 1 .off fun piece => return if piece = ascii "1" then .on else .off
  let txvfo ← pieceOr pieces 2 .a fun piece => return vfoFromString (cString piece)
  call (.setSplitVfo .curr split txvfo) fun _ => ()
  sendResponseToClient (ascii "RPRT 0") clientFd

def setMode (cmd : List UInt8) (clientFd : Int) : Action Unit := do
  let pieces := pieces cmd
  let pbwidth ← ofExcept (stoi (← subscript pieces 2))
  let mode := modeFromString (cString (← subscript pieces 1))
  call (.setMode .curr mode pbwidth) fun _ => ()
  sendResponseToClient (ascii "RPRT 0") clientFd

def getLevel (cmd : List UInt8) (clientFd : Int) : Action Unit := do
  let level := env.parseLevel (cString (cmd.drop 2))
  let (rc, val) ← call (.getLevel .curr level) env.level
  let resp :=
    if rc ≠ rigOk then ascii "RPRT " ++ toText rc
    else if env.levelIsFloat level then env.floatToString val.bits
    else toText val.i
  sendResponseToClient resp clientFd

def setLevel (cmd : List UInt8) (clientFd : Int) : Action Unit := do
  let pieces := pieces cmd
  let level := env.parseLevel (← pieceOr pieces 1 [] fun piece => return cString piece)
  let val ← pieceOr pieces 2 ⟨0⟩ fun piece =>
    if env.levelIsFloat level then return ⟨← ofExcept (env.stof piece)⟩
    else return Value.ofInt (← ofExcept (stoi piece))
  let model := (← getState).rigModel
  let val := if level = env.levelAgc ∧ val.i = agcOff ∧ model = modelIC7300 then Value.ofInt agcFast else val
  let rc ← call (.setLevel .curr level val) env.setLevel
  sendResponseToClient (ascii "RPRT " ++ toText rc) clientFd

/-- The dispatch of interpret_command over the trimmed line; false asks for the
connection to be closed. -/
def dispatch (cmd : List UInt8) (clientFd : Int) : Action Bool :=
  if cmd = ascii "\\get_powerstat" then do
    sendResponseToClient (toClient (← call .getPowerstat env.powerstat)) clientFd
    return true
  else if startsWith cmd (ascii "\\set_powerstat ") then do
    let status ← ofExcept (stoi (cString (cmd.drop 15)))
    call (.setPowerstat status) fun _ => ()
    sendResponseToClient (ascii "RPRT 0") clientFd
    return true
  else if cmd = ascii "\\chk_vfo" then do
    sendResponseToClient (ascii "0") clientFd
    return true
  else if cmd = ascii "\\get_lock_mode" then do
    sendResponseToClient (toText (← call .getLockMode env.lockMode)) clientFd
    sendResponseToClient [] clientFd
    return true
  else if cmd = ascii "\\dump_state" then do
    sendResponseToClient (dumpState env (env.state (← getState).calls)) clientFd
    return true
  else if cmd = ascii "f" then do
    sendResponseToClient (env.doubleToString (← call (.getFreq .curr) env.freq)) clientFd
    return true
  else if cmd = ascii "s" then do
    getSplitVfo env clientFd
    return true
  else if startsWith cmd (ascii "S ") then do
    setSplitVfo cmd clientFd
    return true
  else if cmd = ascii "t" then do
    sendResponseToClient (toText (← call (.getPtt .curr) env.ptt)) clientFd
    return true
  else if startsWith cmd (ascii "T ") then do
    let ptt ← ofExcept (stoi (cString (cmd.drop 2)))
    call (.setPtt .curr ptt) fun _ => ()
    sendResponseToClient (ascii "RPRT 0") clientFd
    return true
  else if startsWith cmd (ascii "V ") then do
    call (.setVfo (vfoFromString (cString (cmd.drop 2)))) fun _ => ()
    sendResponseToClient (ascii "RPRT 0") clientFd
    return true
  else if cmd = ascii "m" then do
    let (mode, width) ← call (.getMode .curr) env.mode
    sendResponseToClient (modeToString mode ++ ascii "\n" ++ toText width) clientFd
    return true
  else if startsWith cmd (ascii "M ") then do
    setMode cmd clientFd
    return true
  else if startsWith cmd (ascii "F ") then do
    let freq ← ofExcept (env.stod (cString (cmd.drop 2)))
    call (.setFreq .curr freq) fun _ => ()
    sendResponseToClient (ascii "RPRT 0") clientFd
    return true
  else if startsWith cmd (ascii "l ") then do
    getLevel env cmd clientFd
    return true
  else if startsWith cmd (ascii "L ") then do
    setLevel env cmd clientFd
    return true
  else if cmd = ascii "q" ∨ cmd = ascii "Q" then do
    sendResponseToClient (ascii "RPRT 0") clientFd
    let _ ← writeFromClient env clientFd
    return false
  else if cmd = ascii "j" then do
    sendResponseToClient (toText (← call (.getRit .curr) env.rit)) clientFd
    return true
  else if cmd = ascii "v" then do
    sendResponseToClient (ascii "Main") clientFd
    return true
  else pure true

def interpretCommand (command : List UInt8) (clientFd : Int) : Action Bool :=
  dispatch env (trim command) clientFd

def handleLine (cmd : List UInt8) (clientFd : Int) : Action Bool :=
  tryCatch (interpretCommand env cmd clientFd) fun _ => do
    sendResponseToClient (ascii "RPRT -1") clientFd
    return true

/-- The loop over the lines of the buffer. Every pass erases at least one byte, so
the length of the buffer is enough passes. -/
def readLoop (key : Int) : Nat → Action Bool
  | 0 => return true
  | n + 1 => do
      let client := (← getState).client key
      match find client.readBuffer ['\n'.toUInt8] 0 with
      | none => return true
      | some pos =>
          let cmd := client.readBuffer.take pos
          if ← handleLine env cmd client.fd then
            modifyState fun s => s.updateClient key fun c =>
              { c with readBuffer := c.readBuffer.drop (cmd.length + 1) }
            readLoop key n
          else return false

def msgSize : Nat := 127

/-- A call of recv answers none for an error, and nothing at the end of the stream. -/
def readFromClient (key : Int) : Action Bool := do
  let client := (← getState).client key
  match ← call (.recv client.fd) env.received with
  | none => return false
  | some [] => return false
  | some msg =>
      modifyState fun s => s.updateClient key fun c =>
        { c with readBuffer := c.readBuffer ++ cString (msg.take msgSize) }
      let s ← getState
      if s.rigDisconnected then return true
      else readLoop env key (s.client key).readBuffer.length

end

end Cwsd.RigctldServer
