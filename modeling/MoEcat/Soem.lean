import MoEcat.MasterTypes

/-!
# The boundary to SOEM and the operating system

SOEM is a library outside this repository. It owns no memory of its own here: the
master hands it a context record and a process image, and every call may rewrite
both. What a call answers and writes is a parameter of the development, so a result
that quantifies over the parameter holds for every bus, every slave population and
every failure, including answers that real slaves never give. The steady clock and
the opening of a log file are answered by the same parameter.

Every call, and every entry into one of the master's own bus operations, is recorded
as an event. The record is not part of the program; statements about which calls are
made, when and in which order are statements about it.
-/

namespace MoEcat

/-- The fields of a SOEM slave entry that the master reads or writes. A window
pointer is an offset from the first byte of the process image. -/
structure EcSlave where
  state : UInt16 := 0
  alStatusCode : UInt16 := 0
  configAdr : UInt16 := 0
  aliasAdr : UInt16 := 0
  eepMan : UInt32 := 0
  eepId : UInt32 := 0
  eepRev : UInt32 := 0
  eepSer : UInt32 := 0
  name : String := ""
  hasDc : Bool := false
  mbxL : UInt16 := 0
  mbxWo : UInt16 := 0
  mbxRo : UInt16 := 0
  mbxProto : UInt16 := 0
  mbxCnt : UInt8 := 0
  coeDetails : UInt8 := 0
  obytes : UInt32 := 0
  ibytes : UInt32 := 0
  outputs : Option Nat := none
  inputs : Option Nat := none
deriving DecidableEq, Repr

/-- The fields of SOEM's group 0 that the master reads. -/
structure EcGroup where
  outputsWkc : Int := 0
  inputsWkc : Int := 0
deriving DecidableEq, Repr

/-- The SOEM context together with the memory it shares with the master. Entry 0 of
the slave list stands for all slaves; the scanned ones are 1 to `slavecount`. The
process image is the memory from the first byte of the master's buffer on, so that
addresses past the end of the buffer still name bytes, those of its neighbours. -/
structure EcContext where
  slavecount : Nat := 0
  slavelist : Nat → EcSlave := fun _ => {}
  group : EcGroup := {}
  dcTime : Int := 0
  image : Nat → UInt8 := fun _ => 0

/-- Length of the buffer that the master reserves for the process image. -/
def iomapSize : Nat := 4096

/-- Store a state in one entry of the slave list. -/
def EcContext.setState (ctx : EcContext) (slave : Nat) (state : UInt16) : EcContext :=
  { ctx with
    slavelist := fun i => if i = slave then { ctx.slavelist i with state := state }
      else ctx.slavelist i }

/-- Copy bytes into the process image. -/
def EcContext.store (ctx : EcContext) (address : Nat) (data : List UInt8) : EcContext :=
  { ctx with
    image := fun i => if address ≤ i then (data[i - address]?).getD (ctx.image i)
      else ctx.image i }

/-- Copy bytes out of the process image. -/
def EcContext.load (ctx : EcContext) (address length : Nat) : List UInt8 :=
  (List.range length).map fun i => ctx.image (address + i)

/-- SOEM calls with the arguments that the master passes. A state write carries the
value that the slave list holds at that moment, which is what the call transmits. -/
inductive SoemCall where
  | init (ifname : String)
  | close
  | configInit
  | configMapGroup (group : Nat)
  | configDc
  | readState
  | writeState (slave : Nat) (requested : UInt16)
  | stateCheck (slave : Nat) (requested : UInt16) (timeoutUs : Int)
  | sendProcessData
  | receiveProcessData (timeoutUs : Int)
  | sdoRead (slave index : UInt16) (subindex : UInt8) (completeAccess : Bool) (size timeoutUs : Int)
  | sdoWrite (slave index : UInt16) (subindex : UInt8) (completeAccess : Bool) (size : Int)
      (data : List UInt8) (timeoutUs : Int)
deriving DecidableEq, Repr

/-- What a SOEM call hands back besides the rewritten context: its return value, and
for a service read the bytes it stored at the start of the caller's buffer. -/
structure SoemReply where
  result : Int := 0
  data : List UInt8 := []
deriving DecidableEq, Repr

/-- How opening a log file for appending can end. -/
inductive LogFileOutcome where
  | directoryError
  | openError
  | opened
deriving DecidableEq, Repr

/-- Everything the program calls but does not contain, acting on a hidden state. -/
class Platform (β : Type) where
  soem : SoemCall → EcContext → β → SoemReply × EcContext × β
  -- Nanoseconds since the clock's epoch.
  steadyClock : β → Int × β
  openLogFile : String → β → LogFileOutcome × β

/-- The time limit for the answer to a frame, in microseconds. -/
def ecTimeoutRet : Int := 2000

/-- The time limit for a change of state, in microseconds. -/
def ecTimeoutState : Int := 2000000

/-- One recorded event: a SOEM call with its return value, the entry into a state
request, the slave states that a check of all slaves found, the entry into a node's
cyclic update, or a copy between a node's buffer and the process image. -/
inductive Event where
  | soem (call : SoemCall) (result : Int)
  | request (slave : Nat) (state : UInt16)
  | checked (expected : UInt16) (found : List UInt16)
  | updateOutput (slave : Nat)
  | updateInput (slave : Nat)
  | wroteImage (slave address length : Nat)
  | readImage (slave address length : Nat)
deriving DecidableEq, Repr

end MoEcat
