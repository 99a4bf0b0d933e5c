import MoEcat.EcatController

/-!
# The public master

The outermost layer: the process-data engine, the failure policies of the activity
scheduler, the log sinks, the transition override of the runtime state with its
notifications, and the public operations built from them. Each public operation
announces a transition, lets the controller act, and announces the stable outcome.

The callbacks are assumed to return without calling back into the master. Reading
object lists has an explicit bound on the passes of each loop, because the eight-bit
loop counter of the source can wrap; a read that exhausts the bound has no result.
-/

namespace MoEcat

/-! ## The process-data engine -/

namespace ProcessDataEngine

variable {β : Type} [Platform β]

/-- One cycle: outputs, exchange, inputs. Ignored unless the state is Operational. -/
def runOnce : Program (EcatController β) Unit := do
  let c ← get
  if c.state ≠ .operational then return ()
  else do
    let written ← EcatController.onMaster (SlaveNodeManager.updateAllOutputs c.nodes)
    EcatController.onMaster EcMaster.runOneCycle
    let nodes ← EcatController.onMaster (SlaveNodeManager.updateAllInputs written)
    modify fun c => { c with nodes := nodes }

/-- Compare all slaves with the state they should be in, and request a fault when one
has dropped out. -/
def superviseSlaves : Program (EcatController β) Unit := do
  let c ← get
  match c.state with
  | .maintenance => do
    let present ← EcatController.onMaster (EcMaster.checkAllSlavesInState EcState.preOp)
    Program.when (present = false) EcatController.requestFault
  | .operational => do
    let present ← EcatController.onMaster (EcMaster.checkAllSlavesInState EcState.operational)
    Program.when (present = false) EcatController.requestFault
  | _ => return ()

end ProcessDataEngine

/-! ## The activity scheduler's failure policies -/

/-- What is done when an activity fails. -/
inductive ActivityFailurePolicy where
  | keepControllerState
  | enterError
  | shutdown
deriving DecidableEq, Repr

/-- What the scheduler does with the controller once an activity's body is over. -/
def ActivityScheduler.completeActivity {β : Type} [Platform β] (ok : Bool)
    (policy : ActivityFailurePolicy) : Program (EcatController β) Unit :=
  Program.when (ok = false) (match policy with
    | .enterError => EcatController.requestFault
    | .shutdown => EcatController.stop
    | .keepControllerState => pure ())

/-! ## The master's own data -/

/-- The sinks of the logger that the master switches. -/
structure Logger where
  hasConsole : Bool := true
  hasFile : Bool := false
  file : Option String := none
  hasCallback : Bool := false
deriving DecidableEq, Repr

/-- What is delivered to the two callbacks. -/
inductive Notification where
  | stateChanged (old new : MasterState)
  | runtimeStateChanged (state : MasterRuntimeState)
deriving DecidableEq, Repr

/-- The public view of the master. -/
structure MasterSnapshot where
  state : MasterState := .uninitialized
  runtimeState : MasterRuntimeState := {}
  slaves : List SlaveInfo := []
  lastFault : String := ""
deriving DecidableEq, Repr

/-- The state of a master. The two flags tell whether the caller has set the callback;
`delivered` records the calls made to them. -/
structure Impl (β : Type) where
  controller : EcatController β
  lastStateCheckTime : Int := 0
  runtimeStateOverride : Option MasterRuntimeState := none
  logger : Logger := {}
  onStateChanged : Bool := false
  onRuntimeStateChanged : Bool := false
  delivered : List Notification := []

/-- A master as constructed, with the world it will act on. -/
def Impl.fresh {β : Type} (platform : β) : Impl β :=
  { controller := EcatController.fresh platform }

namespace Impl

variable {β α : Type}

/-- Run an operation of the controller that the master owns. -/
def onController (p : Program (EcatController β) α) : Program (Impl β) α :=
  Program.zoom Impl.controller (fun c i => { i with controller := c }) p

/-- Run an operation of the bus master behind the controller. -/
def onMaster (p : Program (EcMaster β) α) : Program (Impl β) α :=
  onController (EcatController.onMaster p)

/-- The public state. -/
def getState (i : Impl β) : MasterState := toMasterState i.controller.state

/-- The announced runtime state: that of the transition under way, or else that of the
controller state. An invalid one is shown as a fault. -/
def currentRuntimeState (i : Impl β) : MasterRuntimeState :=
  match i.runtimeStateOverride with
  | some state => if isValidRuntimeState state then state else ⟨.fault, .stable, .none⟩
  | none =>
    let state := toMasterRuntimeState i.controller.state
    if isValidRuntimeState state then state else ⟨.fault, .stable, .none⟩

/-- The count is that of the controller's own copy, the list that of the bus master. -/
def getSlaveCount (i : Impl β) : Nat := i.controller.getSlaveCount

/-- What the context says of the slaves now. -/
def getSlaveInfos (i : Impl β) : List SlaveInfo :=
  EcatController.refreshSlaveInfos i.controller.master

/-- The public view. The text of the last fault is always empty. -/
def getSnapshot (i : Impl β) : MasterSnapshot where
  state := i.getState
  runtimeState := i.currentRuntimeState
  slaves := i.getSlaveInfos

/-! ### Log sinks -/

/-- The logger has no callback any more. -/
def disableLogCallback : Program (Impl β) Unit :=
  modify fun i => { i with logger := { i.logger with hasCallback := false } }

/-- The logger has a callback. -/
def setCallbackSink : Program (Impl β) Unit :=
  modify fun i => { i with logger := { i.logger with hasCallback := true } }

/-- Switch the console on or off. -/
def setConsoleEnabled (enabled : Bool) : Program (Impl β) Unit :=
  modify fun i => { i with logger := { i.logger with hasConsole := enabled } }

/-! ### Notifications and the transition override -/

/-- Deliver the runtime state, if anyone wants it. -/
def notifyRuntimeStateChanged : Program (Impl β) Unit :=
  modify fun i =>
    if i.onRuntimeStateChanged then
      { i with delivered := i.delivered ++ [.runtimeStateChanged i.currentRuntimeState] }
    else i

/-- An invalid combination is replaced by the entry into Fault. -/
def beginRuntimeTransition (state : MasterRuntimeState) : Program (Impl β) Unit := do
  modify fun i =>
    { i with
      runtimeStateOverride :=
        some (if isValidRuntimeState state then state else ⟨.fault, .entering, .none⟩) }
  notifyRuntimeStateChanged

/-- The override ends, and the state that the controller has come to is announced. -/
def endRuntimeTransition : Program (Impl β) Unit := do
  modify fun i => { i with runtimeStateOverride := none }
  notifyRuntimeStateChanged

/-- The frame around every transition: announce it, let the controller act, and
announce what it led to. -/
def transition (announced : MasterRuntimeState) (p : Program (EcatController β) α) :
    Program (Impl β) α := do
  beginRuntimeTransition announced
  let outcome ← onController p
  endRuntimeTransition
  return outcome

variable [Platform β]

/-- An empty path closes the file. A directory that cannot be created leaves the file
as it was; a file that cannot be opened leaves none. -/
def setLogFile (path : String) : Program (Impl β) Unit := do
  if path = "" then
    modify fun i => { i with logger := { i.logger with hasFile := false, file := none } }
  else do
    let outcome ← onMaster fun m =>
      let (outcome, platform) := Platform.openLogFile path m.platform
      (outcome, { m with platform := platform })
    match outcome with
    | .directoryError => return ()
    | .openError =>
      modify fun i => { i with logger := { i.logger with hasFile := false, file := none } }
    | .opened =>
      modify fun i => { i with logger := { i.logger with hasFile := true, file := some path } }

/-- The console is switched off, and the file and the callback are set as the mode says. -/
def configureLogSink (config : EcMasterConfig) : Program (Impl β) Unit := do
  setConsoleEnabled false
  match config.logSink with
  | .none => do
    setLogFile ""
    disableLogCallback
  | .file => do
    setLogFile config.logPath
    disableLogCallback
  | .callback => do
    setLogFile ""
    setCallbackSink
  | .fileAndCallback => do
    setLogFile config.logPath
    setCallbackSink

/-! ### Lifecycle operations -/

/-- The sinks are set before the transition, whether or not it is admitted. -/
def initializeAdapter (config : EcMasterConfig) : Program (Impl β) Bool := do
  configureLogSink config
  transition ⟨.prepare, .entering, .adapterReady⟩ (EcatController.initializeAdapter config)

/-- A scan, between its announcements. -/
def scan : Program (Impl β) Bool :=
  transition ⟨.prepare, .entering, .topologyDiscovered⟩ EcatController.scan

/-- Entering Maintenance, between its announcements. -/
def enterMaintenance : Program (Impl β) Bool :=
  transition ⟨.prepare, .entering, .preOpMaintenance⟩ EcatController.enterMaintenance

/-- The preparation, between its announcements. -/
def prepareRun : Program (Impl β) Bool :=
  transition ⟨.prepare, .entering, .safeOpReady⟩ EcatController.prepareRun

/-- The start, between its announcements. -/
def startOperation : Program (Impl β) Bool :=
  transition ⟨.run, .entering, .none⟩ EcatController.startOperation

/-- The way back, announced as leaving the run mode only where that is the mode. -/
def backToMaintenance : Program (Impl β) Bool := do
  let i ← get
  transition
    (if i.currentRuntimeState.mode = .run then ⟨.run, .exiting, .none⟩
      else ⟨.prepare, .entering, .preOpMaintenance⟩)
    EcatController.backToMaintenance

/-- A stop, announced as leaving whatever mode there is. -/
def stop : Program (Impl β) Unit := do
  let i ← get
  transition { i.currentRuntimeState with transition := .exiting } EcatController.stop

/-- A requested fault, between its announcements. -/
def requestFault : Program (Impl β) Unit :=
  transition ⟨.fault, .entering, .none⟩ EcatController.requestFault

/-- A requested emergency stop, between its announcements. -/
def requestEmergencyStop : Program (Impl β) Unit :=
  transition ⟨.emergencyStop, .entering, .none⟩ EcatController.requestEmergencyStop

/-! ### The periodic service -/

/-- Half a second, in nanoseconds. -/
def stateCheckInterval : Int := 500000000

/-- Supervise the slaves unless the last supervision was less than an interval ago. -/
def checkSlaveStates : Program (Impl β) Unit := do
  let now ← onMaster EcMaster.steadyNow
  let i ← get
  if now - i.lastStateCheckTime < stateCheckInterval then return ()
  else do
    modify fun i => { i with lastStateCheckTime := now }
    onController ProcessDataEngine.superviseSlaves

/-- The part of the service that the runtime state selects. -/
def serviceEngine : Program (Impl β) Unit := do
  let i ← get
  if shouldCheckPreOpSlaves i.currentRuntimeState then checkSlaveStates
  else if canRunProcessData i.currentRuntimeState then do
    onController ProcessDataEngine.runOnce
    checkSlaveStates
  else return ()

/-- The engine's turn. A change of the public state that it makes is delivered, and the
runtime state after it. -/
def service : Program (Impl β) Unit := do
  let old ← get
  serviceEngine
  let new ← get
  Program.when (old.getState ≠ new.getState) do
    modify fun i =>
      if i.onStateChanged then
        { i with delivered := i.delivered ++ [.stateChanged old.getState new.getState] }
      else i
    notifyRuntimeStateChanged

/-! ### Service data -/

/-- The number is cut to 16 bits and the timeout multiplied in 32. -/
def readSdo (slaveId : Int) (index : UInt16) (subindex : UInt8) (data : List UInt8)
    (timeoutMs : Int) : Program (Impl β) (Bool × List UInt8) := do
  if slaveId ≤ 0 ∨ data = [] then return (false, data)
  else
    onMaster (EcMaster.sdoRead (UInt16.ofInt slaveId) index subindex data
      (narrowInt data.length) (narrowInt (timeoutMs * 1000)))

/-- A download, refused for a number that names no slave and for no data. Numbers and lengths
are narrowed as the source narrows them. -/
def writeSdo (slaveId : Int) (index : UInt16) (subindex : UInt8) (data : List UInt8)
    (timeoutMs : Int) : Program (Impl β) Bool := do
  if slaveId ≤ 0 ∨ data = [] then return false
  else
    onMaster (EcMaster.sdoWrite (UInt16.ofInt slaveId) index subindex data
      (narrowInt data.length) (narrowInt (timeoutMs * 1000)))

end Impl

/-! ### Reading and showing a slave's process-data mapping -/

/-- The value of a byte list, least significant byte first. -/
def unsignedLittleEndian (bytes : List UInt8) : Nat :=
  bytes.foldr (fun byte high => byte.toNat + 256 * high) 0

/-- A number in hexadecimal digits, without leading zeros. -/
def hex (n : Nat) : String := String.ofList (Nat.toDigits 16 n)

namespace Impl

variable {β : Type} [Platform β]

/-- Read subindices `i` to `count` of an object after the values read so far. The
counter is eight bits wide. A failure keeps what has been read. -/
def readSubindices (slaveId index : UInt16) (width : Nat) (count : UInt8) :
    Nat → UInt8 → List Nat → Program (EcMaster β) (Option (Bool × List Nat))
  | 0, _, _ => return none
  | fuel + 1, i, values =>
    if i ≤ count then do
      let reply ← EcMaster.sdoRead slaveId index i (List.replicate width 0) width 10000
      if reply.1 = false then return some (false, values)
      else
        readSubindices slaveId index width count fuel (i + 1)
          (values ++ [unsignedLittleEndian reply.2])
    else return some (true, values)

/-- Read the count at subindex 0, then that many values of the given width. -/
def readObjectList (fuel : Nat) (slaveId index : UInt16) (width : Nat) :
    Program (EcMaster β) (Option (Bool × List Nat)) := do
  let reply ← EcMaster.sdoRead slaveId index 0 [0] 1 10000
  if reply.1 = false then return some (false, [])
  else readSubindices slaveId index width (UInt8.ofNat (unsignedLittleEndian reply.2)) fuel 1 []

/-- The list of the objects that are assigned to a sync manager. -/
def readSmAssignment (fuel : Nat) (slaveId assignIndex : UInt16) :
    Program (EcMaster β) (Option (Bool × List Nat)) :=
  readObjectList fuel slaveId assignIndex 2

/-- The list of the entries that are mapped in an object. -/
def readPdoMapping (fuel : Nat) (slaveId pdoIndex : UInt16) :
    Program (EcMaster β) (Option (Bool × List Nat)) :=
  readObjectList fuel slaveId pdoIndex 4

/-- One mapped entry: index, subindex and length in bits share 32 bits. -/
def showEntry (position entry : Nat) : String :=
  "    [" ++ toString position ++ "] 0x" ++ hex (entry / 2 ^ 16 % 2 ^ 16) ++ ":" ++
    hex (entry / 2 ^ 8 % 2 ^ 8) ++ " (" ++ toString (entry % 2 ^ 8) ++ " bits)\n"

/-- The lines of all entries, with their numbers. -/
def showEntries (entries : List Nat) : String :=
  String.join (entries.mapIdx showEntry)

/-- The lines of the mapping objects of one direction, after the text so far. -/
def dumpPdos (fuel : Nat) (slaveId : UInt16) :
    List Nat → String → Program (EcMaster β) (Option String)
  | [], text => return some text
  | pdoIndex :: rest, text => do
    let mapping ← readPdoMapping fuel slaveId (UInt16.ofNat pdoIndex)
    match mapping with
    | none => return none
    | some (false, _) =>
      dumpPdos fuel slaveId rest (text ++ "  PDO 0x" ++ hex pdoIndex ++ ": read failed\n")
    | some (true, entries) =>
      dumpPdos fuel slaveId rest
        (text ++ "  PDO 0x" ++ hex pdoIndex ++ ":\n" ++ showEntries entries)

/-- The text of one direction. Where the assignment cannot be read there is only its title.
-/
def dumpDirection (fuel : Nat) (slaveId : UInt16) (direction : String) (assignIndex : UInt16)
    (text : String) : Program (EcMaster β) (Option String) := do
  let assignment ← readSmAssignment fuel slaveId assignIndex
  let title := direction ++ " (0x" ++ hex assignIndex.toNat ++ "):"
  match assignment with
  | none => return none
  | some (false, _) => return some (text ++ title ++ " read failed\n")
  | some (true, pdoIndices) => dumpPdos fuel slaveId pdoIndices (text ++ title ++ "\n")

/-- The output direction first, then the input direction. -/
def dumpDirections (fuel : Nat) (slaveId : UInt16) : Program (EcMaster β) (Option String) := do
  let text ← dumpDirection fuel slaveId "RxPDO" 0x1C12 ""
  match text with
  | none => return none
  | some text => dumpDirection fuel slaveId "TxPDO" 0x1C13 text

/-- The text of both directions; it is empty for a number that names no slave. -/
def dumpPdoMapping (fuel : Nat) (slaveId : Int) : Program (Impl β) (Option String) := do
  if slaveId ≤ 0 then return some ""
  else onMaster (dumpDirections fuel (UInt16.ofInt slaveId))

/-- The log callback goes first, then the members, the controller stopping as it does. -/
def destroy : Program (Impl β) Unit := do
  disableLogCallback
  onController EcatController.destroy

end Impl

/-! ## The operations as data -/

/-- The public operations that act. -/
inductive MasterOperation where
  | initializeAdapter (config : EcMasterConfig)
  | scan
  | enterMaintenance
  | prepareRun
  | startOperation
  | backToMaintenance
  | stop
  | requestFault
  | requestEmergencyStop
  | service
  | readSdo (slaveId : Int) (index : UInt16) (subindex : UInt8) (data : List UInt8)
      (timeoutMs : Int)
  | writeSdo (slaveId : Int) (index : UInt16) (subindex : UInt8) (data : List UInt8)
      (timeoutMs : Int)
  | dumpPdoMapping (fuel : Nat) (slaveId : Int)
deriving DecidableEq, Repr

/-- The controller's own public operations that act. -/
inductive ControllerOperation where
  | initializeController (config : EcMasterConfig)
  | initializeAdapter (config : EcMasterConfig)
  | scan
  | enterMaintenance
  | prepareRun
  | startOperation
  | backToMaintenance
  | stop
  | requestFault
  | requestEmergencyStop
deriving DecidableEq, Repr

/-- Perform one controller operation. One without a result answers `true`. -/
def EcatController.perform {β : Type} [Platform β] :
    ControllerOperation → Program (EcatController β) Bool
  | .initializeController config => initializeController config
  | .initializeAdapter config => initializeAdapter config
  | .scan => scan
  | .enterMaintenance => enterMaintenance
  | .prepareRun => prepareRun
  | .startOperation => startOperation
  | .backToMaintenance => backToMaintenance
  | .stop => do stop; return true
  | .requestFault => do requestFault; return true
  | .requestEmergencyStop => do requestEmergencyStop; return true

/-- Perform one public operation. The answer tells whether the operation reports
success; one without a result answers `true`, and a dump answers whether its loops
ended within their bound. Bytes and text handed to the caller are dropped. -/
def Impl.perform {β : Type} [Platform β] : MasterOperation → Program (Impl β) Bool
  | .initializeAdapter config => initializeAdapter config
  | .scan => scan
  | .enterMaintenance => enterMaintenance
  | .prepareRun => prepareRun
  | .startOperation => startOperation
  | .backToMaintenance => backToMaintenance
  | .stop => do stop; return true
  | .requestFault => do requestFault; return true
  | .requestEmergencyStop => do requestEmergencyStop; return true
  | .service => do service; return true
  | .readSdo slaveId index subindex data timeoutMs =>
    Prod.fst <$> readSdo slaveId index subindex data timeoutMs
  | .writeSdo slaveId index subindex data timeoutMs =>
    writeSdo slaveId index subindex data timeoutMs
  | .dumpPdoMapping fuel slaveId => Option.isSome <$> dumpPdoMapping fuel slaveId

end MoEcat
