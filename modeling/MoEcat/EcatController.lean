import MoEcat.SlaveNode

/-!
# The lifecycle controller

The controller owns the bus master, the slave nodes and the stable lifecycle state.
Every action passes through one dispatcher, which admits it by a table; fault and
emergency requests bypass the table. An action performs its bus commands in the
order of the source, including the commands of a failing path and the roll-back of a
shutdown, and changes the stable state where the source does.

The reasons given for faults are only logged, so the requests carry none here.
-/

namespace MoEcat

/-- The controller: its state, the bus master, a node for each slave, the configuration and
what the scan has found. -/
structure EcatController (β : Type) where
  state : ControllerState := .uninitialized
  master : EcMaster β
  nodes : List SlaveNode := []
  config : EcMasterConfig := {}
  slaveInfos : List SlaveInfo := []

/-- A controller as constructed, with the world it will act on. -/
def EcatController.fresh {β : Type} (platform : β) : EcatController β :=
  { master := { platform := platform } }

namespace EcatController

variable {β α : Type}

/-- Which actions the table admits in each state. -/
def allowedActions : ControllerState → List MasterAction
  | .uninitialized => [.initializeAdapter]
  | .adapterReady => [.scanSlaves, .stop]
  | .scanned => [.enterMaintenance, .stop]
  | .maintenance => [.prepareRun, .stop]
  | .readyToRun => [.startOperation, .backToMaintenance, .stop]
  | .operational => [.backToMaintenance, .stop]
  | .fault => [.stop]
  | .emergencyStop => [.stop]

/-- Run an operation of the bus master that the controller owns. -/
def onMaster (p : Program (EcMaster β) α) : Program (EcatController β) α :=
  Program.zoom EcatController.master (fun m c => { c with master := m }) p

/-- Set the state. -/
def enter (state : ControllerState) : Program (EcatController β) Unit :=
  modify fun c => { c with state := state }

/-- The information that the bus master now holds on every scanned slave. -/
def refreshSlaveInfos (m : EcMaster β) : List SlaveInfo :=
  (List.range m.getSlaveCount).map fun i => m.getSlaveInfo (i + 1)

/-- The number of slaves that the scan has found. -/
def getSlaveCount (c : EcatController β) : Nat := c.slaveInfos.length

/-- The comparison made for one scan position. -/
def identityMismatch (expected : SlaveIdentity) (actual : SlaveInfo) : Bool :=
  (expected.vendorId != 0 && actual.vendorId != expected.vendorId) ||
    (expected.productId != 0 && actual.productId != expected.productId)

/-- Let the caller act on every node in order. -/
def forEachSlaveNode (callback : SlaveNode → SlaveNode) : Program (EcatController β) Unit :=
  modify fun c => { c with nodes := c.nodes.map callback }

variable [Platform β]

/-- Read the state and the status code of every slave for the log. -/
def logSlaveSnapshot : Program (EcatController β) Unit := do
  let c ← get
  (List.range c.master.getSlaveCount).forM fun i => do
    let _ ← onMaster (EcMaster.readActualState (i + 1))
    let _ ← onMaster (EcMaster.readAlStatusCode (i + 1))

/-- Log the slaves and enter Fault, from whatever state. -/
def enterFault : Program (EcatController β) Unit := do
  logSlaveSnapshot
  enter .fault

/-- Log the slaves and enter EmergencyStop, from whatever state. -/
def enterEmergencyStop : Program (EcatController β) Unit := do
  logSlaveSnapshot
  enter .emergencyStop

/-- The dispatcher sends a fault request straight to its action, also when it is made
from inside another action. -/
def requestFault : Program (EcatController β) Unit := enterFault

/-- The request of an emergency stop is granted in every state. -/
def requestEmergencyStop : Program (EcatController β) Unit := enterEmergencyStop

/-- Roll the bus back as far as the stable state says it has come, then release the
nodes and the adapter. -/
def doShutdown : Program (EcatController β) Bool := do
  let c ← get
  Program.when (c.state = .operational) (do let _ ← onMaster EcMaster.requestSafeOpState)
  Program.when (c.state = .operational ∨ c.state = .readyToRun ∨ c.state = .maintenance)
    (do let _ ← onMaster EcMaster.requestPreOpState)
  Program.when (c.state ≠ .uninitialized ∧ c.state ≠ .adapterReady ∧ c.state ≠ .scanned)
    (do let _ ← onMaster EcMaster.requestInitState)
  modify fun c => { c with nodes := [] }
  onMaster EcMaster.close
  enter .uninitialized
  return true

/-- Open the adapter with the kept configuration. -/
def doInit : Program (EcatController β) Bool := do
  let c ← get
  if c.state ≠ .uninitialized then return false
  else do
    let opened ← onMaster (EcMaster.initializeMaster c.config)
    if opened = false then return false
    else do
      enter .adapterReady
      return true

/-- The loop over the scan positions ends at the shorter of the two lists. -/
def doScan : Program (EcatController β) Bool := do
  let c ← get
  if c.state ≠ .adapterReady then return false
  else do
    let infos ← onMaster EcMaster.scanSlaves
    modify fun c => { c with slaveInfos := infos }
    if infos = [] then do
      let _ ← doShutdown
      return false
    else if 0 < c.config.expectedSlaveCount ∧
        infos.length ≠ c.config.expectedSlaveCount.toNat then do
      let _ ← doShutdown
      return false
    else if (c.config.expectedIdentities.zip infos).any
        (fun position => identityMismatch position.1 position.2) then do
      let _ ← doShutdown
      return false
    else do
      enter .scanned
      return true

/-- Ask for PRE_OP and check it. A failure shuts the master down. -/
def doEnterMaintenance : Program (EcatController β) Bool := do
  let c ← get
  if c.state ≠ .scanned then return false
  else do
    let requested ← onMaster EcMaster.requestPreOpState
    if requested = false then do
      let _ ← doShutdown
      return false
    else do
      let confirmed ← onMaster (EcMaster.checkAllSlavesInState EcState.preOp)
      if confirmed = false then do
        let _ ← doShutdown
        return false
      else do
        enter .maintenance
        modify fun c => { c with slaveInfos := refreshSlaveInfos c.master }
        let c ← get
        let (created, nodes) := SlaveNodeManager.initializeNodes c.slaveInfos
        modify fun c => { c with nodes := nodes }
        if created = false then do
          let _ ← doShutdown
          return false
        else return true

/-- Configure all nodes. A failure enters Fault. -/
def doPdoConfigure : Program (EcatController β) Bool := do
  let c ← get
  if c.state ≠ .maintenance then return false
  else do
    let (configured, nodes) := SlaveNodeManager.configureAll c.nodes
    modify fun c => { c with nodes := nodes }
    if configured = false then do
      requestFault
      return false
    else return true

/-- Map the process data, ask for SAFE_OP and check it. A failure enters Fault. -/
def doSafeOp : Program (EcatController β) Bool := do
  let c ← get
  if c.state ≠ .maintenance then return false
  else do
    let mapped ← onMaster EcMaster.configureProcessData
    if mapped = false then do
      requestFault
      return false
    else do
      let reached ← onMaster (EcMaster.requestSafeOpState <&&>
        EcMaster.checkAllSlavesInState EcState.safeOp)
      if reached = false then do
        requestFault
        return false
      else return true

/-- Configure the distributed clocks. A failure enters Fault. -/
def doDcConfigure : Program (EcatController β) Bool := do
  let c ← get
  if c.state ≠ .maintenance then return false
  else do
    let configured ← onMaster EcMaster.configureDc
    if configured = false then do
      requestFault
      return false
    else return true

/-- Nodes, process data and clocks in this order, and then ReadyToRun. -/
def doPrepareRun : Program (EcatController β) Bool := do
  let c ← get
  if c.state ≠ .maintenance then return false
  else do
    let prepared ← doPdoConfigure <&&> doSafeOp <&&> doDcConfigure
    if prepared = false then return false
    else do
      enter .readyToRun
      return true

/-- Ask for OP and check it. A failure enters Fault. -/
def doOperational : Program (EcatController β) Bool := do
  let c ← get
  if c.state ≠ .readyToRun then return false
  else do
    let reached ← onMaster (EcMaster.requestOperationalState <&&>
      EcMaster.checkAllSlavesInState EcState.operational)
    if reached = false then do
      requestFault
      return false
    else do
      enter .operational
      return true

/-- The guard is made once more before `DoOperational` makes its own. -/
def doStartOperation : Program (EcatController β) Bool := do
  let c ← get
  if c.state ≠ .readyToRun then return false
  else doOperational

/-- Both ways back request and confirm PRE_OP; from Operational the bus is first asked
for SAFE_OP, and a refusal of that is ignored. -/
def doBackToMaintenance : Program (EcatController β) Bool := do
  let c ← get
  if c.state = .readyToRun ∨ c.state = .operational then do
    Program.when (c.state = .operational) (do let _ ← onMaster EcMaster.requestSafeOpState)
    let returned ← onMaster (EcMaster.requestPreOpState <&&>
      EcMaster.checkAllSlavesInState EcState.preOp)
    if returned = false then do
      enterFault
      return false
    else do
      enter .maintenance
      return true
  else return false

/-- What each action of the table does. The two requests are granted before the table is
looked at. -/
def doAction : MasterAction → Program (EcatController β) Bool
  | .initializeAdapter => doInit
  | .scanSlaves => doScan
  | .enterMaintenance => doEnterMaintenance
  | .prepareRun => doPrepareRun
  | .startOperation => doStartOperation
  | .backToMaintenance => doBackToMaintenance
  | .stop => doShutdown
  | .requestFault | .requestEmergencyStop => return false

/-- The two requests are granted in every state; any other action only where the table admits
it. -/
def dispatch (action : MasterAction) : Program (EcatController β) Bool := do
  if action = .requestEmergencyStop then do
    enterEmergencyStop
    return true
  else if action = .requestFault then do
    enterFault
    return true
  else do
    let c ← get
    if action ∉ allowedActions c.state then return false
    else doAction action

/-! ## Public operations -/

/-- The guard of the public operation comes before the table is looked at. -/
def initializeAdapter (config : EcMasterConfig) : Program (EcatController β) Bool := do
  let c ← get
  if c.state ≠ .uninitialized then return false
  else do
    modify fun c => { c with config := config }
    dispatch .initializeAdapter

/-- A scan is refused outside AdapterReady. -/
def scan : Program (EcatController β) Bool := do
  let c ← get
  if c.state ≠ .adapterReady then return false else dispatch .scanSlaves

/-- Maintenance is refused outside Scanned. -/
def enterMaintenance : Program (EcatController β) Bool := do
  let c ← get
  if c.state ≠ .scanned then return false else dispatch .enterMaintenance

/-- The preparation is refused outside Maintenance. -/
def prepareRun : Program (EcatController β) Bool := do
  let c ← get
  if c.state ≠ .maintenance then return false else dispatch .prepareRun

/-- The start is refused outside ReadyToRun. -/
def startOperation : Program (EcatController β) Bool := do
  let c ← get
  if c.state ≠ .readyToRun then return false else dispatch .startOperation

/-- The way back is refused outside ReadyToRun and Operational. -/
def backToMaintenance : Program (EcatController β) Bool := do
  let c ← get
  if c.state ≠ .readyToRun ∧ c.state ≠ .operational then return false
  else dispatch .backToMaintenance

/-- The convenience operation from construction to Maintenance. -/
def initializeController (config : EcMasterConfig) : Program (EcatController β) Bool := do
  let c ← get
  if c.state ≠ .uninitialized then return false
  else initializeAdapter config <&&> scan <&&> enterMaintenance

/-- A stop is nothing in Uninitialized, and an action of the table everywhere else. -/
def stop : Program (EcatController β) Unit := do
  let c ← get
  if c.state = .uninitialized then return ()
  else do
    let _ ← dispatch .stop

/-- The destructor stops; then the members go, the bus master closing as it does. -/
def destroy : Program (EcatController β) Unit := do
  stop
  modify fun c => { c with nodes := [] }
  onMaster EcMaster.close

end EcatController

end MoEcat
