/-!
# States, configurations and runtime states of the master

The public data of the master: the stable controller states and the actions that
move between them, the scanned identity of a slave, the configuration a caller
supplies, and the layered runtime state shown to user interfaces with the four
predicates that read it.

Logging is not represented. Fields that only the log, the command-line
front end or a not yet existing feature would read are left out.
-/

namespace MoEcat

/-! EtherCAT application-layer states as SOEM encodes them. The error flag and the
acknowledge flag are the same bit, read in one direction and written in the other. -/
namespace EcState

/-- No state. -/
def none : UInt16 := 0x00

/-- INIT. -/
def init : UInt16 := 0x01

/-- PRE_OP. -/
def preOp : UInt16 := 0x02

/-- SAFE_OP. -/
def safeOp : UInt16 := 0x04

/-- OP. -/
def operational : UInt16 := 0x08

/-- The bit by which an error is acknowledged in a write. -/
def ack : UInt16 := 0x10

/-- The bit that shows an error in what is read: the same bit. -/
def error : UInt16 := 0x10

end EcState

/-- The stable lifecycle states of the controller. -/
inductive ControllerState where
  | uninitialized
  | adapterReady
  | scanned
  | maintenance
  | readyToRun
  | operational
  | fault
  | emergencyStop
deriving DecidableEq, Repr

/-- Requests dispatched by the controller's single entry point. -/
inductive MasterAction where
  | initializeAdapter
  | scanSlaves
  | enterMaintenance
  | prepareRun
  | startOperation
  | backToMaintenance
  | stop
  | requestFault
  | requestEmergencyStop
deriving DecidableEq, Repr

/-- The public image of a controller state. -/
inductive MasterState where
  | uninitialized
  | adapterReady
  | scanned
  | maintenance
  | readyToRun
  | operational
  | fault
  | emergencyStop
deriving DecidableEq, Repr

/-- The mode of the runtime state. -/
inductive MasterMode where
  | init
  | prepare
  | run
  | fault
  | emergencyStop
deriving DecidableEq, Repr

/-- Whether a mode is being entered, held or left. -/
inductive TransitionStage where
  | entering
  | stable
  | exiting
deriving DecidableEq, Repr

/-- How far the preparation of the bus has come. -/
inductive PrepareStage where
  | none
  | adapterReady
  | topologyDiscovered
  | preOpMaintenance
  | safeOpReady
deriving DecidableEq, Repr

/-- The state that the program announces: mode, transition and stage. -/
structure MasterRuntimeState where
  mode : MasterMode := .init
  transition : TransitionStage := .stable
  prepareStage : PrepareStage := .none
deriving DecidableEq, Repr

/-- Only the prepare mode has inner stages. The transition is not restricted. -/
def isValidRuntimeState (state : MasterRuntimeState) : Bool :=
  match state.mode with
  | .init | .run | .fault | .emergencyStop => state.prepareStage == .none
  | .prepare => true

/-- Activities run in the stable stage of maintenance only. -/
def canRunMaintenanceActivity (state : MasterRuntimeState) : Bool :=
  state.mode == .prepare && state.transition == .stable &&
    state.prepareStage == .preOpMaintenance

/-- Process data is exchanged in the stable mode of running only. -/
def canRunProcessData (state : MasterRuntimeState) : Bool :=
  state.mode == .run && state.transition == .stable && state.prepareStage == .none

/-- Slaves are checked for PRE_OP where activities may run. -/
def shouldCheckPreOpSlaves (state : MasterRuntimeState) : Bool :=
  canRunMaintenanceActivity state

/-- The public state of a controller state: the names are the same. -/
def toMasterState : ControllerState → MasterState
  | .uninitialized => .uninitialized
  | .adapterReady => .adapterReady
  | .scanned => .scanned
  | .maintenance => .maintenance
  | .readyToRun => .readyToRun
  | .operational => .operational
  | .fault => .fault
  | .emergencyStop => .emergencyStop

/-- The stable runtime image of a controller state. -/
def toMasterRuntimeState : ControllerState → MasterRuntimeState
  | .uninitialized => ⟨.init, .stable, .none⟩
  | .adapterReady => ⟨.prepare, .stable, .adapterReady⟩
  | .scanned => ⟨.prepare, .stable, .topologyDiscovered⟩
  | .maintenance => ⟨.prepare, .stable, .preOpMaintenance⟩
  | .readyToRun => ⟨.prepare, .stable, .safeOpReady⟩
  | .operational => ⟨.run, .stable, .none⟩
  | .fault => ⟨.fault, .stable, .none⟩
  | .emergencyStop => ⟨.emergencyStop, .stable, .none⟩

/-- The public state determines the controller state. -/
theorem toMasterState_injective (first second : ControllerState)
    (same : toMasterState first = toMasterState second) : first = second := by
  cases first <;> cases second <;> first | rfl | cases same

/-- The runtime image of a controller state is always a valid combination. -/
theorem toMasterRuntimeState_valid (state : ControllerState) :
    isValidRuntimeState (toMasterRuntimeState state) = true := by
  cases state <;> rfl

/-- Of the stable images, only Maintenance permits maintenance activities. -/
theorem canRunMaintenanceActivity_iff (state : ControllerState) :
    canRunMaintenanceActivity (toMasterRuntimeState state) = true ↔ state = .maintenance := by
  cases state <;> decide

/-- Of the stable images, only Operational permits process data. -/
theorem canRunProcessData_iff (state : ControllerState) :
    canRunProcessData (toMasterRuntimeState state) = true ↔ state = .operational := by
  cases state <;> decide

/-- The identity a configuration expects at one scan position. A zero field of the
expectation is a wildcard where it is compared. -/
structure SlaveIdentity where
  vendorId : UInt32 := 0
  productId : UInt32 := 0
  revisionId : UInt32 := 0
  serialId : UInt32 := 0
  name : String := ""
deriving DecidableEq, Repr

/-- Static information about one scanned slave. -/
structure SlaveInfo where
  slaveId : Nat := 0
  configAddress : UInt16 := 0
  aliasAddress : UInt16 := 0
  vendorId : UInt32 := 0
  productId : UInt32 := 0
  revisionId : UInt32 := 0
  serialId : UInt32 := 0
  name : String := ""
  supportsDc : Bool := false
  mbxL : UInt16 := 0
  mbxWo : UInt16 := 0
  mbxRo : UInt16 := 0
  mbxProto : UInt16 := 0
  mbxCnt : UInt8 := 0
  state : UInt16 := 0
  alStatusCode : UInt16 := 0
  coeDetails : UInt8 := 0
  outputBytes : UInt32 := 0
  inputBytes : UInt32 := 0
deriving DecidableEq, Repr

/-- Where the log goes, apart from the console. -/
inductive LogSinkMode where
  | none
  | file
  | callback
  | fileAndCallback
deriving DecidableEq, Repr

/-- The configuration of the master, with the defaults of the source. -/
structure EcMasterConfig where
  ifname : String := "eth0"
  useDc : Bool := true
  -- Zero switches the count check off.
  expectedSlaveCount : Int := 0
  -- Expectations by scan position; an empty list switches the identity check off.
  expectedIdentities : List SlaveIdentity := []
  logSink : LogSinkMode := .callback
  logPath : String := ""
deriving DecidableEq, Repr

end MoEcat
