import MoEcat.CyclicUpdates
import MoEcat.SystemRuns
import MoEcat.Bench

/-!
# Where the slaves' windows lie

Mapping the process image gives every slave a window for its outputs and one for its
inputs, in a buffer of fixed length whose length SOEM is not told. What the mapping
established about the windows holds in every later cycle, because nothing but another
mapping moves them; whether they lie inside the buffer depends on a size that the code
never compares with it.
-/

namespace MoEcat

open Regions

/-! ## The layout of the process image -/

/-- The part of the process image that a slave's outputs are sent from. -/
def EcSlave.outputWindow (slave : EcSlave) : Option Region :=
  slave.outputs.map fun base => ⟨base, slave.obytes.toNat⟩

/-- The part that its inputs are received into. -/
def EcSlave.inputWindow (slave : EcSlave) : Option Region :=
  slave.inputs.map fun base => ⟨base, slave.ibytes.toNat⟩

/-- The number of slaves and the windows of each. -/
@[ext] structure ImageLayout where
  slavecount : Nat
  output : Nat → Option Region
  input : Nat → Option Region

namespace ImageLayout

/-- The output windows, in the order of the slaves. -/
def outputWindows (layout : ImageLayout) : List Region :=
  (List.range layout.slavecount).filterMap fun k => layout.output (k + 1)

/-- The input windows, in the order of the slaves. -/
def inputWindows (layout : ImageLayout) : List Region :=
  (List.range layout.slavecount).filterMap fun k => layout.input (k + 1)

/-- The windows of all scanned slaves, outputs first. -/
def windows (layout : ImageLayout) : List Region := layout.outputWindows ++ layout.inputWindows

end ImageLayout

/-- The layout that a context holds. -/
def EcContext.layout (ctx : EcContext) : ImageLayout where
  slavecount := ctx.slavecount
  output := fun i => (ctx.slavelist i).outputWindow
  input := fun i => (ctx.slavelist i).inputWindow

/-- The state of a slave does not move its windows. -/
theorem EcContext.layout_setState (ctx : EcContext) (slave : Nat) (state : UInt16) :
    (ctx.setState slave state).layout = ctx.layout := by
  ext i <;> simp only [layout, setState]
  · split <;> rfl
  · split <;> rfl

variable {β : Type} [Platform β]

/-- Only a scan and a mapping change where the windows lie, and a mapping does not change
which slaves there are. -/
structure KeepsLayout (β : Type) [Platform β] : Prop where
  ordinary : ∀ call : SoemCall, call.isOrdinary = true → ∀ (ctx : EcContext) (platform : β),
    (Platform.soem call ctx platform).2.1.layout = ctx.layout
  mapping : ∀ (group : Nat) (ctx : EcContext) (platform : β),
    (Platform.soem (.configMapGroup group) ctx platform).2.1.slavecount = ctx.slavecount

namespace EcMaster

/-- An ordinary change of the shared memory leaves the layout. -/
theorem ContextStep.layout_eq (keeps : KeepsLayout β) {first last : EcContext × β}
    (step : ContextStep first last) : last.1.layout = first.1.layout := by
  cases step with
  | call call ordinary ctx platform => exact keeps.ordinary call ordinary ctx platform
  | setState slave state ctx platform => exact ctx.layout_setState slave state
  | store address data ctx platform => rfl
  | world ctx platform platform' => rfl

/-- Operations that only touch the bus keep the layout. -/
theorem Touches.layout_eq (keeps : KeepsLayout β) {m m' : EcMaster β} {marks : List Mark}
    (touches : Touches m m' marks) : m'.ctx.layout = m.ctx.layout :=
  touches.preserves (fun ctx => ctx.layout = m.ctx.layout)
    (fun _ _ step same => (step.layout_eq keeps).trans same) rfl

end EcMaster

/-! ## What every run keeps -/

/-- The states in which the nodes stand for the scanned slaves. -/
def ControllerState.holdsNodes : ControllerState → Bool
  | .maintenance | .readyToRun | .operational => true
  | _ => false

/-- The states in which the process image has been laid out. -/
def ControllerState.holdsImage : ControllerState → Bool
  | .readyToRun | .operational => true
  | _ => false

/-- Where the image is laid out, there are nodes. -/
theorem ControllerState.holdsNodes_of_holdsImage {state : ControllerState}
    (holds : state.holdsImage = true) : state.holdsNodes = true := by
  cases state <;> first | rfl | cases holds

namespace EcatController

/-- The layout that preparing a run of this controller leads to. -/
def mappedLayout (c : EcatController β) : ImageLayout :=
  (EcMaster.configureProcessData.after c.master).ctx.layout

/-- On a populated bus it is what SOEM's mapping lays out. -/
theorem mappedLayout_eq {c : EcatController β} (populated : c.master.ctx.slavecount ≠ 0) :
    c.mappedLayout =
      (Platform.soem (.configMapGroup 0) c.master.ctx c.master.platform).2.1.layout := by
  have mapped : (EcMaster.configureProcessData.after c.master).ctx =
      ((EcMaster.soem (.configMapGroup 0)).after c.master).ctx := by
    simp [EcMaster.configureProcessData, populated]
  rw [mappedLayout, mapped]
  rfl

/-- A preparation that succeeds has mapped a populated bus and reached SAFE_OP. -/
theorem prepareRun_succeeds (c : EcatController β) (maintained : c.state = .maintenance)
    (succeeded : prepareRun.result c = true) :
    c.master.ctx.slavecount ≠ 0 ∧
      confirmSafeOp.result (EcMaster.configureProcessData.after c.master) = true := by
  rcases prepareRun_spec c maintained with
    ⟨-, failed, -⟩ | ⟨-, -, failed, -⟩ | ⟨populated, confirmed, -, -⟩
  · simp [failed] at succeeded
  · simp [failed] at succeeded
  · exact ⟨populated, confirmed⟩

/-- Configured nodes are as their types demand; from Maintenance on there is a node for
each scanned slave, by number; and once the image is laid out, all nodes are configured
and the layout is as wanted. -/
structure Imaged (laid : ImageLayout → Prop) (c : EcatController β) : Prop where
  defaults : ∀ node ∈ c.nodes, node.configured = true → node.IsDefault
  numbered : c.state.holdsNodes = true →
    c.nodes.map (fun node => node.info.slaveId) = List.range' 1 c.master.ctx.layout.slavecount
  configured : c.state.holdsImage = true → ∀ node ∈ c.nodes, node.configured = true
  laidOut : c.state.holdsImage = true → laid c.master.ctx.layout

variable {laid : ImageLayout → Prop} {c : EcatController β}

omit [Platform β] in
/-- In the other states only the nodes matter. -/
theorem imaged_idle (defaults : ∀ node ∈ c.nodes, node.configured = true → node.IsDefault)
    (nodeless : c.state.holdsNodes = false) : Imaged laid c := by
  have imageless : c.state.holdsImage ≠ true := fun holds => by
    simp [ControllerState.holdsNodes_of_holdsImage holds] at nodeless
  exact ⟨defaults, fun holds => by simp [nodeless] at holds,
    fun holds => absurd holds imageless, fun holds => absurd holds imageless⟩

/-- Touching the bus keeps everything, also when it leads to a state that needs no more. -/
theorem Imaged.touched (keeps : KeepsLayout β) (imaged : Imaged laid c) {m : EcMaster β}
    {marks : List Mark} (touches : EcMaster.Touches c.master m marks) {state : ControllerState}
    (nodes : state.holdsNodes = true → c.state.holdsNodes = true)
    (image : state.holdsImage = true → c.state.holdsImage = true) :
    Imaged laid { c with master := m, state := state } := by
  have same := touches.layout_eq keeps
  refine ⟨imaged.defaults, fun holds => ?_, fun holds => imaged.configured (image holds),
    fun holds => ?_⟩
  · rw [same]
    exact imaged.numbered (nodes holds)
  · rw [same]
    exact imaged.laidOut (image holds)

/-- Entering Fault leaves nothing to be laid out. -/
theorem imaged_enterFault
    (defaults : ∀ node ∈ c.nodes, node.configured = true → node.IsDefault) :
    Imaged laid (enterFault.after c) := by
  obtain ⟨m, same, -⟩ := enterFault_after c
  rw [same]
  exact imaged_idle defaults rfl

/-- A shutdown leaves no nodes. -/
theorem imaged_doShutdown (c : EcatController β) : Imaged laid (doShutdown.after c) := by
  obtain ⟨m, marks, same, -⟩ := doShutdown_after c
  rw [same]
  exact imaged_idle (by simp) rfl

/-- Opening the adapter keeps the nodes as they should be. -/
theorem Imaged.initializeAdapter (imaged : Imaged laid c) (config : EcMasterConfig) :
    Imaged laid ((EcatController.initializeAdapter config).after c) := by
  by_cases idle : c.state = .uninitialized
  · have kept : ((EcatController.initializeAdapter config).after c).nodes = c.nodes ∧
        ((EcatController.initializeAdapter config).after c).state.holdsNodes = false := by
      simp only [EcatController.initializeAdapter, dispatch, doAction, doInit, allowedActions]
      by_cases opened : (EcMaster.initializeMaster config).result c.master = true
      · simp [idle, opened, ControllerState.holdsNodes]
      · simp [idle, opened, ControllerState.holdsNodes]
    exact imaged_idle (by rw [kept.1]; exact imaged.defaults) kept.2
  · have refused : (EcatController.initializeAdapter config).after c = c := by
      simp [EcatController.initializeAdapter, idle]
    rw [refused]
    exact imaged

/-- A scan keeps the nodes as they should be: there are none yet. -/
theorem Imaged.scan (imaged : Imaged laid c) : Imaged laid (EcatController.scan.after c) := by
  by_cases ready : c.state = .adapterReady
  · rcases scan_spec c ready with ⟨-, -, same⟩ | ⟨-, -, same⟩
    · rw [same]
      exact imaged_idle imaged.defaults rfl
    · rw [same]
      exact imaged_doShutdown _
  · have refused : EcatController.scan.after c = c := by simp [EcatController.scan, ready]
    rw [refused]
    exact imaged

omit [Platform β] in
/-- The fresh information on the scanned slaves is numbered from one. -/
theorem refreshSlaveInfos_numbered (m : EcMaster β) :
    (refreshSlaveInfos m).map SlaveInfo.slaveId = List.range' 1 m.ctx.layout.slavecount := by
  rw [refreshSlaveInfos, List.map_map, List.range'_eq_map_range]
  apply List.map_congr_left
  intro i member
  have counted : i < m.ctx.slavecount := List.mem_range.mp member
  have within : ¬(i + 1 = 0 ∨ m.ctx.slavecount < i + 1) := by omega
  simp only [Function.comp_apply, EcMaster.getSlaveInfo, if_neg within]
  exact Nat.add_comm i 1

/-- Entering Maintenance makes a node for each slave, none of them configured. -/
theorem Imaged.enterMaintenance (imaged : Imaged laid c) :
    Imaged laid (EcatController.enterMaintenance.after c) := by
  by_cases known : c.state = .scanned
  · rcases enterMaintenance_spec c known with ⟨-, -, same⟩ | ⟨-, -, same⟩
    · rw [same]
      have imageless : ControllerState.holdsImage .maintenance ≠ true := by decide
      refine ⟨by simp, fun _ => ?_, fun holds => absurd holds imageless,
        fun holds => absurd holds imageless⟩
      rw [List.map_map]
      exact refreshSlaveInfos_numbered _
    · rw [same]
      exact imaged_doShutdown _
  · have refused : EcatController.enterMaintenance.after c = c := by
      simp [EcatController.enterMaintenance, known]
    rw [refused]
    exact imaged

omit [Platform β] in
/-- Configuring the nodes gives them their defaults. The induction is on the list of nodes.
-/
theorem configureAll_defaults {nodes : List SlaveNode}
    (defaults : ∀ node ∈ nodes, node.configured = true → node.IsDefault) :
    ∀ node ∈ (SlaveNodeManager.configureAll nodes).2, node.configured = true → node.IsDefault := by
  intro node member _
  obtain ⟨before, within, rfl⟩ := List.mem_map.mp member
  exact SlaveNode.isDefault_configureNode before (defaults before within)

/-- Preparing leads to the mapped layout, which has to be as wanted if it succeeds. -/
theorem Imaged.prepareRun (keeps : KeepsLayout β) (imaged : Imaged laid c)
    (maps : c.state = .maintenance → EcatController.prepareRun.result c = true →
      laid c.mappedLayout) :
    Imaged laid (EcatController.prepareRun.after c) := by
  by_cases maintained : c.state = .maintenance
  · have defaults := configureAll_defaults imaged.defaults
    rcases prepareRun_spec c maintained with
      ⟨-, -, same⟩ | ⟨-, -, -, same⟩ | ⟨populated, -, succeeded, same⟩
    · rw [same]
      exact imaged_enterFault defaults
    · rw [same]
      exact imaged_enterFault defaults
    · rw [same]
      obtain ⟨asked, asking, -⟩ :=
        confirmSafeOp_confirms (EcMaster.configureProcessData.after c.master)
      obtain ⟨clocks, setting, -⟩ := (EcMaster.configureDc_touches
        (confirmSafeOp.after (EcMaster.configureProcessData.after c.master))).1
      have layout := (asking.trans setting).layout_eq keeps
      have count : c.mappedLayout.slavecount = c.master.ctx.layout.slavecount := by
        rw [mappedLayout_eq populated]
        exact keeps.mapping 0 c.master.ctx c.master.platform
      have infos := (configureAll_succeeds c.nodes).2
      refine ⟨defaults, fun _ => ?_, fun _ node member => ?_, fun _ => ?_⟩
      · rw [layout, ← mappedLayout, count, ← imaged.numbered (by rw [maintained]; rfl)]
        simpa [Function.comp_def] using congrArg (List.map fun node => node.1.slaveId) infos
      · obtain ⟨before, -, rfl⟩ := List.mem_map.mp member
        exact (configureNode_succeeds before).2.2
      · rw [layout]
        exact maps maintained succeeded
  · have refused : EcatController.prepareRun.after c = c := by
      simp [EcatController.prepareRun, maintained]
    rw [refused]
    exact imaged

/-- Entering Operational keeps nodes and layout. -/
theorem Imaged.startOperation (keeps : KeepsLayout β) (imaged : Imaged laid c) :
    Imaged laid (EcatController.startOperation.after c) := by
  by_cases ready : c.state = .readyToRun
  · obtain ⟨marks, touches, -⟩ := confirmOperational_confirms c.master
    rcases startOperation_spec c ready with ⟨-, -, same⟩ | ⟨-, -, same⟩
    · rw [same]
      exact imaged.touched keeps touches (fun _ => by rw [ready]; rfl) (fun _ => by rw [ready]; rfl)
    · rw [same]
      exact imaged_enterFault imaged.defaults
  · have refused : EcatController.startOperation.after c = c := by
      simp [EcatController.startOperation, ready]
    rw [refused]
    exact imaged

/-- The way back keeps nodes and layout. -/
theorem Imaged.backToMaintenance (keeps : KeepsLayout β) (imaged : Imaged laid c) :
    Imaged laid (EcatController.backToMaintenance.after c) := by
  by_cases ready : c.state = .readyToRun ∨ c.state = .operational
  · obtain ⟨down, stepping, -⟩ := stepDown_touches c
    obtain ⟨marks, touches, -⟩ := confirmPreOp_confirms (stepDown c)
    rcases backToMaintenance_spec c ready with ⟨-, -, same⟩ | ⟨-, -, same⟩
    · rw [same]
      refine imaged.touched keeps (stepping.trans touches) (fun _ => ?_) (fun holds => nomatch holds)
      rcases ready with held | held <;> rw [held] <;> rfl
    · rw [same]
      exact imaged_enterFault imaged.defaults
  · have refused : EcatController.backToMaintenance.after c = c := by
      simp_all [EcatController.backToMaintenance]
    rw [refused]
    exact imaged

/-- A stop leaves the nodes as they should be. -/
theorem Imaged.stop (imaged : Imaged laid c) : Imaged laid (EcatController.stop.after c) := by
  by_cases vacant : c.state = .uninitialized
  · have same : EcatController.stop.after c = c := by simp [EcatController.stop, vacant]
    rw [same]
    exact imaged
  · have dispatched := dispatch_admitted .stop c ((allowed_stop _).mpr vacant)
    have same : EcatController.stop.after c = doShutdown.after c := by
      simpa [EcatController.stop, vacant, doAction] using dispatched.2
    rw [same]
    exact imaged_doShutdown c

/-- An emergency stop leaves nothing to be laid out. -/
theorem Imaged.requestEmergencyStop (imaged : Imaged laid c) :
    Imaged laid (EcatController.requestEmergencyStop.after c) := by
  obtain ⟨m, same, -⟩ := enterEmergencyStop_after c
  rw [EcatController.requestEmergencyStop, same]
  exact imaged_idle imaged.defaults rfl

/-- What preparing a run has to establish, if it is admitted and succeeds. -/
def MapsTo (laid : ImageLayout → Prop) (c : EcatController β) : Prop :=
  c.state = .maintenance → EcatController.prepareRun.result c = true → laid c.mappedLayout

/-- The way from construction to Maintenance keeps the nodes as they should be, operation by
operation. -/
theorem Imaged.initializeController (imaged : Imaged laid c) (config : EcMasterConfig) :
    Imaged laid ((EcatController.initializeController config).after c) := by
  have opened := imaged.initializeAdapter config
  rcases initializeController_spec config c with
    ⟨-, -, same⟩ | ⟨-, ⟨-, -, same⟩ | ⟨-, -, -, same⟩ | ⟨-, -, -, same⟩⟩
  · rw [same]
    exact imaged
  · rw [same]
    exact opened
  · rw [same]
    exact opened.scan
  · rw [same]
    exact opened.scan.enterMaintenance

/-- Every operation keeps the nodes as they should be, if preparing a run lays the image out
as wanted. -/
theorem Imaged.perform (keeps : KeepsLayout β) (imaged : Imaged laid c)
    (operation : ControllerOperation) (maps : operation = .prepareRun → MapsTo laid c) :
    Imaged laid ((EcatController.perform operation).after c) := by
  cases operation with
  | initializeController config => exact imaged.initializeController config
  | initializeAdapter config => exact imaged.initializeAdapter config
  | scan => exact imaged.scan
  | enterMaintenance => exact imaged.enterMaintenance
  | prepareRun => exact imaged.prepareRun keeps (maps rfl)
  | startOperation => exact imaged.startOperation keeps
  | backToMaintenance => exact imaged.backToMaintenance keeps
  | stop => exact imaged.stop
  | requestFault => exact imaged_enterFault imaged.defaults
  | requestEmergencyStop => exact imaged.requestEmergencyStop

/-- The reaction to an activity that has failed keeps the nodes as they should be. -/
theorem Imaged.completeActivity (imaged : Imaged laid c) (ok : Bool)
    (policy : ActivityFailurePolicy) :
    Imaged laid ((ActivityScheduler.completeActivity ok policy).after c) := by
  cases ok with
  | true => exact imaged
  | false =>
    cases policy with
    | keepControllerState => exact imaged
    | enterError => exact imaged_enterFault imaged.defaults
    | shutdown => exact imaged.stop

/-! ### The service -/

omit [Platform β] in
/-- The hidden world does not touch the nodes. -/
theorem Imaged.inWorld (imaged : Imaged laid c) (platform : β) :
    Imaged laid (EcatController.inWorld platform c) :=
  ⟨imaged.defaults, imaged.numbered, imaged.configured, imaged.laidOut⟩

omit [Platform β] in
/-- Whatever happens to the contents of the nodes, as long as their buffers keep their
sizes. -/
theorem Imaged.mapNodes (imaged : Imaged laid c) {change : SlaveNode → SlaveNode}
    (info : ∀ node, (change node).info = node.info)
    (configured : ∀ node, (change node).configured = node.configured)
    (default : ∀ node, (node.configured = true → node.IsDefault) →
      (change node).configured = true → (change node).IsDefault) :
    Imaged laid { c with nodes := c.nodes.map change } where
  defaults := by
    intro node member done
    obtain ⟨before, within, rfl⟩ := List.mem_map.mp member
    exact default before (imaged.defaults before within) done
  numbered := by
    intro holds
    rw [← imaged.numbered holds, List.map_map]
    exact List.map_congr_left fun node _ => congrArg SlaveInfo.slaveId (info node)
  configured := by
    intro holds node member
    obtain ⟨before, within, rfl⟩ := List.mem_map.mp member
    rw [configured]
    exact imaged.configured holds before within
  laidOut := imaged.laidOut

/-- A cycle keeps everything: it only touches the bus and fills buffers. -/
theorem Imaged.runOnce (keeps : KeepsLayout β) (imaged : Imaged laid c) :
    Imaged laid (ProcessDataEngine.runOnce.after c) := by
  by_cases operational : c.state = .operational
  · obtain ⟨m, nodes, same, -, touches⟩ := ProcessDataEngine.runOnce_after c operational
    have spec := ProcessDataEngine.runOnce_spec c operational
    have filled := congrArg EcatController.nodes (same.symm.trans spec)
    simp only at filled
    have emptied : Imaged laid { c with nodes := c.nodes.map SlaveNode.sent } :=
      imaged.mapNodes SlaveNode.info_sent SlaveNode.configured_sent
        fun _ default done => SlaveNode.isDefault_sent default done
    have filledFrom := fun ctx => emptied.mapNodes (SlaveNode.info_received ctx)
      (SlaveNode.configured_received ctx)
      fun _ default done => SlaveNode.isDefault_received ctx default done
    rw [same, filled]
    exact (filledFrom _).touched keeps touches id id
  · have refused : ProcessDataEngine.runOnce.after c = c := by
      simp [ProcessDataEngine.runOnce, operational]
    rw [refused]
    exact imaged

/-- A supervision keeps the nodes, or enters Fault. -/
theorem Imaged.superviseSlaves (keeps : KeepsLayout β) (imaged : Imaged laid c) :
    Imaged laid (ProcessDataEngine.superviseSlaves.after c) := by
  have supervised : ∀ expected, Imaged laid ((ProcessDataEngine.supervise expected).after c) := by
    intro expected
    obtain ⟨m, marks, touches, same | same⟩ := ProcessDataEngine.supervise_after expected c
    · rw [same]
      exact imaged.touched keeps touches id id
    · rw [same]
      exact imaged_idle imaged.defaults rfl
  by_cases maintained : c.state = .maintenance
  · rw [ProcessDataEngine.superviseSlaves_maintenance c maintained]
    exact supervised _
  by_cases operational : c.state = .operational
  · rw [ProcessDataEngine.superviseSlaves_operational c operational]
    exact supervised _
  · have idle : ProcessDataEngine.superviseSlaves.after c = c := by
      cases state : c.state <;> simp_all [ProcessDataEngine.superviseSlaves]
    rw [idle]
    exact imaged

/-- A service keeps nodes and layout, or enters Fault. -/
theorem Imaged.served (keeps : KeepsLayout β) (imaged : Imaged laid c) {d : EcatController β}
    (served : Impl.Served c d) : Imaged laid d := by
  have checked : ∀ {c : EcatController β}, Imaged laid c → Impl.Checked c d → Imaged laid d := by
    rintro c imaged ⟨platform, rfl | rfl⟩
    · exact imaged.inWorld platform
    · exact (imaged.inWorld platform).superviseSlaves keeps
  cases served with
  | idle _ same => rw [same]; exact imaged
  | maintained _ check => exact checked imaged check
  | cycled _ check => exact checked (imaged.runOnce keeps) check

/-! ### Access to the axes -/

omit [Platform β] in
/-- Acting on the axes leaves the nodes as they should be. -/
theorem Imaged.steer (imaged : Imaged laid c) (act : SlaveNode → ServoAxis → ServoAxis) :
    Imaged laid ((forEachSlaveNode fun node => node.onServoAxis (act node)).after c) :=
  imaged.mapNodes (fun node => SlaveNode.info_onServoAxis (act node) node)
    (fun node => SlaveNode.configured_onServoAxis (act node) node)
    fun node default done => SlaveNode.isDefault_onServoAxis (act node) default done

end EcatController

/-! ## Runs -/

/-- What can happen between construction and a moment of interest: a call, or the owner
acting on the axes of the nodes. -/
inductive Interaction where
  | call (call : Call)
  | steer (act : SlaveNode → ServoAxis → ServoAxis)

/-- The two ways to ask for preparing a run. -/
def Interaction.prepares : Interaction → Bool
  | .call (.operation .prepareRun) | .call (.controller .prepareRun) => true
  | _ => false

namespace Impl

open EcatController (Imaged MapsTo)

/-- What an interaction does to the master. -/
def interact : Interaction → Program (Impl β) Bool
  | .call call => handle call
  | .steer act => do
    onController (EcatController.forEachSlaveNode fun node => node.onServoAxis (act node))
    return true

variable {laid : ImageLayout → Prop} {i : Impl β}

/-- A transfer of service data leaves the nodes as they should be. -/
theorem imaged_servesData (keeps : KeepsLayout β) (imaged : Imaged laid i.controller)
    {refused : Prop} {i' : Impl β} (serves : ServesData refused i i') :
    Imaged laid i'.controller := by
  obtain ⟨m, rfl, ⟨-, rfl⟩ | ⟨-, marks, touches, -⟩⟩ := serves
  · exact imaged
  · exact imaged.touched keeps touches id id

/-- Every operation of the master keeps the nodes as they should be, if preparing a run lays
the image out as wanted. -/
theorem imaged_perform (keeps : KeepsLayout β) (settled : Settled i)
    (imaged : Imaged laid i.controller) (operation : MasterOperation)
    (maps : operation = .prepareRun → MapsTo laid i.controller) :
    Imaged laid ((perform operation).after i).controller := by
  cases operation with
  | initializeAdapter config =>
    obtain ⟨platform, logger, same⟩ := configureLogSink_after config i
    have framed : ((perform (.initializeAdapter config)).after i).controller =
        (EcatController.initializeAdapter config).after (i.controller.inWorld platform) := by
      simp only [perform, initializeAdapter, Program.after_bind, controller_transition, same]
    rw [framed]
    exact (imaged.inWorld platform).initializeAdapter config
  | scan => exact (controller_transition _ _ i).symm ▸ imaged.scan
  | enterMaintenance => exact (controller_transition _ _ i).symm ▸ imaged.enterMaintenance
  | prepareRun => exact (controller_transition _ _ i).symm ▸ imaged.prepareRun keeps (maps rfl)
  | startOperation => exact (controller_transition _ _ i).symm ▸ imaged.startOperation keeps
  | backToMaintenance => exact (controller_backToMaintenance i).symm ▸ imaged.backToMaintenance keeps
  | stop => exact (controller_stop i).symm ▸ imaged.stop
  | requestFault =>
    exact (controller_transition _ _ i).symm ▸ EcatController.imaged_enterFault imaged.defaults
  | requestEmergencyStop => exact (controller_transition _ _ i).symm ▸ imaged.requestEmergencyStop
  | service =>
    obtain ⟨delivered, same⟩ := service_after i
    have performed : ((perform .service).after i).controller = (service.after i).controller := rfl
    rw [performed, same]
    exact imaged.served keeps (serviceEngine_served i settled).1
  | readSdo slaveId index subindex data timeoutMs =>
    exact imaged_servesData keeps imaged (readSdo_serves slaveId index subindex data timeoutMs i)
  | writeSdo slaveId index subindex data timeoutMs =>
    exact imaged_servesData keeps imaged (writeSdo_serves slaveId index subindex data timeoutMs i)
  | dumpPdoMapping fuel slaveId =>
    exact imaged_servesData keeps imaged (dumpPdoMapping_serves fuel slaveId i)

/-- Every interaction keeps the layout of the image, if preparing a run establishes it. -/
theorem imaged_interact (keeps : KeepsLayout β) (settled : Settled i)
    (imaged : Imaged laid i.controller) (interaction : Interaction)
    (maps : interaction.prepares = true → MapsTo laid i.controller) :
    Imaged laid ((interact interaction).after i).controller ∧
      Settled ((interact interaction).after i) := by
  cases interaction with
  | call call =>
    refine ⟨?_, (handle_path i settled call).2⟩
    cases call with
    | operation operation =>
      exact imaged_perform keeps settled imaged operation fun asked => maps (by rw [asked]; rfl)
    | controller operation =>
      exact imaged.perform keeps operation fun asked => maps (by rw [asked]; rfl)
    | activity ok policy => exact imaged.completeActivity ok policy
  | steer act => exact ⟨imaged.steer act, settled⟩

/-- After every run in which each preparation of a run establishes the wanted layout, the
image is laid out as wanted wherever there is one. -/
theorem imaged_final (keeps : KeepsLayout β) (platform : β)
    (onStateChanged onRuntimeStateChanged : Bool) (interactions : List Interaction)
    (maps : ∀ entry ∈ Runs.history interact
        (constructed platform onStateChanged onRuntimeStateChanged) interactions,
      entry.operation.prepares = true → MapsTo laid entry.before.controller) :
    Imaged laid (Runs.final interact
      (constructed platform onStateChanged onRuntimeStateChanged) interactions).controller := by
  have initial : Imaged laid
      (constructed platform onStateChanged onRuntimeStateChanged).controller :=
    EcatController.imaged_idle (by simp [constructed, fresh, EcatController.fresh]) rfl
  have reached := Runs.final_invariant_of interact _
    (fun i interaction => interaction.prepares = true → MapsTo laid i.controller)
    (fun i => Imaged laid i.controller ∧ Settled i)
    (fun i interaction kept maps => imaged_interact keeps kept.2 kept.1 interaction maps)
    ⟨initial, settled_constructed ..⟩ interactions maps
  exact reached.1

end Impl

end MoEcat
