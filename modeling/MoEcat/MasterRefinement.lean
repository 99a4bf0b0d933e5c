import MoEcat.LifecycleRefinement

/-!
# The public master refines the lifecycle

The public operations add the runtime-state frame, the log sinks, the periodic service
and the transfers of service data to the controller. None of them moves the lifecycle
except through the controller, so each is again one transition.
-/

namespace MoEcat

variable {β : Type}

/-! ## The cyclic updates -/

namespace SlaveNodeManager

variable [Platform β]

/-- What the lifecycle sees of a node. -/
def view (node : SlaveNode) : SlaveInfo × Bool := (node.info, node.configured)

/-- The slaves whose nodes a cycle updates. -/
def updated (nodes : List SlaveNode) : List Nat :=
  (nodes.filter SlaveNode.configured).map fun node => node.info.slaveId

/-- A traversal that marks each configured node once and keeps what the lifecycle sees
of the nodes does both for the whole list. -/
theorem mapM_touches (step : SlaveNode → Program (EcMaster β) SlaveNode) (mark : Nat → Mark)
    (each : ∀ node m, EcMaster.Touches m ((step node).after m)
        (if node.configured then [mark node.info.slaveId] else []) ∧
      view ((step node).result m) = view node)
    (nodes : List SlaveNode) (m : EcMaster β) :
    EcMaster.Touches m (Program.after (nodes.mapM step) m) ((updated nodes).map mark) ∧
      (Program.result (nodes.mapM step) m).map view = nodes.map view := by
  induction nodes generalizing m with
  | nil => exact ⟨.refl m, rfl⟩
  | cons node rest inductionHypothesis =>
    obtain ⟨first, kept⟩ := each node m
    obtain ⟨others, allKept⟩ := inductionHypothesis ((step node).after m)
    simp only [List.mapM_cons, Program.after_bind, Program.result_bind, Program.after_pure,
      Program.result_pure, List.map_cons, kept, allKept, and_true]
    have both := first.trans others
    cases done : node.configured <;> simpa [updated, done] using both

/-- Updating an output marks the slave, and keeps what the lifecycle sees of the node. -/
theorem updatePdoOutput_touches (node : SlaveNode) (m : EcMaster β) :
    EcMaster.Touches m (node.updatePdoOutput.after m) [.output node.info.slaveId] ∧
      view (node.updatePdoOutput.result m) = view node := by
  have noted : EcMaster.Touches m _ [.output node.info.slaveId] :=
    EcMaster.note_touches (.updateOutput node.info.slaveId) m
  have written := EcMaster.writeOutput_touches node.info.slaveId 0 node.encoded
    ((EcMaster.note (.updateOutput node.info.slaveId)).after m)
  cases done : node.configured with
  | false => exact ⟨by simpa [SlaveNode.updatePdoOutput, done] using noted,
      by simp [SlaveNode.updatePdoOutput, done]⟩
  | true =>
    refine ⟨?_, by simp [SlaveNode.updatePdoOutput, done, view]⟩
    by_cases vacant : node.encoded = []
    · simpa [SlaveNode.updatePdoOutput, done, vacant] using noted
    · simpa [SlaveNode.updatePdoOutput, done, vacant] using noted.trans written

/-- Updating an input marks the slave, and keeps what the lifecycle sees of the node. -/
theorem updatePdoInput_touches (node : SlaveNode) (m : EcMaster β) :
    EcMaster.Touches m (node.updatePdoInput.after m) [.input node.info.slaveId] ∧
      view (node.updatePdoInput.result m) = view node := by
  have noted : EcMaster.Touches m _ [.input node.info.slaveId] :=
    EcMaster.note_touches (.updateInput node.info.slaveId) m
  have copied := EcMaster.readInput_touches node.info.slaveId 0 node.inputBuffer
    ((EcMaster.note (.updateInput node.info.slaveId)).after m)
  cases done : node.configured with
  | false => exact ⟨by simpa [SlaveNode.updatePdoInput, done] using noted,
      by simp [SlaveNode.updatePdoInput, done]⟩
  | true =>
    by_cases vacant : node.inputBuffer = []
    · exact ⟨by simpa [SlaveNode.updatePdoInput, done, vacant] using noted,
        by simp [SlaveNode.updatePdoInput, done, vacant, view]⟩
    · exact ⟨by simpa [SlaveNode.updatePdoInput, done, vacant] using noted.trans copied,
        by simp [SlaveNode.updatePdoInput, done, vacant, view]⟩

/-- All configured nodes write their outputs, in their order. -/
theorem updateAllOutputs_touches (nodes : List SlaveNode) (m : EcMaster β) :
    EcMaster.Touches m ((updateAllOutputs nodes).after m) ((updated nodes).map Mark.output) ∧
      ((updateAllOutputs nodes).result m).map view = nodes.map view := by
  refine mapM_touches _ Mark.output (fun node m => ?_) nodes m
  cases done : node.configured with
  | false => exact ⟨by simpa using EcMaster.Touches.refl m, by simp⟩
  | true => simpa using updatePdoOutput_touches node m

/-- All configured nodes read their inputs, in their order. -/
theorem updateAllInputs_touches (nodes : List SlaveNode) (m : EcMaster β) :
    EcMaster.Touches m ((updateAllInputs nodes).after m) ((updated nodes).map Mark.input) ∧
      ((updateAllInputs nodes).result m).map view = nodes.map view := by
  refine mapM_touches _ Mark.input (fun node m => ?_) nodes m
  cases done : node.configured with
  | false => exact ⟨by simpa using EcMaster.Touches.refl m, by simp⟩
  | true => simpa using updatePdoInput_touches node m

omit [Platform β] in
/-- Which slaves a cycle updates depends only on what the lifecycle sees. -/
theorem updated_eq (nodes : List SlaveNode) :
    updated nodes = ((nodes.map view).filter Prod.snd).map fun node => node.1.slaveId := by
  induction nodes with
  | nil => rfl
  | cons node rest inductionHypothesis =>
    cases done : node.configured <;> simp_all [updated, view]

end SlaveNodeManager

namespace EcatController

/-- The same controller in another state of the hidden world. -/
def inWorld (platform : β) (c : EcatController β) : EcatController β :=
  { c with master := { c.master with platform := platform } }

/-- The hidden world is not the state. -/
@[simp] theorem state_inWorld (platform : β) (c : EcatController β) :
    (inWorld platform c).state = c.state := rfl

/-- The lifecycle does not see the hidden world. -/
@[simp] theorem abstraction_inWorld (platform : β) (c : EcatController β) :
    abstraction (inWorld platform c) = abstraction c := rfl

end EcatController

/-! ## The service -/

namespace ProcessDataEngine

variable [Platform β]

open EcatController (abstraction)

/-- In Operational a cycle updates all configured outputs, exchanges one frame and
updates all configured inputs; it changes neither the state nor the set of nodes. -/
theorem runOnce_after (c : EcatController β) (operational : c.state = .operational) :
    ∃ m nodes, runOnce.after c = { c with master := m, nodes := nodes } ∧
      nodes.map SlaveNodeManager.view = c.nodes.map SlaveNodeManager.view ∧
      EcMaster.Touches c.master m (Lifecycle.cycleMarks (abstraction c)) := by
  let encoded := (SlaveNodeManager.updateAllOutputs c.nodes).result c.master
  let sent := (SlaveNodeManager.updateAllOutputs c.nodes).after c.master
  let exchanged := EcMaster.runOneCycle.after sent
  obtain ⟨writing, written⟩ := SlaveNodeManager.updateAllOutputs_touches c.nodes c.master
  have exchanging := EcMaster.runOneCycle_touches sent
  obtain ⟨reading, read⟩ := SlaveNodeManager.updateAllInputs_touches encoded exchanged
  have same : runOnce.after c =
      { c with
        master := (SlaveNodeManager.updateAllInputs encoded).after exchanged
        nodes := (SlaveNodeManager.updateAllInputs encoded).result exchanged } := by
    simp [runOnce, operational, encoded, sent, exchanged]
  refine ⟨_, _, same, read.trans written, ?_⟩
  have active : (abstraction c).active = SlaveNodeManager.updated c.nodes :=
    (SlaveNodeManager.updated_eq c.nodes).symm
  have sameNodes : SlaveNodeManager.updated encoded = SlaveNodeManager.updated c.nodes := by
    rw [SlaveNodeManager.updated_eq, SlaveNodeManager.updated_eq, written]
  rw [sameNodes] at reading
  rw [Lifecycle.cycleMarks, active]
  exact (writing.trans exchanging).trans reading

/-- In Operational a cycle makes its marks and changes nothing else that the lifecycle sees.
-/
theorem runOnce_abstraction (c : EcatController β) (operational : c.state = .operational) :
    abstraction (runOnce.after c) =
      (abstraction c).emit (Lifecycle.cycleMarks (abstraction c)) := by
  obtain ⟨m, nodes, same, kept, touches⟩ := runOnce_after c operational
  have seen := EcatController.abstraction_emit { c with nodes := nodes } touches.toEmits
  have nodesSeen : abstraction { c with nodes := nodes } = abstraction c :=
    congrArg (fun nodes => { abstraction c with nodes := nodes }) kept
  rw [same, seen, nodesSeen]

/-- One check of all slaves with its consequence. -/
def supervise (expected : UInt16) : Program (EcatController β) Unit := do
  let present ← EcatController.onMaster (EcMaster.checkAllSlavesInState expected)
  Program.when (present = false) EcatController.requestFault

/-- In Maintenance the slaves are expected in PRE_OP. -/
theorem superviseSlaves_maintenance (c : EcatController β) (maintained : c.state = .maintenance) :
    superviseSlaves.after c = (supervise EcState.preOp).after c := by
  simp [superviseSlaves, supervise, maintained]

/-- In Operational the slaves are expected in OP. -/
theorem superviseSlaves_operational (c : EcatController β) (operational : c.state = .operational) :
    superviseSlaves.after c = (supervise EcState.operational).after c := by
  simp [superviseSlaves, supervise, operational]

/-- A supervision reads the bus and leaves the controller as it is or with a fault. -/
theorem supervise_after (expected : UInt16) (c : EcatController β) :
    ∃ m marks, EcMaster.Touches c.master m marks ∧
      ((supervise expected).after c = { c with master := m } ∨
        (supervise expected).after c = { c with master := m, state := .fault }) := by
  obtain ⟨found, touches, -⟩ := EcMaster.checkAllSlavesInState_touches expected c.master
  by_cases present : (EcMaster.checkAllSlavesInState expected).result c.master = true
  · exact ⟨_, _, touches, .inl (by simp [supervise, present])⟩
  · obtain ⟨m, faulted, reads⟩ := EcatController.enterFault_after
      { c with master := (EcMaster.checkAllSlavesInState expected).after c.master }
    refine ⟨m, _, touches.trans reads, .inr ?_⟩
    simp [supervise, present, EcatController.requestFault, faulted]

/-- Supervising is a supervision of the lifecycle: passed, or turned into a fault. -/
theorem supervise_abstraction (expected : UInt16) (c : EcatController β) :
    Lifecycle.Supervision expected (abstraction c)
      (abstraction ((supervise expected).after c)) := by
  obtain ⟨found, touches, outcome, -⟩ := EcMaster.checkAllSlavesInState_touches expected c.master
  by_cases present : (EcMaster.checkAllSlavesInState expected).result c.master = true
  · have all : ∀ state ∈ found, state = expected := by
      simpa [outcome] using present
    have supervision := Lifecycle.Supervision.present (a := abstraction c) found all
    rw [← EcatController.abstraction_emit c touches.toEmits] at supervision
    simpa [supervise, present] using supervision
  · obtain ⟨snapshot, accesses, faulted⟩ := EcatController.enterFault_abstraction
      { c with master := (EcMaster.checkAllSlavesInState expected).after c.master }
    have supervision : Lifecycle.Supervision expected (abstraction c) _ :=
      .absent found snapshot accesses
    have seen := EcatController.abstraction_emit c touches.toEmits
    simp only [supervise, Program.after_bind, EcatController.result_onMaster,
      EcatController.after_onMaster, Program.after_when, present, if_true,
      EcatController.requestFault]
    rw [faulted, seen]
    simpa [Lifecycle.State.emit] using supervision

end ProcessDataEngine

/-! ## The public operations -/

/-- What each public operation asks of the lifecycle. -/
def MasterOperation.request : MasterOperation → Lifecycle.Request
  | .initializeAdapter _ => .action .initializeAdapter
  | .scan => .action .scanSlaves
  | .enterMaintenance => .action .enterMaintenance
  | .prepareRun => .action .prepareRun
  | .startOperation => .action .startOperation
  | .backToMaintenance => .action .backToMaintenance
  | .stop => .action .stop
  | .requestFault => .action .requestFault
  | .requestEmergencyStop => .action .requestEmergencyStop
  | .service => .service
  | .readSdo .. | .writeSdo .. | .dumpPdoMapping .. => .access

/-- Only the service asks for the service. -/
theorem MasterOperation.eq_service {operation : MasterOperation}
    (requested : operation.request = .service) : operation = .service := by
  cases operation <;> first | rfl | cases requested

namespace Impl

variable {α : Type}

/-- What the lifecycle sees of a master. -/
def abstraction (i : Impl β) : Lifecycle.State := i.controller.abstraction

/-- Between operations no transition is announced. -/
def Settled (i : Impl β) : Prop := i.runtimeStateOverride = none

/-- A settled master shows the stable image of its controller state. -/
theorem currentRuntimeState_of_settled {i : Impl β} (settled : Settled i) :
    i.currentRuntimeState = toMasterRuntimeState i.controller.state := by
  have valid := toMasterRuntimeState_valid i.controller.state
  unfold Settled at settled
  simp [currentRuntimeState, settled, valid]

/-- The answer is that of the controller's program. -/
@[simp] theorem result_onController (p : Program (EcatController β) α) (i : Impl β) :
    (onController p).result i = p.result i.controller := (rfl)

/-- Only the controller changes, by its program. -/
@[simp] theorem after_onController (p : Program (EcatController β) α) (i : Impl β) :
    (onController p).after i = { i with controller := p.after i.controller } := (rfl)

/-- A notification is only recorded. -/
theorem notifyRuntimeStateChanged_after (i : Impl β) :
    ∃ delivered, notifyRuntimeStateChanged.after i = { i with delivered := delivered } := by
  unfold notifyRuntimeStateChanged
  rw [Program.after_modify]
  split
  · exact ⟨_, rfl⟩
  · exact ⟨i.delivered, rfl⟩

/-- The frame around a transition records notifications, runs the controller, and
leaves no announcement. -/
theorem transition_after (announced : MasterRuntimeState) (p : Program (EcatController β) α)
    (i : Impl β) :
    (transition announced p).result i = p.result i.controller ∧
      ∃ delivered, (transition announced p).after i =
        { i with
          controller := p.after i.controller, runtimeStateOverride := none
          delivered := delivered } := by
  obtain ⟨begun, announcing⟩ := notifyRuntimeStateChanged_after
    { i with
      runtimeStateOverride :=
        some (if isValidRuntimeState announced then announced else ⟨.fault, .entering, .none⟩) }
  obtain ⟨ended, settling⟩ := notifyRuntimeStateChanged_after
    { i with
      controller := p.after i.controller, runtimeStateOverride := none, delivered := begun }
  constructor
  · simp [transition, beginRuntimeTransition, announcing]
  · refine ⟨ended, ?_⟩
    simp only [transition, beginRuntimeTransition, endRuntimeTransition, Program.after_bind,
      Program.after_modify, announcing, after_onController, settling, Program.after_pure]

/-- A framed operation does to the controller what it does unframed. -/
theorem controller_transition (announced : MasterRuntimeState)
    (p : Program (EcatController β) α) (i : Impl β) :
    ((transition announced p).after i).controller = p.after i.controller := by
  obtain ⟨-, delivered, same⟩ := transition_after announced p i
  rw [same]

variable [Platform β]

/-- Two operations announce a transition that depends on the state they find. -/
theorem controller_backToMaintenance (i : Impl β) :
    (backToMaintenance.after i).controller =
      EcatController.backToMaintenance.after i.controller := by
  rw [backToMaintenance, Program.after_bind, Program.result_get, Program.after_get,
    controller_transition]

/-- A stop of the master is one of its controller. -/
theorem controller_stop (i : Impl β) :
    (stop.after i).controller = EcatController.stop.after i.controller := by
  rw [stop, Program.after_bind, Program.result_get, Program.after_get, controller_transition]

/-- Switching the log sinks can only change the logger and the hidden world. -/
theorem configureLogSink_after (config : EcMasterConfig) (i : Impl β) :
    ∃ platform logger, (configureLogSink config).after i =
      { i with controller := i.controller.inWorld platform, logger := logger } := by
  have setFile : ∀ (path : String) (i : Impl β), ∃ platform logger,
      (setLogFile path).after i =
        { i with controller := i.controller.inWorld platform, logger := logger } := by
    intro path i
    unfold setLogFile
    rw [Program.after_ite]
    split
    · exact ⟨i.controller.master.platform, _, rfl⟩
    · rw [Program.after_bind]
      split
      · exact ⟨(Platform.openLogFile path i.controller.master.platform).2, i.logger, rfl⟩
      · exact ⟨(Platform.openLogFile path i.controller.master.platform).2, _, rfl⟩
      · exact ⟨(Platform.openLogFile path i.controller.master.platform).2, _, rfl⟩
  unfold configureLogSink
  rw [Program.after_bind]
  split <;> rw [Program.after_bind]
  · obtain ⟨platform, logger, same⟩ := setFile "" ((setConsoleEnabled false).after i)
    exact ⟨platform, _, by rw [same]; rfl⟩
  · obtain ⟨platform, logger, same⟩ := setFile config.logPath ((setConsoleEnabled false).after i)
    exact ⟨platform, _, by rw [same]; rfl⟩
  · obtain ⟨platform, logger, same⟩ := setFile "" ((setConsoleEnabled false).after i)
    exact ⟨platform, _, by rw [same]; rfl⟩
  · obtain ⟨platform, logger, same⟩ := setFile config.logPath ((setConsoleEnabled false).after i)
    exact ⟨platform, _, by rw [same]; rfl⟩

/-- The configuration of the sinks is invisible to the lifecycle. -/
theorem configureLogSink_abstraction (config : EcMasterConfig) (i : Impl β) :
    abstraction ((configureLogSink config).after i) = abstraction i := by
  obtain ⟨platform, logger, same⟩ := configureLogSink_after config i
  rw [same]
  rfl

/-- A periodic check that is not due only reads the clock; one that is due takes the
instant as its own and lets the engine supervise the slaves. -/
theorem checkSlaveStates_spec (i : Impl β) :
    let now := EcMaster.steadyNow.result i.controller.master
    let d := i.controller.inWorld (Platform.steadyClock i.controller.master.platform).2
    checkSlaveStates.after i =
      if now - i.lastStateCheckTime < stateCheckInterval then { i with controller := d }
      else
        { i with
          controller := ProcessDataEngine.superviseSlaves.after d, lastStateCheckTime := now } := by
  intro now d
  unfold checkSlaveStates
  rw [Program.after_bind, Program.after_bind, Program.after_ite]
  rfl

/-- A periodic check either is not due, or lets the engine supervise the slaves; the
clock only changes the hidden world. -/
theorem checkSlaveStates_after (i : Impl β) :
    ∃ platform last,
      checkSlaveStates.after i =
        { i with controller := i.controller.inWorld platform, lastStateCheckTime := last } ∨
      checkSlaveStates.after i =
        { i with
          controller := ProcessDataEngine.superviseSlaves.after (i.controller.inWorld platform)
          lastStateCheckTime := last } := by
  refine ⟨(Platform.steadyClock i.controller.master.platform).2, ?_⟩
  rw [checkSlaveStates_spec]
  split
  · exact ⟨i.lastStateCheckTime, .inl rfl⟩
  · exact ⟨_, .inr rfl⟩

/-- What a periodic check does to the controller. -/
def Checked (c d : EcatController β) : Prop :=
  ∃ platform, d = c.inWorld platform ∨
    d = ProcessDataEngine.superviseSlaves.after (c.inWorld platform)

/-- A check of the master is one of its controller, and leaves the announcements settled. -/
theorem checkSlaveStates_checked (i : Impl β) (settled : Settled i) :
    Checked i.controller (checkSlaveStates.after i).controller ∧
      Settled (checkSlaveStates.after i) := by
  obtain ⟨platform, last, skipped | checked⟩ := checkSlaveStates_after i
  · rw [skipped]
    exact ⟨⟨platform, .inl rfl⟩, settled⟩
  · rw [checked]
    exact ⟨⟨platform, .inr rfl⟩, settled⟩

/-- What a service does to the controller: a check in Maintenance, a cycle with a check
in Operational, and nothing elsewhere. -/
inductive Served (c d : EcatController β) : Prop
  | idle (quiet : c.state ≠ .maintenance ∧ c.state ≠ .operational) (same : d = c)
  | maintained (maintained : c.state = .maintenance) (checked : Checked c d)
  | cycled (operational : c.state = .operational)
      (checked : Checked (ProcessDataEngine.runOnce.after c) d)

/-- The runtime state selects the branch that the controller state stands for. -/
theorem serviceEngine_selects (i : Impl β) (settled : Settled i) :
    (i.controller.state = .maintenance ∧ serviceEngine.after i = checkSlaveStates.after i) ∨
    (i.controller.state = .operational ∧ serviceEngine.after i = checkSlaveStates.after
      { i with controller := ProcessDataEngine.runOnce.after i.controller }) ∨
    ((i.controller.state ≠ .maintenance ∧ i.controller.state ≠ .operational) ∧
      serviceEngine.after i = i) := by
  have shown := currentRuntimeState_of_settled settled
  have prepares : shouldCheckPreOpSlaves i.currentRuntimeState = true ↔
      i.controller.state = .maintenance := by
    rw [shown]
    exact canRunMaintenanceActivity_iff _
  have runs : canRunProcessData i.currentRuntimeState = true ↔
      i.controller.state = .operational := by
    rw [shown]
    exact canRunProcessData_iff _
  by_cases maintained : i.controller.state = .maintenance
  · exact .inl ⟨maintained, by simp [serviceEngine, prepares.mpr maintained]⟩
  have notPreparing : ¬shouldCheckPreOpSlaves i.currentRuntimeState = true :=
    fun prepared => maintained (prepares.mp prepared)
  by_cases operational : i.controller.state = .operational
  · exact .inr (.inl ⟨operational, by
      simp [serviceEngine, notPreparing, runs.mpr operational]⟩)
  · have notRunning : ¬canRunProcessData i.currentRuntimeState = true :=
      fun running => operational (runs.mp running)
    exact .inr (.inr ⟨⟨maintained, operational⟩, by
      simp [serviceEngine, notPreparing, notRunning]⟩)

/-- A service of the master is one of its controller, and leaves the announcements settled.
-/
theorem serviceEngine_served (i : Impl β) (settled : Settled i) :
    Served i.controller (serviceEngine.after i).controller ∧ Settled (serviceEngine.after i) := by
  rcases serviceEngine_selects i settled with
    ⟨maintained, same⟩ | ⟨operational, same⟩ | ⟨quiet, same⟩
  · obtain ⟨checked, stays⟩ := checkSlaveStates_checked i settled
    rw [same]
    exact ⟨.maintained maintained checked, stays⟩
  · obtain ⟨checked, stays⟩ := checkSlaveStates_checked
      { i with controller := ProcessDataEngine.runOnce.after i.controller } settled
    rw [same]
    exact ⟨.cycled operational checked, stays⟩
  · rw [same]
    exact ⟨.idle quiet rfl, settled⟩

/-- The service of a settled master is one transition: a supervision in Maintenance, a
cycle with a supervision in Operational, and nothing elsewhere. -/
theorem serviceEngine_move (i : Impl β) (settled : Settled i) :
    Lifecycle.Move (abstraction i) ⟨.service, true⟩ (abstraction (serviceEngine.after i)) ∧
      Settled (serviceEngine.after i) := by
  obtain ⟨served, stays⟩ := serviceEngine_served i settled
  refine ⟨?_, stays⟩
  cases served with
  | idle quiet same =>
    rw [abstraction, abstraction, same]
    exact .unserved quiet
  | maintained maintained checked =>
    refine .maintained maintained ?_
    obtain ⟨platform, skipped | checked⟩ := checked
    · rw [abstraction, abstraction, skipped]
      exact .skipped
    · rw [abstraction, abstraction, checked]
      rw [ProcessDataEngine.superviseSlaves_maintenance (i.controller.inWorld platform) maintained]
      exact ProcessDataEngine.supervise_abstraction _ (i.controller.inWorld platform)
  | cycled operational checked =>
    refine .cycled operational ?_
    have seen : (ProcessDataEngine.runOnce.after i.controller).abstraction =
        (abstraction i).emit (Lifecycle.cycleMarks (abstraction i)) :=
      ProcessDataEngine.runOnce_abstraction i.controller operational
    have still : (ProcessDataEngine.runOnce.after i.controller).state = .operational := by
      obtain ⟨m, nodes, cycled, -, -⟩ := ProcessDataEngine.runOnce_after i.controller operational
      rw [cycled]
      exact operational
    rw [← seen]
    obtain ⟨platform, skipped | checked⟩ := checked
    · rw [abstraction, skipped]
      exact .skipped
    · rw [abstraction, checked]
      rw [ProcessDataEngine.superviseSlaves_operational
        ((ProcessDataEngine.runOnce.after i.controller).inWorld platform) still]
      exact ProcessDataEngine.supervise_abstraction _
        ((ProcessDataEngine.runOnce.after i.controller).inWorld platform)

/-- Performing the service is calling it. -/
theorem perform_service (i : Impl β) : (perform .service).after i = service.after i := rfl

/-- What the service does after its engine is only recorded. -/
theorem service_after (i : Impl β) :
    ∃ delivered, service.after i = { serviceEngine.after i with delivered := delivered } := by
  simp only [service, Program.after_bind, Program.result_get, Program.after_get,
    Program.after_when]
  split
  · rw [Program.after_modify]
    obtain ⟨delivered, same⟩ := notifyRuntimeStateChanged_after
      (if (serviceEngine.after i).onStateChanged then
        { serviceEngine.after i with
          delivered := (serviceEngine.after i).delivered ++
            [.stateChanged i.getState (serviceEngine.after i).getState] }
      else serviceEngine.after i)
    rw [same]
    split
    · exact ⟨delivered, rfl⟩
    · exact ⟨delivered, rfl⟩
  · exact ⟨(serviceEngine.after i).delivered, rfl⟩

/-! ### Service data -/

/-- The bus was only accessed. -/
def Reads (m m' : EcMaster β) : Prop :=
  ∃ marks, EcMaster.Touches m m' marks ∧ Lifecycle.Accesses marks

/-- Doing nothing accesses nothing. -/
theorem Reads.refl (m : EcMaster β) : Reads m m :=
  ⟨[], .refl m, by simp [Lifecycle.Accesses]⟩

/-- Accesses after accesses. -/
theorem Reads.trans {m m' m'' : EcMaster β} (earlier : Reads m m') (later : Reads m' m'') :
    Reads m m'' := by
  obtain ⟨first, touches, accesses⟩ := earlier
  obtain ⟨second, touches', accesses'⟩ := later
  exact ⟨first ++ second, touches.trans touches',
    List.forall_mem_append.mpr ⟨accesses, accesses'⟩⟩

/-- The bus was accessed at least once, and nothing else happened on it. -/
def ReadsSome (m m' : EcMaster β) : Prop :=
  ∃ rest, EcMaster.Touches m m' (.access :: rest) ∧ Lifecycle.Accesses rest

/-- Accessing once is accessing. -/
theorem ReadsSome.reads {m m' : EcMaster β} (some : ReadsSome m m') : Reads m m' := by
  obtain ⟨rest, touches, accesses⟩ := some
  exact ⟨_, touches, List.forall_mem_cons.mpr ⟨rfl, accesses⟩⟩

/-- More accesses after the first. -/
theorem ReadsSome.trans {m m' m'' : EcMaster β} (earlier : ReadsSome m m')
    (later : Reads m' m'') : ReadsSome m m'' := by
  obtain ⟨first, touches, accesses⟩ := earlier
  obtain ⟨second, touches', accesses'⟩ := later
  exact ⟨first ++ second, touches.trans touches',
    List.forall_mem_append.mpr ⟨accesses, accesses'⟩⟩

/-- An upload accesses the bus once. -/
theorem sdoRead_reads (slave index : UInt16) (subindex : UInt8) (data : List UInt8)
    (len timeoutUs : Int) (m : EcMaster β) :
    ReadsSome m ((EcMaster.sdoRead slave index subindex data len timeoutUs).after m) :=
  ⟨[], EcMaster.sdoRead_touches .., by simp [Lifecycle.Accesses]⟩

/-- A download accesses the bus once. -/
theorem sdoWrite_reads (slave index : UInt16) (subindex : UInt8) (data : List UInt8)
    (len timeoutUs : Int) (m : EcMaster β) :
    ReadsSome m ((EcMaster.sdoWrite slave index subindex data len timeoutUs).after m) :=
  ⟨[], EcMaster.sdoWrite_touches .., by simp [Lifecycle.Accesses]⟩

section Dump

/-! What single transfers with a slave accumulate to is what reading its mapping does;
the reading begins with a transfer whatever the bound on its loops. -/

variable {R : EcMaster β → EcMaster β → Prop} (slaveId : UInt16) (refl : ∀ m, R m m)
  (trans : ∀ m m' m'', R m m' → R m' m'' → R m m'')
  (transfers : ∀ index subindex data len timeoutUs,
    Program.Relates R (EcMaster.sdoRead slaveId index subindex data len timeoutUs))

include refl trans transfers

/-- What the uploads of the subindices relate, the loop does. The induction is on the fuel.
-/
theorem readSubindices_relates (index : UInt16) (width : Nat) (count : UInt8) (fuel : Nat)
    (i : UInt8) (values : List Nat) :
    Program.Relates R (readSubindices slaveId index width count fuel i values) := by
  induction fuel generalizing i values with
  | zero => exact Program.relates_pure refl _
  | succ fuel inductionHypothesis =>
    refine Program.Relates.ite (.bind trans (transfers _ _ _ _ _) fun reply => ?_)
      (Program.relates_pure refl _)
    exact .ite (Program.relates_pure refl _) (inductionHypothesis _ _)

/-- A list begins with the upload of its count, from which the loop goes on. -/
theorem readObjectList_starts (fuel : Nat) (index : UInt16) (width : Nat) :
    Program.StartsWith (EcMaster.sdoRead slaveId index 0 [0] 1 10000) R
      (readObjectList fuel slaveId index width) :=
  Program.startsWith_bind fun _ => .ite (Program.relates_pure refl _)
    (readSubindices_relates slaveId refl trans transfers _ _ _ _ _ _)

/-- What the uploads relate, the listing of the objects does. The induction is on the
objects. -/
theorem dumpPdos_relates (fuel : Nat) (pdos : List Nat) (text : String) :
    Program.Relates R (dumpPdos fuel slaveId pdos text) := by
  induction pdos generalizing text with
  | nil => exact Program.relates_pure refl _
  | cons pdo rest inductionHypothesis =>
    have mapping := (readObjectList_starts slaveId refl trans transfers fuel
      (UInt16.ofNat pdo) 4).relates trans (transfers _ _ _ _ _)
    refine .bind trans mapping fun reply => ?_
    match reply with
    | none => exact Program.relates_pure refl _
    | some (false, _) => exact inductionHypothesis _
    | some (true, _) => exact inductionHypothesis _

/-- A direction begins with the upload of the count of its assignment. -/
theorem dumpDirection_starts (fuel : Nat) (direction : String) (assignIndex : UInt16)
    (text : String) :
    Program.StartsWith (EcMaster.sdoRead slaveId assignIndex 0 [0] 1 10000) R
      (dumpDirection fuel slaveId direction assignIndex text) := by
  refine (readObjectList_starts slaveId refl trans transfers fuel assignIndex 2).bind trans
    fun reply => ?_
  match reply with
  | none => exact Program.relates_pure refl _
  | some (false, _) => exact Program.relates_pure refl _
  | some (true, _) => exact dumpPdos_relates slaveId refl trans transfers _ _ _

/-- Both directions begin with the upload of the count of the first. -/
theorem dumpDirections_starts (fuel : Nat) :
    Program.StartsWith (EcMaster.sdoRead slaveId 0x1C12 0 [0] 1 10000) R
      (dumpDirections fuel slaveId) := by
  refine (dumpDirection_starts slaveId refl trans transfers fuel "RxPDO" 0x1C12 "").bind trans
    fun text => ?_
  match text with
  | none => exact Program.relates_pure refl _
  | some text =>
    exact (dumpDirection_starts slaveId refl trans transfers fuel "TxPDO" 0x1C13 text).relates
      trans (transfers _ _ _ _ _)

end Dump

/-- Reading a mapping only accesses the bus, and does so at least once. -/
theorem dumpDirections_reads (fuel : Nat) (slaveId : UInt16) (m : EcMaster β) :
    ReadsSome m ((dumpDirections fuel slaveId).after m) :=
  (sdoRead_reads ..).trans (dumpDirections_starts slaveId Reads.refl (fun _ _ _ => Reads.trans)
    (fun _ _ _ _ _ _ => (sdoRead_reads ..).reads) fuel m)

/-- Operations on service data run on the bus master alone and only access the bus. -/
theorem access_move (success : Bool) (i : Impl β) (m : EcMaster β)
    (reads : Reads i.controller.master m) :
    Lifecycle.Move (abstraction i) ⟨.access, success⟩
      (abstraction { i with controller := { i.controller with master := m } }) := by
  obtain ⟨marks, touches, accesses⟩ := reads
  have move := Lifecycle.Move.accessed (a := abstraction i) success marks accesses
  have seen := EcatController.abstraction_emit i.controller touches.toEmits
  exact Eq.subst seen.symm move

/-- An operation on service data leaves everything but the bus master alone. It is
idle when its arguments are refused, and accesses the bus otherwise. -/
def ServesData (refused : Prop) (i i' : Impl β) : Prop :=
  ∃ m, i' = { i with controller := { i.controller with master := m } } ∧
    (refused ∧ m = i.controller.master ∨ ¬refused ∧ ReadsSome i.controller.master m)

/-- An upload of the master serves data; it refuses a number that names no slave, and an
empty buffer. -/
theorem readSdo_serves (slaveId : Int) (index : UInt16) (subindex : UInt8) (data : List UInt8)
    (timeoutMs : Int) (i : Impl β) :
    ServesData (slaveId ≤ 0 ∨ data = []) i
      ((readSdo slaveId index subindex data timeoutMs).after i) := by
  rw [readSdo, Program.after_ite]
  split
  · exact ⟨i.controller.master, rfl, .inl ⟨‹_›, rfl⟩⟩
  · exact ⟨_, rfl, .inr ⟨‹_›, sdoRead_reads ..⟩⟩

/-- A download of the master serves data; it refuses a number that names no slave, and an
empty buffer. -/
theorem writeSdo_serves (slaveId : Int) (index : UInt16) (subindex : UInt8) (data : List UInt8)
    (timeoutMs : Int) (i : Impl β) :
    ServesData (slaveId ≤ 0 ∨ data = []) i
      ((writeSdo slaveId index subindex data timeoutMs).after i) := by
  rw [writeSdo, Program.after_ite]
  split
  · exact ⟨i.controller.master, rfl, .inl ⟨‹_›, rfl⟩⟩
  · exact ⟨_, rfl, .inr ⟨‹_›, sdoWrite_reads ..⟩⟩

/-- Reading a mapping serves data; it refuses a number that names no slave. -/
theorem dumpPdoMapping_serves (fuel : Nat) (slaveId : Int) (i : Impl β) :
    ServesData (slaveId ≤ 0) i ((dumpPdoMapping fuel slaveId).after i) := by
  rw [dumpPdoMapping, Program.after_ite]
  split
  · exact ⟨i.controller.master, rfl, .inl ⟨‹_›, rfl⟩⟩
  · exact ⟨_, rfl, .inr ⟨‹_›, dumpDirections_reads ..⟩⟩

/-- Serving data is a move of the lifecycle, and leaves the announcements settled. -/
theorem ServesData.move {refused : Prop} {i i' : Impl β} (serves : ServesData refused i i')
    (settled : Settled i) (success : Bool) :
    Lifecycle.Move (abstraction i) ⟨.access, success⟩ (abstraction i') ∧ Settled i' := by
  obtain ⟨m, rfl, ⟨-, rfl⟩ | ⟨-, reads⟩⟩ := serves
  · exact ⟨access_move success i _ (.refl _), settled⟩
  · exact ⟨access_move success i m reads.reads, settled⟩

/-! ### Every operation -/

omit [Platform β] in
/-- A framed controller operation moves the lifecycle as the controller does. -/
theorem transition_move (announced : MasterRuntimeState) (p : Program (EcatController β) α)
    (i : Impl β) (request : Lifecycle.Request) (success : Bool)
    (moves : Lifecycle.Move (abstraction i) ⟨request, success⟩ (p.after i.controller).abstraction) :
    Lifecycle.Move (abstraction i) ⟨request, success⟩
        (abstraction ((transition announced p).after i)) ∧
      Settled ((transition announced p).after i) := by
  obtain ⟨-, delivered, same⟩ := transition_after announced p i
  rw [same]
  exact ⟨moves, rfl⟩

omit [Platform β] in
/-- The same for an operation that answers whether it succeeded. -/
theorem transition_answers (announced : MasterRuntimeState) (p : Program (EcatController β) Bool)
    (i : Impl β) (request : Lifecycle.Request)
    (moves : Lifecycle.Move (abstraction i) ⟨request, p.result i.controller⟩
      (p.after i.controller).abstraction) :
    Lifecycle.Move (abstraction i) ⟨request, (transition announced p).result i⟩
        (abstraction ((transition announced p).after i)) ∧
      Settled ((transition announced p).after i) := by
  rw [(transition_after announced p i).1]
  exact transition_move announced p i request _ moves

/-- Every public operation of a settled master is one transition of the lifecycle and
leaves the master settled. -/
theorem perform_move (i : Impl β) (settled : Settled i) (operation : MasterOperation) :
    Lifecycle.Move (abstraction i) ⟨operation.request, (perform operation).result i⟩
        (abstraction ((perform operation).after i)) ∧
      Settled ((perform operation).after i) := by
  cases operation with
  | initializeAdapter config =>
    have moves := EcatController.initializeAdapter_move config
      ((configureLogSink config).after i).controller
    have framed := transition_answers ⟨.prepare, .entering, .adapterReady⟩ _ _ _ moves
    rw [configureLogSink_abstraction] at framed
    exact framed
  | scan => exact transition_answers _ _ i _ (EcatController.scan_move i.controller)
  | enterMaintenance =>
    exact transition_answers _ _ i _ (EcatController.enterMaintenance_move i.controller)
  | prepareRun => exact transition_answers _ _ i _ (EcatController.prepareRun_move i.controller)
  | startOperation =>
    exact transition_answers _ _ i _ (EcatController.startOperation_move i.controller)
  | backToMaintenance =>
    simp only [perform, backToMaintenance, Program.result_bind, Program.after_bind,
      Program.result_get, Program.after_get]
    exact transition_answers _ _ i _ (EcatController.backToMaintenance_move i.controller)
  | stop => exact transition_move _ _ i _ true (EcatController.stop_move i.controller)
  | requestFault => exact transition_move _ _ i _ true (EcatController.requestFault_move i.controller)
  | requestEmergencyStop =>
    exact transition_move _ _ i _ true (EcatController.requestEmergencyStop_move i.controller)
  | service =>
    obtain ⟨delivered, same⟩ := service_after i
    rw [perform_service, same]
    exact serviceEngine_move i settled
  | readSdo slaveId index subindex data timeoutMs =>
    exact (readSdo_serves slaveId index subindex data timeoutMs i).move settled _
  | writeSdo slaveId index subindex data timeoutMs =>
    exact (writeSdo_serves slaveId index subindex data timeoutMs i).move settled _
  | dumpPdoMapping fuel slaveId =>
    exact (dumpPdoMapping_serves fuel slaveId i).move settled _

end Impl

end MoEcat
