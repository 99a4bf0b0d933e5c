import MoEcat.Lifecycle
import MoEcat.Runs

/-!
# The controller refines the lifecycle

Seen through the abstraction, every operation of the controller is one transition of
the lifecycle. The proofs first say what each internal step leaves behind in terms of
the bus operations it performed, then read the transition off that description.
-/

namespace MoEcat

namespace EcatController

variable {β α : Type}

/-! ## Where the table admits each action -/

/-- The table admits opening the adapter in Uninitialized only. -/
theorem allowed_initializeAdapter (state : ControllerState) :
    .initializeAdapter ∈ allowedActions state ↔ state = .uninitialized := by
  cases state <;> decide

/-- The table admits a scan in AdapterReady only. -/
theorem allowed_scanSlaves (state : ControllerState) :
    .scanSlaves ∈ allowedActions state ↔ state = .adapterReady := by
  cases state <;> decide

/-- The table admits Maintenance from Scanned only. -/
theorem allowed_enterMaintenance (state : ControllerState) :
    .enterMaintenance ∈ allowedActions state ↔ state = .scanned := by
  cases state <;> decide

/-- The table admits the preparation in Maintenance only. -/
theorem allowed_prepareRun (state : ControllerState) :
    .prepareRun ∈ allowedActions state ↔ state = .maintenance := by
  cases state <;> decide

/-- The table admits the start in ReadyToRun only. -/
theorem allowed_startOperation (state : ControllerState) :
    .startOperation ∈ allowedActions state ↔ state = .readyToRun := by
  cases state <;> decide

/-- The table admits the way back from ReadyToRun and from Operational. -/
theorem allowed_backToMaintenance (state : ControllerState) :
    .backToMaintenance ∈ allowedActions state ↔ state = .readyToRun ∨ state = .operational := by
  cases state <;> decide

/-- The table admits a stop wherever there is something to stop. -/
theorem allowed_stop (state : ControllerState) :
    .stop ∈ allowedActions state ↔ state ≠ .uninitialized := by
  cases state <;> decide

/-- Fault and emergency requests are in no row of the table. -/
theorem not_allowed_request (state : ControllerState) :
    .requestFault ∉ allowedActions state ∧ .requestEmergencyStop ∉ allowedActions state := by
  cases state <;> decide

/-! ## The abstraction -/

/-- What the lifecycle sees of a controller. -/
def abstraction (c : EcatController β) : Lifecycle.State where
  state := c.state
  isOpen := !c.master.closed
  scanned := c.slaveInfos
  nodes := c.nodes.map fun node => (node.info, node.configured)
  log := c.master.log

/-- The answer is that of the bus master's program. -/
@[simp] theorem result_onMaster (p : Program (EcMaster β) α) (c : EcatController β) :
    (onMaster p).result c = p.result c.master := (rfl)

/-- Only the bus master changes, by its program. -/
@[simp] theorem after_onMaster (p : Program (EcMaster β) α) (c : EcatController β) :
    (onMaster p).after c = { c with master := p.after c.master } := (rfl)

/-- Only the state changes. -/
@[simp] theorem after_enter (state : ControllerState) (c : EcatController β) :
    (enter state).after c = { c with state := state } := (rfl)

/-- Bus operations that emit marks show as the same marks in the lifecycle. -/
theorem abstraction_emit (c : EcatController β) {m : EcMaster β} {marks : List Mark}
    (emits : EcMaster.Emits c.master m marks) :
    abstraction { c with master := m } = (abstraction c).emit marks := by
  simp [abstraction, Lifecycle.State.emit, emits.closed, emits.log_eq]

variable [Platform β]

/-! ## Internal steps -/

/-- The snapshot reads the bus twice for every slave and changes nothing else. -/
theorem logSlaveSnapshot_after (c : EcatController β) :
    ∃ m, logSlaveSnapshot.after c = { c with master := m } ∧
      EcMaster.Touches c.master m (List.replicate (2 * c.master.getSlaveCount) .access) := by
  have loop : ∀ (slaves : List Nat) (c : EcatController β),
      ∃ m, (slaves.forM fun i => do
          let _ ← onMaster (EcMaster.readActualState (i + 1))
          let _ ← onMaster (EcMaster.readAlStatusCode (i + 1)) : Program (EcatController β) Unit).after
            c = { c with master := m } ∧
        EcMaster.Touches c.master m (List.replicate (2 * slaves.length) .access) := by
    intro slaves
    induction slaves with
    | nil => exact fun c => ⟨c.master, rfl, .refl _⟩
    | cons slave rest inductionHypothesis =>
      intro c
      have stateRead := EcMaster.readActualState_touches (slave + 1) c.master
      have codeRead := EcMaster.readAlStatusCode_touches (slave + 1)
        ((EcMaster.readActualState (slave + 1)).after c.master)
      obtain ⟨m, same, touches⟩ := inductionHypothesis { c with master := _ }
      exact ⟨m, same, (stateRead.trans codeRead).trans touches⟩
  obtain ⟨m, same, touches⟩ := loop (List.range c.master.getSlaveCount) c
  exact ⟨m, same, by simpa using touches⟩

/-- A fault takes the snapshot and sets the state, from whatever state. -/
theorem enterFault_after (c : EcatController β) :
    ∃ m, enterFault.after c = { c with master := m, state := .fault } ∧
      EcMaster.Touches c.master m (List.replicate (2 * c.master.getSlaveCount) .access) := by
  obtain ⟨m, same, touches⟩ := logSlaveSnapshot_after c
  exact ⟨m, by simp [enterFault, same], touches⟩

/-- EmergencyStop is entered after the snapshot, which reads twice for each slave. -/
theorem enterEmergencyStop_after (c : EcatController β) :
    ∃ m, enterEmergencyStop.after c = { c with master := m, state := .emergencyStop } ∧
      EcMaster.Touches c.master m (List.replicate (2 * c.master.getSlaveCount) .access) := by
  obtain ⟨m, same, touches⟩ := logSlaveSnapshot_after c
  exact ⟨m, by simp [enterEmergencyStop, same], touches⟩

/-- A request for INIT ends a roll-back. -/
theorem requestInitState_touches (m : EcMaster β) :
    EcMaster.Touches m (EcMaster.requestInitState.after m)
      [.requested EcState.init, .wrote EcState.init, .access] :=
  EcMaster.requestState_touches EcState.init m

/-- A shutdown rolls the bus back as far as the state demands, then closes. The cases
are the four branches that the state selects. -/
theorem doShutdown_after (c : EcatController β) :
    ∃ m marks, doShutdown.after c =
        { c with state := .uninitialized, master := EcMaster.close.after m, nodes := [] } ∧
      Lifecycle.Rollback c.state marks ∧ EcMaster.Touches c.master m marks := by
  have rolledBack : ∀ m marks, EcMaster.Touches c.master m marks → Lifecycle.Negotiation marks →
      ¬(c.state = .uninitialized ∨ c.state = .adapterReady ∨ c.state = .scanned) →
      Lifecycle.Rollback c.state
          (marks ++ [.requested EcState.init, .wrote EcState.init, .access]) ∧
        EcMaster.Touches c.master (EcMaster.requestInitState.after m)
          (marks ++ [.requested EcState.init, .wrote EcState.init, .access]) := by
    intro m marks touches negotiation deep
    refine ⟨?_, touches.trans (requestInitState_touches m)⟩
    rw [Lifecycle.Rollback, if_neg deep]
    exact ⟨marks, negotiation, rfl⟩
  have preOp := EcMaster.requestPreOpState_touches (β := β)
  have safeOp := EcMaster.requestState_touches (β := β) EcState.safeOp
  by_cases shallow : c.state = .uninitialized ∨ c.state = .adapterReady ∨ c.state = .scanned
  · refine ⟨c.master, [], ?_, by simp [Lifecycle.Rollback, shallow], .refl _⟩
    rcases shallow with held | held | held <;> simp [doShutdown, held]
  by_cases stopped : c.state = .fault ∨ c.state = .emergencyStop
  · refine ⟨_, _, ?_, rolledBack c.master [] (.refl _) (by simp [Lifecycle.Negotiation]) shallow⟩
    rcases stopped with held | held <;> simp [doShutdown, held]
  by_cases running : c.state = .operational
  · obtain ⟨traffic, touches, plain⟩ := preOp (EcMaster.requestSafeOpState.after c.master)
    refine ⟨_, _, ?_, rolledBack _ _ ((safeOp c.master).trans touches) ?_ shallow⟩
    · simp [doShutdown, running]
    · have settled := Lifecycle.Traffic.negotiation plain
      simpa [Lifecycle.Negotiation, Mark.isNegotiation] using settled
  · obtain ⟨traffic, touches, plain⟩ := preOp c.master
    refine ⟨_, _, ?_, rolledBack _ _ touches ?_ shallow⟩
    · cases held : c.state <;> simp_all [doShutdown]
    · have settled := Lifecycle.Traffic.negotiation plain
      simpa [Lifecycle.Negotiation, Mark.isNegotiation] using settled

/-- A shutdown in the lifecycle's view. -/
theorem doShutdown_abstraction (c : EcatController β) :
    ∃ marks, Lifecycle.Rollback c.state marks ∧
      abstraction (doShutdown.after c) = (abstraction c).shutDown marks := by
  obtain ⟨m, marks, same, rollback, touches⟩ := doShutdown_after c
  obtain ⟨closed, -, logged⟩ := EcMaster.close_log m
  refine ⟨marks, rollback, ?_⟩
  rw [same]
  cases held : c.master.closed <;>
    simp [abstraction, Lifecycle.State.shutDown, Lifecycle.State.releasing, closed, logged,
      touches.log_eq, touches.closed, held]

/-! ## Requests with a confirmation -/

/-- Ask for PRE_OP and check it. -/
def confirmPreOp : Program (EcMaster β) Bool :=
  EcMaster.requestPreOpState <&&> EcMaster.checkAllSlavesInState EcState.preOp

/-- Ask for SAFE_OP and check it. -/
def confirmSafeOp : Program (EcMaster β) Bool :=
  EcMaster.requestSafeOpState <&&> EcMaster.checkAllSlavesInState EcState.safeOp

/-- Ask for OP and check it. -/
def confirmOperational : Program (EcMaster β) Bool :=
  EcMaster.requestOperationalState <&&> EcMaster.checkAllSlavesInState EcState.operational

/-- The name stands for these two. -/
theorem fold_confirmPreOp :
    (EcMaster.requestPreOpState <&&> EcMaster.checkAllSlavesInState EcState.preOp :
      Program (EcMaster β) Bool) = confirmPreOp := rfl

/-- The name stands for these two. -/
theorem fold_confirmSafeOp :
    (EcMaster.requestSafeOpState <&&> EcMaster.checkAllSlavesInState EcState.safeOp :
      Program (EcMaster β) Bool) = confirmSafeOp := rfl

/-- The name stands for these two. -/
theorem fold_confirmOperational :
    (EcMaster.requestOperationalState <&&> EcMaster.checkAllSlavesInState EcState.operational :
      Program (EcMaster β) Bool) = confirmOperational := rfl

/-- A program that asks for a state and then checks it. When it succeeds the bus is
confirmed to be in that state; otherwise only the request is certain. -/
def ConfirmsWith (state : UInt16) (confirm : Program (EcMaster β) Bool) : Prop :=
  ∀ m, ∃ marks, EcMaster.Touches m (confirm.after m) (.requested state :: marks) ∧
    Lifecycle.Negotiation marks ∧
    (confirm.result m = true → Lifecycle.Confirms state (.requested state :: marks))

/-- A request that marks the state asked for, with a check after it, confirms.

Proof: where the request fails there is no check. Otherwise the check adds an access and what
it found, and succeeds if all that it found is the state. -/
theorem confirmsWith_check (state : UInt16) (request : Program (EcMaster β) Bool)
    (requests : ∀ m, ∃ traffic, EcMaster.Touches m (request.after m) (.requested state :: traffic) ∧
      Lifecycle.Traffic traffic) :
    ConfirmsWith state (request <&&> EcMaster.checkAllSlavesInState state) := by
  intro m
  obtain ⟨traffic, requesting, plain⟩ := requests m
  obtain ⟨found, checking, outcome, -⟩ :=
    EcMaster.checkAllSlavesInState_touches state (request.after m)
  by_cases granted : request.result m = true
  · have both := requesting.trans checking
    refine ⟨traffic ++ [.access, .checked state found], by simpa [granted] using both,
      plain.negotiation.append (by simp [Lifecycle.Negotiation, Mark.isNegotiation]), ?_⟩
    intro confirmed
    refine ⟨traffic, found, rfl, plain, ?_⟩
    simpa [granted, outcome] using confirmed
  · exact ⟨traffic, by simpa [granted] using requesting, plain.negotiation, by simp [granted]⟩

/-- A request without retries has the shape that a confirmation starts with. -/
theorem requestState_requests (state : UInt16) (m : EcMaster β) :
    ∃ traffic, EcMaster.Touches m ((EcMaster.requestState 0 state).after m)
      (.requested state :: traffic) ∧ Lifecycle.Traffic traffic :=
  ⟨[.wrote state, .access], EcMaster.requestState_touches state m,
    by simp [Lifecycle.Traffic, Mark.isTraffic]⟩

/-- Asking for PRE_OP and checking it confirms. -/
theorem confirmPreOp_confirms : ConfirmsWith EcState.preOp (confirmPreOp (β := β)) :=
  confirmsWith_check _ _ EcMaster.requestPreOpState_touches

/-- Asking for SAFE_OP and checking it confirms. -/
theorem confirmSafeOp_confirms : ConfirmsWith EcState.safeOp (confirmSafeOp (β := β)) :=
  confirmsWith_check _ _ (requestState_requests EcState.safeOp)

/-- Asking for OP and checking it confirms. -/
theorem confirmOperational_confirms :
    ConfirmsWith EcState.operational (confirmOperational (β := β)) :=
  confirmsWith_check _ _ (requestState_requests EcState.operational)

/-! ## Opening and scanning -/

/-- Where the table admits it, an action is done. -/
theorem dispatch_admitted (action : MasterAction) (c : EcatController β)
    (admitted : action ∈ allowedActions c.state) :
    (dispatch action).result c = (doAction action).result c ∧
      (dispatch action).after c = (doAction action).after c := by
  have ordinary : action ≠ .requestEmergencyStop ∧ action ≠ .requestFault := by
    constructor <;> rintro rfl
    · exact (not_allowed_request c.state).2 admitted
    · exact (not_allowed_request c.state).1 admitted
  simp [dispatch, ordinary, admitted]

/-- Opening is refused outside Uninitialized; there it stores the configuration and
succeeds exactly when `ecx_init` answers other than zero. -/
theorem initializeAdapter_spec (config : EcMasterConfig) (c : EcatController β) :
    (c.state ≠ .uninitialized ∧ (initializeAdapter config).result c = false ∧
      (initializeAdapter config).after c = c) ∨
    (c.state = .uninitialized ∧
      let m := (EcMaster.initializeMaster config).after c.master
      (Platform.soem (.init config.ifname) c.master.ctx c.master.platform).1.result = 0 ∧
      (initializeAdapter config).result c = false ∧
      (initializeAdapter config).after c = { c with config := config, master := m }) ∨
    (c.state = .uninitialized ∧
      let m := (EcMaster.initializeMaster config).after c.master
      (Platform.soem (.init config.ifname) c.master.ctx c.master.platform).1.result ≠ 0 ∧
      (initializeAdapter config).result c = true ∧
      (initializeAdapter config).after c =
        { c with state := .adapterReady, config := config, master := m }) := by
  have opened : (EcMaster.initializeMaster config).result c.master =
      !decide ((Platform.soem (.init config.ifname) c.master.ctx
        c.master.platform).1.result = 0) := by
    have answered : ((EcMaster.soem (.init config.ifname)).result
        { c.master with config := config }) =
        (Platform.soem (.init config.ifname) c.master.ctx c.master.platform).1 := rfl
    simp only [EcMaster.initializeMaster, Program.result_bind, Program.after_modify,
      Program.result_ite, Program.result_pure, answered]
    split <;> simp_all
  by_cases idle : c.state = .uninitialized
  · right
    by_cases refused :
        (Platform.soem (.init config.ifname) c.master.ctx c.master.platform).1.result = 0
    · refine .inl ⟨idle, refused, ?_⟩
      simp [initializeAdapter, dispatch, doAction, doInit, allowedActions, idle, opened, refused]
    · refine .inr ⟨idle, refused, ?_⟩
      simp [initializeAdapter, dispatch, doAction, doInit, allowedActions, idle, opened, refused]
  · left
    simp [initializeAdapter, idle]

/-- Opening moves to AdapterReady, or leaves everything but the stored configuration. -/
theorem initializeAdapter_move (config : EcMasterConfig) (c : EcatController β) :
    Lifecycle.Move (abstraction c)
      ⟨.action .initializeAdapter, (initializeAdapter config).result c⟩
      (abstraction ((initializeAdapter config).after c)) := by
  by_cases idle : c.state = .uninitialized
  · have opening := EcMaster.initializeMaster_log config c.master
    simp only [initializeAdapter, dispatch, doAction, doInit, allowedActions]
    rcases opening with ⟨opened, closed, -, logged⟩ | ⟨refused, closed, -, logged⟩
    · have move := Lifecycle.Move.adapterReady (a := abstraction c) idle
      simpa [opened, closed, logged, idle, abstraction, Lifecycle.State.enter,
        Lifecycle.State.emit] using move
    · have move := Lifecycle.Move.adapterFailed (a := abstraction c) idle
      simpa [refused, closed, logged, idle, abstraction] using move
  · have refused : (initializeAdapter config).result c = false ∧
        (initializeAdapter config).after c = c := by simp [initializeAdapter, idle]
    rw [refused.1, refused.2]
    exact .refused _ rfl fun admitted => idle ((allowed_initializeAdapter _).mp admitted)

/-- What the scan accepts: some slave, the expected number of them when one is
expected, and no mismatch at a position that both lists have. -/
def Accepts (config : EcMasterConfig) (infos : List SlaveInfo) : Prop :=
  infos ≠ [] ∧
    ¬(0 < config.expectedSlaveCount ∧ infos.length ≠ config.expectedSlaveCount.toNat) ∧
    ¬(config.expectedIdentities.zip infos).any
      (fun position => identityMismatch position.1 position.2)

/-- A scan stores what it found; the state advances exactly when that is accepted. -/
theorem scan_spec (c : EcatController β) (ready : c.state = .adapterReady) :
    (Accepts c.config (EcMaster.scanSlaves.result c.master) ∧ scan.result c = true ∧
      scan.after c =
        { c with
          state := .scanned, master := EcMaster.scanSlaves.after c.master
          slaveInfos := EcMaster.scanSlaves.result c.master }) ∨
    (¬Accepts c.config (EcMaster.scanSlaves.result c.master) ∧ scan.result c = false ∧
      scan.after c =
        doShutdown.after
          { c with
            master := EcMaster.scanSlaves.after c.master
            slaveInfos := EcMaster.scanSlaves.result c.master }) := by
  have admitted : scan.result c = doScan.result c ∧ scan.after c = doScan.after c := by
    have dispatched := dispatch_admitted .scanSlaves c (by simp [ready, allowedActions])
    simpa [scan, ready, doAction] using dispatched
  rw [admitted.1, admitted.2]
  simp only [doScan, Accepts, Program.result_bind, Program.after_bind, Program.result_get,
    Program.after_get, Program.result_ite, Program.after_ite, Program.result_pure,
    Program.after_pure, result_onMaster, after_onMaster, Program.after_modify, after_enter,
    ready, ne_eq, not_true, if_false]
  by_cases vacant : EcMaster.scanSlaves.result c.master = []
  · exact .inr ⟨fun accepted => accepted.1 vacant, by rw [if_pos vacant], by rw [if_pos vacant]⟩
  rw [if_neg vacant, if_neg vacant]
  by_cases counted : 0 < c.config.expectedSlaveCount ∧
      ¬(EcMaster.scanSlaves.result c.master).length = c.config.expectedSlaveCount.toNat
  · exact .inr ⟨fun accepted => accepted.2.1 counted, by rw [if_pos counted],
      by rw [if_pos counted]⟩
  rw [if_neg counted, if_neg counted]
  by_cases mismatch : (c.config.expectedIdentities.zip (EcMaster.scanSlaves.result c.master)).any
      (fun position => identityMismatch position.1 position.2) = true
  · exact .inr ⟨fun accepted => accepted.2.2 mismatch, by rw [if_pos mismatch],
      by rw [if_pos mismatch]⟩
  · exact .inl ⟨⟨vacant, counted, mismatch⟩, by rw [if_neg mismatch], by rw [if_neg mismatch]⟩

/-- A scan is a move of the lifecycle: refused, failed with a shutdown, or succeeded. -/
theorem scan_move (c : EcatController β) :
    Lifecycle.Move (abstraction c) ⟨.action .scanSlaves, scan.result c⟩
      (abstraction (scan.after c)) := by
  by_cases ready : c.state = .adapterReady
  · have emits := EcMaster.scanSlaves_emits c.master
    rcases scan_spec c ready with ⟨-, found, same⟩ | ⟨-, refused, same⟩
    · have move := Lifecycle.Move.scanned (a := abstraction c) ready
        (EcMaster.scanSlaves.result c.master)
      rw [found, same]
      simpa [abstraction, Lifecycle.State.enter, Lifecycle.State.emit, emits.closed,
        emits.log_eq] using move
    · rw [refused, same]
      obtain ⟨marks, rollback, shut⟩ := doShutdown_abstraction
        { c with
          master := EcMaster.scanSlaves.after c.master
          slaveInfos := EcMaster.scanSlaves.result c.master }
      have move := Lifecycle.Move.scanFailed (a := abstraction c) ready
        (EcMaster.scanSlaves.result c.master)
      rw [shut]
      have nothing : marks = [] := by simpa [Lifecycle.Rollback, ready] using rollback
      subst nothing
      simpa [abstraction, Lifecycle.State.shutDown, Lifecycle.State.releasing, emits.closed,
        emits.log_eq] using move
  · have refused : scan.result c = false ∧ scan.after c = c := by simp [scan, ready]
    rw [refused.1, refused.2]
    exact .refused _ rfl fun admitted => ready ((allowed_scanSlaves _).mp admitted)

/-! ## Entering Maintenance -/

/-- Maintenance is entered exactly when PRE_OP is reached and confirmed; otherwise the
controller shuts down from Scanned. -/
theorem enterMaintenance_spec (c : EcatController β) (known : c.state = .scanned) :
    let m := confirmPreOp.after c.master
    (confirmPreOp.result c.master = true ∧ enterMaintenance.result c = true ∧
      enterMaintenance.after c =
        { c with
          state := .maintenance, master := m, slaveInfos := refreshSlaveInfos m
          nodes := (refreshSlaveInfos m).map fun info => { info := info } }) ∨
    (confirmPreOp.result c.master = false ∧ enterMaintenance.result c = false ∧
      enterMaintenance.after c = doShutdown.after { c with master := m }) := by
  have admitted : enterMaintenance.result c = doEnterMaintenance.result c ∧
      enterMaintenance.after c = doEnterMaintenance.after c := by
    have dispatched := dispatch_admitted .enterMaintenance c (by simp [known, allowedActions])
    simpa [enterMaintenance, known, doAction] using dispatched
  rw [admitted.1, admitted.2]
  by_cases granted : EcMaster.requestPreOpState.result c.master = true
  · by_cases present : (EcMaster.checkAllSlavesInState EcState.preOp).result
        (EcMaster.requestPreOpState.after c.master) = true
    · left
      simp [doEnterMaintenance, confirmPreOp, known, granted, present,
        SlaveNodeManager.initializeNodes]
    · right
      simp [doEnterMaintenance, confirmPreOp, known, granted, present]
  · right
    simp [doEnterMaintenance, confirmPreOp, known, granted]

/-- Entering Maintenance is a move of the lifecycle: refused, failed with a shutdown, or
confirmed. -/
theorem enterMaintenance_move (c : EcatController β) :
    Lifecycle.Move (abstraction c) ⟨.action .enterMaintenance, enterMaintenance.result c⟩
      (abstraction (enterMaintenance.after c)) := by
  by_cases known : c.state = .scanned
  · obtain ⟨marks, touches, negotiation, confirmed⟩ := confirmPreOp_confirms c.master
    rcases enterMaintenance_spec c known with ⟨granted, entered, same⟩ | ⟨-, refused, same⟩
    · rw [entered, same]
      have shape := confirmed granted
      generalize (confirmPreOp (β := β)).after c.master = m at touches
      have move := Lifecycle.Move.entered (a := abstraction c) known (refreshSlaveInfos m) _ shape
      simpa [abstraction, Lifecycle.State.enter, Lifecycle.State.emit, touches.closed,
        touches.log_eq, Function.comp_def] using move
    · rw [refused, same]
      obtain ⟨rolled, rollback, shut⟩ :=
        doShutdown_abstraction { c with master := confirmPreOp.after c.master }
      have nothing : rolled = [] := by simpa [Lifecycle.Rollback, known] using rollback
      subst nothing
      have move := Lifecycle.Move.enterFailed (a := abstraction c) known marks negotiation
      rw [shut, abstraction_emit c touches.toEmits, Lifecycle.State.shutDown_emit,
        List.append_nil]
      exact move
  · have refused : enterMaintenance.result c = false ∧ enterMaintenance.after c = c := by
      simp [enterMaintenance, known]
    rw [refused.1, refused.2]
    exact .refused _ rfl fun admitted => known ((allowed_enterMaintenance _).mp admitted)

/-! ## Preparing the run -/

/-- Configuring a node cannot fail: a configured one is skipped, another accepts. -/
theorem configureNode_succeeds (node : SlaveNode) :
    (SlaveNodeManager.configureNode node).1 = true ∧
      (SlaveNodeManager.configureNode node).2.info = node.info ∧
      (SlaveNodeManager.configureNode node).2.configured = true := by
  cases done : node.configured <;>
    simp [SlaveNodeManager.configureNode, SlaveNode.configure, done]

/-- Configuring all nodes succeeds and leaves each slave with a configured node. -/
theorem configureAll_succeeds (nodes : List SlaveNode) :
    (SlaveNodeManager.configureAll nodes).1 = true ∧
      (SlaveNodeManager.configureAll nodes).2.map (fun node => (node.info, node.configured)) =
        nodes.map fun node => (node.info, true) := by
  simp [SlaveNodeManager.configureAll, configureNode_succeeds]

/-- Laying out the process image and asking for SAFE_OP. It fails on an empty bus or
without the confirmation, and then ends in a fault. -/
theorem doSafeOp_spec (c : EcatController β) (maintained : c.state = .maintenance) :
    let mapped := EcMaster.configureProcessData.after c.master
    let asked := confirmSafeOp.after mapped
    (c.master.ctx.slavecount = 0 ∧ doSafeOp.result c = false ∧
      doSafeOp.after c = enterFault.after { c with master := mapped }) ∨
    (c.master.ctx.slavecount ≠ 0 ∧ confirmSafeOp.result mapped = false ∧
      doSafeOp.result c = false ∧ doSafeOp.after c = enterFault.after { c with master := asked }) ∨
    (c.master.ctx.slavecount ≠ 0 ∧ confirmSafeOp.result mapped = true ∧
      doSafeOp.result c = true ∧ doSafeOp.after c = { c with master := asked }) := by
  rcases EcMaster.configureProcessData_emits c.master with
    ⟨vacant, refused, -⟩ | ⟨populated, mapped, -⟩
  · refine .inl ⟨vacant, ?_⟩
    simp [doSafeOp, maintained, refused, requestFault]
  right
  by_cases confirmed : confirmSafeOp.result (EcMaster.configureProcessData.after c.master) = true
  · refine .inr ⟨populated, confirmed, ?_⟩
    simp only [doSafeOp, fold_confirmSafeOp]
    simp [maintained, mapped, confirmed]
  · refine .inl ⟨populated, by simpa using confirmed, ?_⟩
    simp only [doSafeOp, fold_confirmSafeOp]
    simp [maintained, mapped, confirmed, requestFault]

/-- Preparing configures the nodes, lays out the process image and confirms SAFE_OP. It
fails on an empty bus or without the confirmation, and then ends in a fault. -/
theorem prepareRun_spec (c : EcatController β) (maintained : c.state = .maintenance) :
    let nodes := (SlaveNodeManager.configureAll c.nodes).2
    let mapped := EcMaster.configureProcessData.after c.master
    let asked := confirmSafeOp.after mapped
    (c.master.ctx.slavecount = 0 ∧ prepareRun.result c = false ∧
      prepareRun.after c = enterFault.after { c with nodes := nodes, master := mapped }) ∨
    (c.master.ctx.slavecount ≠ 0 ∧ confirmSafeOp.result mapped = false ∧
      prepareRun.result c = false ∧
      prepareRun.after c = enterFault.after { c with nodes := nodes, master := asked }) ∨
    (c.master.ctx.slavecount ≠ 0 ∧ confirmSafeOp.result mapped = true ∧
      prepareRun.result c = true ∧
      prepareRun.after c =
        { c with
          state := .readyToRun, nodes := nodes, master := EcMaster.configureDc.after asked }) := by
  have admitted : prepareRun.result c = doPrepareRun.result c ∧
      prepareRun.after c = doPrepareRun.after c := by
    have dispatched := dispatch_admitted .prepareRun c (by simp [maintained, allowedActions])
    simpa [prepareRun, maintained, doAction] using dispatched
  obtain ⟨d, configured, nodesConfigured⟩ : ∃ d,
      d = { c with nodes := (SlaveNodeManager.configureAll c.nodes).2 } ∧
      doPdoConfigure.result c = true ∧ doPdoConfigure.after c = d := by
    refine ⟨_, rfl, ?_⟩
    simp [doPdoConfigure, maintained, configureAll_succeeds c.nodes]
  have stays : d.state = .maintenance := by rw [configured]; exact maintained
  have clocks := (EcMaster.configureDc_touches
    (confirmSafeOp.after (EcMaster.configureProcessData.after d.master))).2
  have sameMaster : c.master = d.master := by rw [configured]
  rw [admitted.1, admitted.2, sameMaster]
  rcases doSafeOp_spec d stays with ⟨vacant, refused, same⟩ |
    ⟨populated, unconfirmed, refused, same⟩ | ⟨populated, confirmed, granted, same⟩
  · refine .inl ⟨vacant, ?_⟩
    simp [doPrepareRun, maintained, nodesConfigured, refused, same, stays]
    rw [configured]
  · refine .inr (.inl ⟨populated, unconfirmed, ?_⟩)
    simp [doPrepareRun, maintained, nodesConfigured, refused, same, stays]
    rw [configured]
  · refine .inr (.inr ⟨populated, confirmed, ?_⟩)
    simp [doPrepareRun, maintained, nodesConfigured, granted, same, doDcConfigure, clocks, stays]
    simp [configured]

/-- A fault in the lifecycle's view. -/
theorem enterFault_abstraction (c : EcatController β) :
    ∃ snapshot, Lifecycle.Accesses snapshot ∧
      abstraction (enterFault.after c) = ((abstraction c).emit snapshot).enter .fault := by
  obtain ⟨m, same, touches⟩ := enterFault_after c
  refine ⟨List.replicate (2 * c.master.getSlaveCount) .access, by simp [Lifecycle.Accesses], ?_⟩
  rw [same, ← abstraction_emit c touches.toEmits]
  rfl

omit [Platform β] in
/-- Configuring the nodes while the bus emits marks, in the lifecycle's view. -/
theorem configureAll_abstraction (c : EcatController β) {m : EcMaster β} {marks : List Mark}
    (emits : EcMaster.Emits c.master m marks) :
    abstraction { c with nodes := (SlaveNodeManager.configureAll c.nodes).2, master := m } =
      (abstraction c).configureAll.emit marks := by
  simp [abstraction, Lifecycle.State.configureAll, Lifecycle.State.emit, emits.closed,
    emits.log_eq, (configureAll_succeeds c.nodes).2]

/-- The preparation is a move of the lifecycle: refused, failed with a fault, or confirmed.
-/
theorem prepareRun_move (c : EcatController β) :
    Lifecycle.Move (abstraction c) ⟨.action .prepareRun, prepareRun.result c⟩
      (abstraction (prepareRun.after c)) := by
  by_cases maintained : c.state = .maintenance
  · obtain ⟨marks, asking, negotiation, confirms⟩ :=
      confirmSafeOp_confirms (EcMaster.configureProcessData.after c.master)
    obtain ⟨clocks, setting, plain⟩ := (EcMaster.configureDc_touches
      (confirmSafeOp.after (EcMaster.configureProcessData.after c.master))).1
    -- A fault after some negotiation, whatever the nodes and the bus are by then.
    have fails : ∀ (m : EcMaster β) (attempt : List Mark), EcMaster.Emits c.master m attempt →
        Lifecycle.Negotiation attempt →
        Lifecycle.Move (abstraction c) ⟨.action .prepareRun, false⟩
          (abstraction (enterFault.after
            { c with nodes := (SlaveNodeManager.configureAll c.nodes).2, master := m })) := by
      intro m attempt emits negotiation
      obtain ⟨snapshot, accesses, faulted⟩ := enterFault_abstraction
        { c with nodes := (SlaveNodeManager.configureAll c.nodes).2, master := m }
      have move := Lifecycle.Move.prepareFailed (a := abstraction c) maintained
        (attempt ++ snapshot) (negotiation.append accesses.traffic.negotiation)
      rw [faulted, configureAll_abstraction c emits]
      simpa [Lifecycle.State.emit] using move
    rcases EcMaster.configureProcessData_emits c.master with ⟨vacant, -, same⟩ | ⟨populated, -, mapping⟩
    · rcases prepareRun_spec c maintained with ⟨-, failed, after⟩ | ⟨populated, -⟩ | ⟨populated, -⟩
      · rw [failed, after, same]
        exact fails c.master [] (.refl _) (by simp [Lifecycle.Negotiation])
      · exact absurd vacant populated
      · exact absurd vacant populated
    · rcases prepareRun_spec c maintained with
        ⟨vacant, -⟩ | ⟨-, -, failed, after⟩ | ⟨-, granted, succeeded, after⟩
      · exact absurd vacant populated
      · rw [failed, after]
        apply fails _ _ (mapping.trans asking.toEmits)
        simpa [Lifecycle.Negotiation, Mark.isNegotiation] using negotiation
      · rw [succeeded, after]
        have emits := (mapping.trans asking.toEmits).trans setting.toEmits
        have move := Lifecycle.Move.prepared (a := abstraction c) maintained _ clocks
          (confirms granted) plain
        have seen := congrArg (Lifecycle.State.enter · .readyToRun)
          (configureAll_abstraction c emits)
        simp only [List.cons_append, List.nil_append] at seen
        exact Eq.subst seen.symm move
  · have refused : prepareRun.result c = false ∧ prepareRun.after c = c := by
      simp [prepareRun, maintained]
    rw [refused.1, refused.2]
    exact .refused _ rfl fun admitted => maintained ((allowed_prepareRun _).mp admitted)

/-! ## Starting and going back -/

/-- A fault after some bus operations, in the lifecycle's view. -/
theorem fault_after_emits (c : EcatController β) {m : EcMaster β} {attempt : List Mark}
    (emits : EcMaster.Emits c.master m attempt) (negotiation : Lifecycle.Negotiation attempt) :
    ∃ marks, Lifecycle.Negotiation marks ∧
      abstraction (enterFault.after { c with master := m }) =
        ((abstraction c).emit marks).enter .fault := by
  obtain ⟨snapshot, accesses, faulted⟩ := enterFault_abstraction { c with master := m }
  refine ⟨attempt ++ snapshot, negotiation.append accesses.traffic.negotiation, ?_⟩
  rw [faulted, abstraction_emit c emits]
  simp [Lifecycle.State.emit]

/-- Operation starts exactly when OPERATIONAL is reached and confirmed. -/
theorem startOperation_spec (c : EcatController β) (ready : c.state = .readyToRun) :
    let m := confirmOperational.after c.master
    (confirmOperational.result c.master = true ∧ startOperation.result c = true ∧
      startOperation.after c = { c with state := .operational, master := m }) ∨
    (confirmOperational.result c.master = false ∧ startOperation.result c = false ∧
      startOperation.after c = enterFault.after { c with master := m }) := by
  have admitted : startOperation.result c = doOperational.result c ∧
      startOperation.after c = doOperational.after c := by
    have dispatched := dispatch_admitted .startOperation c (by simp [ready, allowedActions])
    simpa [startOperation, ready, doAction, doStartOperation] using dispatched
  rw [admitted.1, admitted.2]
  by_cases confirmed : confirmOperational.result c.master = true
  · left
    simp [doOperational, fold_confirmOperational, ready, confirmed]
  · right
    simp [doOperational, fold_confirmOperational, ready, confirmed, requestFault]

/-- The start is a move of the lifecycle: refused, failed with a fault, or confirmed. -/
theorem startOperation_move (c : EcatController β) :
    Lifecycle.Move (abstraction c) ⟨.action .startOperation, startOperation.result c⟩
      (abstraction (startOperation.after c)) := by
  by_cases ready : c.state = .readyToRun
  · obtain ⟨marks, touches, negotiation, confirms⟩ := confirmOperational_confirms c.master
    rcases startOperation_spec c ready with ⟨granted, started, same⟩ | ⟨-, failed, same⟩
    · rw [started, same]
      have move := Lifecycle.Move.started (a := abstraction c) ready _ (confirms granted)
      rw [← abstraction_emit c touches.toEmits] at move
      exact move
    · obtain ⟨attempt, negotiation, faulted⟩ := fault_after_emits c touches.toEmits
        (by simpa [Lifecycle.Negotiation, Mark.isNegotiation] using negotiation)
      rw [failed, same, faulted]
      exact .startFailed ready attempt negotiation
  · have refused : startOperation.result c = false ∧ startOperation.after c = c := by
      simp [startOperation, ready]
    rw [refused.1, refused.2]
    exact .refused _ rfl fun admitted => ready ((allowed_startOperation _).mp admitted)

/-- The bus on the way back, before PRE_OP is asked for: from Operational it has been
asked for SAFE_OP, and whatever it answered is ignored. -/
def stepDown (c : EcatController β) : EcMaster β :=
  if c.state = .operational then EcMaster.requestSafeOpState.after c.master else c.master

/-- On the way back the bus is at most asked for SAFE_OP. -/
theorem stepDown_touches (c : EcatController β) :
    ∃ marks, EcMaster.Touches c.master (stepDown c) marks ∧ Lifecycle.Negotiation marks := by
  unfold stepDown
  split
  · exact ⟨_, EcMaster.requestState_touches EcState.safeOp c.master,
      by simp [Lifecycle.Negotiation, Mark.isNegotiation]⟩
  · exact ⟨[], .refl _, by simp [Lifecycle.Negotiation]⟩

/-- Going back succeeds exactly when PRE_OP is reached and confirmed. -/
theorem backToMaintenance_spec (c : EcatController β)
    (ready : c.state = .readyToRun ∨ c.state = .operational) :
    let m := confirmPreOp.after (stepDown c)
    (confirmPreOp.result (stepDown c) = true ∧ backToMaintenance.result c = true ∧
      backToMaintenance.after c = { c with state := .maintenance, master := m }) ∨
    (confirmPreOp.result (stepDown c) = false ∧ backToMaintenance.result c = false ∧
      backToMaintenance.after c = enterFault.after { c with master := m }) := by
  have admitted : backToMaintenance.result c = doBackToMaintenance.result c ∧
      backToMaintenance.after c = doBackToMaintenance.after c := by
    have dispatched := dispatch_admitted .backToMaintenance c
      ((allowed_backToMaintenance _).mpr ready)
    rcases ready with held | held <;> simpa [backToMaintenance, held, doAction] using dispatched
  rw [admitted.1, admitted.2]
  by_cases confirmed : confirmPreOp.result (stepDown c) = true
  · left
    rcases ready with held | held <;>
      simp_all [doBackToMaintenance, fold_confirmPreOp, stepDown]
  · right
    rcases ready with held | held <;>
      simp_all [doBackToMaintenance, fold_confirmPreOp, stepDown]

/-- The way back is a move of the lifecycle: refused, failed with a fault, or confirmed. -/
theorem backToMaintenance_move (c : EcatController β) :
    Lifecycle.Move (abstraction c) ⟨.action .backToMaintenance, backToMaintenance.result c⟩
      (abstraction (backToMaintenance.after c)) := by
  by_cases ready : c.state = .readyToRun ∨ c.state = .operational
  · obtain ⟨down, stepping, lowered⟩ := stepDown_touches c
    obtain ⟨marks, touches, negotiation, confirms⟩ := confirmPreOp_confirms (stepDown c)
    rcases backToMaintenance_spec c ready with ⟨granted, back, same⟩ | ⟨-, failed, same⟩
    · rw [back, same]
      have move := Lifecycle.Move.backed (a := abstraction c) ready down _ lowered
        (confirms granted)
      rw [← abstraction_emit c (stepping.trans touches).toEmits] at move
      exact move
    · obtain ⟨attempt, negotiation, faulted⟩ := fault_after_emits c
        (stepping.trans touches).toEmits
        (lowered.append (by simpa [Lifecycle.Negotiation, Mark.isNegotiation] using negotiation))
      rw [failed, same, faulted]
      exact .backFailed ready attempt negotiation
  · have refused : backToMaintenance.result c = false ∧ backToMaintenance.after c = c := by
      simp_all [backToMaintenance]
    rw [refused.1, refused.2]
    exact .refused _ rfl fun admitted => ready ((allowed_backToMaintenance _).mp admitted)

/-! ## Leaving the order -/

/-- A stop is a move of the lifecycle: nothing in Uninitialized, otherwise a rollback. -/
theorem stop_move (c : EcatController β) :
    Lifecycle.Move (abstraction c) ⟨.action .stop, true⟩ (abstraction (stop.after c)) := by
  by_cases vacant : c.state = .uninitialized
  · have same : stop.after c = c := by simp [stop, vacant]
    rw [same]
    exact .idle vacant
  · have dispatched := dispatch_admitted .stop c ((allowed_stop _).mpr vacant)
    have same : stop.after c = doShutdown.after c := by
      simpa [stop, vacant, doAction] using dispatched.2
    obtain ⟨marks, rollback, shut⟩ := doShutdown_abstraction c
    rw [same, shut]
    exact .stopped vacant marks rollback

/-- A requested fault is a move of the lifecycle from every state. -/
theorem requestFault_move (c : EcatController β) :
    Lifecycle.Move (abstraction c) ⟨.action .requestFault, true⟩
      (abstraction (requestFault.after c)) := by
  obtain ⟨snapshot, accesses, faulted⟩ := enterFault_abstraction c
  rw [requestFault, faulted]
  exact .faulted snapshot accesses

/-- A requested emergency stop is a move of the lifecycle from every state. -/
theorem requestEmergencyStop_move (c : EcatController β) :
    Lifecycle.Move (abstraction c) ⟨.action .requestEmergencyStop, true⟩
      (abstraction (requestEmergencyStop.after c)) := by
  obtain ⟨m, same, touches⟩ := enterEmergencyStop_after c
  have move := Lifecycle.Move.emergencyStopped (a := abstraction c)
    (List.replicate (2 * c.master.getSlaveCount) .access) (by simp [Lifecycle.Accesses])
  rw [← abstraction_emit c touches.toEmits] at move
  rw [requestEmergencyStop, same]
  exact move

end EcatController

end MoEcat
