import MoEcat.Bench
import MoEcat.CyclicUpdates
import MoEcat.ProgramCosts
import MoEcat.SystemRuns

/-!
# How long a call can wait

The calls that may block are those to which the master passes a time limit: the check of
a state, the reception of process data and the transfers of service data. Their limits
bound what an operation can wait, however the bus behaves, since no loop of the lifecycle
runs longer than its retries.
-/

namespace MoEcat

open Program (Costs)

/-- The time that a recorded call may have waited, in microseconds. -/
def Event.waits : Event → Nat
  | .soem (.stateCheck _ _ timeoutUs) _ => timeoutUs.toNat
  | .soem (.receiveProcessData timeoutUs) _ => timeoutUs.toNat
  | .soem (.sdoRead _ _ _ _ _ timeoutUs) _ => timeoutUs.toNat
  | .soem (.sdoWrite _ _ _ _ _ _ timeoutUs) _ => timeoutUs.toNat
  | _ => 0

/-- The limit of one check of a state: two seconds. -/
def stateWait : Nat := 2000000

namespace EcMaster

variable {β : Type}

/-- The time that the calls so far may have waited. -/
def waited (m : EcMaster β) : Nat := (m.trace.map Event.waits).sum

/-- What the record has grown by is waited in addition. -/
theorem waited_append {m m' : EcMaster β} {events : List Event}
    (grown : m'.trace = m.trace ++ events) :
    m'.waited = m.waited + (events.map Event.waits).sum := by
  rw [waited, grown, List.map_append, List.sum_append, waited]

/-- An entry costs what it waits. -/
theorem costs_note (event : Event) : Costs waited event.waits (note (β := β) event) := by
  intro m
  have grown : ((note event).after m).trace = m.trace ++ [event] := rfl
  rw [waited_append grown]
  simp

variable [Platform β]

/-- A call costs at most its own limit. -/
theorem costs_soem (call : SoemCall) (limit : Nat)
    (limited : ∀ result, (Event.soem call result).waits ≤ limit) :
    Costs waited limit (soem (β := β) call) := by
  intro m
  rw [waited_append (m := m) rfl]
  simpa using limited _

/-- A call that is given no limit does not wait. -/
theorem costs_soem_zero (call : SoemCall) (free : ∀ result, (Event.soem call result).waits = 0) :
    Costs waited 0 (soem (β := β) call) :=
  costs_soem call 0 fun result => Nat.le_of_eq (free result)

/-- Looking at the clock does not wait. -/
theorem costs_steadyNow : Costs waited 0 (steadyNow (β := β)) := fun _ => Nat.le_refl _

/-- Writing a state waits for one check. -/
theorem costs_transmitState (slave : Nat) (written awaited : UInt16) :
    Costs waited stateWait (transmitState (β := β) slave written awaited) := by
  refine .free_first (Program.costs_modify fun _ => rfl) fun _ => ?_
  refine .free_first (costs_soem_zero _ fun _ => rfl) fun _ => ?_
  refine .free_rest (costs_soem _ stateWait fun _ => Nat.le_refl _) fun _ => ?_
  exact .free_first Program.costs_get fun _ => Program.costs_pure _

/-- A request waits for one check. -/
theorem costs_requestState (slave : Nat) (state : UInt16) :
    Costs waited stateWait (requestState (β := β) slave state) := by
  refine .free_first (costs_note _) fun _ => ?_
  exact .free_rest (costs_transmitState _ _ _) fun _ => Program.costs_pure _

/-- Every pass of the retry loop checks once, or not at all. -/
theorem costs_retryState (slave : Nat) (state : UInt16) (remaining : Nat) :
    Costs waited (remaining * stateWait) (retryState (β := β) slave state remaining) := by
  induction remaining with
  | zero => exact (Program.costs_pure false).mono (Nat.zero_le _)
  | succ remaining inductionHypothesis =>
    have once : (remaining + 1) * stateWait = stateWait + remaining * stateWait := by
      rw [Nat.succ_mul, Nat.add_comm]
    rw [once]
    refine .free_first (costs_soem_zero _ fun _ => rfl) fun _ => ?_
    refine .free_first Program.costs_get fun m => ?_
    refine .ite ?_ (.ite ?_ ?_)
    · exact (Program.costs_pure true).mono (Nat.zero_le _)
    · exact .bind (costs_transmitState _ _ _) fun _ => inductionHypothesis
    · refine .bind (costs_transmitState _ _ _) fun _ => .ite ?_ inductionHypothesis
      exact (Program.costs_pure true).mono (Nat.zero_le _)

/-- A request for PRE_OP has four attempts. -/
theorem costs_requestPreOpState : Costs waited (4 * stateWait) (requestPreOpState (β := β)) := by
  refine .free_first (costs_note _) fun _ => ?_
  exact costs_retryState 0 EcState.preOp 4

/-- Checking what was read does not wait. -/
theorem costs_checkAllSlavesInState (state : UInt16) :
    Costs waited 0 (checkAllSlavesInState (β := β) state) := by
  refine .free_first (costs_soem_zero _ fun _ => rfl) fun _ => ?_
  refine .free_first Program.costs_get fun _ => ?_
  exact .free_first (costs_note _) fun _ => Program.costs_pure _

/-- Closing the adapter does not wait. -/
theorem costs_close : Costs waited 0 (close (β := β)) := by
  refine .free_first Program.costs_get fun _ => .ite (Program.costs_pure _) ?_
  refine .free_first (Program.costs_modify fun _ => rfl) fun _ => ?_
  exact .free_first (costs_soem_zero _ fun _ => rfl) fun _ => Program.costs_pure _

/-- Opening the adapter does not wait. -/
theorem costs_initializeMaster (config : EcMasterConfig) :
    Costs waited 0 (initializeMaster (β := β) config) := by
  refine .free_first (Program.costs_modify fun _ => rfl) fun _ => ?_
  refine .free_first (costs_soem_zero _ fun _ => rfl) fun _ => .ite (Program.costs_pure _) ?_
  exact .free_first (Program.costs_modify fun _ => rfl) fun _ => Program.costs_pure _

/-- A scan has no limit of its own that could be waited for. -/
theorem costs_scanSlaves : Costs waited 0 (scanSlaves (β := β)) := by
  refine .free_first (costs_soem_zero _ fun _ => rfl) fun _ => .ite (Program.costs_pure _) ?_
  exact .free_first Program.costs_get fun _ => Program.costs_pure _

/-- The mapping has no limit of its own that could be waited for. -/
theorem costs_configureProcessData : Costs waited 0 (configureProcessData (β := β)) := by
  refine .free_first Program.costs_get fun _ => .ite (Program.costs_pure _) ?_
  refine .free_first (costs_soem_zero _ fun _ => rfl) fun _ => ?_
  exact .free_first (Program.costs_modify fun _ => rfl) fun _ => Program.costs_pure _

/-- The clock configuration has no limit of its own that could be waited for. -/
theorem costs_configureDc : Costs waited 0 (configureDc (β := β)) := by
  refine .free_first Program.costs_get fun _ => .ite (Program.costs_pure _) ?_
  exact .free_first (costs_soem_zero _ fun _ => rfl) fun _ => Program.costs_pure _

/-- A cycle waits for the answer to its frame. -/
theorem costs_runOneCycle : Costs waited ecTimeoutRet.toNat (runOneCycle (β := β)) := by
  refine .free_first (costs_soem_zero _ fun _ => rfl) fun _ => ?_
  refine .free_rest (costs_soem _ _ fun _ => Nat.le_refl _) fun _ => ?_
  exact .free_first costs_steadyNow fun _ => Program.costs_modify fun _ => rfl

end EcMaster

/-! ## The controller -/

namespace EcatController

variable {β : Type} [Platform β]

open EcMaster (waited)

/-- What rolling the bus back can wait, by how far it has come. -/
def rollbackWait : ControllerState → Nat
  | .operational => 6 * stateWait
  | .readyToRun | .maintenance => 5 * stateWait
  | .fault | .emergencyStop => stateWait
  | .uninitialized | .adapterReady | .scanned => 0

/-- The controller's programs may make its bus master wait. -/
abbrev Waits {α : Type} (cost : Nat) (p : Program (EcatController β) α) : Prop :=
  Costs (fun c => c.master.waited) cost p

omit [Platform β] in
/-- What the bus master waits, the controller waits. -/
theorem waits_onMaster {α : Type} {cost : Nat} {p : Program (EcMaster β) α}
    (costs : Costs waited cost p) : Waits cost (onMaster p) :=
  costs.zoom fun _ _ => rfl

omit [Platform β] in
/-- Setting the state does not wait. -/
theorem waits_enter (state : ControllerState) : Waits 0 (enter (β := β) state) :=
  Program.costs_modify fun _ => rfl

/-- The snapshot only reads. -/
theorem waits_logSlaveSnapshot : Waits 0 (logSlaveSnapshot (β := β)) := by
  have reads : ∀ slave, Costs waited 0 (EcMaster.readActualState (β := β) slave) ∧
      Costs waited 0 (EcMaster.readAlStatusCode (β := β) slave) := fun slave =>
    ⟨.free_first (EcMaster.costs_soem_zero _ fun _ => rfl) fun _ =>
      .free_first Program.costs_get fun _ => Program.costs_pure _,
    .free_first (EcMaster.costs_soem_zero _ fun _ => rfl) fun _ =>
      .free_first Program.costs_get fun _ => Program.costs_pure _⟩
  refine .free_first Program.costs_get fun _ => Program.costs_forM fun i => ?_
  refine .free_first (waits_onMaster (reads (i + 1)).1) fun _ => ?_
  exact .free_first (waits_onMaster (reads (i + 1)).2) fun _ => Program.costs_pure _

/-- Entering Fault does not wait. -/
theorem waits_enterFault : Waits 0 (enterFault (β := β)) :=
  .free_first waits_logSlaveSnapshot fun _ => waits_enter _

/-- Entering EmergencyStop does not wait. -/
theorem waits_enterEmergencyStop : Waits 0 (enterEmergencyStop (β := β)) :=
  .free_first waits_logSlaveSnapshot fun _ => waits_enter _

/-- A roll-back waits for the requests that it makes. -/
theorem waited_doShutdown (c : EcatController β) :
    (doShutdown.after c).master.waited ≤ c.master.waited + rollbackWait c.state := by
  have asked : ∀ {p : Program (EcMaster β) Bool} {cost}, Costs waited cost p →
      Waits cost (do let _ ← onMaster p) := fun costs =>
    .free_rest (waits_onMaster costs) fun _ => Program.costs_pure _
  have closed : Waits 0 (do
      modify fun c : EcatController β => { c with nodes := [] }
      onMaster EcMaster.close
      enter .uninitialized
      return true) := by
    refine .free_first (Program.costs_modify fun _ => rfl) fun _ => ?_
    refine .free_first (waits_onMaster EcMaster.costs_close) fun _ => ?_
    exact .free_first (waits_enter _) fun _ => Program.costs_pure _
  have costs : ∀ state : ControllerState, Waits
      ((if state = .operational then stateWait else 0) +
        ((if state = .operational ∨ state = .readyToRun ∨ state = .maintenance then 4 * stateWait
          else 0) +
        ((if state ≠ .uninitialized ∧ state ≠ .adapterReady ∧ state ≠ .scanned then stateWait
          else 0) + 0))) (do
      Program.when (state = .operational) (do let _ ← onMaster EcMaster.requestSafeOpState)
      Program.when (state = .operational ∨ state = .readyToRun ∨ state = .maintenance)
        (do let _ ← onMaster EcMaster.requestPreOpState)
      Program.when (state ≠ .uninitialized ∧ state ≠ .adapterReady ∧ state ≠ .scanned)
        (do let _ ← onMaster EcMaster.requestInitState)
      modify fun c : EcatController β => { c with nodes := [] }
      onMaster EcMaster.close
      enter .uninitialized
      return true) := fun state =>
    (asked (EcMaster.costs_requestState 0 EcState.safeOp)).when.bind fun _ =>
      (asked EcMaster.costs_requestPreOpState).when.bind fun _ =>
        (asked (EcMaster.costs_requestState 0 EcState.init)).when.bind fun _ => closed
  refine Nat.le_trans (costs c.state c) (Nat.add_le_add_left (Nat.le_of_eq ?_) _)
  cases c.state <;> decide

/-- What an action can wait that is asked for in a state. -/
def longestWait : ControllerState → MasterAction → Nat
  | .scanned, .enterMaintenance => 4 * stateWait
  | .maintenance, .prepareRun => stateWait
  | .readyToRun, .startOperation => stateWait
  | .readyToRun, .backToMaintenance => 4 * stateWait
  | .operational, .backToMaintenance => 5 * stateWait
  | state, .stop => rollbackWait state
  | _, _ => 0

/-- No action waits longer than twelve seconds in any state. -/
theorem longestWait_le (state : ControllerState) (action : MasterAction) :
    longestWait state action ≤ 12000000 := by
  cases state <;> cases action <;> decide

/-- Asking for PRE_OP and checking it waits for four attempts. -/
theorem costs_confirmPreOp : Costs waited (4 * stateWait) (confirmPreOp (β := β)) :=
  EcMaster.costs_requestPreOpState.and (EcMaster.costs_checkAllSlavesInState _)

/-- Asking for SAFE_OP and checking it waits for one. -/
theorem costs_confirmSafeOp : Costs waited stateWait (confirmSafeOp (β := β)) :=
  (EcMaster.costs_requestState 0 EcState.safeOp).and (EcMaster.costs_checkAllSlavesInState _)

/-- Asking for OP and checking it waits for one. -/
theorem costs_confirmOperational : Costs waited stateWait (confirmOperational (β := β)) :=
  (EcMaster.costs_requestState 0 EcState.operational).and (EcMaster.costs_checkAllSlavesInState _)

section Actions

variable (c : EcatController β)

/-- Opening the adapter does not wait. -/
theorem waited_initializeAdapter (config : EcMasterConfig) :
    ((initializeAdapter config).after c).master.waited ≤ c.master.waited := by
  have opened := EcMaster.costs_initializeMaster config c.master
  rcases initializeAdapter_spec config c with ⟨-, -, same⟩ | ⟨-, -, -, same⟩ | ⟨-, -, -, same⟩
  · rw [same]
  · rw [same]
    exact opened
  · rw [same]
    exact opened

/-- A scan does not wait; neither does the shutdown of one that fails. -/
theorem waited_scan : (scan.after c).master.waited ≤ c.master.waited := by
  have scanned := EcMaster.costs_scanSlaves c.master
  by_cases ready : c.state = .adapterReady
  · rcases scan_spec c ready with ⟨-, -, same⟩ | ⟨-, -, same⟩
    · rw [same]
      exact scanned
    · have closed := waited_doShutdown { c with
        master := EcMaster.scanSlaves.after c.master
        slaveInfos := EcMaster.scanSlaves.result c.master }
      rw [same]
      simp only [ready, rollbackWait] at closed ⊢
      omega
  · have refused : scan.after c = c := by simp [scan, ready]
    rw [refused]

/-- Entering Maintenance waits for its attempts; the shutdown where they fail does not. -/
theorem waited_enterMaintenance :
    (enterMaintenance.after c).master.waited ≤
      c.master.waited + longestWait c.state .enterMaintenance := by
  have asked := costs_confirmPreOp c.master
  by_cases known : c.state = .scanned
  · rw [known, longestWait]
    rcases enterMaintenance_spec c known with ⟨-, -, same⟩ | ⟨-, -, same⟩
    · rw [same]
      exact asked
    · have closed := waited_doShutdown { c with master := confirmPreOp.after c.master }
      rw [same]
      simp only [known, rollbackWait] at closed ⊢
      omega
  · have refused : enterMaintenance.after c = c := by simp [enterMaintenance, known]
    rw [refused]
    exact Nat.le_add_right ..

/-- The preparation waits for SAFE_OP. -/
theorem waited_prepareRun :
    (prepareRun.after c).master.waited ≤ c.master.waited + longestWait c.state .prepareRun := by
  have mapped := EcMaster.costs_configureProcessData c.master
  have asked := costs_confirmSafeOp (EcMaster.configureProcessData.after c.master)
  have timed := EcMaster.costs_configureDc
    (confirmSafeOp.after (EcMaster.configureProcessData.after c.master))
  by_cases maintained : c.state = .maintenance
  · rw [maintained, longestWait]
    rcases prepareRun_spec c maintained with ⟨-, -, same⟩ | ⟨-, -, -, same⟩ | ⟨-, -, -, same⟩
    · rw [same]
      exact Nat.le_trans (waits_enterFault _) (by dsimp only; omega)
    · rw [same]
      exact Nat.le_trans (waits_enterFault _) (by dsimp only; omega)
    · rw [same]
      dsimp only
      omega
  · have refused : prepareRun.after c = c := by simp [prepareRun, maintained]
    rw [refused]
    exact Nat.le_add_right ..

/-- The start waits for OP. -/
theorem waited_startOperation :
    (startOperation.after c).master.waited ≤
      c.master.waited + longestWait c.state .startOperation := by
  have asked := costs_confirmOperational c.master
  by_cases ready : c.state = .readyToRun
  · rw [ready, longestWait]
    rcases startOperation_spec c ready with ⟨-, -, same⟩ | ⟨-, -, same⟩
    · rw [same]
      exact asked
    · rw [same]
      exact Nat.le_trans (waits_enterFault _) asked
  · have refused : startOperation.after c = c := by simp [startOperation, ready]
    rw [refused]
    exact Nat.le_add_right ..

/-- The way back waits for PRE_OP, and for SAFE_OP before where it leaves Operational. -/
theorem waited_backToMaintenance :
    (backToMaintenance.after c).master.waited ≤
      c.master.waited + longestWait c.state .backToMaintenance := by
  by_cases ready : c.state = .readyToRun ∨ c.state = .operational
  · have down : (stepDown c).waited + 4 * stateWait ≤
        c.master.waited + longestWait c.state .backToMaintenance := by
      rcases ready with ready | running
      · have stays : stepDown c = c.master := if_neg (by rw [ready]; decide)
        rw [stays, ready, longestWait]
      · have steps : stepDown c = EcMaster.requestSafeOpState.after c.master := if_pos running
        have asked := EcMaster.costs_requestState 0 EcState.safeOp c.master
        rw [steps, running, longestWait]
        rw [EcMaster.requestSafeOpState]
        omega
    have asked := costs_confirmPreOp (stepDown c)
    rcases backToMaintenance_spec c ready with ⟨-, -, same⟩ | ⟨-, -, same⟩
    · rw [same]
      exact Nat.le_trans asked down
    · rw [same]
      exact Nat.le_trans (waits_enterFault _) (Nat.le_trans asked down)
  · have refused : backToMaintenance.after c = c := by
      have neither := not_or.mp ready
      simp [backToMaintenance, neither.1, neither.2]
    rw [refused]
    exact Nat.le_add_right ..

/-- A stop waits as long as the rollback. -/
theorem waited_stop :
    (stop.after c).master.waited ≤ c.master.waited + longestWait c.state .stop := by
  by_cases idle : c.state = .uninitialized
  · have refused : stop.after c = c := by simp [stop, idle]
    rw [refused]
    exact Nat.le_add_right ..
  · have stopped : stop.after c = doShutdown.after c := by
      have admitted := (dispatch_admitted .stop c ((allowed_stop c.state).mpr idle)).2
      simpa [stop, idle, doAction] using admitted
    have same : longestWait c.state .stop = rollbackWait c.state := by cases c.state <;> rfl
    rw [stopped, same]
    exact waited_doShutdown c

end Actions

end EcatController

/-! ## The service and the master -/

namespace ProcessDataEngine

variable {β : Type} [Platform β]

open EcMaster (waited)

/-- What each node does without waiting, all nodes do. -/
theorem waits_flatMap {nodes : List SlaveNode} {events : SlaveNode → List Event}
    (free : ∀ node, ∀ event ∈ events node, event.waits = 0) :
    ((nodes.flatMap events).map Event.waits).sum = 0 := by
  refine List.sum_eq_zero_iff_forall_eq_nat.mpr fun time member => ?_
  obtain ⟨event, recorded, rfl⟩ := List.mem_map.mp member
  obtain ⟨node, -, own⟩ := List.mem_flatMap.mp recorded
  exact free node event own

/-- Outputs are copied without waiting. -/
theorem outputEvents_free (slaves : Nat → EcSlave) (node : SlaveNode) :
    ∀ event ∈ node.outputEvents slaves, event.waits = 0 := by
  intro event member
  unfold SlaveNode.outputEvents at member
  split at member
  · rcases List.mem_cons.mp member with rfl | copied
    · rfl
    · obtain ⟨copy, -, rfl⟩ := List.mem_map.mp copied
      rfl
  · cases member

/-- Inputs are copied without waiting. -/
theorem inputEvents_free (slaves : Nat → EcSlave) (node : SlaveNode) :
    ∀ event ∈ node.inputEvents slaves, event.waits = 0 := by
  intro event member
  unfold SlaveNode.inputEvents at member
  split at member
  · rcases List.mem_cons.mp member with rfl | copied
    · rfl
    · obtain ⟨copy, -, rfl⟩ := List.mem_map.mp copied
      rfl
  · cases member

/-- Of a cycle only the reception can wait. -/
theorem waited_runOnce (c : EcatController β) (operational : c.state = .operational) :
    (runOnce.after c).master.waited ≤ c.master.waited + ecTimeoutRet.toNat := by
  let sent := (SlaveNodeManager.updateAllOutputs c.nodes).after c.master
  let exchanged := EcMaster.runOneCycle.after sent
  have copied : sent.waited = c.master.waited := by
    have spec := (SlaveNodeManager.updateAllOutputs_spec c.nodes c.master).2
    rw [EcMaster.waited_append (congrArg EcMaster.trace spec), waits_flatMap (outputEvents_free _)]
    rfl
  have read : (runOnce.after c).master.waited = exchanged.waited := by
    have spec := congrArg (fun c => c.master.trace) (runOnce_spec c operational)
    rw [EcMaster.waited_append spec, waits_flatMap (inputEvents_free _)]
    rfl
  rw [read, ← copied]
  exact EcMaster.costs_runOneCycle sent

/-- A supervision does not wait, even where it enters Fault. -/
theorem waits_supervise (expected : UInt16) :
    EcatController.Waits 0 (supervise (β := β) expected) := by
  refine .free_first (EcatController.waits_onMaster (EcMaster.costs_checkAllSlavesInState _))
    fun _ => ?_
  exact .mono EcatController.waits_enterFault.when (Nat.le_of_eq (ite_self _))

/-- Neither does the one that the state asks for. -/
theorem waited_superviseSlaves (c : EcatController β) :
    (superviseSlaves.after c).master.waited ≤ c.master.waited := by
  by_cases maintained : c.state = .maintenance
  · rw [superviseSlaves_maintenance c maintained]
    exact waits_supervise _ c
  by_cases operational : c.state = .operational
  · rw [superviseSlaves_operational c operational]
    exact waits_supervise _ c
  · have idle : superviseSlaves.after c = c := by
      cases state : c.state <;> simp_all [superviseSlaves]
    rw [idle]

end ProcessDataEngine

namespace Impl

variable {β : Type} [Platform β]

open EcatController (longestWait)

/-- What an operation can wait, in microseconds. Transfers wait as long as they are told. -/
def waitLimit (state : ControllerState) : MasterOperation → Nat
  | .initializeAdapter _ => longestWait state .initializeAdapter
  | .scan => longestWait state .scanSlaves
  | .enterMaintenance => longestWait state .enterMaintenance
  | .prepareRun => longestWait state .prepareRun
  | .startOperation => longestWait state .startOperation
  | .backToMaintenance => longestWait state .backToMaintenance
  | .stop => longestWait state .stop
  | .requestFault => longestWait state .requestFault
  | .requestEmergencyStop => longestWait state .requestEmergencyStop
  | .service => if state = .operational then ecTimeoutRet.toNat else 0
  | .readSdo _ _ _ _ timeoutMs | .writeSdo _ _ _ _ timeoutMs =>
    (narrowInt (timeoutMs * 1000)).toNat
  | .dumpPdoMapping .. => 0

/-- The time that the master may have waited so far. -/
def waited (i : Impl β) : Nat := i.controller.master.waited

variable {i : Impl β}

/-- The periodic check does not wait. -/
theorem waited_checkSlaveStates : (checkSlaveStates.after i).waited ≤ i.waited := by
  rw [checkSlaveStates_spec]
  split
  · exact Nat.le_refl _
  · exact ProcessDataEngine.waited_superviseSlaves _

/-- A service waits for the cycle that it runs, if any. -/
theorem waited_service (settled : Settled i) :
    ((perform .service).after i).waited ≤ i.waited + waitLimit i.controller.state .service := by
  obtain ⟨delivered, served⟩ := service_after i
  have same : ((perform .service).after i).waited = (serviceEngine.after i).waited := by
    rw [perform_service, served]
    rfl
  rw [same, waitLimit]
  rcases serviceEngine_selects i settled with
    ⟨-, selected⟩ | ⟨operational, selected⟩ | ⟨-, selected⟩
  · rw [selected]
    exact Nat.le_trans waited_checkSlaveStates (Nat.le_add_right ..)
  · rw [selected, if_pos operational]
    exact Nat.le_trans waited_checkSlaveStates
      (ProcessDataEngine.waited_runOnce i.controller operational)
  · rw [selected]
    exact Nat.le_add_right ..

omit [Platform β] in
/-- A framed operation waits as it does unframed. -/
theorem waited_transition {α : Type} (announced : MasterRuntimeState)
    (p : Program (EcatController β) α) :
    ((transition announced p).after i).waited = (p.after i.controller).master.waited :=
  congrArg (fun c => c.master.waited) (controller_transition announced p i)

omit [Platform β] in
/-- A transfer waits at most as long as it is told to. -/
theorem waited_access {α : Type} {p : Program (EcMaster β) α} (refused : Prop)
    [Decidable refused] (answer : α) {limit : Nat} (costs : Costs EcMaster.waited limit p) :
    let call : Program (Impl β) α := if refused then pure answer else onMaster p
    (call.after i).waited ≤ i.waited + limit := by
  intro call
  rw [Program.after_ite]
  split
  · exact Nat.le_add_right ..
  · exact costs i.controller.master

/-- Whatever the bus does, no operation waits longer than its limit. -/
theorem waited_perform (settled : Settled i) (operation : MasterOperation)
    (shows : ∀ fuel slaveId, operation ≠ .dumpPdoMapping fuel slaveId) :
    ((perform operation).after i).waited ≤
      i.waited + waitLimit i.controller.state operation := by
  cases operation with
  | initializeAdapter config =>
    obtain ⟨platform, logger, same⟩ := configureLogSink_after config i
    have framed : ((perform (.initializeAdapter config)).after i).waited =
        ((EcatController.initializeAdapter config).after
          (i.controller.inWorld platform)).master.waited := by
      simp only [perform, initializeAdapter, Program.after_bind, waited_transition, same]
    rw [framed]
    exact Nat.le_trans (EcatController.waited_initializeAdapter _ config) (Nat.le_add_right ..)
  | scan =>
    exact (waited_transition _ _).trans_le
      (Nat.le_trans (EcatController.waited_scan _) (Nat.le_add_right ..))
  | enterMaintenance =>
    exact (waited_transition _ _).trans_le (EcatController.waited_enterMaintenance _)
  | prepareRun => exact (waited_transition _ _).trans_le (EcatController.waited_prepareRun _)
  | startOperation => exact (waited_transition _ _).trans_le (EcatController.waited_startOperation _)
  | backToMaintenance =>
    exact (congrArg (fun c => c.master.waited) (controller_backToMaintenance i)).trans_le
      (EcatController.waited_backToMaintenance _)
  | stop =>
    exact (congrArg (fun c => c.master.waited) (controller_stop i)).trans_le
      (EcatController.waited_stop _)
  | requestFault =>
    exact (waited_transition _ _).trans_le
      (Nat.le_trans (EcatController.waits_enterFault _) (Nat.le_add_right ..))
  | requestEmergencyStop =>
    exact (waited_transition _ _).trans_le
      (Nat.le_trans (EcatController.waits_enterEmergencyStop _) (Nat.le_add_right ..))
  | service => exact waited_service settled
  | readSdo slaveId index subindex data timeoutMs =>
    exact waited_access (slaveId ≤ 0 ∨ data = []) (false, data)
      (.free_rest (EcMaster.costs_soem (.sdoRead _ _ _ _ _ _) _ fun _ => Nat.le_refl _)
        fun _ => Program.costs_pure _)
  | writeSdo slaveId index subindex data timeoutMs =>
    exact waited_access (slaveId ≤ 0 ∨ data = []) false
      (.free_rest (EcMaster.costs_soem (.sdoWrite _ _ _ _ _ _ _) _ fun _ => Nat.le_refl _)
        fun _ => Program.costs_pure _)
  | dumpPdoMapping fuel slaveId => exact absurd rfl (shows fuel slaveId)

/-- No lifecycle call and no service can wait longer than twelve seconds. -/
theorem waitLimit_le (state : ControllerState) {operation : MasterOperation}
    (transfer : operation.request ≠ .access) : waitLimit state operation ≤ 12000000 := by
  cases operation with
  | service =>
    rw [waitLimit]
    split <;> decide
  | readSdo slaveId index subindex data timeoutMs => exact absurd rfl transfer
  | writeSdo slaveId index subindex data timeoutMs => exact absurd rfl transfer
  | dumpPdoMapping fuel slaveId => exact absurd rfl transfer
  | _ => exact EcatController.longestWait_le state _

/-- In every run, whatever the bus does, no turn waits longer than its limit, which is
twelve seconds for everything but transfers, and the run waits no longer than the limits of
its turns together. -/
theorem waits_bounded (platform : β) (onStateChanged onRuntimeStateChanged : Bool)
    (operations : List MasterOperation)
    (shows : ∀ fuel slaveId, .dumpPdoMapping fuel slaveId ∉ operations) :
    let start := constructed platform onStateChanged onRuntimeStateChanged
    let history := Runs.history perform start operations
    (∀ entry ∈ history,
      entry.after.waited ≤
        entry.before.waited + waitLimit entry.before.controller.state entry.operation ∧
      (entry.operation.request ≠ .access →
        waitLimit entry.before.controller.state entry.operation ≤ 12000000)) ∧
      (Runs.final perform start operations).waited ≤
        (history.map fun entry =>
          waitLimit entry.before.controller.state entry.operation).sum := by
  intro start history
  have each : ∀ entry ∈ history, entry.after.waited ≤
      entry.before.waited + waitLimit entry.before.controller.state entry.operation := by
    intro entry member
    have listed := Runs.operation_mem_of_mem_history perform start member
    obtain ⟨first, operation, rfl⟩ := Runs.turn_of_mem_history perform start member
    exact waited_perform (settled_operations ..) operation fun fuel slaveId same =>
      shows fuel slaveId (same ▸ listed)
  refine ⟨fun entry member => ⟨each entry member, waitLimit_le _⟩, ?_⟩
  have whole := Runs.measure_final_le perform start waited
    (fun i operation => waitLimit i.controller.state operation) operations each
  exact whole.trans_eq (Nat.zero_add _)

/-- On the bench: into running drives and out again. -/
theorem waits_bounded_bench :
    let operations := [.initializeAdapter {}, .scan, .enterMaintenance, .prepareRun,
      .startOperation, .service, .stop]
    let start := constructed ({ slaves := [{}] } : Bench) false false
    let history := Runs.history perform start operations
    (∀ entry ∈ history,
      entry.after.waited ≤
        entry.before.waited + waitLimit entry.before.controller.state entry.operation ∧
      (entry.operation.request ≠ .access →
        waitLimit entry.before.controller.state entry.operation ≤ 12000000)) ∧
      (Runs.final perform start operations).waited ≤
        (history.map fun entry =>
          waitLimit entry.before.controller.state entry.operation).sum :=
  waits_bounded _ false false _ fun fuel slaveId => by simp

end Impl

end MoEcat
