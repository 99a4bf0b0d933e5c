import MoEcat.SystemRuns

/-!
# What the callbacks are told

Every lifecycle call, request and stop runs inside one frame: it announces a
transition, lets the controller act, and announces the stable outcome. The periodic
service announces only a change that it made, and a transfer announces nothing. The
exact record of each operation follows from that, and from the records of single
operations what an observer knows after any run.
-/

namespace MoEcat

variable {β α : Type}

/-! ## The frame of an operation -/

/-- What a request announces, given the runtime state shown when it is made. -/
def MasterAction.announces (current : MasterRuntimeState) : MasterAction → MasterRuntimeState
  | .initializeAdapter => ⟨.prepare, .entering, .adapterReady⟩
  | .scanSlaves => ⟨.prepare, .entering, .topologyDiscovered⟩
  | .enterMaintenance => ⟨.prepare, .entering, .preOpMaintenance⟩
  | .prepareRun => ⟨.prepare, .entering, .safeOpReady⟩
  | .startOperation => ⟨.run, .entering, .none⟩
  | .backToMaintenance =>
    if current.mode = .run then ⟨.run, .exiting, .none⟩ else ⟨.prepare, .entering, .preOpMaintenance⟩
  | .stop => { current with transition := .exiting }
  | .requestFault => ⟨.fault, .entering, .none⟩
  | .requestEmergencyStop => ⟨.emergencyStop, .entering, .none⟩

/-- The controller's own operation inside the frame of a public one. The service and
the transfers have no frame. -/
def MasterOperation.framed : MasterOperation → Option ControllerOperation
  | .initializeAdapter config => some (.initializeAdapter config)
  | .scan => some .scan
  | .enterMaintenance => some .enterMaintenance
  | .prepareRun => some .prepareRun
  | .startOperation => some .startOperation
  | .backToMaintenance => some .backToMaintenance
  | .stop => some .stop
  | .requestFault => some .requestFault
  | .requestEmergencyStop => some .requestEmergencyStop
  | .service | .readSdo .. | .writeSdo .. | .dumpPdoMapping .. => none

/-- Exactly the requests for an action have a frame. -/
theorem MasterOperation.framed_request {operation : MasterOperation} {action : MasterAction}
    (requested : operation.request = .action action) :
    ∃ inner, operation.framed = some inner := by
  cases operation <;> first | exact ⟨_, rfl⟩ | cases requested

/-- The action inside a frame is the one that the frame's request names. -/
theorem MasterOperation.single_framed {operation : MasterOperation}
    {inner : ControllerOperation} {action : MasterAction} (framed : operation.framed = some inner)
    (requested : operation.request = .action action) :
    EcatController.singleRequest inner = some action := by
  cases operation <;> cases framed <;> cases requested <;> rfl

/-- From a valid stable state, what is announced is valid and in transition. -/
theorem MasterAction.announces_valid (state : ControllerState) (action : MasterAction) :
    isValidRuntimeState (action.announces (toMasterRuntimeState state)) = true ∧
      ((action.announces (toMasterRuntimeState state)).transition = .entering ∨
        (action.announces (toMasterRuntimeState state)).transition = .exiting) := by
  cases action <;> cases state <;> decide

namespace Impl

/-- What one notification adds to the record: nothing unless the callback is set. -/
def hears (i : Impl β) (state : MasterRuntimeState) : List Notification :=
  if i.onRuntimeStateChanged then [.runtimeStateChanged state] else []

/-- A notification adds what the callback hears. -/
theorem notify_hears (i : Impl β) :
    notifyRuntimeStateChanged.after i =
      { i with delivered := i.delivered ++ i.hears i.currentRuntimeState } := by
  unfold notifyRuntimeStateChanged hears
  rw [Program.after_modify]
  by_cases set : i.onRuntimeStateChanged = true
  · rw [if_pos set, if_pos set]
  · rw [if_neg set, if_neg set, List.append_nil]

/-- A valid announcement is what every observer sees until it is taken back. -/
theorem currentRuntimeState_announced {i : Impl β} {announced : MasterRuntimeState}
    (pending : i.runtimeStateOverride = some announced)
    (valid : isValidRuntimeState announced = true) : i.currentRuntimeState = announced := by
  simp [currentRuntimeState, pending, valid]

/-- The frame around a valid announcement, with everything it delivers. -/
theorem transition_delivers {announced : MasterRuntimeState}
    (valid : isValidRuntimeState announced = true) (p : Program (EcatController β) α)
    (i : Impl β) :
    (transition announced p).after i =
      { i with
        controller := p.after i.controller, runtimeStateOverride := none
        delivered := i.delivered ++ i.hears announced ++
          i.hears (toMasterRuntimeState (p.after i.controller).state) } := by
  have announcing : (beginRuntimeTransition announced).after i =
      { i with
        runtimeStateOverride := some announced
        delivered := i.delivered ++ i.hears announced } := by
    simp only [beginRuntimeTransition, Program.after_bind, Program.after_modify, valid, if_true,
      notify_hears]
    rw [currentRuntimeState_announced rfl valid]
    rfl
  have settled : Settled
      { i with
        controller := p.after i.controller, runtimeStateOverride := none
        delivered := i.delivered ++ i.hears announced } := rfl
  simp only [transition, endRuntimeTransition, Program.after_bind, announcing, after_onController,
    Program.after_modify, notify_hears, Program.after_pure]
  rw [currentRuntimeState_of_settled settled]
  rfl

variable [Platform β]

/-- What is done before the frame: only the opening of the adapter switches the sinks. -/
def prepared : MasterOperation → Impl β → Impl β
  | .initializeAdapter config, i => (configureLogSink config).after i
  | _, i => i

/-- Only the logger and the hidden world are touched before the frame. -/
theorem prepared_after (operation : MasterOperation) (i : Impl β) :
    ∃ platform logger, prepared operation i =
      { i with controller := i.controller.inWorld platform, logger := logger } := by
  cases operation with
  | initializeAdapter config => exact configureLogSink_after config i
  | _ => exact ⟨i.controller.master.platform, i.logger, rfl⟩

/-- A framed operation is its announcement around the controller's own operation. -/
theorem perform_framed {operation : MasterOperation} {inner : ControllerOperation}
    {action : MasterAction} (framed : operation.framed = some inner)
    (requested : operation.request = .action action) (i : Impl β) :
    let frame := transition (action.announces i.currentRuntimeState) (EcatController.perform inner)
    (perform operation).result i = frame.result (prepared operation i) ∧
      (perform operation).after i = frame.after (prepared operation i) := by
  cases operation <;> cases framed <;> cases requested <;> exact ⟨rfl, rfl⟩

/-- Everything that a framed operation of a settled master does and delivers. -/
theorem perform_delivers {operation : MasterOperation} {inner : ControllerOperation}
    {action : MasterAction} (framed : operation.framed = some inner)
    (requested : operation.request = .action action) {i : Impl β} (settled : Settled i) :
    let c := (prepared operation i).controller
    let announced := action.announces (toMasterRuntimeState i.controller.state)
    (perform operation).result i = (EcatController.perform inner).result c ∧
      (perform operation).after i =
        { prepared operation i with
          controller := (EcatController.perform inner).after c, runtimeStateOverride := none
          delivered := i.delivered ++ i.hears announced ++
            i.hears (toMasterRuntimeState ((EcatController.perform inner).after c).state) } := by
  obtain ⟨answered, performed⟩ := perform_framed framed requested i
  rw [currentRuntimeState_of_settled settled] at answered performed
  have valid := (action.announces_valid i.controller.state).1
  obtain ⟨platform, logger, same⟩ := prepared_after operation i
  refine ⟨answered.trans (transition_after _ _ _).1, ?_⟩
  rw [performed, transition_delivers valid, same]
  rfl

/-! ## The service and the transfers -/

/-- The engine of the service changes the controller and the time of the last check. -/
theorem serviceEngine_frame (i : Impl β) :
    ∃ c last, serviceEngine.after i = { i with controller := c, lastStateCheckTime := last } := by
  have check : ∀ i : Impl β, ∃ c last,
      checkSlaveStates.after i = { i with controller := c, lastStateCheckTime := last } := by
    intro i
    obtain ⟨platform, last, same | same⟩ := checkSlaveStates_after i
    · exact ⟨_, last, same⟩
    · exact ⟨_, last, same⟩
  simp only [serviceEngine, Program.after_bind, Program.result_get, Program.after_get,
    Program.after_ite, Program.after_pure, after_onController]
  split
  · exact check i
  split
  · exact check { i with controller := ProcessDataEngine.runOnce.after i.controller }
  · exact ⟨i.controller, i.lastStateCheckTime, rfl⟩

/-- What the service adds to the record when it has changed the state. -/
def serviceNews (old new : Impl β) : List Notification :=
  if old.getState = new.getState then []
  else (if new.onStateChanged then [.stateChanged old.getState new.getState] else []) ++
    new.hears new.currentRuntimeState

/-- The service runs its engine and reports a changed state, to both callbacks. -/
theorem service_delivers (i : Impl β) :
    service.after i =
      { serviceEngine.after i with
        delivered := i.delivered ++ serviceNews i (serviceEngine.after i) } := by
  obtain ⟨c, last, same⟩ := serviceEngine_frame i
  simp only [service, Program.after_bind, Program.result_get, Program.after_get,
    Program.after_when, Program.after_modify, notify_hears, serviceNews, same]
  by_cases still : i.getState = getState { i with controller := c, lastStateCheckTime := last }
  · simp [still]
  · rw [if_pos still, if_neg still]
    by_cases set : i.onStateChanged = true
    · simp only [set, if_true, List.append_assoc]
      rfl
    · simp only [set, Bool.false_eq_true, if_false, List.nil_append]

/-- A transfer changes nothing but the bus master. -/
theorem perform_access {operation : MasterOperation} (requested : operation.request = .access)
    (i : Impl β) :
    ∃ m, (perform operation).after i =
        { i with controller := { i.controller with master := m } } ∧
      Reads i.controller.master m := by
  have serves : ∃ refused, ServesData refused i ((perform operation).after i) := by
    cases operation with
    | readSdo slaveId index subindex data timeoutMs => exact ⟨_, readSdo_serves ..⟩
    | writeSdo slaveId index subindex data timeoutMs => exact ⟨_, writeSdo_serves ..⟩
    | dumpPdoMapping fuel slaveId => exact ⟨_, dumpPdoMapping_serves ..⟩
    | _ => cases requested
  obtain ⟨refused, m, same, ⟨-, rfl⟩ | ⟨-, reads⟩⟩ := serves
  · exact ⟨_, same, .refl _⟩
  · exact ⟨m, same, reads.reads⟩

end Impl

/-! ## The runtime states delivered -/

/-- The value of a runtime-state notification. -/
def Notification.runtimeState : Notification → Option MasterRuntimeState
  | .runtimeStateChanged state => some state
  | .stateChanged .. => none

namespace Impl

/-- The runtime states delivered so far, in order. -/
def runtimeStates (i : Impl β) : List MasterRuntimeState :=
  i.delivered.filterMap Notification.runtimeState

/-- What an operation is to deliver. A framed one delivers a valid transition and then
the stable image of the state reached; the service delivers that image exactly when it
changed the state; a transfer delivers nothing. -/
def Brackets (operation : MasterOperation) (before after : Impl β)
    (values : List MasterRuntimeState) : Prop :=
  match operation.request with
  | .action _ => ∃ announced, isValidRuntimeState announced = true ∧
      (announced.transition = .entering ∨ announced.transition = .exiting) ∧
      values = [announced, toMasterRuntimeState after.controller.state]
  | .service => values = if before.getState = after.getState then []
      else [toMasterRuntimeState after.controller.state]
  | .access => values = []

/-- With the callback set, one value is heard. -/
theorem runtimeStates_hears {i : Impl β} (set : i.onRuntimeStateChanged = true)
    (state : MasterRuntimeState) :
    (i.hears state).filterMap Notification.runtimeState = [state] := by
  simp [hears, set, Notification.runtimeState]

/-- With the callback set, a service that has changed the state is heard once, with the state
reached. -/
theorem runtimeStates_serviceNews (old : Impl β) {new : Impl β} (settled : Settled new)
    (set : new.onRuntimeStateChanged = true) :
    (serviceNews old new).filterMap Notification.runtimeState =
      if old.getState = new.getState then [] else [toMasterRuntimeState new.controller.state] := by
  unfold serviceNews
  by_cases still : old.getState = new.getState
  · rw [if_pos still, if_pos still, List.filterMap_nil]
  · rw [if_neg still, if_neg still, List.filterMap_append, runtimeStates_hears set,
      currentRuntimeState_of_settled settled]
    by_cases heard : new.onStateChanged = true <;> simp [heard, Notification.runtimeState]

variable [Platform β]

/-- The owner's callbacks are never replaced. -/
theorem perform_callbacks {i : Impl β} (settled : Settled i) (operation : MasterOperation) :
    ((perform operation).after i).onStateChanged = i.onStateChanged ∧
      ((perform operation).after i).onRuntimeStateChanged = i.onRuntimeStateChanged := by
  cases requested : operation.request with
  | action action =>
    obtain ⟨inner, framed⟩ := MasterOperation.framed_request requested
    obtain ⟨platform, logger, same⟩ := prepared_after operation i
    rw [(perform_delivers framed requested settled).2, same]
    exact ⟨rfl, rfl⟩
  | service =>
    obtain rfl := MasterOperation.eq_service requested
    obtain ⟨c, last, same⟩ := serviceEngine_frame i
    rw [perform_service, service_delivers, same]
    exact ⟨rfl, rfl⟩
  | access =>
    obtain ⟨m, same, -⟩ := perform_access requested i
    rw [same]
    exact ⟨rfl, rfl⟩

/-- Every operation of a settled master delivers what it is to deliver. -/
theorem perform_brackets {i : Impl β} (settled : Settled i)
    (set : i.onRuntimeStateChanged = true) (operation : MasterOperation) :
    ∃ values, ((perform operation).after i).runtimeStates = i.runtimeStates ++ values ∧
      Brackets operation i ((perform operation).after i) values := by
  unfold Brackets
  cases requested : operation.request with
  | action action =>
    obtain ⟨inner, framed⟩ := MasterOperation.framed_request requested
    obtain ⟨-, performed⟩ := perform_delivers framed requested settled
    obtain ⟨valid, moving⟩ := action.announces_valid i.controller.state
    refine ⟨_, ?_, _, valid, moving, rfl⟩
    rw [performed]
    simp only [runtimeStates, List.filterMap_append, runtimeStates_hears set, List.append_assoc]
    rfl
  | service =>
    obtain rfl := MasterOperation.eq_service requested
    obtain ⟨c, last, same⟩ := serviceEngine_frame i
    have told := runtimeStates_serviceNews i (serviceEngine_served i settled).2
      (show (serviceEngine.after i).onRuntimeStateChanged = true by rw [same]; exact set)
    refine ⟨_, ?_, rfl⟩
    rw [perform_service, service_delivers, runtimeStates, List.filterMap_append, told]
    rfl
  | access =>
    obtain ⟨m, same, -⟩ := perform_access requested i
    refine ⟨[], ?_, rfl⟩
    rw [same, List.append_nil]
    rfl

/-- An observer of runtime states that has been told anything knows the present one. -/
def Informed (i : Impl β) : Prop :=
  Settled i ∧ i.onRuntimeStateChanged = true ∧
    ∀ last, i.runtimeStates.getLast? = some last → last = toMasterRuntimeState i.controller.state

/-- Every operation leaves an informed observer: the last value heard is that of the state
reached. -/
theorem perform_informed (i : Impl β) (informed : Informed i) (operation : MasterOperation) :
    Informed ((perform operation).after i) := by
  obtain ⟨settled, set, known⟩ := informed
  obtain ⟨values, grown, brackets⟩ := perform_brackets settled set operation
  have stays := (perform_move i settled operation).2
  refine ⟨stays, (perform_callbacks settled operation).2.trans set, fun last latest => ?_⟩
  rw [grown] at latest
  unfold Brackets at brackets
  cases requested : operation.request with
  | action action =>
    obtain ⟨announced, -, -, rfl⟩ := by simpa only [requested] using brackets
    simpa using latest.symm
  | service =>
    simp only [requested] at brackets
    by_cases still : i.getState = ((perform operation).after i).getState
    · rw [if_pos still] at brackets
      subst brackets
      rw [List.append_nil] at latest
      rw [known last latest, toMasterState_injective _ _ still]
    · rw [if_neg still] at brackets
      subst brackets
      simpa using latest.symm
  | access =>
    obtain rfl : values = [] := by simpa only [requested] using brackets
    obtain ⟨m, same, -⟩ := perform_access requested i
    rw [List.append_nil] at latest
    rw [same]
    exact known last latest

/-- In every run with the runtime-state callback set from the start, each operation
delivers what it is to deliver; between operations no announcement is left, the state
shown is the stable image of the controller state, and it is the last one delivered. -/
theorem runtime_notifications (platform : β) (onStateChanged : Bool)
    (operations : List MasterOperation) :
    let start := constructed platform onStateChanged true
    let i := Runs.final perform start operations
    (∀ entry ∈ Runs.history perform start operations, ∃ values,
      entry.after.runtimeStates = entry.before.runtimeStates ++ values ∧
        Brackets entry.operation entry.before entry.after values) ∧
      i.runtimeStateOverride = none ∧
      i.currentRuntimeState = toMasterRuntimeState i.controller.state ∧
      ∀ last, i.runtimeStates.getLast? = some last → last = i.currentRuntimeState := by
  intro start i
  have initial : Informed start := ⟨rfl, rfl, fun last none => by simp [start, runtimeStates,
    constructed, fresh] at none⟩
  have always : ∀ operations, Informed (Runs.final perform start operations) :=
    Runs.final_invariant perform start Informed
      (fun i operation informed => perform_informed i informed operation) initial
  obtain ⟨settled, -, known⟩ := always operations
  have shown := currentRuntimeState_of_settled settled
  refine ⟨fun entry member => ?_, settled, shown, fun last latest => ?_⟩
  · obtain ⟨first, operation, rfl⟩ := Runs.turn_of_mem_history perform start member
    obtain ⟨settled, set, -⟩ := always first
    exact perform_brackets settled set operation
  · rw [shown]
    exact known last latest

end Impl

end MoEcat
