import MoEcat.Notifications
import MoEcat.Bench

/-!
# What a refused call leaves behind

A lifecycle call that the controller does not admit changes nothing in the controller.
The public layer around it is less careful: opening the adapter switches the log sinks
before it asks, and every call announces its transition before it asks. For each of
the two it is stated exactly when the work done too early does not show.
-/

namespace MoEcat

variable {β : Type}

namespace EcatController

variable [Platform β]

/-- A lifecycle action outside its row of the table is answered `false` and leaves the
whole controller as it was. -/
theorem perform_refused {inner : ControllerOperation} {action : MasterAction}
    (single : singleRequest inner = some action) (ordered : Lifecycle.isTransition action = true)
    (c : EcatController β) (forbidden : action ∉ allowedActions c.state) :
    (perform inner).result c = false ∧ (perform inner).after c = c := by
  cases inner <;> cases single <;> try cases ordered
  · have busy : c.state ≠ .uninitialized := (allowed_initializeAdapter _).not.mp forbidden
    simp [perform, initializeAdapter, busy]
  · have unready : c.state ≠ .adapterReady := (allowed_scanSlaves _).not.mp forbidden
    simp [perform, scan, unready]
  · have unknown : c.state ≠ .scanned := (allowed_enterMaintenance _).not.mp forbidden
    simp [perform, enterMaintenance, unknown]
  · have unmaintained : c.state ≠ .maintenance := (allowed_prepareRun _).not.mp forbidden
    simp [perform, prepareRun, unmaintained]
  · have unready : c.state ≠ .readyToRun := (allowed_startOperation _).not.mp forbidden
    simp [perform, startOperation, unready]
  · have outside := (allowed_backToMaintenance _).not.mp forbidden
    simp_all [perform, backToMaintenance]

end EcatController

namespace Impl

/-- Only the state itself is delivered to an observer of runtime states. -/
theorem of_mem_hears {i : Impl β} {state told : MasterRuntimeState}
    (member : .runtimeStateChanged told ∈ i.hears state) : told = state := by
  rw [hears] at member
  split at member
  · cases List.mem_singleton.mp member
    rfl
  · cases member

/-- A lifecycle call that the table of the controller does not admit. -/
def Refuses (i : Impl β) (operation : MasterOperation) : Prop :=
  ∃ action, operation.request = .action action ∧ Lifecycle.isTransition action = true ∧
    action ∉ EcatController.allowedActions i.controller.state

variable [Platform β]

/-- A refused call answers `false`. It announces its transition and then the stable
state, and does to the rest what is done before the frame. -/
theorem perform_refused {i : Impl β} (settled : Settled i) {operation : MasterOperation}
    {action : MasterAction} (requested : operation.request = .action action)
    (ordered : Lifecycle.isTransition action = true)
    (forbidden : action ∉ EcatController.allowedActions i.controller.state) :
    (perform operation).result i = false ∧
      (perform operation).after i =
        { prepared operation i with
          delivered := i.delivered ++
            i.hears (action.announces (toMasterRuntimeState i.controller.state)) ++
            i.hears (toMasterRuntimeState i.controller.state) } := by
  obtain ⟨inner, framed⟩ := MasterOperation.framed_request requested
  obtain ⟨answered, performed⟩ := perform_delivers framed requested settled
  obtain ⟨platform, logger, same⟩ := prepared_after operation i
  have held : (prepared operation i).controller.state = i.controller.state := by
    rw [same]
    rfl
  obtain ⟨refused, still⟩ := EcatController.perform_refused
    (MasterOperation.single_framed framed requested) ordered (prepared operation i).controller
    (by rw [held]; exact forbidden)
  refine ⟨answered.trans refused, ?_⟩
  rw [performed, still, held, same, settled]

/-! ## Traces of a refused call -/

/-- Nothing but notifications and the hidden world tells that the operation was
attempted: no SOEM call was made, and every component that a later operation could
depend on is as it was. -/
structure LeavesNoTrace (operation : MasterOperation) (i : Impl β) : Prop where
  refused : (perform operation).result i = false
  silent : ((perform operation).after i).controller.master.trace = i.controller.master.trace
  state : ((perform operation).after i).controller.state = i.controller.state
  storedConfig : ((perform operation).after i).controller.config = i.controller.config
  masterConfig : ((perform operation).after i).controller.master.config =
    i.controller.master.config
  adapter : ((perform operation).after i).controller.master.closed = i.controller.master.closed
  shared : ((perform operation).after i).controller.master.ctx = i.controller.master.ctx
  slaveInfos : ((perform operation).after i).controller.slaveInfos = i.controller.slaveInfos
  nodes : ((perform operation).after i).controller.nodes = i.controller.nodes
  sinks : ((perform operation).after i).logger = i.logger

end Impl

/-- The modes that log to a file. -/
def LogSinkMode.usesFile : LogSinkMode → Bool
  | .file | .fileAndCallback => true
  | .none | .callback => false

/-- The modes that log to the callback. -/
def LogSinkMode.usesCallback : LogSinkMode → Bool
  | .callback | .fileAndCallback => true
  | .none | .file => false

/-- The active sinks are those that a configuration asks for, given how opening its
log file ends: the console is off, the callback is as the mode says, and the file is
the configured one if it can be opened, or none. -/
def SinksInPlace (config : EcMasterConfig) (opening : LogFileOutcome) (logger : Logger) : Prop :=
  logger.hasConsole = false ∧ logger.hasCallback = config.logSink.usesCallback ∧
    if config.logSink.usesFile = true ∧ config.logPath ≠ "" then
      match opening with
      -- The directory is made before the old file is given up.
      | .directoryError => True
      | .openError => logger.hasFile = false ∧ logger.file = none
      | .opened => logger.hasFile = true ∧ logger.file = some config.logPath
    else logger.hasFile = false ∧ logger.file = none

namespace Impl

variable [Platform β]

/-- How opening the log file of a configuration ends in this state of the world. -/
def logFileOpening (config : EcMasterConfig) (i : Impl β) : LogFileOutcome :=
  (Platform.openLogFile config.logPath i.controller.master.platform).1

/-- Switching the file sink leaves the other sinks alone. -/
theorem setLogFile_logger (path : String) (i : Impl β) :
    ((setLogFile path).after i).logger =
      if path = "" then { i.logger with hasFile := false, file := none }
      else match (Platform.openLogFile path i.controller.master.platform).1 with
        | .directoryError => i.logger
        | .openError => { i.logger with hasFile := false, file := none }
        | .opened => { i.logger with hasFile := true, file := some path } := by
  unfold setLogFile
  rw [Program.after_ite]
  by_cases empty : path = ""
  · rw [if_pos empty, if_pos empty]
    rfl
  · rw [if_neg empty, if_neg empty, Program.after_bind]
    have outcome : (onMaster fun m : EcMaster β =>
        ((Platform.openLogFile path m.platform).1,
          { m with platform := (Platform.openLogFile path m.platform).2 })).result i =
        (Platform.openLogFile path i.controller.master.platform).1 := rfl
    simp only [outcome]
    cases (Platform.openLogFile path i.controller.master.platform).1 <;> rfl

/-- The sinks after a configuration: the console off, the file and the callback as the
mode says. -/
theorem configureLogSink_logger (config : EcMasterConfig) (i : Impl β) :
    ((configureLogSink config).after i).logger =
      { ((setLogFile (if config.logSink.usesFile = true then config.logPath else "")).after
          ((setConsoleEnabled false).after i)).logger with
        hasCallback := config.logSink.usesCallback } := by
  unfold configureLogSink
  rw [Program.after_bind]
  cases config.logSink <;> rfl

/-- Configuring the sinks changes none exactly when they are in place. -/
theorem sinks_unchanged_iff (config : EcMasterConfig) (i : Impl β) :
    ((configureLogSink config).after i).logger = i.logger ↔
      SinksInPlace config (logFileOpening config i) i.logger := by
  have silenced : ((setConsoleEnabled false).after i).logger =
      { i.logger with hasConsole := false } := rfl
  have world : ((setConsoleEnabled false).after i).controller.master.platform =
      i.controller.master.platform := rfl
  rw [configureLogSink_logger, setLogFile_logger, silenced, world, logFileOpening]
  unfold SinksInPlace
  obtain ⟨console, hasFile, file, callback⟩ := i.logger
  by_cases used : config.logSink.usesFile = true ∧ config.logPath ≠ ""
  · obtain ⟨uses, named⟩ := used
    rw [if_pos uses, if_neg named, if_pos ⟨uses, named⟩]
    cases (Platform.openLogFile config.logPath i.controller.master.platform).1 <;>
      simp only [Logger.mk.injEq] <;> grind
  · have empty : (if config.logSink.usesFile = true then config.logPath else "") = "" := by
      by_cases uses : config.logSink.usesFile = true
      · rw [if_pos uses]
        by_contra named
        exact used ⟨uses, named⟩
      · rw [if_neg uses]
    rw [empty, if_pos rfl, if_neg used]
    simp only [Logger.mk.injEq]
    grind

/-- In every reachable state, a lifecycle call that the controller does not admit leaves
no trace exactly when it is not an opening of the adapter, or the sinks that the opening
configures are in place already. -/
theorem refused_leaves_no_trace_iff (platform : β) (onStateChanged onRuntimeStateChanged : Bool)
    (operations : List MasterOperation) (operation : MasterOperation) :
    let i := Runs.final perform (constructed platform onStateChanged onRuntimeStateChanged)
      operations
    Refuses i operation →
      (LeavesNoTrace operation i ↔ ∀ config, operation = .initializeAdapter config →
        SinksInPlace config (logFileOpening config i) i.logger) := by
  intro i
  rintro ⟨action, requested, ordered, forbidden⟩
  have settled : Settled i := settled_operations platform onStateChanged onRuntimeStateChanged operations
  obtain ⟨refused, performed⟩ := perform_refused settled requested ordered forbidden
  have sinks : ((perform operation).after i).logger = (prepared operation i).logger := by
    rw [performed]
  have traceless : LeavesNoTrace operation i ↔ (prepared operation i).logger = i.logger := by
    obtain ⟨world, logger, same⟩ := prepared_after operation i
    refine ⟨fun leaves => sinks.symm.trans leaves.sinks, fun unchanged => ?_⟩
    obtain rfl : logger = i.logger := by
      rw [same] at unchanged
      exact unchanged
    have kept : (perform operation).after i =
        { i with
          controller := i.controller.inWorld world
          delivered := ((perform operation).after i).delivered } := by
      rw [performed, same]
    exact
      { refused := refused
        silent := congrArg (fun left => left.controller.master.trace) kept
        state := congrArg (fun left => left.controller.state) kept
        storedConfig := congrArg (fun left => left.controller.config) kept
        masterConfig := congrArg (fun left => left.controller.master.config) kept
        adapter := congrArg (fun left => left.controller.master.closed) kept
        shared := congrArg (fun left => left.controller.master.ctx) kept
        slaveInfos := congrArg (fun left => left.controller.slaveInfos) kept
        nodes := congrArg (fun left => left.controller.nodes) kept
        sinks := sinks.trans unchanged }
  rw [traceless]
  cases operation with
  | initializeAdapter config =>
    refine (sinks_unchanged_iff config i).trans ⟨fun inPlace other same => ?_, fun inPlace =>
      inPlace config rfl⟩
    cases same
    exact inPlace
  | _ => exact iff_of_true rfl (fun config impossible => by cases impossible)

/-- A second opening of the adapter, with the same configuration, leaves no trace. -/
theorem refused_leaves_no_trace_bench :
    LeavesNoTrace (.initializeAdapter {})
      (Runs.final perform (constructed ({} : Bench) true true) [.initializeAdapter {}]) := by
  refine (refused_leaves_no_trace_iff ({} : Bench) true true [.initializeAdapter {}]
    (.initializeAdapter {}) ⟨.initializeAdapter, rfl, rfl, by decide⟩).mpr ?_
  rintro config same
  cases same
  refine ⟨by decide, by decide, ?_⟩
  rw [if_neg (by decide)]
  decide

/-- A second opening is refused, and switches the callback sink off all the same. -/
theorem refused_leaves_trace :
    Refuses (Runs.final perform (constructed ({} : Bench) true true) [.initializeAdapter {}])
        (.initializeAdapter { logSink := .none }) ∧
      ¬LeavesNoTrace (.initializeAdapter { logSink := .none })
        (Runs.final perform (constructed ({} : Bench) true true) [.initializeAdapter {}]) := by
  refine ⟨⟨.initializeAdapter, rfl, rfl, by decide⟩, fun traceless => ?_⟩
  have kept := congrArg Logger.hasCallback traceless.sinks
  revert kept
  decide

/-! ## The mode shown during a refused call -/

/-- A runtime state that an observer can see around an operation: shown before it or
after it, shown from the announcement on whatever the controller is doing, or delivered
on the way. -/
inductive Seen (operation : MasterOperation) (i : Impl β) : MasterRuntimeState → Prop
  | before : Seen operation i i.currentRuntimeState
  | during (action : MasterAction) (requested : operation.request = .action action)
      (c : EcatController β) :
      Seen operation i (currentRuntimeState
        { (beginRuntimeTransition (action.announces i.currentRuntimeState)).after
            (prepared operation i) with controller := c })
  | delivered (state : MasterRuntimeState) (news : List Notification)
      (grown : ((perform operation).after i).delivered = i.delivered ++ news)
      (told : .runtimeStateChanged state ∈ news) : Seen operation i state
  | after : Seen operation i ((perform operation).after i).currentRuntimeState

/-- No observer of the operation sees a mode other than the actual one. -/
def ShowsActualMode (operation : MasterOperation) (i : Impl β) : Prop :=
  ∀ state, Seen operation i state → state.mode = (toMasterRuntimeState i.controller.state).mode

end Impl

/-- What a refused call announces fits the state it is refused in: the start of
operation in Operational, any other call in a state of the Prepare mode. -/
def AnnouncesActualMode (state : ControllerState) (operation : MasterOperation) : Prop :=
  if operation = .startOperation then state = .operational
  else state = .adapterReady ∨ state = .scanned ∨ state = .maintenance ∨ state = .readyToRun

/-- A refused action announces the actual mode exactly for these states and operations. -/
theorem announces_mode_iff {operation : MasterOperation} {action : MasterAction}
    (requested : operation.request = .action action)
    (ordered : Lifecycle.isTransition action = true) (state : ControllerState)
    (forbidden : action ∉ EcatController.allowedActions state) :
    (action.announces (toMasterRuntimeState state)).mode = (toMasterRuntimeState state).mode ↔
      AnnouncesActualMode state operation := by
  have starting : operation = .startOperation ↔ action = .startOperation := by
    cases operation <;> cases requested <;> simp
  simp only [AnnouncesActualMode, starting]
  cases action <;> try cases ordered
  all_goals
    cases state <;> first | decide | exact absurd (by decide) forbidden

namespace Impl

variable [Platform β]

/-- Whatever the controller is doing meanwhile, the announcement is what is shown. -/
theorem shown_during {i : Impl β} (settled : Settled i) (operation : MasterOperation)
    (action : MasterAction) (c : EcatController β) :
    currentRuntimeState
        { (beginRuntimeTransition (action.announces i.currentRuntimeState)).after
            (prepared operation i) with controller := c } =
      action.announces (toMasterRuntimeState i.controller.state) := by
  have valid := (action.announces_valid i.controller.state).1
  refine currentRuntimeState_announced ?_ valid
  simp only [beginRuntimeTransition, Program.after_bind, Program.after_modify, notify_hears,
    currentRuntimeState_of_settled settled, valid, if_true]

/-- An observer of a refused call sees its announcement, or the stable image of the
state. -/
theorem seen_refused {i : Impl β} (settled : Settled i) {operation : MasterOperation}
    {action : MasterAction} (requested : operation.request = .action action)
    (ordered : Lifecycle.isTransition action = true)
    (forbidden : action ∉ EcatController.allowedActions i.controller.state)
    {state : MasterRuntimeState} (seen : Seen operation i state) :
    state = action.announces (toMasterRuntimeState i.controller.state) ∨
      state = toMasterRuntimeState i.controller.state := by
  have performed := (perform_refused settled requested ordered forbidden).2
  cases seen with
  | before => exact .inr (currentRuntimeState_of_settled settled)
  | during other again c =>
    obtain rfl : action = other := by
      rw [requested] at again
      exact Lifecycle.Request.action.inj again
    exact .inl (shown_during settled operation action c)
  | delivered state news grown told =>
    rw [performed] at grown
    have added : news = i.hears (action.announces (toMasterRuntimeState i.controller.state)) ++
        i.hears (toMasterRuntimeState i.controller.state) := by
      simpa using grown.symm
    subst added
    rcases List.mem_append.mp told with first | last
    · exact .inl (of_mem_hears first)
    · exact .inr (of_mem_hears last)
  | after =>
    obtain ⟨platform, logger, same⟩ := prepared_after operation i
    have stays := (perform_move i settled operation).2
    rw [currentRuntimeState_of_settled stays, performed, same]
    exact .inr rfl

/-- So no observer of a refused call sees another mode exactly when its announcement has
the mode of the state. -/
theorem shows_actual_mode_iff {i : Impl β} (settled : Settled i) {operation : MasterOperation}
    {action : MasterAction} (requested : operation.request = .action action)
    (ordered : Lifecycle.isTransition action = true)
    (forbidden : action ∉ EcatController.allowedActions i.controller.state) :
    ShowsActualMode operation i ↔
      (action.announces (toMasterRuntimeState i.controller.state)).mode =
        (toMasterRuntimeState i.controller.state).mode := by
  constructor
  · intro actual
    have mode := actual _ (.during action requested i.controller)
    rwa [shown_during settled operation action] at mode
  · intro fits state seen
    rcases seen_refused settled requested ordered forbidden seen with rfl | rfl
    · exact fits
    · rfl

/-- In every reachable state, no observer of a refused lifecycle call sees a mode other
than the actual one exactly when what the call announces fits the state. -/
theorem refused_mode_iff (platform : β) (onStateChanged onRuntimeStateChanged : Bool)
    (operations : List MasterOperation) (operation : MasterOperation) :
    let i := Runs.final perform (constructed platform onStateChanged onRuntimeStateChanged)
      operations
    Refuses i operation →
      (ShowsActualMode operation i ↔ AnnouncesActualMode i.controller.state operation) := by
  intro i
  rintro ⟨action, requested, ordered, forbidden⟩
  have settled : Settled i :=
    settled_operations platform onStateChanged onRuntimeStateChanged operations
  exact (shows_actual_mode_iff settled requested ordered forbidden).trans
    (announces_mode_iff requested ordered _ forbidden)

/-- Preparing a run right after the adapter was opened is announced in the actual mode. -/
theorem refused_mode_bench :
    ShowsActualMode .prepareRun
      (Runs.final perform (constructed ({} : Bench) true true) [.initializeAdapter {}]) :=
  (refused_mode_iff ({} : Bench) true true [.initializeAdapter {}] .prepareRun
    ⟨.prepareRun, rfl, rfl, by decide⟩).mpr (.inl (by decide))

/-- A scan during an emergency stop is refused, and yet shown as a preparation. -/
theorem refused_mode_misreported :
    Refuses (Runs.final perform (constructed ({} : Bench) true true) [.requestEmergencyStop])
        .scan ∧
      ¬ShowsActualMode .scan
        (Runs.final perform (constructed ({} : Bench) true true) [.requestEmergencyStop]) := by
  refine ⟨⟨.scanSlaves, rfl, rfl, by decide⟩, fun actual => ?_⟩
  have mode := actual ⟨.prepare, .entering, .topologyDiscovered⟩
    (.delivered _ [.runtimeStateChanged ⟨.prepare, .entering, .topologyDiscovered⟩,
      .runtimeStateChanged ⟨.emergencyStop, .stable, .none⟩] (by decide) (by decide))
  revert mode
  decide

end Impl

end MoEcat
