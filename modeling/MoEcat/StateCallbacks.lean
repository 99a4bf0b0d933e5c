import MoEcat.Notifications
import MoEcat.Bench

/-!
# The chain of state changes

An observer of the state-change callback is given pairs of an old and a new state. It
follows the master when the pairs form a chain that starts in Uninitialized, never
repeats a state and ends in the present one. Only the service reports a change, so the
chain is kept exactly as long as the state does not move at all.
-/

namespace MoEcat

variable {β : Type}

/-- The pair of a state-change notification. -/
def Notification.stateChange : Notification → Option (MasterState × MasterState)
  | .stateChanged old new => some (old, new)
  | .runtimeStateChanged _ => none

/-- The pairs form a chain of proper changes from the first state to the last. -/
def Follows : MasterState → List (MasterState × MasterState) → MasterState → Prop
  | first, [], last => first = last
  | first, (old, new) :: rest, last => first = old ∧ old ≠ new ∧ Follows new rest last

namespace Impl

/-- The state changes delivered so far, in order. -/
def stateChanges (i : Impl β) : List (MasterState × MasterState) :=
  i.delivered.filterMap Notification.stateChange

/-- The observer of state changes knows the present state, and has seen every change. -/
def FollowedByObserver (i : Impl β) : Prop :=
  Follows .uninitialized i.stateChanges i.getState

/-- A runtime state is no state change. -/
theorem stateChanges_hears (i : Impl β) (state : MasterRuntimeState) :
    (i.hears state).filterMap Notification.stateChange = [] := by
  by_cases set : i.onRuntimeStateChanged = true <;> simp [hears, set, Notification.stateChange]

variable [Platform β]

/-- What `ecx_init` answers when the adapter is opened in this state of the master,
after the log sinks have been switched. -/
def adapterAnswer (config : EcMasterConfig) (i : Impl β) : Int :=
  let m := ((configureLogSink config).after i).controller.master
  (Platform.soem (.init config.ifname) m.ctx m.platform).1.result

/-- An operation that does not move a master out of Uninitialized. -/
def StaysUninitialized (i : Impl β) : MasterOperation → Prop
  | .initializeAdapter config => adapterAnswer config i = 0
  | .requestFault | .requestEmergencyStop => False
  | _ => True

end Impl

/-- Only an opening and the two unconditional requests lead out of Uninitialized. -/
theorem Lifecycle.Move.stays_uninitialized {a b : State} {label : Label}
    (move : Move a label b) (vacant : a.state = .uninitialized)
    (opens : label.request ≠ .action .initializeAdapter)
    (faults : label.request ≠ .action .requestFault)
    (stops : label.request ≠ .action .requestEmergencyStop) : b.state = .uninitialized := by
  cases move <;> simp_all [State.emit]

namespace Impl

variable [Platform β]

/-- A framed operation reports no state change, whatever it does. -/
theorem stateChanges_framed {operation : MasterOperation} {action : MasterAction}
    (requested : operation.request = .action action) {i : Impl β} (settled : Settled i) :
    ((perform operation).after i).stateChanges = i.stateChanges := by
  obtain ⟨inner, framed⟩ := MasterOperation.framed_request requested
  rw [(perform_delivers framed requested settled).2]
  simp only [stateChanges, List.filterMap_append, stateChanges_hears, List.append_nil]

/-- Exactly the operations that stay in Uninitialized leave the state there. -/
theorem perform_stays_iff (i : Impl β) (settled : Settled i)
    (idle : i.controller.state = .uninitialized) (operation : MasterOperation) :
    ((perform operation).after i).controller.state = .uninitialized ↔
      StaysUninitialized i operation := by
  have move := (perform_move i settled operation).1
  cases operation with
  | initializeAdapter config =>
    obtain ⟨platform, logger, same⟩ := configureLogSink_after config i
    have performed : ((perform (.initializeAdapter config)).after i).controller =
        (EcatController.initializeAdapter config).after
          ((configureLogSink config).after i).controller := controller_transition ..
    have still : ((configureLogSink config).after i).controller.state = .uninitialized := by
      rw [same]
      exact idle
    rw [performed, StaysUninitialized, adapterAnswer]
    rcases EcatController.initializeAdapter_spec config
        ((configureLogSink config).after i).controller with
      ⟨busy, -⟩ | ⟨-, refused, -, after⟩ | ⟨-, opened, -, after⟩
    · exact absurd still busy
    · rw [after]
      exact ⟨fun _ => refused, fun _ => still⟩
    · rw [after]
      exact ⟨fun left => (by cases left), fun refused => absurd refused opened⟩
  | requestFault =>
    obtain ⟨m, faulted, -⟩ := EcatController.enterFault_after i.controller
    have performed : ((perform .requestFault).after i).controller =
        EcatController.enterFault.after i.controller := controller_transition ..
    rw [performed, faulted]
    simp [StaysUninitialized]
  | requestEmergencyStop =>
    obtain ⟨m, stopped, -⟩ := EcatController.enterEmergencyStop_after i.controller
    have performed : ((perform .requestEmergencyStop).after i).controller =
        EcatController.enterEmergencyStop.after i.controller := controller_transition ..
    rw [performed, stopped]
    simp [StaysUninitialized]
  | _ =>
    exact iff_of_true (move.stays_uninitialized idle (by simp [MasterOperation.request])
      (by simp [MasterOperation.request]) (by simp [MasterOperation.request])) trivial

/-- A master that has never left Uninitialized, with nothing reported. -/
def Untouched (i : Impl β) : Prop :=
  Settled i ∧ i.controller.state = .uninitialized ∧ i.stateChanges = []

/-- From there no single operation reports a change. -/
theorem stateChanges_untouched (i : Impl β) (untouched : Untouched i)
    (operation : MasterOperation) : ((perform operation).after i).stateChanges = [] := by
  obtain ⟨settled, idle, silent⟩ := untouched
  cases requested : operation.request with
  | action action => rw [stateChanges_framed requested settled, silent]
  | service =>
    obtain rfl := MasterOperation.eq_service requested
    have quiet : (serviceEngine.after i).controller = i.controller := by
      cases (serviceEngine_served i settled).1 with
      | idle _ same => exact same
      | maintained held => simp [idle] at held
      | cycled held => simp [idle] at held
    have news : serviceNews i (serviceEngine.after i) = [] := by
      rw [serviceNews, if_pos]
      rw [getState, getState, quiet]
    rw [perform_service, service_delivers, news, List.append_nil]
    exact silent
  | access =>
    obtain ⟨m, same, -⟩ := perform_access requested i
    rw [same]
    exact silent

/-- In a run with the state callback set from the start, the observer follows the
master after every operation exactly when the master never leaves Uninitialized: no
fault and no emergency stop is requested, and no opening of the adapter succeeds. -/
theorem state_changes_followed_iff (platform : β) (onRuntimeStateChanged : Bool)
    (operations : List MasterOperation) :
    let start := constructed platform true onRuntimeStateChanged
    (∀ first rest, operations = first ++ rest →
        FollowedByObserver (Runs.final perform start first)) ↔
      ∀ entry ∈ Runs.history perform start operations,
        StaysUninitialized entry.before entry.operation := by
  intro start
  have initial : Untouched start := ⟨rfl, rfl, rfl⟩
  refine Runs.holds_throughout_iff perform start Untouched FollowedByObserver StaysUninitialized
    ?_ ?_ ?_ initial operations
  · rintro i ⟨-, idle, silent⟩
    rw [FollowedByObserver, silent, getState, idle]
    rfl
  · intro i operation untouched stays
    obtain ⟨settled, idle, silent⟩ := untouched
    exact ⟨(perform_move i settled operation).2,
      (perform_stays_iff i settled idle operation).mpr stays,
      stateChanges_untouched i ⟨settled, idle, silent⟩ operation⟩
  · intro i operation untouched moves followed
    rw [FollowedByObserver, stateChanges_untouched i untouched operation] at followed
    have still : toMasterState .uninitialized =
        toMasterState ((perform operation).after i).controller.state := followed
    exact moves ((perform_stays_iff i untouched.1 untouched.2.1 operation).mp
      (toMasterState_injective _ _ still).symm)

/-- Opening the adapter is not reported: the observer still believes in Uninitialized. -/
theorem state_change_unreported :
    ¬FollowedByObserver (Runs.final perform (constructed ({} : Bench) true true)
      [.initializeAdapter {}]) := by
  intro followed
  have silent : (Runs.final perform (constructed ({} : Bench) true true)
      [.initializeAdapter {}]).stateChanges = [] := by decide
  have opened : (Runs.final perform (constructed ({} : Bench) true true)
      [.initializeAdapter {}]).getState = .adapterReady := by decide
  rw [FollowedByObserver, silent, opened] at followed
  cases followed

end Impl

end MoEcat
