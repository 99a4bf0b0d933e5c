import MoEcat.SystemRuns
import MoEcat.Bench

/-!
# The emergency stop as a latch

An emergency stop should last until the caller stops the master explicitly. The table
of admitted actions says so, but a fault request bypasses the table, and a failed
activity may request a fault or a stop of its own. Those calls, and no others, release
the latch.
-/

namespace MoEcat

/-- An explicit stop by the caller, of the master or of the controller behind it. -/
def Call.isStop : Call → Bool
  | .operation .stop | .controller .stop => true
  | _ => false

/-- The calls that lead out of an emergency stop without being explicit stops: a fault
request, and the failure of an activity whose policy requests a fault or a stop. -/
def Call.releasesLatch : Call → Bool
  | .operation .requestFault | .controller .requestFault => true
  | .activity false .enterError | .activity false .shutdown => true
  | _ => false

namespace Lifecycle

/-- Where a request leads from an emergency stop. -/
def fromEmergencyStop : Request → ControllerState
  | .action .stop => .uninitialized
  | .action .requestFault => .fault
  | _ => .emergencyStop

/-- From an emergency stop the request alone determines the next state: the table admits
only a stop, and the requests that bypass it set the state that they name. -/
theorem Move.of_emergencyStop {a b : State} {request : Request} {success : Bool}
    (latched : a.state = .emergencyStop) (move : Move a ⟨request, success⟩ b) :
    b.state = fromEmergencyStop request := by
  cases move with
  | refused action ordered forbidden =>
    rw [latched]
    cases action <;> first | rfl | cases ordered
  | stopped active marks rollback => rfl
  | faulted snapshot accesses => rfl
  | emergencyStopped snapshot accesses => rfl
  | unserved quiet => exact latched
  | accessed success marks accesses => exact latched
  | adapterFailed held | adapterReady held | idle held => simp [latched] at held
  | scanFailed held | scanned held | enterFailed held | entered held => simp [latched] at held
  | prepareFailed held | prepared held | startFailed held | started held =>
    simp [latched] at held
  | backFailed held | backed held => simp [latched] at held
  | maintained held supervision | cycled held supervision => simp [latched] at held

end Lifecycle

variable {β : Type} [Platform β]

/-- The convenience operation is refused in an emergency stop; every other operation of
the controller leads where its one request leads. -/
theorem EcatController.perform_of_emergencyStop (operation : ControllerOperation)
    (c : EcatController β) (latched : c.state = .emergencyStop) :
    ((perform operation).after c).state =
      match singleRequest operation with
      | some action => Lifecycle.fromEmergencyStop (.action action)
      | none => .emergencyStop := by
  cases single : singleRequest operation with
  | some action =>
    have move := perform_move operation action single c
    exact move.of_emergencyStop latched
  | none =>
    cases operation <;> cases single
    rename_i config
    rcases initializeController_spec config c with ⟨-, -, same⟩ | ⟨idle, -⟩
    · have performed : (perform (.initializeController config)).after c = c := same
      rw [performed]
      exact latched
    · simp [latched] at idle

namespace Impl

/-- A single call leaves an emergency stop exactly when it is an explicit stop or one of
the releasing calls. -/
theorem handle_latched_iff (i : Impl β) (settled : Settled i)
    (latched : i.controller.state = .emergencyStop) (call : Call) :
    ((handle call).after i).controller.state = .emergencyStop ↔
      call.isStop = false ∧ call.releasesLatch = false := by
  cases call with
  | operation operation =>
    have move := (perform_move i settled operation).1
    have reached : ((handle (.operation operation)).after i).controller.state =
        Lifecycle.fromEmergencyStop operation.request := move.of_emergencyStop latched
    rw [reached]
    cases operation <;> simp [MasterOperation.request, Lifecycle.fromEmergencyStop,
      Call.isStop, Call.releasesLatch]
  | controller operation =>
    have reached : ((handle (.controller operation)).after i).controller.state = _ :=
      EcatController.perform_of_emergencyStop operation i.controller latched
    rw [reached]
    cases operation <;> simp [EcatController.singleRequest, Lifecycle.fromEmergencyStop,
      Call.isStop, Call.releasesLatch]
  | activity ok policy =>
    have reached : ((handle (.activity ok policy)).after i).controller.state =
        ((ActivityScheduler.completeActivity ok policy).after i.controller).state := rfl
    have faults : (EcatController.requestFault.after i.controller).state = .fault :=
      (EcatController.requestFault_move i.controller).of_emergencyStop latched
    have stops : (EcatController.stop.after i.controller).state = .uninitialized :=
      (EcatController.stop_move i.controller).of_emergencyStop latched
    rw [reached]
    cases ok <;> cases policy <;>
      simp [ActivityScheduler.completeActivity, faults, stops, latched, Call.isStop,
        Call.releasesLatch]

/-- An explicit stop ends an emergency stop in Uninitialized. -/
theorem handle_stop (i : Impl β) (settled : Settled i)
    (latched : i.controller.state = .emergencyStop) (call : Call) (stop : call.isStop = true) :
    ((handle call).after i).controller.state = .uninitialized := by
  cases call with
  | operation operation =>
    cases operation <;> cases stop
    exact (perform_move i settled .stop).1.of_emergencyStop latched
  | controller operation =>
    cases operation <;> cases stop
    exact EcatController.perform_of_emergencyStop .stop i.controller latched
  | activity ok policy => cases stop

/-- The emergency stop holds through a list of calls, and an explicit stop after them
leads to Uninitialized. -/
def LatchHolds (i : Impl β) (calls : List Call) : Prop :=
  (∀ entry ∈ Runs.history handle i calls, entry.after.controller.state = .emergencyStop) ∧
    ∀ call : Call, call.isStop = true →
      ((handle call).after (Runs.final handle i calls)).controller.state = .uninitialized

/-- The induction follows the calls: as long as none releases the latch, the next one
again finds an emergency stop. -/
theorem latchHolds_iff (i : Impl β) (settled : Settled i)
    (latched : i.controller.state = .emergencyStop) (calls : List Call)
    (noStop : ∀ call ∈ calls, call.isStop = false) :
    LatchHolds i calls ↔ ∀ call ∈ calls, call.releasesLatch = false := by
  induction calls generalizing i with
  | nil => simpa [LatchHolds] using handle_stop i settled latched
  | cons call rest inductionHypothesis =>
    have next := handle_latched_iff i settled latched call
    have settledNext := (handle_path i settled call).2
    obtain ⟨notStop, noStopLater⟩ := List.forall_mem_cons.mp noStop
    by_cases releases : call.releasesLatch = false
    · have stays := next.mpr ⟨notStop, releases⟩
      have later := inductionHypothesis _ settledNext stays noStopLater
      have unfolded : LatchHolds i (call :: rest) ↔ LatchHolds ((handle call).after i) rest := by
        simp only [LatchHolds, Runs.history, Runs.turn, List.forall_mem_cons, stays, true_and]
        rfl
      rw [unfolded, later, List.forall_mem_cons]
      exact ⟨fun quiet => ⟨releases, quiet⟩, And.right⟩
    · have left : ¬LatchHolds i (call :: rest) := by
        intro holds
        exact releases (next.mp (holds.1 _ List.mem_cons_self)).2
      exact ⟨fun holds => absurd holds left,
        fun quiet => absurd (quiet call List.mem_cons_self) releases⟩

/-- Whenever a run has reached an emergency stop, that state lasts through all further
calls without an explicit stop exactly when none of them is a fault request or the
failure of an activity that requests a fault or a stop. -/
theorem emergencyStop_latched_iff (platform : β) (onStateChanged onRuntimeStateChanged : Bool)
    (before calls : List Call)
    (latched : (Runs.final handle (constructed platform onStateChanged onRuntimeStateChanged)
      before).controller.state = .emergencyStop)
    (noStop : ∀ call ∈ calls, call.isStop = false) :
    LatchHolds (Runs.final handle (constructed platform onStateChanged onRuntimeStateChanged)
        before) calls ↔
      ∀ call ∈ calls, call.releasesLatch = false :=
  latchHolds_iff _ (settled_final platform onStateChanged onRuntimeStateChanged before) latched
    calls noStop

/-- An emergency stop on an empty bench outlives lifecycle calls, the service and an
activity that fails without consequences. -/
theorem emergencyStop_latched_bench :
    LatchHolds
      (Runs.final handle (constructed ({} : Bench) false false) [.operation .requestEmergencyStop])
      [.operation (.initializeAdapter {}), .operation .service,
        .activity false .keepControllerState] :=
  (emergencyStop_latched_iff ({} : Bench) false false [.operation .requestEmergencyStop]
    [.operation (.initializeAdapter {}), .operation .service, .activity false .keepControllerState]
    (by decide) (by decide)).mpr (by decide)

/-- A fault request turns an emergency stop into a fault, and so does the failure of an
activity whose policy is to enter the fault. -/
theorem emergencyStop_not_latched :
    ¬LatchHolds
        (Runs.final handle (constructed ({} : Bench) false false)
          [.operation .requestEmergencyStop])
        [.operation .requestFault] ∧
      ¬LatchHolds
        (Runs.final handle (constructed ({} : Bench) false false)
          [.operation .requestEmergencyStop])
        [.activity false .enterError] := by
  constructor
  · intro holds
    exact absurd (holds.1 _ List.mem_cons_self) (by decide)
  · intro holds
    exact absurd (holds.1 _ List.mem_cons_self) (by decide)

end Impl

end MoEcat
