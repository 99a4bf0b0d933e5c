import MoEcat.MasterRefinement

/-!
# Runs of the whole system

A call reaches the system through the public master, through the controller directly,
or through the scheduler when an activity ends. Runs are lists of calls in any order,
from construction. Each call is a path of the lifecycle: one transition, except for the
controller's convenience operation, which is three, and an activity that ends without
consequences, which is none.
-/

namespace MoEcat

variable {β : Type}

/-- What can happen to the system from outside. -/
inductive Call where
  | operation (operation : MasterOperation)
  | controller (operation : ControllerOperation)
  | activity (ok : Bool) (policy : ActivityFailurePolicy)
deriving DecidableEq, Repr

/-- A master as constructed, with the world it will act on and the callbacks that its
owner has set. -/
def Impl.constructed (platform : β) (onStateChanged onRuntimeStateChanged : Bool) : Impl β :=
  { Impl.fresh platform with
    onStateChanged := onStateChanged, onRuntimeStateChanged := onRuntimeStateChanged }

/-- A fresh master has settled. -/
theorem Impl.settled_constructed (platform : β) (onStateChanged onRuntimeStateChanged : Bool) :
    Settled (constructed platform onStateChanged onRuntimeStateChanged) := rfl

variable [Platform β]

/-- Answer one call. -/
def Impl.handle : Call → Program (Impl β) Bool
  | .operation operation => perform operation
  | .controller operation => onController (EcatController.perform operation)
  | .activity ok policy => do
    onController (ActivityScheduler.completeActivity ok policy)
    return ok

open Lifecycle (Move Label)

namespace EcatController

/-- Each controller operation but the convenience one is a single transition. -/
def singleRequest : ControllerOperation → Option MasterAction
  | .initializeController _ => none
  | .initializeAdapter _ => some .initializeAdapter
  | .scan => some .scanSlaves
  | .enterMaintenance => some .enterMaintenance
  | .prepareRun => some .prepareRun
  | .startOperation => some .startOperation
  | .backToMaintenance => some .backToMaintenance
  | .stop => some .stop
  | .requestFault => some .requestFault
  | .requestEmergencyStop => some .requestEmergencyStop

/-- An operation that stands for one action is one move of the lifecycle. -/
theorem perform_move (operation : ControllerOperation) (action : MasterAction)
    (single : singleRequest operation = some action) (c : EcatController β) :
    Move (abstraction c) ⟨.action action, (perform operation).result c⟩
      (abstraction ((perform operation).after c)) := by
  cases operation <;> cases single
  · exact initializeAdapter_move _ c
  · exact scan_move c
  · exact enterMaintenance_move c
  · exact prepareRun_move c
  · exact startOperation_move c
  · exact backToMaintenance_move c
  · exact stop_move c
  · exact requestFault_move c
  · exact requestEmergencyStop_move c

/-- The convenience operation is refused outside Uninitialized; otherwise it opens the
adapter, scans and enters Maintenance, each only if the step before succeeded. -/
theorem initializeController_spec (config : EcMasterConfig) (c : EcatController β) :
    (c.state ≠ .uninitialized ∧ (initializeController config).result c = false ∧
      (initializeController config).after c = c) ∨
    (c.state = .uninitialized ∧
      let opened := (initializeAdapter config).after c
      let found := scan.after opened
      ((initializeAdapter config).result c = false ∧
        (initializeController config).result c = false ∧
        (initializeController config).after c = opened) ∨
      ((initializeAdapter config).result c = true ∧ scan.result opened = false ∧
        (initializeController config).result c = false ∧
        (initializeController config).after c = found) ∨
      ((initializeAdapter config).result c = true ∧ scan.result opened = true ∧
        (initializeController config).result c = enterMaintenance.result found ∧
        (initializeController config).after c = enterMaintenance.after found)) := by
  by_cases idle : c.state = .uninitialized
  · refine .inr ⟨idle, ?_⟩
    by_cases opens : (initializeAdapter config).result c = true
    · by_cases scans : scan.result ((initializeAdapter config).after c) = true
      · refine .inr (.inr ?_)
        simp [initializeController, idle, opens, scans]
      · refine .inr (.inl ?_)
        simp [initializeController, idle, opens, scans]
    · refine .inl ?_
      simp [initializeController, idle, opens]
  · refine .inl ⟨idle, ?_⟩
    simp [initializeController, idle]

/-- The convenience operation is a path of up to three transitions. -/
theorem initializeController_path (config : EcMasterConfig) (c : EcatController β) :
    ∃ past, Runs.Path Move (abstraction c) past
      (abstraction ((initializeController config).after c)) := by
  have opening := Runs.Path.start.extend (initializeAdapter_move config c)
  have scanning := opening.extend (scan_move ((initializeAdapter config).after c))
  have entering := scanning.extend (enterMaintenance_move _)
  rcases initializeController_spec config c with
    ⟨-, -, same⟩ | ⟨-, ⟨-, -, same⟩ | ⟨-, -, -, same⟩ | ⟨-, -, -, same⟩⟩
  · exact ⟨[], by rw [same]; exact .start⟩
  · exact ⟨_, by rw [same]; exact opening⟩
  · exact ⟨_, by rw [same]; exact scanning⟩
  · exact ⟨_, by rw [same]; exact entering⟩

/-- Every operation of the controller is a path of moves. Only the way from construction to
Maintenance is more than one. -/
theorem perform_path (operation : ControllerOperation) (c : EcatController β) :
    ∃ past, Runs.Path Move (abstraction c) past (abstraction ((perform operation).after c)) := by
  cases single : singleRequest operation with
  | some action => exact ⟨_, Runs.Path.start.extend (perform_move operation action single c)⟩
  | none =>
    cases operation <;> cases single
    exact initializeController_path _ c

/-- The end of an activity is a fault request, a stop, or nothing. -/
theorem completeActivity_path (ok : Bool) (policy : ActivityFailurePolicy)
    (c : EcatController β) :
    ∃ past, Runs.Path Move (abstraction c) past
      (abstraction ((ActivityScheduler.completeActivity ok policy).after c)) := by
  cases ok with
  | true => exact ⟨[], .start⟩
  | false =>
    cases policy with
    | keepControllerState => exact ⟨[], .start⟩
    | enterError => exact ⟨_, Runs.Path.start.extend (requestFault_move c)⟩
    | shutdown => exact ⟨_, Runs.Path.start.extend (stop_move c)⟩

end EcatController

namespace Impl

/-- Every call is a path of the lifecycle and leaves the master settled. -/
theorem handle_path (i : Impl β) (settled : Settled i) (call : Call) :
    (∃ past, Runs.Path Move (abstraction i) past (abstraction ((handle call).after i))) ∧
      Settled ((handle call).after i) := by
  cases call with
  | operation operation =>
    obtain ⟨move, stays⟩ := perform_move i settled operation
    exact ⟨⟨_, Runs.Path.start.extend move⟩, stays⟩
  | controller operation => exact ⟨EcatController.perform_path operation i.controller, settled⟩
  | activity ok policy =>
    exact ⟨EcatController.completeActivity_path ok policy i.controller, settled⟩

section Runs

variable (platform : β) (onStateChanged onRuntimeStateChanged : Bool)

/-- After every run of calls from construction the master is settled. -/
theorem settled_final (calls : List Call) :
    Settled (Runs.final handle (constructed platform onStateChanged onRuntimeStateChanged) calls) :=
  Runs.final_invariant handle _ Settled
    (fun i call settled => (handle_path i settled call).2) (settled_constructed ..) calls

/-- The same after every run of public operations. -/
theorem settled_operations (operations : List MasterOperation) :
    Settled (Runs.final perform
      (constructed platform onStateChanged onRuntimeStateChanged) operations) :=
  Runs.final_invariant perform _ Settled
    (fun i operation settled => (perform_move i settled operation).2) (settled_constructed ..)
    operations

/-- Every run of calls from construction is a path of the lifecycle. -/
theorem path_of_calls (calls : List Call) :
    ∃ past, Runs.Path Move {} past
      (abstraction
        (Runs.final handle (constructed platform onStateChanged onRuntimeStateChanged) calls)) :=
  Runs.path_of_paths handle _ Move abstraction Settled (fun _ _ => True)
    (fun i call settled => (handle_path i settled call).2)
    (fun i call settled _ => (handle_path i settled call).1) (settled_constructed ..) calls
    (fun _ _ => trivial)

/-- Every run of public operations from construction is a path of the lifecycle with
one transition for each operation. -/
theorem path_of_operations (operations : List MasterOperation) :
    let start := constructed platform onStateChanged onRuntimeStateChanged
    Runs.Path Move {}
      ((Runs.history perform start operations).map
        (fun entry => (⟨entry.operation.request, entry.outcome⟩, abstraction entry.after)))
      (abstraction (Runs.final perform start operations)) :=
  Runs.path_of_refinement perform (constructed platform onStateChanged onRuntimeStateChanged)
    Move abstraction (fun entry => ⟨entry.operation.request, entry.outcome⟩) Settled
    (fun i operation settled => (perform_move i settled operation).2)
    (fun i operation settled => (perform_move i settled operation).1) rfl operations

end Runs

end Impl

end MoEcat
