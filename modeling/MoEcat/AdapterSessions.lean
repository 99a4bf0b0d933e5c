import MoEcat.SystemRuns
import Mathlib.Data.List.Chain

/-!
# Sessions of the adapter

The adapter is opened and released in strict alternation, and what the controller holds
in each stable state follows from that state: Uninitialized holds neither the adapter
nor nodes, and every state between AdapterReady and Operational holds the adapter. From
this follow the outcomes of every operation.
-/

namespace MoEcat

/-- Marks that begin or end a session. -/
def Mark.isSession : Mark → Bool
  | .opened | .released => true
  | _ => false

namespace Lifecycle

/-- The openings and releases of a record, in order. -/
def sessions (log : List Mark) : List Mark := log.filter Mark.isSession

/-- Openings and releases alternate, starting with an opening. -/
def Alternates (log : List Mark) : Prop :=
  (Mark.released :: sessions log).IsChain (· ≠ ·)

/-- What is held in each stable state. After a fault nothing is promised. -/
def Resources (a : State) : Prop :=
  match a.state with
  | .uninitialized => a.isOpen = false ∧ a.nodes = []
  | .adapterReady | .scanned => a.isOpen = true ∧ a.nodes = []
  | .maintenance => a.isOpen = true ∧ a.nodes.map Prod.fst = a.scanned
  | .readyToRun | .operational =>
    a.isOpen = true ∧ a.nodes.map Prod.fst = a.scanned ∧ ∀ node ∈ a.nodes, node.2 = true
  | .fault | .emergencyStop => True

/-- The openings and releases of a record are those of its parts. -/
theorem sessions_append (first second : List Mark) :
    sessions (first ++ second) = sessions first ++ sessions second :=
  List.filter_append ..

/-- Negotiation happens within a session. -/
theorem sessions_negotiation {marks : List Mark} (negotiation : Negotiation marks) :
    sessions marks = [] := by
  rw [sessions, List.filter_eq_nil_iff]
  intro mark member
  have kind := negotiation mark member
  cases mark <;> simp_all [Mark.isNegotiation, Mark.isSession]

/-- So does a cycle. -/
theorem sessions_cycleMarks (a : State) : sessions (cycleMarks a) = [] := by
  simp [sessions, cycleMarks, Mark.isSession, List.filter_eq_nil_iff]

/-- A rollback opens and releases just as its marks say. -/
theorem sessions_releasing (a : State) : sessions a.releasing = a.releasing := by
  unfold State.releasing
  split <;> rfl

/-- What a transition does to the adapter: it opens it, rolls back and gives it back,
or stays within the session. -/
inductive AdapterEffect (a b : State) : Prop
  | opens (vacant : a.state = .uninitialized) (held : b.isOpen = true)
      (grown : b.log = a.log ++ [.opened])
  | releases (rollback : List Mark) (negotiation : Negotiation rollback)
      (vacant : b.state = .uninitialized) (given : b.isOpen = false)
      (grown : b.log = a.log ++ rollback ++ a.releasing)
  | keeps (marks : List Mark) (inside : sessions marks = []) (same : b.isOpen = a.isOpen)
      (grown : b.log = a.log ++ marks)

/-- Doing nothing is an effect on the adapter. -/
theorem adapterEffect_refl (a : State) : AdapterEffect a a :=
  .keeps [] rfl rfl (by simp)

/-- Negotiating and entering a state leaves the adapter as it was. -/
theorem adapterEffect_emit (a : State) (marks : List Mark) (negotiation : Negotiation marks)
    (state : ControllerState) : AdapterEffect a ((a.emit marks).enter state) :=
  .keeps marks (sessions_negotiation negotiation) rfl rfl

/-- Negotiating and then releasing is the effect of a shutdown. -/
theorem adapterEffect_shutDown (a : State) (marks : List Mark) (negotiation : Negotiation marks) :
    AdapterEffect a (a.shutDown marks) :=
  .releases marks negotiation rfl rfl rfl

/-- A supervision leaves the adapter open or closed and only adds negotiation to the record.
-/
theorem Supervision.adapterEffect {expected : UInt16} {a b : State}
    (supervision : Supervision expected a b) :
    b.isOpen = a.isOpen ∧ ∃ marks, Negotiation marks ∧ b.log = a.log ++ marks := by
  cases supervision with
  | skipped => exact ⟨rfl, [], by simp [Negotiation], by simp⟩
  | present found all =>
    exact ⟨rfl, [.access, .checked expected found],
      by simp [Negotiation, Mark.isNegotiation], rfl⟩
  | absent found snapshot accesses =>
    exact ⟨rfl, _, (accesses.traffic.negotiation.cons rfl).cons rfl, rfl⟩

/-- Every transition has one of the three effects. -/
theorem Move.adapterEffect {a b : State} {label : Label} (move : Move a label b) :
    AdapterEffect a b := by
  cases move with
  | refused action ordered forbidden => exact adapterEffect_refl a
  | adapterFailed idle => exact adapterEffect_refl a
  | adapterReady idle => exact .opens idle rfl rfl
  | scanFailed ready infos =>
    exact .releases [.access] (by simp [Negotiation, Mark.isNegotiation]) rfl rfl rfl
  | scanned ready infos => exact .keeps [.access] rfl rfl rfl
  | enterFailed known attempt negotiation =>
    exact adapterEffect_shutDown a _ (negotiation.cons rfl)
  | entered known infos marks confirmed =>
    exact .keeps marks (sessions_negotiation confirmed.negotiation) rfl rfl
  | prepareFailed maintained attempt negotiation =>
    exact .keeps attempt (sessions_negotiation negotiation) rfl rfl
  | prepared maintained marks clocks confirmed traffic =>
    exact .keeps _ (sessions_negotiation
      ((confirmed.negotiation.append traffic.negotiation).cons rfl)) rfl rfl
  | startFailed ready attempt negotiation => exact adapterEffect_emit a _ negotiation _
  | started ready marks confirmed => exact adapterEffect_emit a _ confirmed.negotiation _
  | backFailed ready attempt negotiation => exact adapterEffect_emit a _ negotiation _
  | backed ready down marks negotiation confirmed =>
    exact adapterEffect_emit a _ (negotiation.append confirmed.negotiation) _
  | idle vacant => exact adapterEffect_refl a
  | stopped active marks rollback => exact adapterEffect_shutDown a _ rollback.negotiation
  | faulted snapshot accesses => exact adapterEffect_emit a _ accesses.traffic.negotiation _
  | emergencyStopped snapshot accesses =>
    exact adapterEffect_emit a _ accesses.traffic.negotiation _
  | unserved quiet => exact adapterEffect_refl a
  | maintained maintained supervision =>
    obtain ⟨same, marks, negotiation, grown⟩ := supervision.adapterEffect
    exact .keeps marks (sessions_negotiation negotiation) same grown
  | cycled operational supervision =>
    obtain ⟨same, marks, negotiation, grown⟩ := supervision.adapterEffect
    refine .keeps (cycleMarks a ++ marks) ?_ same ?_
    · rw [sessions_append, sessions_cycleMarks, sessions_negotiation negotiation]
      rfl
    · rw [grown]
      simp [State.emit]
  | accessed success marks accesses =>
    exact .keeps marks (sessions_negotiation accesses.traffic.negotiation) rfl rfl

/-- A record only grows. -/
theorem Move.log_grows {a b : State} {label : Label} (move : Move a label b) :
    ∃ marks, b.log = a.log ++ marks := by
  cases move.adapterEffect with
  | opens vacant held grown => exact ⟨_, grown⟩
  | releases rollback negotiation vacant given grown =>
    exact ⟨_, grown.trans (List.append_assoc ..)⟩
  | keeps marks inside same grown => exact ⟨_, grown⟩

/-! ## The two invariants -/

/-- A supervision keeps what the controller holds in line with its state. -/
theorem Supervision.resources {expected : UInt16} {a b : State}
    (supervision : Supervision expected a b) (resources : Resources a) : Resources b := by
  cases supervision with
  | skipped => exact resources
  | present found all => exact resources
  | absent found snapshot accesses => trivial

/-- A refusal, a step forward, a shutdown and a fault all leave exactly what the new
stable state promises. -/
theorem Move.resources {a b : State} {label : Label} (resources : Resources a)
    (move : Move a label b) : Resources b := by
  cases move with
  | refused action ordered forbidden => exact resources
  | adapterFailed idle => exact resources
  | adapterReady idle =>
    rw [Resources, idle] at resources
    exact ⟨rfl, resources.2⟩
  | scanFailed ready infos => exact ⟨rfl, rfl⟩
  | scanned ready infos =>
    rw [Resources, ready] at resources
    exact resources
  | enterFailed known attempt negotiation => exact ⟨rfl, rfl⟩
  | entered known infos marks confirmed =>
    rw [Resources, known] at resources
    exact ⟨resources.1, by simp [Function.comp_def]⟩
  | prepareFailed maintained attempt negotiation => trivial
  | prepared maintained marks clocks confirmed traffic =>
    rw [Resources, maintained] at resources
    refine ⟨resources.1, ?_, by simp [State.enter, State.emit, State.configureAll]⟩
    simpa [State.enter, State.emit, State.configureAll, Function.comp_def] using resources.2
  | startFailed ready attempt negotiation => trivial
  | started ready marks confirmed =>
    rw [Resources, ready] at resources
    exact resources
  | backFailed ready attempt negotiation => trivial
  | backed ready down marks negotiation confirmed =>
    rcases ready with ready | ready <;> rw [Resources, ready] at resources
    · exact ⟨resources.1, resources.2.1⟩
    · exact ⟨resources.1, resources.2.1⟩
  | idle vacant => exact resources
  | stopped active marks rollback => exact ⟨rfl, rfl⟩
  | faulted snapshot accesses => trivial
  | emergencyStopped snapshot accesses => trivial
  | unserved quiet => exact resources
  | maintained maintained supervision => exact supervision.resources resources
  | cycled operational supervision =>
    exact supervision.resources (a := a.emit (cycleMarks a)) resources
  | accessed success marks accesses => exact resources

/-- Openings and releases alternate, and the last of them tells whether the adapter is
held. -/
def SessionsKept (a : State) : Prop :=
  Alternates a.log ∧
    (Mark.released :: sessions a.log).getLast? = some (if a.isOpen then .opened else .released)

/-- A session mark that differs from the last one keeps the alternation. -/
theorem alternates_append {log marks : List Mark} {last next : Mark}
    (alternates : Alternates log)
    (ends : (Mark.released :: sessions log).getLast? = some last) (differs : last ≠ next)
    (grown : sessions marks = [next]) :
    Alternates (log ++ marks) ∧
      (Mark.released :: sessions (log ++ marks)).getLast? = some next := by
  have extended : Mark.released :: sessions (log ++ marks) =
      (Mark.released :: sessions log) ++ [next] := by
    rw [sessions_append, grown, List.cons_append]
  rw [Alternates, extended]
  refine ⟨List.isChain_append.mpr ⟨alternates, .singleton next, ?_⟩, List.getLast?_concat⟩
  intro previous member other head
  rw [ends, Option.mem_some_iff] at member
  rw [List.head?_cons, Option.mem_some_iff] at head
  subst member head
  exact differs

/-- An opening happens only while the adapter is free and a release only while it is
held, so the alternation goes on. -/
theorem Move.sessionsKept {a b : State} {label : Label} (resources : Resources a)
    (kept : SessionsKept a) (move : Move a label b) : SessionsKept b := by
  obtain ⟨alternates, ends⟩ := kept
  cases move.adapterEffect with
  | opens vacant held grown =>
    rw [Resources, vacant] at resources
    rw [resources.1] at ends
    rw [SessionsKept, grown, held]
    exact alternates_append alternates ends (by decide) rfl
  | releases rollback negotiation vacant given grown =>
    have quiet := sessions_negotiation negotiation
    rw [SessionsKept, grown, given, List.append_assoc]
    cases held : a.isOpen with
    | true =>
      rw [held] at ends
      apply alternates_append alternates ends (by decide)
      rw [sessions_append, quiet, sessions_releasing, State.releasing, held]
      rfl
    | false =>
      rw [held] at ends
      have unchanged : sessions (a.log ++ (rollback ++ a.releasing)) = sessions a.log := by
        rw [sessions_append, sessions_append, quiet, sessions_releasing, State.releasing, held]
        exact List.append_nil _
      rw [Alternates, unchanged]
      exact ⟨alternates, ends⟩
  | keeps marks inside same grown =>
    have unchanged : sessions b.log = sessions a.log := by
      rw [grown, sessions_append, inside, List.append_nil]
    rw [SessionsKept, Alternates, unchanged, same]
    exact ⟨alternates, ends⟩

/-- A fresh controller holds nothing and has opened nothing. -/
theorem kept_initial : Resources {} ∧ SessionsKept {} :=
  ⟨⟨rfl, rfl⟩, .singleton _, rfl⟩

/-- Both invariants hold along every path from construction. -/
theorem kept_of_path {past : List (Label × State)} {a : State}
    (path : Runs.Path Move {} past a) : Resources a ∧ SessionsKept a := by
  refine path.preserves (fun a => Resources a ∧ SessionsKept a) kept_initial ?_
  rintro a label b ⟨resources, kept⟩ move
  exact ⟨move.resources resources, move.sessionsKept resources kept⟩

/-! ## Outcomes -/

/-- The stable state that an action leads to when it succeeds. -/
def target : MasterAction → ControllerState
  | .initializeAdapter => .adapterReady
  | .scanSlaves => .scanned
  | .enterMaintenance => .maintenance
  | .prepareRun => .readyToRun
  | .startOperation => .operational
  | .backToMaintenance => .maintenance
  | .stop => .uninitialized
  | .requestFault => .fault
  | .requestEmergencyStop => .emergencyStop

/-- Fault and emergency requests are accepted everywhere, the rest by the table. -/
def Accepted (state : ControllerState) (action : MasterAction) : Prop :=
  action = .requestFault ∨ action = .requestEmergencyStop ∨
    action ∈ EcatController.allowedActions state

/-- The two outcomes of an accepted action: success in its target state, or a failure
that ends in Uninitialized before Maintenance and in Fault with an open adapter after. -/
def Outcome (action : MasterAction) (success : Bool) (state : ControllerState) (isOpen : Bool) :
    Prop :=
  success = true ∧ state = target action ∨
    success = false ∧
      match action with
      | .initializeAdapter | .scanSlaves | .enterMaintenance => state = .uninitialized
      | .prepareRun | .startOperation | .backToMaintenance => state = .fault ∧ isOpen = true
      | .stop | .requestFault | .requestEmergencyStop => False

/-- An accepted action has one of its two outcomes. The cases are those of the transition. -/
theorem Move.outcome {a b : State} {action : MasterAction} {success : Bool}
    (resources : Resources a) (accepted : Accepted a.state action)
    (move : Move a ⟨.action action, success⟩ b) : Outcome action success b.state b.isOpen := by
  cases move with
  | refused _ ordered forbidden =>
    rcases accepted with rfl | rfl | admitted
    · cases ordered
    · cases ordered
    · exact absurd admitted forbidden
  | adapterFailed idle => exact .inr ⟨rfl, idle⟩
  | adapterReady idle => exact .inl ⟨rfl, rfl⟩
  | scanFailed ready infos => exact .inr ⟨rfl, rfl⟩
  | scanned ready infos => exact .inl ⟨rfl, rfl⟩
  | enterFailed known attempt negotiation => exact .inr ⟨rfl, rfl⟩
  | entered known infos marks confirmed => exact .inl ⟨rfl, rfl⟩
  | prepareFailed maintained attempt negotiation =>
    rw [Resources, maintained] at resources
    exact .inr ⟨rfl, rfl, resources.1⟩
  | prepared maintained marks clocks confirmed traffic => exact .inl ⟨rfl, rfl⟩
  | startFailed ready attempt negotiation =>
    rw [Resources, ready] at resources
    exact .inr ⟨rfl, rfl, resources.1⟩
  | started ready marks confirmed => exact .inl ⟨rfl, rfl⟩
  | backFailed ready attempt negotiation =>
    rcases ready with ready | ready <;> rw [Resources, ready] at resources
    · exact .inr ⟨rfl, rfl, resources.1⟩
    · exact .inr ⟨rfl, rfl, resources.1⟩
  | backed ready down marks negotiation confirmed => exact .inl ⟨rfl, rfl⟩
  | idle vacant => exact .inl ⟨rfl, vacant⟩
  | stopped active marks rollback => exact .inl ⟨rfl, rfl⟩
  | faulted snapshot accesses => exact .inl ⟨rfl, rfl⟩
  | emergencyStopped snapshot accesses => exact .inl ⟨rfl, rfl⟩

/-- A stop always ends in Uninitialized. -/
theorem Move.stop_state {a b : State} {success : Bool}
    (move : Move a ⟨.action .stop, success⟩ b) : b.state = .uninitialized := by
  cases move with
  | refused _ ordered forbidden => cases ordered
  | idle vacant => exact vacant
  | stopped active marks rollback => rfl

end Lifecycle

/-! ## The controller and the master -/

variable {β : Type} [Platform β]

namespace EcatController

/-- What a controller must have kept to be destroyed cleanly. -/
def Kept (c : EcatController β) : Prop :=
  Lifecycle.Resources (abstraction c) ∧ Lifecycle.SessionsKept (abstraction c)

/-- After a stop nothing is held any more. -/
theorem stop_after_kept (c : EcatController β) (kept : Kept c) :
    (stop.after c).state = .uninitialized ∧ (stop.after c).master.closed = true ∧
      (stop.after c).nodes = [] ∧ Lifecycle.Alternates (stop.after c).master.log := by
  have move := stop_move c
  have stopped : (abstraction (stop.after c)).state = .uninitialized := move.stop_state
  have resources := move.resources kept.1
  rw [Lifecycle.Resources, stopped] at resources
  refine ⟨stopped, ?_, ?_, (move.sessionsKept kept.1 kept.2).1⟩
  · simpa [abstraction] using resources.1
  · simpa [abstraction] using resources.2

/-- A destruction is a stop: what follows it finds everything given up already. -/
theorem destroy_after_kept (c : EcatController β) (kept : Kept c) :
    destroy.after c = stop.after c := by
  obtain ⟨-, closed, vacant, -⟩ := stop_after_kept c kept
  generalize stopped : stop.after c = d at closed vacant
  simp [destroy, stopped, EcMaster.close, closed, ← vacant]

/-- The convenience operation ends in Maintenance, or fails back to Uninitialized. -/
theorem initializeController_outcome (config : EcMasterConfig) (c : EcatController β)
    (resources : Lifecycle.Resources (abstraction c)) (idle : c.state = .uninitialized) :
    let outcome := (initializeController config).result c
    let d := (initializeController config).after c
    outcome = true ∧ d.state = .maintenance ∨ outcome = false ∧ d.state = .uninitialized := by
  have opening := initializeAdapter_move config c
  have scanning := scan_move ((initializeAdapter config).after c)
  have entering := enterMaintenance_move (scan.after ((initializeAdapter config).after c))
  have opened := opening.resources resources
  have found := scanning.resources opened
  have opens := opening.outcome resources (.inr (.inr ((allowed_initializeAdapter _).mpr idle)))
  rcases initializeController_spec config c with
    ⟨busy, -⟩ | ⟨-, ⟨refused, outcome, same⟩ | ⟨ready, refused, outcome, same⟩ |
      ⟨ready, scanned, outcome, same⟩⟩
  · exact absurd idle busy
  · rcases opens with ⟨succeeded, -⟩ | ⟨-, failed⟩
    · simp [refused] at succeeded
    · exact .inr ⟨outcome, by rw [same]; exact failed⟩
  · rcases opens with ⟨-, reached⟩ | ⟨failed, -⟩
    · rcases scanning.outcome opened (.inr (.inr ((allowed_scanSlaves _).mpr reached))) with
        ⟨succeeded, -⟩ | ⟨-, failed⟩
      · simp [refused] at succeeded
      · exact .inr ⟨outcome, by rw [same]; exact failed⟩
    · simp [ready] at failed
  · rcases opens with ⟨-, reached⟩ | ⟨failed, -⟩
    · rcases scanning.outcome opened (.inr (.inr ((allowed_scanSlaves _).mpr reached))) with
        ⟨-, known⟩ | ⟨failed, -⟩
      · rw [outcome, same]
        exact entering.outcome found (.inr (.inr ((allowed_enterMaintenance _).mpr known)))
      · simp [scanned] at failed
    · simp [ready] at failed

end EcatController

namespace Impl

/-- After every run of calls the controller has kept its invariants. -/
theorem kept_final (platform : β) (onStateChanged onRuntimeStateChanged : Bool)
    (calls : List Call) :
    (Runs.final handle (constructed platform onStateChanged onRuntimeStateChanged)
      calls).controller.Kept := by
  obtain ⟨past, path⟩ := path_of_calls platform onStateChanged onRuntimeStateChanged calls
  exact Lifecycle.kept_of_path path

/-- The discipline of lifecycle operations and of the adapter in one state of a run. -/
structure Disciplined (i : Impl β) : Prop where
  operations : ∀ operation action, operation.request = .action action →
    Lifecycle.Accepted i.controller.state action →
    Lifecycle.Outcome action ((perform operation).result i)
      ((perform operation).after i).controller.state
      (!((perform operation).after i).controller.master.closed)
  controllerOperations : ∀ operation action,
    EcatController.singleRequest operation = some action →
    Lifecycle.Accepted i.controller.state action →
    Lifecycle.Outcome action ((EcatController.perform operation).result i.controller)
      ((EcatController.perform operation).after i.controller).state
      (!((EcatController.perform operation).after i.controller).master.closed)
  convenience : ∀ config, i.controller.state = .uninitialized →
    let outcome := (EcatController.initializeController config).result i.controller
    let c := (EcatController.initializeController config).after i.controller
    outcome = true ∧ c.state = .maintenance ∨ outcome = false ∧ c.state = .uninitialized
  vacant : i.controller.state = .uninitialized →
    i.controller.master.closed = true ∧ i.controller.nodes = []
  alternates : Lifecycle.Alternates i.controller.master.log
  stopped : (stop.after i).controller.master.closed = true ∧
    (EcatController.stop.after i.controller).master.closed = true
  destroyed : (destroy.after i).controller.master.closed = true ∧
    Lifecycle.Alternates (destroy.after i).controller.master.log

/-- Every lifecycle operation has exactly its two outcomes in every state of every run,
the adapter is opened and released in strict alternation, and it is never kept in
Uninitialized, after a stop or after destruction. -/
theorem disciplined_final (platform : β) (onStateChanged onRuntimeStateChanged : Bool)
    (calls : List Call) :
    Disciplined
      (Runs.final handle (constructed platform onStateChanged onRuntimeStateChanged) calls) := by
  have settled := settled_final platform onStateChanged onRuntimeStateChanged calls
  have kept := kept_final platform onStateChanged onRuntimeStateChanged calls
  generalize Runs.final handle (constructed platform onStateChanged onRuntimeStateChanged) calls =
    i at settled kept
  refine ⟨?_, ?_, ?_, ?_, kept.2.1, ?_, ?_⟩
  · intro operation action asked accepted
    have move := (perform_move i settled operation).1
    rw [asked] at move
    exact move.outcome kept.1 accepted
  · intro operation action single accepted
    exact (EcatController.perform_move operation action single i.controller).outcome kept.1 accepted
  · intro config idle
    exact EcatController.initializeController_outcome config i.controller kept.1 idle
  · intro idle
    have resources := kept.1
    rw [Lifecycle.Resources, EcatController.abstraction, idle] at resources
    simpa using resources
  · obtain ⟨-, closed, -, -⟩ := EcatController.stop_after_kept i.controller kept
    rw [controller_stop]
    exact ⟨closed, closed⟩
  · obtain ⟨-, closed, -, alternates⟩ := EcatController.stop_after_kept i.controller kept
    have destroyed : (destroy.after i).controller = EcatController.stop.after i.controller :=
      EcatController.destroy_after_kept i.controller kept
    rw [destroyed]
    exact ⟨closed, alternates⟩

end Impl

end MoEcat
