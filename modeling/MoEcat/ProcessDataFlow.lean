import MoEcat.BusConfirmation

/-!
# Process data flows in Operational only

A frame of process data is sent by a service in Operational and by nothing else. The
service updates the outputs of all nodes, sends one frame and updates the inputs of all
nodes, in this order. Once the controller has halted or stopped, no frame is sent until
every step of the way to Operational has succeeded again.
-/

namespace MoEcat

/-- What a cycle is made of. -/
inductive CyclicStep where
  | output (slave : Nat)
  | frame
  | input (slave : Nat)
deriving DecidableEq, Repr

/-- A process-data exchange, or the entry into a node's cyclic update. -/
def Event.cyclic : Event → Option CyclicStep
  | .soem .sendProcessData _ => some .frame
  | .updateOutput slave => some (.output slave)
  | .updateInput slave => some (.input slave)
  | _ => none

/-- The step of a cycle that a mark tells of. -/
def Mark.cyclic : Mark → Option CyclicStep
  | .frame => some .frame
  | .output slave => some (.output slave)
  | .input slave => some (.input slave)
  | _ => none

/-- Cyclic steps are seen in the marks. -/
theorem cyclic_events (event : Event) : event.mark.bind Mark.cyclic = event.cyclic := by
  cases event with
  | soem call result =>
    cases call with
    | init ifname =>
      by_cases refused : result = 0 <;> simp [Event.mark, refused, Mark.cyclic, Event.cyclic]
    | writeState slave state =>
      by_cases all : slave = 0 <;>
        simp [Event.mark, SoemCall.mark, all, Mark.cyclic, Event.cyclic]
    | _ => rfl
  | request slave state =>
    by_cases all : slave = 0 <;> simp [Event.mark, all, Mark.cyclic, Event.cyclic]
  | _ => rfl

/-- The steps of one cycle over the given slaves. -/
def cycleOf (slaves : List Nat) : List CyclicStep :=
  slaves.map CyclicStep.output ++ [.frame] ++ slaves.map CyclicStep.input

namespace Lifecycle

/-- The cyclic steps of a record. -/
def cyclicSteps (log : List Mark) : List CyclicStep := log.filterMap Mark.cyclic

/-- The steps of a record are those of its parts. -/
theorem cyclicSteps_append (first second : List Mark) :
    cyclicSteps (first ++ second) = cyclicSteps first ++ cyclicSteps second :=
  List.filterMap_append

/-- Negotiation has no cyclic steps. -/
theorem cyclicSteps_negotiation {marks : List Mark} (negotiation : Negotiation marks) :
    cyclicSteps marks = [] := by
  apply List.filterMap_eq_nil_iff.mpr
  intro mark member
  have kind := negotiation mark member
  cases mark <;> first | rfl | cases kind

/-- The marks of a cycle are the steps of one. -/
theorem cyclicSteps_cycleMarks (a : State) : cyclicSteps (cycleMarks a) = cycleOf a.active := by
  have outputs : cyclicSteps (a.active.map Mark.output) = a.active.map CyclicStep.output := by
    rw [cyclicSteps, List.filterMap_map, ← List.filterMap_eq_map]
    rfl
  have inputs : cyclicSteps (a.active.map Mark.input) = a.active.map CyclicStep.input := by
    rw [cyclicSteps, List.filterMap_map, ← List.filterMap_eq_map]
    rfl
  rw [cycleMarks, cyclicSteps_append, cyclicSteps_append, outputs, inputs]
  rfl

/-- A transition adds no cyclic step, or it is a service in Operational and adds one
cycle over all active slaves. -/
inductive CyclicEffect (a : State) (label : Label) (b : State) : Prop
  | quiet (same : cyclicSteps b.log = cyclicSteps a.log)
  | cycle (service : label.request = .service) (operational : a.state = .operational)
      (grown : cyclicSteps b.log = cyclicSteps a.log ++ cycleOf a.active)

/-- A move that only adds negotiation has no cyclic effect. -/
theorem cyclicEffect_grown {a b : State} {label : Label} (marks : List Mark)
    (grown : b.log = a.log ++ marks) (negotiation : Negotiation marks) :
    CyclicEffect a label b := by
  refine .quiet ?_
  rw [grown, cyclicSteps_append, cyclicSteps_negotiation negotiation, List.append_nil]

/-- Releasing the adapter has no cyclic steps. -/
theorem cyclicSteps_releasing (a : State) : cyclicSteps a.releasing = [] := by
  unfold State.releasing
  split <;> rfl

/-- A shutdown has no cyclic effect. -/
theorem cyclicEffect_shutDown {a : State} {label : Label} (marks : List Mark)
    (negotiation : Negotiation marks) : CyclicEffect a label (a.shutDown marks) := by
  refine .quiet ?_
  simp only [State.shutDown, cyclicSteps_append, cyclicSteps_negotiation negotiation,
    cyclicSteps_releasing, List.append_nil]

/-- Every move has this effect. The cases are the moves; only the cycle has cyclic steps. -/
theorem Move.cyclicEffect {a b : State} {label : Label} (move : Move a label b) :
    CyclicEffect a label b := by
  cases move with
  | refused action ordered forbidden => exact .quiet rfl
  | adapterFailed idle => exact .quiet rfl
  | adapterReady idle =>
    refine .quiet ?_
    simp [State.enter, State.emit, cyclicSteps, Mark.cyclic]
  | scanFailed ready infos =>
    have effect : CyclicEffect { a with scanned := infos } ⟨.action .scanSlaves, false⟩ _ :=
      cyclicEffect_shutDown [.access] (by simp [Negotiation, Mark.isNegotiation])
    cases effect with
    | quiet same => exact .quiet same
    | cycle service => cases service
  | scanned ready infos =>
    exact cyclicEffect_grown [.access] rfl (by simp [Negotiation, Mark.isNegotiation])
  | enterFailed known attempt negotiation => exact cyclicEffect_shutDown _ (negotiation.cons rfl)
  | entered known infos marks confirmed => exact cyclicEffect_grown _ rfl confirmed.negotiation
  | prepareFailed maintained attempt negotiation => exact cyclicEffect_grown _ rfl negotiation
  | prepared maintained marks clocks confirmed traffic =>
    exact cyclicEffect_grown _ rfl
      ((confirmed.negotiation.append traffic.negotiation).cons rfl)
  | startFailed ready attempt negotiation => exact cyclicEffect_grown _ rfl negotiation
  | started ready marks confirmed => exact cyclicEffect_grown _ rfl confirmed.negotiation
  | backFailed ready attempt negotiation => exact cyclicEffect_grown _ rfl negotiation
  | backed ready down marks negotiation confirmed =>
    exact cyclicEffect_grown _ rfl (negotiation.append confirmed.negotiation)
  | idle vacant => exact .quiet rfl
  | stopped active marks rollback => exact cyclicEffect_shutDown _ rollback.negotiation
  | faulted snapshot accesses => exact cyclicEffect_grown _ rfl accesses.traffic.negotiation
  | emergencyStopped snapshot accesses =>
    exact cyclicEffect_grown _ rfl accesses.traffic.negotiation
  | unserved quiet => exact .quiet rfl
  | maintained maintained supervision =>
    obtain ⟨-, marks, negotiation, grown⟩ := supervision.adapterEffect
    exact cyclicEffect_grown _ grown negotiation
  | cycled operational supervision =>
    obtain ⟨-, marks, negotiation, grown⟩ := supervision.adapterEffect
    refine .cycle rfl operational ?_
    rw [grown, State.emit, cyclicSteps_append, cyclicSteps_append,
      cyclicSteps_negotiation negotiation, cyclicSteps_cycleMarks, List.append_nil]
  | accessed success marks accesses =>
    exact cyclicEffect_grown _ rfl accesses.traffic.negotiation

/-- The progress of Operational contains every step of the way there, in order. -/
theorem Rounds.contains_way {last steps : List MasterAction} (rounds : Rounds last steps) :
    ([MasterAction.initializeAdapter, .scanSlaves, .enterMaintenance] ++ last).Sublist steps := by
  obtain ⟨earlier, -, rfl⟩ := rounds
  rw [List.append_assoc]
  exact (List.Sublist.refl _).append (List.sublist_append_right ..)

end Lifecycle

/-! ## The master -/

namespace Impl

variable {β : Type}

/-- The cyclic steps recorded so far. -/
def cyclicRecord (i : Impl β) : List CyclicStep :=
  i.controller.master.trace.filterMap Event.cyclic

/-- The record of the program is that of its abstraction. -/
theorem cyclicRecord_eq (i : Impl β) :
    i.cyclicRecord = Lifecycle.cyclicSteps (abstraction i).log := by
  simp only [cyclicRecord, Lifecycle.cyclicSteps, abstraction, EcatController.abstraction,
    EcMaster.log, List.filterMap_filterMap]
  exact congrArg (List.filterMap · _) (funext fun event => (cyclic_events event).symm)

/-- The operation sends a frame of process data. -/
def SendsFrame (entry : Entry β) : Prop :=
  ∃ steps, entry.after.cyclicRecord = entry.before.cyclicRecord ++ steps ∧ .frame ∈ steps

/-- A full cycle: a service that starts in Operational with no transition in progress
and a configured node for every scanned slave, and that updates each node's output once
before the frame and each node's input once after it. -/
structure FullCycle (entry : Entry β) : Prop where
  service : entry.operation = .service
  operational : entry.before.controller.state = .operational
  settled : entry.before.runtimeStateOverride = none
  scanned : entry.before.controller.nodes.map SlaveNode.info =
    entry.before.controller.slaveInfos
  configured : ∀ node ∈ entry.before.controller.nodes, node.configured = true
  steps : entry.after.cyclicRecord = entry.before.cyclicRecord ++
    cycleOf (entry.before.controller.nodes.map fun node => node.info.slaveId)

/-- The operation ends halted, or is a stop. -/
def Interrupts (entry : Entry β) : Prop :=
  entry.after.controller.state.isHalted = true ∨ entry.operation = .stop

/-- An operation that sends a frame does not leave the record as it was. -/
theorem not_sendsFrame_of_same {entry : Entry β}
    (same : entry.after.cyclicRecord = entry.before.cyclicRecord) : ¬SendsFrame entry := by
  rintro ⟨steps, grown, member⟩
  rw [same, List.self_eq_append_right] at grown
  simp [grown] at member

variable [Platform β]

/-- One operation of a settled master that holds what its state promises sends nothing
cyclic, or performs a full cycle. -/
theorem perform_cyclic (i : Impl β) (settled : Settled i)
    (resources : Lifecycle.Resources (abstraction i)) (operation : MasterOperation) :
    ((perform operation).after i).cyclicRecord = i.cyclicRecord ∨
      FullCycle (Runs.turn perform i operation) := by
  have move := (perform_move i settled operation).1
  cases move.cyclicEffect with
  | quiet same =>
    rw [cyclicRecord_eq, cyclicRecord_eq]
    exact .inl same
  | cycle service operational grown =>
    have running : i.controller.state = .operational := operational
    rw [Lifecycle.Resources, operational] at resources
    obtain ⟨-, infos, configured⟩ := resources
    have all : ∀ node ∈ i.controller.nodes, node.configured = true := by
      intro node member
      exact configured (node.info, node.configured) (List.mem_map_of_mem member)
    refine .inr ⟨?_, running, settled, ?_, all, ?_⟩
    · cases operation <;> first | rfl | cases service
    · have listed : (i.controller.nodes.map fun node => (node.info, node.configured)).map
          Prod.fst = i.controller.slaveInfos := infos
      rw [List.map_map] at listed
      exact listed
    · have active : (abstraction i).active =
          i.controller.nodes.map fun node => node.info.slaveId := by
        have kept : (abstraction i).nodes.filter Prod.snd = (abstraction i).nodes :=
          List.filter_eq_self.mpr configured
        rw [Lifecycle.State.active, kept]
        simp [abstraction, EcatController.abstraction]
      rw [active] at grown
      have before : (Runs.turn perform i operation).before.cyclicRecord = _ := cyclicRecord_eq i
      have after : (Runs.turn perform i operation).after.cyclicRecord = _ := cyclicRecord_eq _
      rw [before, after]
      exact grown

section Runs

variable (platform : β) (onStateChanged onRuntimeStateChanged : Bool)

/-- Every operation of a run sends nothing cyclic or performs a full cycle. -/
theorem history_cyclic (operations : List MasterOperation) :
    ∀ entry ∈ Runs.history perform
        (constructed platform onStateChanged onRuntimeStateChanged) operations,
      entry.after.cyclicRecord = entry.before.cyclicRecord ∨ FullCycle entry := by
  intro entry member
  obtain ⟨first, operation, rfl⟩ := Runs.turn_of_mem_history perform _ member
  have path := path_of_operations platform onStateChanged onRuntimeStateChanged first
  have settled := settled_operations platform onStateChanged onRuntimeStateChanged first
  exact perform_cyclic _ settled (Lifecycle.kept_of_path path).1 operation

/-- An interruption is not part of any session that follows it. -/
theorem interruption_outside (operations : List MasterOperation)
    {earlier between : List (Entry β)} {interruption : Entry β}
    (split : Runs.history perform
        (constructed platform onStateChanged onRuntimeStateChanged) operations =
      earlier ++ interruption :: between)
    (interrupts : Interrupts interruption)
    (calm : ∀ entry ∈ session (earlier ++ interruption :: between), CalmEntry entry) :
    interruption ∉ session (earlier ++ interruption :: between) := by
  intro member
  rcases interrupts with halted | stops
  · simp [(calm _ member).1] at halted
  · obtain ⟨first, operation, -, rfl⟩ := Runs.history_split_turn perform _ split
    obtain rfl : operation = .stop := stops
    have settled := settled_operations platform onStateChanged onRuntimeStateChanged first
    have vacant : _ = ControllerState.uninitialized := (perform_move _ settled .stop).1.stop_state
    have within := List.mem_rtakeWhile_imp member
    simp only [decide_eq_true_eq] at within
    exact within vacant

/-- In every run, an operation that sends a frame of process data is a full cycle, and
the others add nothing cyclic; and between an interruption and the next frame every
step from opening the adapter to starting operation succeeds again. -/
theorem process_data_operational (operations : List MasterOperation) :
    let history := Runs.history perform
      (constructed platform onStateChanged onRuntimeStateChanged) operations
    (∀ entry ∈ history, (SendsFrame entry → FullCycle entry) ∧
      (¬SendsFrame entry → entry.after.cyclicRecord = entry.before.cyclicRecord)) ∧
    ∀ earlier interruption between exchange later,
      history = earlier ++ interruption :: between ++ exchange :: later →
      Interrupts interruption → SendsFrame exchange →
      [MasterAction.initializeAdapter, .scanSlaves, .enterMaintenance, .prepareRun,
        .startOperation].Sublist (milestones between) := by
  intro history
  have cyclic := history_cyclic platform onStateChanged onRuntimeStateChanged operations
  have cycles : ∀ entry ∈ history, SendsFrame entry → FullCycle entry := by
    intro entry member sends
    rcases cyclic entry member with same | cycle
    · exact absurd sends (not_sendsFrame_of_same same)
    · exact cycle
  refine ⟨fun entry member => ⟨cycles entry member, fun silent => ?_⟩, ?_⟩
  · rcases cyclic entry member with same | cycle
    · exact same
    · exact absurd ⟨_, cycle.steps, by simp [cycleOf]⟩ silent
  · intro earlier interruption between exchange later split interrupts sends
    have cycle := cycles exchange (by rw [split]; simp) sends
    obtain ⟨first, operation, recorded, rfl⟩ := Runs.history_split_turn perform _ split
    have operational : (Runs.final perform (constructed platform onStateChanged
        onRuntimeStateChanged) first).controller.state = .operational := cycle.operational
    obtain ⟨progress, calm⟩ := session_progress platform onStateChanged onRuntimeStateChanged
      first (by rw [operational]; rfl)
    rw [recorded] at progress calm
    rw [operational] at progress
    -- The session is a suffix of the history that does not reach back to the interruption.
    have outside := interruption_outside platform onStateChanged onRuntimeStateChanged first
      recorded interrupts calm
    have recent : session (earlier ++ interruption :: between) <:+ between := by
      have suffix := List.rtakeWhile_suffix
        (fun entry : Entry β => decide (entry.after.controller.state ≠ .uninitialized))
        (earlier ++ interruption :: between)
      rcases List.suffix_or_suffix_of_suffix suffix (List.suffix_append earlier _) with
        shorter | longer
      · rcases List.suffix_cons_iff.mp shorter with whole | within
        · exact absurd (by rw [session, whole]; exact List.mem_cons_self) outside
        · exact within
      · exact absurd (longer.subset List.mem_cons_self) outside
    exact (Lifecycle.Rounds.contains_way progress).trans
      (recent.sublist.filterMap _)

end Runs

end Impl

end MoEcat
