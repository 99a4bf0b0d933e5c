import MoEcat.AdapterSessions
import MoEcat.Bench

/-!
# Bus calls and the open adapter

Whether every SOEM call other than an opening falls between an opening and its release.
The controller does not check this: it is left to its states, and some operations have
no state to rely on. The condition found here is exact, call by call.
-/

namespace MoEcat

/-- Marks that come from a SOEM call other than an opening. -/
def Mark.isBusCall : Mark → Bool
  | .released | .wrote _ | .frame | .access => true
  | .opened | .requested _ | .checked .. | .output _ | .input _ => false

/-- A successful opening. -/
def Event.isOpening : Event → Bool
  | .soem (.init _) result => result != 0
  | _ => false

/-- A release. -/
def Event.isClosing : Event → Bool
  | .soem .close _ => true
  | _ => false

/-- Every SOEM call but an opening comes after an opening that is not yet released. -/
def CallsGuarded (trace : List Event) : Prop :=
  ∀ before call result later, trace = before ++ .soem call result :: later →
    (∀ ifname, call ≠ .init ifname) →
      Traces.latched Event.isOpening Event.isClosing before = true

namespace Lifecycle

/-- Whether the adapter is open after a record. -/
def heldAfter (log : List Mark) : Bool :=
  Traces.latched (· == Mark.opened) (· == Mark.released) log

/-- Every bus call of a record is made while the adapter is open. -/
def GuardedLog (log : List Mark) : Prop :=
  Traces.Guarded (fun mark => mark.isBusCall = true) (fun before => heldAfter before = true) log

/-- Marks that neither open nor release the adapter leave it held or not, as it was. -/
theorem heldAfter_inside {log marks : List Mark} (inside : sessions marks = []) :
    heldAfter (log ++ marks) = heldAfter log := by
  rw [heldAfter, Traces.latched_append]
  apply Traces.foldl_latch_neutral _ _ _ marks
  intro mark member
  have outside := List.filter_eq_nil_iff.mp inside mark member
  cases mark <;> simp_all [Mark.isSession]

/-- A closed adapter stays closed until it is opened. -/
theorem heldAfter_closed {log marks : List Mark} (closed : heldAfter log = false)
    (unopened : Mark.opened ∉ marks) : heldAfter (log ++ marks) = false := by
  have released : Traces.latched (· == Mark.opened) (· == Mark.released) log = false := closed
  rw [heldAfter, Traces.latched_append, released]
  apply Traces.foldl_latch_released _ _ marks
  intro mark member
  cases mark <;> simp_all

/-- Within a session everything is guarded. -/
theorem guarded_inside {log marks : List Mark} (guarded : GuardedLog log)
    (held : heldAfter log = true) (inside : sessions marks = []) :
    GuardedLog (log ++ marks) := by
  refine (Traces.guarded_append _ _ _ _).mpr ⟨guarded, ?_⟩
  rintro before mark later rfl -
  rw [sessions_append, List.append_eq_nil_iff] at inside
  rw [heldAfter_inside inside.1]
  exact held

/-- Marks that come from no bus call need no guard. -/
theorem guarded_quiet {log marks : List Mark} (guarded : GuardedLog log)
    (quiet : ∀ mark ∈ marks, mark.isBusCall = false) : GuardedLog (log ++ marks) :=
  (Traces.guarded_append _ _ _ _).mpr ⟨guarded, Traces.guarded_of_quiet _ _ _ fun mark member => by
    simp [quiet mark member]⟩

/-- A bus call on a closed adapter is unguarded, unless an opening comes first. -/
theorem not_guarded_closed {log marks : List Mark} (closed : heldAfter log = false)
    (unopened : Mark.opened ∉ marks) (calls : ∃ mark ∈ marks, mark.isBusCall = true) :
    ¬GuardedLog (log ++ marks) := by
  intro guarded
  obtain ⟨mark, member, call⟩ := calls
  obtain ⟨before, later, rfl⟩ := List.append_of_mem member
  have held : heldAfter (log ++ before) = true :=
    ((Traces.guarded_append _ _ _ _).mp guarded).2 before mark later rfl call
  rw [heldAfter_closed closed fun opened => unopened (List.mem_append_left _ opened)] at held
  cases held

/-- The record tells whether the adapter is open. -/
theorem Move.heldAfter {a b : State} {label : Label}
    (held : heldAfter a.log = a.isOpen) (move : Move a label b) :
    Lifecycle.heldAfter b.log = b.isOpen := by
  cases move.adapterEffect with
  | opens vacant opened grown =>
    rw [grown, opened, Lifecycle.heldAfter, Traces.latched_append]
    rfl
  | releases rollback negotiation vacant given grown =>
    rw [grown, given, Lifecycle.heldAfter, Traces.latched_append]
    have before : Traces.latched (· == Mark.opened) (· == Mark.released) (a.log ++ rollback) =
        a.isOpen := (heldAfter_inside (sessions_negotiation negotiation)).trans held
    rw [before]
    cases still : a.isOpen with
    | true => rw [State.releasing, still]; rfl
    | false => rw [State.releasing, still]; rfl
  | keeps marks inside same grown => rw [grown, heldAfter_inside inside, same, held]

/-- With the adapter open at its start, a transition makes no unguarded call. -/
theorem Move.guarded_open {a b : State} {label : Label} (resources : Resources a)
    (held : Lifecycle.heldAfter a.log = a.isOpen) (isOpen : a.isOpen = true)
    (guarded : GuardedLog a.log) (move : Move a label b) : GuardedLog b.log := by
  rw [isOpen] at held
  cases move.adapterEffect with
  | opens vacant opened grown =>
    rw [Resources, vacant, isOpen] at resources
    cases resources.1
  | releases rollback negotiation vacant given grown =>
    have quiet := sessions_negotiation negotiation
    have rolledBack := guarded_inside guarded held quiet
    rw [grown, State.releasing, isOpen]
    refine (Traces.guarded_append _ _ _ _).mpr ⟨rolledBack, ?_⟩
    refine (Traces.guarded_singleton _ _ _).mpr fun _ => ?_
    rw [List.append_nil, heldAfter_inside quiet]
    exact held
  | keeps marks inside same grown =>
    rw [grown]
    exact guarded_inside guarded held inside

/-- Negotiation never opens the adapter. -/
theorem Negotiation.unopened {marks : List Mark} (negotiation : Negotiation marks) :
    Mark.opened ∉ marks :=
  fun member => absurd (negotiation _ member) (by decide)

/-- The service and the actions of the ordered lifecycle. -/
def Request.isOrderly : Request → Bool
  | .action asked => isTransition asked
  | .service => true
  | .access => false

/-- With the adapter closed, the transitions of the ordered lifecycle and the service do
nothing on the bus but open it. -/
theorem Move.closed_quiet {a b : State} {request : Request} {success : Bool}
    (resources : Resources a) (closed : a.isOpen = false)
    (orderly : request.isOrderly = true)
    (move : Move a ⟨request, success⟩ b) : b.log = a.log ∨ b.log = a.log ++ [.opened] := by
  have holds : a.state ≠ .adapterReady ∧ a.state ≠ .scanned ∧ a.state ≠ .maintenance ∧
      a.state ≠ .readyToRun ∧ a.state ≠ .operational := by
    refine ⟨?_, ?_, ?_, ?_, ?_⟩ <;> intro held <;> rw [Resources, held, closed] at resources <;>
      cases resources.1
  cases move with
  | refused action ordered forbidden => exact .inl rfl
  | adapterFailed idle => exact .inl rfl
  | adapterReady idle => exact .inr rfl
  | unserved quiet => exact .inl rfl
  | scanFailed ready infos => exact absurd ready holds.1
  | scanned ready infos => exact absurd ready holds.1
  | enterFailed known attempt negotiation => exact absurd known holds.2.1
  | entered known infos marks confirmed => exact absurd known holds.2.1
  | prepareFailed maintained attempt negotiation => exact absurd maintained holds.2.2.1
  | prepared maintained marks clocks confirmed traffic => exact absurd maintained holds.2.2.1
  | startFailed ready attempt negotiation => exact absurd ready holds.2.2.2.1
  | started ready marks confirmed => exact absurd ready holds.2.2.2.1
  | backFailed ready attempt negotiation =>
    exact absurd ready (not_or.mpr ⟨holds.2.2.2.1, holds.2.2.2.2⟩)
  | backed ready down marks negotiation confirmed =>
    exact absurd ready (not_or.mpr ⟨holds.2.2.2.1, holds.2.2.2.2⟩)
  | maintained maintained supervision => exact absurd maintained holds.2.2.1
  | cycled operational supervision => exact absurd operational holds.2.2.2.2
  | idle vacant => cases orderly
  | stopped active marks rollback => cases orderly
  | faulted snapshot accesses => cases orderly
  | emergencyStopped snapshot accesses => cases orderly
  | accessed success marks accesses => cases orderly

/-- With the adapter closed, a stop from a fault or an emergency stop still asks the bus
for INIT; from Uninitialized it does nothing. -/
theorem Move.closed_stop {a b : State} {success : Bool} (resources : Resources a)
    (closed : a.isOpen = false) (move : Move a ⟨.action .stop, success⟩ b) :
    (a.state = .uninitialized ∧ b.log = a.log) ∨
    (a.state ≠ .uninitialized ∧ ∃ before, Negotiation before ∧
      b.log = a.log ++ (before ++ [.requested EcState.init, .wrote EcState.init, .access])) := by
  cases move with
  | refused _ ordered forbidden => cases ordered
  | idle vacant => exact .inl ⟨vacant, rfl⟩
  | stopped active marks rollback =>
    have shallow : ¬(a.state = .uninitialized ∨ a.state = .adapterReady ∨ a.state = .scanned) := by
      rintro (held | held | held) <;> rw [Resources, held, closed] at resources
      · exact active held
      · cases resources.1
      · cases resources.1
    rw [Rollback, if_neg shallow] at rollback
    obtain ⟨before, negotiation, rfl⟩ := rollback
    refine .inr ⟨active, before, negotiation, ?_⟩
    simp [State.shutDown, State.releasing, closed]

end Lifecycle

/-! ## The master -/

variable {β : Type} [Platform β]

namespace Impl

/-- An operation that reaches the bus although the adapter is closed: a transfer of
service data that its arguments do not refuse, a fault or emergency request while an
old slave list is still in memory, and a stop outside Uninitialized. -/
def Trespasses (i : Impl β) (operation : MasterOperation) : Prop :=
  i.controller.master.closed = true ∧
    match operation with
    | .readSdo slaveId _ _ data _ | .writeSdo slaveId _ _ data _ => 0 < slaveId ∧ data ≠ []
    | .dumpPdoMapping _ slaveId => 0 < slaveId
    | .requestFault | .requestEmergencyStop => 0 < i.controller.master.ctx.slavecount
    | .stop => i.controller.state ≠ .uninitialized
    | _ => False

/-- What a call adds to the record of a closed adapter. -/
def AddsClosed (trespasses : Prop) (old new : List Mark) : Prop :=
  ∃ marks, new = old ++ marks ∧
    (¬trespasses ∧ (∀ mark ∈ marks, mark.isBusCall = false) ∨
      trespasses ∧ Mark.opened ∉ marks ∧ ∃ mark ∈ marks, mark.isBusCall = true)

/-- A transfer of service data adds marks on a closed adapter only where it is not refused.
-/
theorem ServesData.addsClosed {refused : Prop} {i i' : Impl β}
    (serves : ServesData refused i i') :
    AddsClosed (¬refused) i.controller.master.log i'.controller.master.log := by
  obtain ⟨m, rfl, ⟨idle, rfl⟩ | ⟨accepted, rest, touches, accesses⟩⟩ := serves
  · exact ⟨[], by simp, .inl ⟨not_not.mpr idle, by simp⟩⟩
  · refine ⟨_, touches.log_eq, .inr ⟨accepted, ?_, .access, by simp, rfl⟩⟩
    intro member
    rcases List.mem_cons.mp member with impossible | member
    · cases impossible
    · cases accesses _ member

/-- A snapshot reads the bus exactly when there are slaves in memory. -/
theorem addsClosed_snapshot (m m' : EcMaster β)
    (touches : EcMaster.Touches m m' (List.replicate (2 * m.getSlaveCount) .access)) :
    AddsClosed (0 < m.ctx.slavecount) m.log m'.log := by
  refine ⟨_, touches.log_eq, ?_⟩
  rcases Nat.eq_zero_or_pos m.ctx.slavecount with vacant | populated
  · exact .inl ⟨by omega, by simp [EcMaster.getSlaveCount, vacant]⟩
  · refine .inr ⟨populated, by simp, .access, ?_, rfl⟩
    simp only [EcMaster.getSlaveCount, List.mem_replicate, and_true]
    omega

/-- On a closed adapter an operation trespasses or leaves the bus alone. -/
theorem perform_closed (i : Impl β) (settled : Settled i) (kept : i.controller.Kept)
    (closed : i.controller.master.closed = true) (operation : MasterOperation) :
    AddsClosed (Trespasses i operation) i.controller.master.log
      ((perform operation).after i).controller.master.log := by
  have vacant : (abstraction i).isOpen = false := by
    simp [abstraction, EcatController.abstraction, closed]
  have orderly : operation.request.isOrderly = true → ¬Trespasses i operation →
      AddsClosed (Trespasses i operation) i.controller.master.log
        ((perform operation).after i).controller.master.log := by
    intro ordered honest
    have move := (perform_move i settled operation).1
    rcases move.closed_quiet kept.1 vacant ordered with same | same
    · exact ⟨[], same.trans (List.append_nil _).symm, .inl ⟨honest, by simp⟩⟩
    · exact ⟨[.opened], same, .inl ⟨honest, by simp [Mark.isBusCall]⟩⟩
  cases operation with
  | stop =>
    rcases (perform_move i settled .stop).1.closed_stop kept.1 vacant with
      ⟨idle, same⟩ | ⟨active, before, negotiation, same⟩
    · exact ⟨[], same.trans (List.append_nil _).symm, .inl ⟨fun trespass => trespass.2 idle, by simp⟩⟩
    · refine ⟨_, same, .inr ⟨⟨closed, active⟩, ?_, .access, by simp, rfl⟩⟩
      exact Lifecycle.Negotiation.unopened
        (negotiation.append (by simp [Lifecycle.Negotiation, Mark.isNegotiation]))
  | requestFault =>
    obtain ⟨m, same, touches⟩ := EcatController.enterFault_after i.controller
    have reached : ((perform .requestFault).after i).controller =
        EcatController.requestFault.after i.controller := controller_transition ..
    have adds := addsClosed_snapshot _ _ touches
    rw [reached, EcatController.requestFault, same]
    simpa [Trespasses, closed] using adds
  | requestEmergencyStop =>
    obtain ⟨m, same, touches⟩ := EcatController.enterEmergencyStop_after i.controller
    have reached : ((perform .requestEmergencyStop).after i).controller =
        EcatController.requestEmergencyStop.after i.controller := controller_transition ..
    have adds := addsClosed_snapshot _ _ touches
    rw [reached, EcatController.requestEmergencyStop, same]
    simpa [Trespasses, closed] using adds
  | readSdo slaveId index subindex data timeoutMs =>
    have adds : AddsClosed _ _
        ((perform (.readSdo slaveId index subindex data timeoutMs)).after i).controller.master.log :=
      (readSdo_serves slaveId index subindex data timeoutMs i).addsClosed
    simpa [Trespasses, closed, not_or, not_le] using adds
  | writeSdo slaveId index subindex data timeoutMs =>
    have adds : AddsClosed _ _
        ((perform (.writeSdo slaveId index subindex data timeoutMs)).after i).controller.master.log :=
      (writeSdo_serves slaveId index subindex data timeoutMs i).addsClosed
    simpa [Trespasses, closed, not_or, not_le] using adds
  | dumpPdoMapping fuel slaveId =>
    have adds : AddsClosed _ _
        ((perform (.dumpPdoMapping fuel slaveId)).after i).controller.master.log :=
      (dumpPdoMapping_serves fuel slaveId i).addsClosed
    simpa [Trespasses, closed, not_le] using adds
  | _ => exact orderly rfl (by simp [Trespasses])

/-- What the guard of a run rests on: the lifecycle's invariants, and a record that
tells whether the adapter is open. -/
def Watched (i : Impl β) : Prop :=
  Settled i ∧ i.controller.Kept ∧
    Lifecycle.heldAfter i.controller.master.log = !i.controller.master.closed

/-- Every run leaves a master whose record has been watched. -/
theorem watched_final (platform : β) (onStateChanged onRuntimeStateChanged : Bool)
    (operations : List MasterOperation) :
    Watched (Runs.final perform
      (constructed platform onStateChanged onRuntimeStateChanged) operations) := by
  have initial : Watched (constructed platform onStateChanged onRuntimeStateChanged) :=
    ⟨rfl, Lifecycle.kept_initial, rfl⟩
  refine Runs.final_invariant perform _ Watched ?_ initial operations
  rintro i operation ⟨settled, ⟨resources, kept⟩, held⟩
  obtain ⟨move, stays⟩ := perform_move i settled operation
  exact ⟨stays, ⟨move.resources resources, move.sessionsKept resources kept⟩, move.heldAfter held⟩

/-- An operation keeps the record guarded exactly when it does not trespass. -/
theorem perform_guarded_iff (i : Impl β) (watched : Watched i) (operation : MasterOperation) :
    Lifecycle.GuardedLog ((perform operation).after i).controller.master.log ↔
      Lifecycle.GuardedLog i.controller.master.log ∧ ¬Trespasses i operation := by
  obtain ⟨settled, kept, held⟩ := watched
  by_cases closed : i.controller.master.closed = true
  · rw [closed] at held
    obtain ⟨marks, grown, ⟨honest, quiet⟩ | ⟨trespass, unopened, calls⟩⟩ :=
      perform_closed i settled kept closed operation
    · rw [grown]
      refine ⟨fun guarded => ⟨((Traces.guarded_append _ _ _ _).mp guarded).1, honest⟩, ?_⟩
      exact fun guarded => Lifecycle.guarded_quiet guarded.1 quiet
    · rw [grown]
      refine ⟨fun guarded => ?_, fun guarded => absurd trespass guarded.2⟩
      exact absurd guarded (Lifecycle.not_guarded_closed held unopened calls)
  · have honest : ¬Trespasses i operation := fun trespass => closed trespass.1
    have move := (perform_move i settled operation).1
    have opened : (abstraction i).isOpen = true := by
      simpa [abstraction, EcatController.abstraction] using closed
    refine ⟨fun guarded => ⟨?_, honest⟩, fun guarded => ?_⟩
    · obtain ⟨marks, grown⟩ : ∃ marks, ((perform operation).after i).controller.master.log =
          i.controller.master.log ++ marks := move.log_grows
      rw [grown] at guarded
      exact ((Traces.guarded_append _ _ _ _).mp guarded).1
    · exact move.guarded_open kept.1 held opened guarded.1

/-- A run of operations keeps the record guarded exactly when none of them trespasses.
The induction is on the run, with the last operation split off. -/
theorem run_guarded_iff (platform : β) (onStateChanged onRuntimeStateChanged : Bool)
    (operations : List MasterOperation) :
    let start := constructed platform onStateChanged onRuntimeStateChanged
    Lifecycle.GuardedLog (Runs.final perform start operations).controller.master.log ↔
      ∀ entry ∈ Runs.history perform start operations,
        ¬Trespasses entry.before entry.operation := by
  intro start
  induction operations using List.reverseRecOn with
  | nil => simp [start, Lifecycle.GuardedLog, constructed, fresh, EcatController.fresh, EcMaster.log,
      Traces.guarded_nil]
  | append_singleton operations last inductionHypothesis =>
    have watched := watched_final platform onStateChanged onRuntimeStateChanged operations
    rw [Runs.final_concat, Runs.history_concat, perform_guarded_iff _ watched last,
      inductionHypothesis]
    simp only [List.forall_mem_append, List.forall_mem_singleton]
    rfl

/-- Destruction acts on the adapter as a stop. -/
theorem destroy_controller (i : Impl β) (kept : i.controller.Kept) :
    (destroy.after i).controller = ((perform .stop).after i).controller := by
  have stopped : ((perform .stop).after i).controller = EcatController.stop.after i.controller :=
    controller_stop i
  rw [stopped]
  exact EcatController.destroy_after_kept i.controller kept

end Impl

/-- An event has a bus call's mark exactly when it is a SOEM call other than an opening. -/
theorem isBusCall_iff (event : Event) :
    (∃ mark, event.mark = some mark ∧ mark.isBusCall = true) ↔
      ∃ call result, event = .soem call result ∧ ∀ ifname, call ≠ .init ifname := by
  cases event with
  | soem call result =>
    cases call with
    | init ifname =>
      by_cases refused : result = 0 <;> simp [Event.mark, refused, Mark.isBusCall]
    | writeState slave state =>
      by_cases all : slave = 0 <;> simp [Event.mark, SoemCall.mark, all, Mark.isBusCall]
    | _ => simp [Event.mark, SoemCall.mark, Mark.isBusCall]
  | request slave state =>
    by_cases all : slave = 0 <;> simp [Event.mark, all, Mark.isBusCall]
  | _ => simp [Event.mark, Mark.isBusCall]

/-- Openings and releases are seen in the marks. -/
theorem session_events (event : Event) :
    event.isOpening = event.mark.any (· == Mark.opened) ∧
      event.isClosing = event.mark.any (· == Mark.released) := by
  cases event with
  | soem call result =>
    cases call with
    | init ifname =>
      by_cases refused : result = 0 <;> simp [Event.isOpening, Event.isClosing, Event.mark, refused]
    | writeState slave state =>
      by_cases all : slave = 0 <;>
        simp [Event.isOpening, Event.isClosing, Event.mark, SoemCall.mark, all]
    | _ => simp [Event.isOpening, Event.isClosing, Event.mark, SoemCall.mark]
  | request slave state =>
    by_cases all : slave = 0 <;> simp [Event.isOpening, Event.isClosing, Event.mark, all]
  | _ => simp [Event.isOpening, Event.isClosing, Event.mark]

/-- The guard of events is the guard of their marks. -/
theorem callsGuarded_iff (trace : List Event) :
    CallsGuarded trace ↔ Lifecycle.GuardedLog (trace.filterMap Event.mark) := by
  have opening : Event.isOpening = fun event => event.mark.any (· == Mark.opened) :=
    funext fun event => (session_events event).1
  have closing : Event.isClosing = fun event => event.mark.any (· == Mark.released) :=
    funext fun event => (session_events event).2
  have seen : ∀ before, Traces.latched Event.isOpening Event.isClosing before =
      Lifecycle.heldAfter (before.filterMap Event.mark) := by
    intro before
    rw [opening, closing]
    exact Traces.latched_filterMap Event.mark _ _ before
  rw [Lifecycle.GuardedLog, ← Traces.guarded_filterMap]
  constructor
  · rintro guarded before event later split call
    obtain ⟨called, result, rfl, notOpening⟩ := (isBusCall_iff event).mp call
    rw [← seen]
    exact guarded before called result later split notOpening
  · rintro guarded before call result later split notOpening
    rw [seen]
    exact guarded before _ later split ((isBusCall_iff _).mpr ⟨call, result, rfl, notOpening⟩)

namespace Impl

/-- The master at the end of a run, destroyed or not. -/
def ended (destroyed : Bool) (i : Impl β) : Impl β :=
  if destroyed then destroy.after i else i

/-- Every SOEM call of a run other than an opening is made while the adapter is open,
exactly when no operation of the run, nor its destruction, reaches the bus of a closed
adapter. -/
theorem calls_guarded_iff (platform : β) (onStateChanged onRuntimeStateChanged : Bool)
    (operations : List MasterOperation) (destroyed : Bool) :
    let start := constructed platform onStateChanged onRuntimeStateChanged
    let i := Runs.final perform start operations
    CallsGuarded (ended destroyed i).controller.master.trace ↔
      (∀ entry ∈ Runs.history perform start operations,
        ¬Trespasses entry.before entry.operation) ∧
      (destroyed = true → ¬Trespasses i .stop) := by
  intro start i
  have run : Lifecycle.GuardedLog i.controller.master.log ↔
      ∀ entry ∈ Runs.history perform start operations,
        ¬Trespasses entry.before entry.operation :=
    run_guarded_iff platform onStateChanged onRuntimeStateChanged operations
  have watched := watched_final platform onStateChanged onRuntimeStateChanged operations
  rw [callsGuarded_iff, ← run]
  cases destroyed with
  | false => exact ⟨fun guarded => ⟨guarded, by simp⟩, fun guarded => guarded.1⟩
  | true =>
    have stopped := perform_guarded_iff i watched .stop
    rw [← destroy_controller i watched.2.1] at stopped
    exact stopped.trans (and_congr_right fun _ => (imp_iff_right rfl).symm)

/-- A fault requested before the first opening, followed by a stop: the stop asks a
closed adapter for INIT. A transfer of service data needs not even the fault. -/
theorem calls_guarded_fails :
    ¬CallsGuarded (Runs.final perform (constructed ({} : Bench) false false)
        [.requestFault, .stop]).controller.master.trace ∧
      ¬CallsGuarded (Runs.final perform (constructed ({} : Bench) false false)
        [.readSdo 1 0x1018 1 [0, 0, 0, 0] 1000]).controller.master.trace := by
  constructor
  · intro guarded
    have held := guarded [.request 0 EcState.init] (.writeState 0 EcState.init) 1
      [.soem (.stateCheck 0 EcState.init ecTimeoutState) 1] (by decide) (by simp)
    cases held
  · intro guarded
    have held := guarded [] (.sdoRead 1 0x1018 1 false 4 1000000) 1 [] (by decide) (by simp)
    cases held

end Impl

end MoEcat
