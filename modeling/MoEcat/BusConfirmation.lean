import MoEcat.AdapterSessions
import MoEcat.Bench
import MoEcat.Frames
import Mathlib.Data.List.DropRight

/-!
# What a stable state says about the bus

Maintenance, ReadyToRun and Operational each stand for a state of the bus. In every run
the stable state is backed in two ways: by the transitions that have succeeded since
the controller was last in Uninitialized, which form the prescribed sequence with any
number of ways back in it, and by the last request and the last check on the bus, which
were for the state that the controller stands for and found every slave in it. The check is
one that the run made on its way, on the slaves that the master had listed at that moment.
-/

namespace MoEcat

/-- The states entered on a fault or an emergency request. -/
def ControllerState.isHalted : ControllerState → Bool
  | .fault | .emergencyStop => true
  | _ => false

/-- The state that a mark of a broadcast request asks for. -/
def Mark.asked : Mark → Option UInt16
  | .requested state => some state
  | .opened | .released | .wrote _ | .checked .. | .frame | .output _ | .input _ | .access => none

/-- The expected state of a mark of a check, with the states it found. -/
def Mark.compared : Mark → Option (UInt16 × List UInt16)
  | .checked state found => some (state, found)
  | _ => none

/-- The state asked for by a request to all slaves. -/
def Event.broadcastRequest : Event → Option UInt16
  | .request slave state => if slave = 0 then some state else none
  | _ => none

namespace Lifecycle

/-! ## The sequence of successful transitions -/

/-- The transition that a request completes, if it succeeds in one. -/
def milestone : Label → Option MasterAction
  | ⟨.action action, true⟩ => if isTransition action then some action else none
  | _ => none

/-- The way to Maintenance, any number of ways forth and back, and a last way forth. -/
def Rounds (last steps : List MasterAction) : Prop :=
  ∃ rounds : List (List MasterAction),
    (∀ round ∈ rounds, round = [.prepareRun, .backToMaintenance] ∨
      round = [.prepareRun, .startOperation, .backToMaintenance]) ∧
    steps = [.initializeAdapter, .scanSlaves, .enterMaintenance] ++ rounds.flatten ++ last

/-- The transitions that must have succeeded, in order, to be in a state. -/
def Progress : ControllerState → List MasterAction → Prop
  | .uninitialized => (· = [])
  | .adapterReady => (· = [.initializeAdapter])
  | .scanned => (· = [.initializeAdapter, .scanSlaves])
  | .maintenance => Rounds []
  | .readyToRun => Rounds [.prepareRun]
  | .operational => Rounds [.prepareRun, .startOperation]
  | .fault | .emergencyStop => fun _ => False

/-- A way back completes a round. -/
theorem Rounds.back {last steps : List MasterAction} (rounds : Rounds last steps)
    (forth : last = [.prepareRun] ∨ last = [.prepareRun, .startOperation]) :
    Rounds [] (steps ++ [.backToMaintenance]) := by
  obtain ⟨earlier, shape, rfl⟩ := rounds
  refine ⟨earlier ++ [last ++ [.backToMaintenance]], ?_, by simp⟩
  refine List.forall_mem_append.mpr ⟨shape, List.forall_mem_singleton.mpr ?_⟩
  rcases forth with rfl | rfl
  · exact .inl rfl
  · exact .inr rfl

/-- A step forth goes on with the last way forth. -/
theorem Rounds.forth {last steps : List MasterAction} (rounds : Rounds last steps)
    (action : MasterAction) : Rounds (last ++ [action]) (steps ++ [action]) := by
  obtain ⟨earlier, shape, rfl⟩ := rounds
  exact ⟨earlier, shape, by simp⟩

/-- An admitted transition takes the progress of its state to that of its target. -/
theorem Progress.extend {state : ControllerState} {steps : List MasterAction}
    {action : MasterAction} (progress : Progress state steps) (ordered : isTransition action)
    (admitted : action ∈ EcatController.allowedActions state) :
    Progress (target action) (steps ++ [action]) := by
  cases action with
  | initializeAdapter =>
    rw [(EcatController.allowed_initializeAdapter state).mp admitted] at progress
    obtain rfl : steps = [] := progress
    rfl
  | scanSlaves =>
    rw [(EcatController.allowed_scanSlaves state).mp admitted] at progress
    obtain rfl : steps = [.initializeAdapter] := progress
    rfl
  | enterMaintenance =>
    rw [(EcatController.allowed_enterMaintenance state).mp admitted] at progress
    obtain rfl : steps = [.initializeAdapter, .scanSlaves] := progress
    exact ⟨[], by simp, rfl⟩
  | prepareRun =>
    rw [(EcatController.allowed_prepareRun state).mp admitted] at progress
    exact Rounds.forth progress .prepareRun
  | startOperation =>
    rw [(EcatController.allowed_startOperation state).mp admitted] at progress
    exact Rounds.forth progress .startOperation
  | backToMaintenance =>
    rcases (EcatController.allowed_backToMaintenance state).mp admitted with held | held
    · rw [held] at progress
      exact Rounds.back progress (.inl rfl)
    · rw [held] at progress
      exact Rounds.back progress (.inr rfl)
  | stop => cases ordered
  | requestFault => cases ordered
  | requestEmergencyStop => cases ordered

/-- What a transition means for the sequence: it ends in Uninitialized, it halts, it
stays in its state, or it completes an admitted action. -/
inductive Advance (a : State) (label : Label) (b : State) : Prop
  | vacates (vacant : b.state = .uninitialized)
  | halts (halted : b.state.isHalted = true)
  | stays (quiet : milestone label = none) (same : b.state = a.state)
      (calm : label.request ≠ .action .requestFault ∧
        label.request ≠ .action .requestEmergencyStop)
  | completes (action : MasterAction) (done : label = ⟨.action action, true⟩)
      (ordered : isTransition action = true)
      (admitted : action ∈ EcatController.allowedActions a.state)
      (reached : b.state = target action)

/-- A supervision leaves the state, or enters Fault. -/
theorem Supervision.state {expected : UInt16} {a b : State}
    (supervision : Supervision expected a b) : b.state = a.state ∨ b.state = .fault := by
  cases supervision with
  | skipped => exact .inl rfl
  | present found all => exact .inl rfl
  | absent found snapshot accesses => exact .inr rfl

/-- A supervision completes nothing: it stays in the state or halts. -/
theorem Supervision.advance {expected : UInt16} {a b : State} {success : Bool}
    (supervision : Supervision expected a b) : Advance a ⟨.service, success⟩ b := by
  rcases supervision.state with same | faulted
  · exact .stays rfl same (by simp)
  · exact .halts (by rw [faulted]; rfl)

/-- Every transition is an advance of one of the four kinds. The cases are those of the
transition. -/
theorem Move.advance {a b : State} {label : Label} (move : Move a label b) :
    Advance a label b := by
  cases move with
  | refused action ordered forbidden =>
    refine .stays rfl rfl ⟨?_, ?_⟩
    · rintro ⟨⟩
      cases ordered
    · rintro ⟨⟩
      cases ordered
  | adapterFailed idle => exact .vacates idle
  | adapterReady idle =>
    exact .completes _ rfl rfl ((EcatController.allowed_initializeAdapter _).mpr idle) rfl
  | scanFailed ready infos => exact .vacates rfl
  | scanned ready infos =>
    exact .completes _ rfl rfl ((EcatController.allowed_scanSlaves _).mpr ready) rfl
  | enterFailed known attempt negotiation => exact .vacates rfl
  | entered known infos marks confirmed =>
    exact .completes _ rfl rfl ((EcatController.allowed_enterMaintenance _).mpr known) rfl
  | prepareFailed maintained attempt negotiation => exact .halts rfl
  | prepared maintained marks clocks confirmed traffic =>
    exact .completes _ rfl rfl ((EcatController.allowed_prepareRun _).mpr maintained) rfl
  | startFailed ready attempt negotiation => exact .halts rfl
  | started ready marks confirmed =>
    exact .completes _ rfl rfl ((EcatController.allowed_startOperation _).mpr ready) rfl
  | backFailed ready attempt negotiation => exact .halts rfl
  | backed ready down marks negotiation confirmed =>
    exact .completes _ rfl rfl ((EcatController.allowed_backToMaintenance _).mpr ready) rfl
  | idle vacant => exact .vacates vacant
  | stopped active marks rollback => exact .vacates rfl
  | faulted snapshot accesses => exact .halts rfl
  | emergencyStopped snapshot accesses => exact .halts rfl
  | unserved quiet => exact .stays rfl rfl (by simp)
  | maintained maintained supervision => exact supervision.advance
  | cycled operational supervision =>
    have advance : Advance (a.emit (cycleMarks a)) ⟨.service, true⟩ b := supervision.advance
    cases advance with
    | vacates vacant => exact .vacates vacant
    | halts halted => exact .halts halted
    | stays quiet same calm => exact .stays quiet same calm
    | completes action done => cases done
  | accessed success marks accesses => exact .stays rfl rfl (by simp)

/-- The part of a path since it was last in Uninitialized. -/
def session (past : List (Label × State)) : List (Label × State) :=
  past.rtakeWhile fun entry => entry.2.state ≠ .uninitialized

/-- Neither halted nor halting. -/
def Calm (entry : Label × State) : Prop :=
  entry.2.state.isHalted = false ∧ entry.1.request ≠ .action .requestFault ∧
    entry.1.request ≠ .action .requestEmergencyStop

/-- Outside the halted states, the session is calm and its milestones make up the
progress of the state. -/
def Tracked (past : List (Label × State)) (a : State) : Prop :=
  a.state.isHalted = false →
    Progress a.state ((session past).filterMap fun entry => milestone entry.1) ∧
      ∀ entry ∈ session past, Calm entry

/-- A step into Uninitialized begins a session anew, and any other step extends it. -/
theorem session_concat (past : List (Label × State)) (label : Label) (b : State) :
    session (past ++ [(label, b)]) =
      if b.state = .uninitialized then [] else session past ++ [(label, b)] := by
  by_cases vacant : b.state = .uninitialized <;> simp [session, vacant]

/-- A transition extends the tracked session, empties it, or halts. -/
theorem Move.tracked {past : List (Label × State)} {a b : State} {label : Label}
    (tracked : Tracked past a) (move : Move a label b) : Tracked (past ++ [(label, b)]) b := by
  intro running
  rw [session_concat]
  by_cases vacant : b.state = .uninitialized
  · rw [if_pos vacant, vacant]
    exact ⟨rfl, by simp⟩
  rw [if_neg vacant, List.filterMap_append, List.forall_mem_append, List.forall_mem_singleton]
  cases move.advance with
  | vacates left => exact absurd left vacant
  | halts halted => simp [running] at halted
  | stays quiet same calm =>
    obtain ⟨progress, earlier⟩ := tracked (by rw [← same]; exact running)
    refine ⟨?_, earlier, running, calm⟩
    simpa [quiet, same] using progress
  | completes action done ordered admitted reached =>
    have active : a.state.isHalted = false := by
      cases held : a.state.isHalted with
      | false => rfl
      | true => cases state : a.state <;> simp_all [ControllerState.isHalted,
          EcatController.allowedActions, isTransition]
    obtain ⟨progress, earlier⟩ := tracked active
    refine ⟨?_, earlier, running, ?_⟩
    · rw [reached]
      simpa [done, milestone, ordered] using progress.extend ordered admitted
    · rw [done]
      constructor
      · rintro ⟨⟩
        cases ordered
      · rintro ⟨⟩
        cases ordered

/-- Along every path the session is tracked. -/
theorem tracked_of_path {past : List (Label × State)} {a : State}
    (path : Runs.Path Move {} past a) : Tracked past a := by
  have initial : Tracked [] {} := fun _ => ⟨rfl, by simp [session]⟩
  exact path.invariant Tracked initial fun _ _ _ _ tracked move => move.tracked tracked

/-! ## The confirmation by the bus -/

/-- The bus state that a controller state stands for. -/
def busTarget : ControllerState → Option UInt16
  | .maintenance => some EcState.preOp
  | .readyToRun => some EcState.safeOp
  | .operational => some EcState.operational
  | _ => none

/-- The last request was for this state, and the last check found all slaves in it. -/
def LastConfirms (target : UInt16) (log : List Mark) : Prop :=
  Traces.latest Mark.asked log = some target ∧
    ∃ found, Traces.latest Mark.compared log = some (target, found) ∧
      ∀ state ∈ found, state = target

/-- The controller state is backed by the last request and the last check. -/
def Confirmed (a : State) : Prop :=
  ∀ target, busTarget a.state = some target → LastConfirms target a.log

/-- A confirmation takes precedence over all that came before. -/
theorem Confirms.lastConfirms {target : UInt16} {marks : List Mark} (log : List Mark)
    (confirms : Confirms target marks) : LastConfirms target (log ++ marks) := by
  obtain ⟨traffic, found, rfl, plain, all⟩ := confirms
  have silent : ∀ mark ∈ traffic ++ [.access, .checked target found], mark.asked = none := by
    intro mark member
    rcases List.mem_append.mp member with member | member
    · have kind := plain mark member
      cases mark <;> first | rfl | cases kind
    · rcases List.mem_cons.mp member with rfl | member
      · rfl
      · rw [List.mem_singleton.mp member]
        rfl
  refine ⟨?_, found, ?_, all⟩
  · rw [← List.concat_append, Traces.latest_append_silent _ _ _ silent]
    have own : Mark.asked (.requested target) = some target := rfl
    simpa using Traces.latest_concat Mark.asked log own
  · have shape : log ++ .requested target :: (traffic ++ [.access, .checked target found]) =
        (log ++ .requested target :: (traffic ++ [.access])) ++ [.checked target found] := by simp
    rw [shape]
    exact Traces.latest_concat _ _ rfl

/-- Marks other than requests and checks leave the confirmation as it is. -/
theorem LastConfirms.append {target : UInt16} {log marks : List Mark}
    (confirms : LastConfirms target log)
    (silent : ∀ mark ∈ marks, mark.asked = none ∧ mark.compared = none) :
    LastConfirms target (log ++ marks) := by
  obtain ⟨asked, found, compared, all⟩ := confirms
  refine ⟨?_, found, ?_, all⟩
  · rw [Traces.latest_append_silent _ _ _ fun mark member => (silent mark member).1]
    exact asked
  · rw [Traces.latest_append_silent _ _ _ fun mark member => (silent mark member).2]
    exact compared

/-- Plain traffic neither requests nor checks. -/
theorem Traffic.silent {marks : List Mark} (traffic : Traffic marks) :
    ∀ mark ∈ marks, mark.asked = none ∧ mark.compared = none := by
  intro mark member
  have kind := traffic mark member
  cases mark <;> first | exact ⟨rfl, rfl⟩ | cases kind

/-- The marks of a cycle neither request nor check. -/
theorem cycleMarks_silent (a : State) :
    ∀ mark ∈ cycleMarks a, mark.asked = none ∧ mark.compared = none := by
  intro mark member
  simp only [cycleMarks, List.mem_append, List.mem_map, List.mem_cons, List.not_mem_nil,
    or_false] at member
  rcases member with (⟨slave, -, rfl⟩ | rfl | rfl) | ⟨slave, -, rfl⟩ <;> exact ⟨rfl, rfl⟩

/-- A passed supervision renews the check and a skipped one keeps it. -/
theorem Supervision.confirmed {expected : UInt16} {a b : State}
    (target : busTarget a.state = some expected) (confirms : LastConfirms expected a.log)
    (supervision : Supervision expected a b) : Confirmed b := by
  intro wanted expects
  cases supervision with
  | skipped =>
    obtain rfl : expected = wanted := Option.some.inj (target.symm.trans expects)
    exact confirms
  | present found all =>
    obtain rfl : expected = wanted := Option.some.inj (target.symm.trans expects)
    refine ⟨?_, found, ?_, all⟩
    · have silent : ∀ mark ∈ [Mark.access, .checked expected found], mark.asked = none := by
        simp [Mark.asked]
      exact (Traces.latest_append_silent _ _ _ silent).trans confirms.1
    · have shape : a.log ++ [.access, .checked expected found] =
          (a.log ++ [.access]) ++ [.checked expected found] := by simp
      simp only [State.emit, shape]
      exact Traces.latest_concat _ _ rfl
  | absent found snapshot accesses => cases expects

/-- Every transition that ends in one of the three states ends with its confirmation or
stays with the one it has. -/
theorem Move.confirmed {a b : State} {label : Label} (confirmed : Confirmed a)
    (move : Move a label b) : Confirmed b := by
  intro wanted expects
  cases move with
  | refused action ordered forbidden => exact confirmed wanted expects
  | adapterFailed idle => exact confirmed wanted expects
  | entered known infos marks confirms =>
    obtain rfl : EcState.preOp = wanted := Option.some.inj expects
    exact confirms.lastConfirms a.log
  | prepared maintained marks clocks confirms traffic =>
    obtain rfl : EcState.safeOp = wanted := Option.some.inj expects
    have asked := (confirms.lastConfirms (a.log ++ [.access])).append traffic.silent
    simpa [State.enter, State.emit, State.configureAll] using asked
  | started ready marks confirms =>
    obtain rfl : EcState.operational = wanted := Option.some.inj expects
    exact confirms.lastConfirms a.log
  | backed ready down marks negotiation confirms =>
    obtain rfl : EcState.preOp = wanted := Option.some.inj expects
    simpa [State.enter, State.emit] using confirms.lastConfirms (a.log ++ down)
  | unserved quiet => exact confirmed wanted expects
  | maintained maintained supervision =>
    have target : busTarget a.state = some EcState.preOp := by rw [maintained]; rfl
    exact supervision.confirmed target (confirmed _ target) wanted expects
  | cycled operational supervision =>
    have target : busTarget a.state = some EcState.operational := by rw [operational]; rfl
    have cycled := (confirmed _ target).append (cycleMarks_silent a)
    exact supervision.confirmed (a := a.emit (cycleMarks a)) target cycled wanted expects
  | accessed success marks accesses =>
    exact (confirmed wanted expects).append accesses.traffic.silent
  | idle vacant => exact confirmed wanted expects
  | _ => cases expects

end Lifecycle

/-- Requests and checks are seen in the marks. -/
theorem confirmation_events (event : Event) :
    event.mark.bind Mark.asked = event.broadcastRequest ∧
      event.mark.bind Mark.compared = event.comparison := by
  cases event with
  | soem call result =>
    cases call with
    | init ifname =>
      by_cases refused : result = 0 <;> simp [Event.mark, refused, Mark.asked, Mark.compared,
        Event.broadcastRequest, Event.comparison]
    | writeState slave state =>
      by_cases all : slave = 0 <;> simp [Event.mark, SoemCall.mark, all, Mark.asked,
        Mark.compared, Event.broadcastRequest, Event.comparison]
    | _ => exact ⟨rfl, rfl⟩
  | request slave state =>
    by_cases all : slave = 0 <;> simp [Event.mark, all, Mark.asked, Mark.compared,
      Event.broadcastRequest, Event.comparison]
  | _ => exact ⟨rfl, rfl⟩

/-! ## The checks that a run makes -/

namespace EcMaster

variable {β : Type} [Platform β]

/-- One step of the bus master: a call of the library, a check of all slaves, another entry
in the record, a store into the shared memory, or a change of its own bookkeeping, which
neither the record nor the shared memory shows. -/
inductive Step : EcMaster β → EcMaster β → Prop
  | soem (call : SoemCall) (m : EcMaster β) : Step m ((EcMaster.soem call).after m)
  | check (state : UInt16) (m : EcMaster β) : Step m ((checkAllSlavesInState state).after m)
  | note (event : Event) (plain : event.comparison = none) (m : EcMaster β) :
      Step m ((EcMaster.note event).after m)
  | setState (slave : Nat) (state : UInt16) (m : EcMaster β) :
      Step m { m with ctx := m.ctx.setState slave state }
  | store (address : Nat) (data : List UInt8) (m : EcMaster β) :
      Step m { m with ctx := m.ctx.store address data }
  | own (m m' : EcMaster β) (memory : m'.ctx = m.ctx) (record : m'.trace = m.trace) : Step m m'

/-- The second master is one to which the first has come step by step. -/
def Onward (m m' : EcMaster β) : Prop := Relation.ReflTransGen Step m m'

/-- All operations are made up of such steps. -/
theorem admits_step : Admits (Step (β := β)) id where
  note event plain m := .single (.note event plain m)
  check state m := .single (.check state m)
  soem call _ m := .single (.soem call m)
  world m _ := .single (.own m _ rfl rfl)
  setState m slave state := .single (.setState slave state m)
  store m address data := .single (.store address data m)
  config m _ := .single (.own m _ rfl rfl)
  closed m _ := .single (.own m _ rfl rfl)
  expectedWkc m _ := .single (.own m _ rfl rfl)

/-- An exchange of a frame is made up of such steps. -/
theorem moves_runOneCycle : Program.Moves Step id (runOneCycle (β := β)) :=
  .bind (admits_step.soem _ nofun) fun _ => .bind (admits_step.soem _ nofun) fun _ =>
    .bind admits_step.steadyNow fun _ =>
      Program.moves_modify fun m => .single (.own m _ rfl rfl)

/-- A check of all slaves reads their states and records those of slaves 1 to `slavecount`. -/
theorem trace_checkAllSlavesInState (state : UInt16) (m : EcMaster β) :
    let read := (soem .readState).after m
    ((checkAllSlavesInState state).after m).trace =
      read.trace ++ [.checked state read.slaveStates] := rfl

/-- A step after which the record has a check either is this check or has found it there. -/
theorem Step.check_made {m m' : EcMaster β} (step : Step m m') {before later : List Event}
    {state : UInt16} {found : List UInt16}
    (split : m'.trace = before ++ .checked state found :: later) :
    (∃ earlier, m.trace = before ++ .checked state found :: earlier) ∨
      m' = (checkAllSlavesInState state).after m ∧
        ((EcMaster.soem .readState).after m).trace = before ∧
        found = ((EcMaster.soem .readState).after m).slaveStates := by
  have entered {event : Event} {rest : List Event} (plain : event.comparison = none)
      (grown : m.trace ++ [event] = before ++ .checked state found :: rest) :
      ∃ earlier, m.trace = before ++ .checked state found :: earlier := by
    rcases Traces.split_concat grown with ⟨-, rfl, -⟩ | ⟨earlier, there, -⟩
    · cases plain
    · exact ⟨earlier, there⟩
  cases step with
  | soem call => exact .inl (entered rfl split)
  | check other =>
    rw [trace_checkAllSlavesInState] at split
    rcases Traces.split_concat split with ⟨trace, checked, -⟩ | ⟨earlier, there, -⟩
    · cases checked
      exact .inr ⟨rfl, trace, rfl⟩
    · exact .inl (entered rfl there)
  | note event plain => exact .inl (entered plain split)
  | setState slave written => exact .inl ⟨later, split⟩
  | store address data => exact .inl ⟨later, split⟩
  | own _ _ memory record => exact .inl ⟨later, record.symm.trans split⟩

/-- Every check in the record was made on the way, on a master that the run came to.

Proof: by induction on the steps. The last one makes the check or finds it in the record, and
then an earlier step has made it. -/
theorem Onward.check_made {m m' : EcMaster β} (onward : Onward m m')
    (unchecked : ∀ event ∈ m.trace, event.comparison = none) {before later : List Event}
    {state : UInt16} {found : List UInt16}
    (split : m'.trace = before ++ .checked state found :: later) :
    ∃ visited, Onward m visited ∧ Onward ((checkAllSlavesInState state).after visited) m' ∧
      ((soem .readState).after visited).trace = before ∧
      found = ((soem .readState).after visited).slaveStates := by
  induction onward generalizing later with
  | refl =>
    have checked := unchecked (.checked state found) (by simp [split])
    cases checked
  | tail path step inductionHypothesis =>
    rcases step.check_made split with ⟨earlier, there⟩ | ⟨rfl, trace, states⟩
    · obtain ⟨visited, reached, onward, known⟩ := inductionHypothesis there
      exact ⟨visited, reached, onward.tail step, known⟩
    · exact ⟨_, path, .refl, trace, states⟩

end EcMaster

/-! ## The master -/

namespace Impl

variable {β : Type}

/-- One operation of a run of the master. -/
abbrev Entry (β : Type) := Runs.Turn (Impl β) MasterOperation Bool

/-- The operations of a history since the controller was last in Uninitialized. -/
def session (history : List (Entry β)) : List (Entry β) :=
  history.rtakeWhile fun entry => entry.after.controller.state ≠ .uninitialized

/-- The transitions that succeeded in a list of operations, in order. -/
def milestones (entries : List (Entry β)) : List MasterAction :=
  entries.filterMap fun entry => Lifecycle.milestone ⟨entry.operation.request, entry.outcome⟩

/-- What the lifecycle sees of one operation. -/
def seen (entry : Entry β) : Lifecycle.Label × Lifecycle.State :=
  (⟨entry.operation.request, entry.outcome⟩, abstraction entry.after)

/-- The lifecycle sees the same session. -/
theorem session_seen (history : List (Entry β)) :
    Lifecycle.session (history.map seen) = (session history).map seen := by
  rw [Lifecycle.session, List.rtakeWhile, ← List.map_reverse, List.takeWhile_map,
    ← List.map_reverse]
  rfl

/-- An operation that halted neither the controller nor asked for that. -/
def CalmEntry (entry : Entry β) : Prop :=
  entry.after.controller.state.isHalted = false ∧ entry.operation ≠ .requestFault ∧
    entry.operation ≠ .requestEmergencyStop

section Runs

variable [Platform β] (platform : β) (onStateChanged onRuntimeStateChanged : Bool)

/-- Outside the halted states a run has made exactly the progress of its state since it
was last in Uninitialized, calmly. -/
theorem session_progress (operations : List MasterOperation) :
    let start := constructed platform onStateChanged onRuntimeStateChanged
    let recent := session (Runs.history perform start operations)
    let i := Runs.final perform start operations
    i.controller.state.isHalted = false →
      Lifecycle.Progress i.controller.state (milestones recent) ∧
        ∀ entry ∈ recent, CalmEntry entry := by
  intro start recent i running
  have path : Runs.Path Lifecycle.Move {} ((Runs.history perform start operations).map seen)
      (abstraction i) :=
    path_of_operations platform onStateChanged onRuntimeStateChanged operations
  obtain ⟨progress, calm⟩ := Lifecycle.tracked_of_path path running
  rw [session_seen] at progress calm
  refine ⟨?_, fun entry member => ?_⟩
  · rw [List.filterMap_map] at progress
    exact progress
  · obtain ⟨unhalted, notFault, notEmergency⟩ :=
      calm (seen entry) (List.mem_map_of_mem member)
    refine ⟨unhalted, fun fault => notFault ?_, fun emergency => notEmergency ?_⟩
    · simp [seen, fault, MasterOperation.request]
    · simp [seen, emergency, MasterOperation.request]

/-- A run takes the bus master onward step by step. -/
theorem onward_final (operations : List MasterOperation) :
    let start := constructed platform onStateChanged onRuntimeStateChanged
    start.controller.master.Onward (Runs.final perform start operations).controller.master := by
  intro start
  refine Runs.final_invariant perform start
    (fun i => start.controller.master.Onward i.controller.master) ?_ .refl operations
  intro i operation onward
  exact onward.trans (moves_perform EcMaster.admits_step operation
    (fun _ m => .single (.soem .configInit m)) (fun _ => EcMaster.moves_runOneCycle) i)

/-- The last check in the record of a run was made on a master that the run came to; its
entry holds the states of slaves 1 to `slavecount` that this master had read. -/
theorem last_check_made (operations : List MasterOperation) {target : UInt16}
    {found : List UInt16}
    (last : Traces.latest Event.comparison (Runs.final perform
      (constructed platform onStateChanged onRuntimeStateChanged)
      operations).controller.master.trace = some (target, found)) :
    let start := constructed platform onStateChanged onRuntimeStateChanged
    let i := Runs.final perform start operations
    ∃ visited later, start.controller.master.Onward visited ∧
      ((EcMaster.checkAllSlavesInState target).after visited).Onward i.controller.master ∧
      i.controller.master.trace =
        ((EcMaster.checkAllSlavesInState target).after visited).trace ++ later ∧
      (∀ event ∈ later, event.comparison = none) ∧
      found = ((EcMaster.soem .readState).after visited).slaveStates := by
  intro start i
  obtain ⟨before, event, later, split, shown, silent⟩ := Traces.latest_split last
  obtain rfl : event = .checked target found := by
    cases event <;> simp_all [Event.comparison]
  have onward : start.controller.master.Onward i.controller.master :=
    onward_final platform onStateChanged onRuntimeStateChanged operations
  obtain ⟨visited, reached, still, trace, states⟩ :=
    onward.check_made (List.forall_mem_nil _) split
  refine ⟨visited, later, reached, still, ?_, silent, states⟩
  rw [EcMaster.trace_checkAllSlavesInState, trace, ← states, List.append_assoc]
  exact split

/-- In every run, whenever the state is Maintenance, ReadyToRun or Operational, the
transitions that succeeded since Uninitialized are the ones that lead there, with no
fault or emergency request among them; and the last request to all slaves and the last
check of all slaves were for the bus state that belongs to it. The check was made on a master
that the run came to, and when it had read the states, each of the slaves 1 to `slavecount` was
in exactly that state. -/
theorem state_confirmed (operations : List MasterOperation) (target : UInt16) :
    let start := constructed platform onStateChanged onRuntimeStateChanged
    let recent := session (Runs.history perform start operations)
    let i := Runs.final perform start operations
    Lifecycle.busTarget i.controller.state = some target →
      (Lifecycle.Progress i.controller.state (milestones recent) ∧
        ∀ entry ∈ recent, CalmEntry entry) ∧
      Traces.latest Event.broadcastRequest i.controller.master.trace = some target ∧
      (∃ found, Traces.latest Event.comparison i.controller.master.trace = some (target, found) ∧
        ∀ state ∈ found, state = target) ∧
      ∃ visited later, start.controller.master.Onward visited ∧
        ((EcMaster.checkAllSlavesInState target).after visited).Onward i.controller.master ∧
        i.controller.master.trace =
          ((EcMaster.checkAllSlavesInState target).after visited).trace ++ later ∧
        (∀ event ∈ later, event.comparison = none) ∧
        let read := (EcMaster.soem .readState).after visited
        ∀ slave, 1 ≤ slave → slave ≤ read.ctx.slavecount →
          (read.ctx.slavelist slave).state = target := by
  intro start recent i stands
  have running : i.controller.state.isHalted = false := by
    cases held : i.controller.state <;> simp_all [ControllerState.isHalted, Lifecycle.busTarget]
  refine ⟨session_progress platform onStateChanged onRuntimeStateChanged operations running, ?_⟩
  have path := path_of_operations platform onStateChanged onRuntimeStateChanged operations
  have initial : Lifecycle.Confirmed {} := fun _ expects => by cases expects
  have confirmed : Lifecycle.Confirmed (abstraction i) :=
    path.preserves Lifecycle.Confirmed initial fun _ _ _ confirmed move => move.confirmed confirmed
  have confirms : Lifecycle.LastConfirms target
      (i.controller.master.trace.filterMap Event.mark) := confirmed target stands
  rw [Lifecycle.LastConfirms, Traces.latest_filterMap, Traces.latest_filterMap] at confirms
  simp only [confirmation_events] at confirms
  obtain ⟨requested, found, last, all⟩ := confirms
  obtain ⟨visited, later, reached, onward, trace, silent, states⟩ :=
    last_check_made platform onStateChanged onRuntimeStateChanged operations last
  refine ⟨requested, ⟨found, last, all⟩, visited, later, reached, onward, trace, silent, ?_⟩
  intro read slave positive listed
  apply all
  rw [states]
  exact EcMaster.mem_slaveStates.mpr ⟨slave, positive, listed, rfl⟩

end Runs

/-- Three slaves taken forth to Operational, back to Maintenance and forth again. -/
theorem state_confirmed_bench :
    let start := constructed
      ({ slaves := List.replicate 3 { state := EcState.init } } : Bench) false false
    let operations := [.initializeAdapter {}, .scan, .enterMaintenance, .prepareRun,
      .startOperation, .backToMaintenance, .prepareRun, .startOperation]
    let recent := session (Runs.history perform start operations)
    let i := Runs.final perform start operations
    (Lifecycle.Progress i.controller.state (milestones recent) ∧
      ∀ entry ∈ recent, CalmEntry entry) ∧
    Traces.latest Event.broadcastRequest i.controller.master.trace = some EcState.operational ∧
    (∃ found, Traces.latest Event.comparison i.controller.master.trace =
        some (EcState.operational, found) ∧ ∀ state ∈ found, state = EcState.operational) ∧
    ∃ visited later, start.controller.master.Onward visited ∧
      ((EcMaster.checkAllSlavesInState EcState.operational).after visited).Onward
        i.controller.master ∧
      i.controller.master.trace =
        ((EcMaster.checkAllSlavesInState EcState.operational).after visited).trace ++ later ∧
      (∀ event ∈ later, event.comparison = none) ∧
      let read := (EcMaster.soem .readState).after visited
      ∀ slave, 1 ≤ slave → slave ≤ read.ctx.slavecount →
        (read.ctx.slavelist slave).state = EcState.operational :=
  state_confirmed _ false false _ EcState.operational (by decide +kernel)

end Impl

end MoEcat
