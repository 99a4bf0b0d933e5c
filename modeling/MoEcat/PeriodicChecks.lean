import MoEcat.Bench
import MoEcat.Notifications

/-!
# The periodic check of the slave states

The service looks at all slaves in Maintenance and in Operational, unless its last look
was less than the check interval ago. One service is described exactly: when it looks,
what it reads, and what that does to the state. Over a run, the stored time is that of
the last look, so the looks are spaced by the interval and none that is due is left out.
-/

namespace MoEcat

variable {β : Type}

/-- Any two of the instants, in the order of the list, are an interval apart. -/
def Spaced (interval : Int) (instants : List Int) : Prop :=
  instants.Pairwise fun earlier later => interval ≤ later - earlier

/-- An instant that is an interval after the last one is an interval after all. -/
theorem Spaced.concat {interval : Int} (positive : 0 ≤ interval) {instants : List Int}
    (spaced : Spaced interval instants) {next : Int}
    (due : ∀ last, instants.getLast? = some last → interval ≤ next - last) :
    Spaced interval (instants ++ [next]) := by
  refine List.pairwise_append.mpr ⟨spaced, List.pairwise_singleton _ _, ?_⟩
  intro instant member other single
  obtain rfl := List.mem_singleton.mp single
  obtain ⟨last, latest⟩ : ∃ last, instants.getLast? = some last :=
    ⟨_, List.getLast?_eq_some_getLast (List.ne_nil_of_mem member)⟩
  obtain ⟨earlier, rfl⟩ := List.getLast?_eq_some_iff.mp latest
  have gap := due last latest
  rcases List.mem_append.mp member with before | here
  · have apart := (List.pairwise_append.mp spaced).2.2 instant before last List.mem_cons_self
    omega
  · rw [List.mem_singleton.mp here]
    exact gap

/-! ## What one check does -/

/-- Whether an event is a check of all slaves. -/
def Event.isCheck : Event → Bool
  | .checked .. => true
  | _ => false

/-- The mark of a check of all slaves. -/
def Mark.isCheck : Mark → Bool
  | .checked .. => true
  | _ => false

/-- Checks are seen in the marks. -/
theorem isCheck_events {event : Event} (check : event.isCheck = true) :
    ∃ mark, event.mark = some mark ∧ mark.isCheck = true := by
  cases event with
  | checked expected found => exact ⟨_, rfl, rfl⟩
  | _ => cases check

/-- Events whose marks contain no check contain none. -/
theorem unchecked_events {events : List Event} {marks : List Mark}
    (shown : events.filterMap Event.mark = marks) (quiet : ∀ mark ∈ marks, mark.isCheck = false) :
    ∀ event ∈ events, event.isCheck = false := by
  intro event member
  by_contra check
  obtain ⟨mark, marked, checks⟩ := isCheck_events (by simpa using check)
  have seen : mark ∈ marks := shown ▸ List.mem_filterMap.mpr ⟨event, member, marked⟩
  simp [quiet mark seen] at checks

/-- The state that the periodic check expects of all slaves, where it is made. -/
def supervisedState : ControllerState → Option UInt16
  | .maintenance => some EcState.preOp
  | .operational => some EcState.operational
  | _ => none

namespace ProcessDataEngine

variable [Platform β]

/-- A supervision reads all slave states, records them, and leaves a fault exactly when
one of them is not the expected one. -/
theorem supervise_spec (expected : UInt16) (c : EcatController β) :
    let found := ((EcMaster.soem .readState).after c.master).slaveStates
    ∃ result snapshot,
      ((supervise expected).after c).master.trace =
        c.master.trace ++ [.soem .readState result, .checked expected found] ++ snapshot ∧
      (∀ event ∈ snapshot, event.isCheck = false) ∧
      ((supervise expected).after c).state =
        if found.all (· == expected) = true then c.state else .fault := by
  intro found
  have outcome : (EcMaster.checkAllSlavesInState expected).result c.master =
      found.all (· == expected) := rfl
  have recorded : ((EcMaster.checkAllSlavesInState expected).after c.master).trace =
      c.master.trace ++
        [.soem .readState ((EcMaster.soem .readState).result c.master).result,
          .checked expected found] := by
    simp only [EcMaster.checkAllSlavesInState, EcMaster.note, Program.after_bind,
      Program.result_get, Program.after_get, Program.after_modify, Program.after_pure]
    simp [EcMaster.soem, Program.after, Program.result, StateT.run, found]
  refine ⟨((EcMaster.soem .readState).result c.master).result, ?_⟩
  by_cases present : found.all (· == expected) = true
  · have passed : (EcMaster.checkAllSlavesInState expected).result c.master = true :=
      outcome.trans present
    refine ⟨[], ?_, by simp, ?_⟩
    · simp [supervise, passed, recorded]
    · rw [if_pos present]
      simp [supervise, passed]
  · have failed : (EcMaster.checkAllSlavesInState expected).result c.master = false :=
      outcome.trans (Bool.eq_false_iff.mpr present)
    obtain ⟨m, faulted, reads⟩ := EcatController.enterFault_after
      { c with master := (EcMaster.checkAllSlavesInState expected).after c.master }
    obtain ⟨snapshot, grown, shown⟩ := reads.grows
    refine ⟨snapshot, ?_, unchecked_events shown ?_, ?_⟩
    · simp [supervise, failed, EcatController.requestFault, faulted, grown, recorded]
    · intro mark member
      rw [(List.mem_replicate.mp member).2]
      rfl
    · rw [if_neg present]
      simp [supervise, failed, EcatController.requestFault, faulted]

/-- In a supervised state all slaves are compared with its bus state. -/
theorem superviseSlaves_supervised (c : EcatController β) {expected : UInt16}
    (supervised : supervisedState c.state = some expected) :
    superviseSlaves.after c = (supervise expected).after c := by
  cases held : c.state <;> rw [held] at supervised <;> cases supervised
  · exact superviseSlaves_maintenance c held
  · exact superviseSlaves_operational c held

end ProcessDataEngine

/-! ## What one service does -/

namespace Impl

variable [Platform β]

/-- The controller when the service comes to its check: in Operational the cycle has
been run by then. -/
def beforeCheck (i : Impl β) : EcatController β :=
  if i.controller.state = .operational then ProcessDataEngine.runOnce.after i.controller
  else i.controller

/-- The instant that the check reads from the clock. -/
def checkInstant (i : Impl β) : Int := EcMaster.steadyNow.result i.beforeCheck.master

/-- The master once the check has read the slave states. -/
def checkedMaster (i : Impl β) : EcMaster β :=
  (EcMaster.soem .readState).after (EcMaster.steadyNow.after i.beforeCheck.master)

/-- The states of slaves 1 to `slavecount` once the check has read them. -/
def foundStates (i : Impl β) : List UInt16 := i.checkedMaster.slaveStates

/-- When the check has read the states, some slave on the list is not exactly in the
expected one. -/
def SlaveMissing (i : Impl β) (expected : UInt16) : Prop :=
  ∃ slave, 1 ≤ slave ∧ slave ≤ i.checkedMaster.ctx.slavecount ∧
    (i.checkedMaster.ctx.slavelist slave).state ≠ expected

/-- A slave is missing if and only if one of the states that were read differs. -/
theorem slaveMissing_iff (i : Impl β) (expected : UInt16) :
    i.SlaveMissing expected ↔ ∃ state ∈ i.foundStates, state ≠ expected := by
  constructor
  · rintro ⟨slave, positive, listed, missing⟩
    exact ⟨_, EcMaster.mem_slaveStates.mpr ⟨slave, positive, listed, rfl⟩, missing⟩
  · rintro ⟨state, found, missing⟩
    obtain ⟨slave, positive, listed, rfl⟩ := EcMaster.mem_slaveStates.mp found
    exact ⟨slave, positive, listed, missing⟩

/-- Among the events is one check of all slaves. It follows the reading of their states
and compares the states found with the expected one. -/
def ReadsAllStates (expected : UInt16) (found : List UInt16) (events : List Event) : Prop :=
  ∃ before result after,
    events = before ++ [.soem .readState result, .checked expected found] ++ after ∧
      (∀ event ∈ before, event.isCheck = false) ∧ ∀ event ∈ after, event.isCheck = false

/-- A service either has no check due and keeps the state, or checks all slaves, takes
the instant as that of the last check, and enters Fault exactly if a slave dropped out. -/
inductive Watches (i : Impl β) (events : List Event) (i' : Impl β) : Prop
  | idle
      (notDue : ∀ expected, supervisedState i.controller.state = some expected →
        i.checkInstant - i.lastStateCheckTime < stateCheckInterval)
      (unchecked : ∀ event ∈ events, event.isCheck = false)
      (kept : i'.lastStateCheckTime = i.lastStateCheckTime)
      (still : i'.controller.state = i.controller.state)
  | checked (expected : UInt16)
      (supervised : supervisedState i.controller.state = some expected)
      (due : stateCheckInterval ≤ i.checkInstant - i.lastStateCheckTime)
      (reads : ReadsAllStates expected i.foundStates events)
      (taken : i'.lastStateCheckTime = i.checkInstant)
      (verdict : i'.controller.state =
        if i.foundStates.all (· == expected) = true then i.controller.state else .fault)

/-- The check watches the slaves, given that what the service did before it made no
check and kept the state. -/
theorem checkSlaveStates_watches (i : Impl β) {expected : UInt16}
    (supervised : supervisedState i.controller.state = some expected)
    (held : i.beforeCheck.state = i.controller.state) {earlier : List Event}
    (grown : i.beforeCheck.master.trace = i.controller.master.trace ++ earlier)
    (unchecked : ∀ event ∈ earlier, event.isCheck = false) :
    let i' := checkSlaveStates.after { i with controller := i.beforeCheck }
    ∃ events, i'.controller.master.trace = i.controller.master.trace ++ events ∧
      Watches i events i' := by
  intro i'
  let d := i.beforeCheck.inWorld (Platform.steadyClock i.beforeCheck.master.platform).2
  have same : i' =
      if i.checkInstant - i.lastStateCheckTime < stateCheckInterval then { i with controller := d }
      else
        { i with
          controller := ProcessDataEngine.superviseSlaves.after d
          lastStateCheckTime := i.checkInstant } :=
    checkSlaveStates_spec { i with controller := i.beforeCheck }
  by_cases early : i.checkInstant - i.lastStateCheckTime < stateCheckInterval
  · rw [if_pos early] at same
    rw [same]
    exact ⟨earlier, grown, .idle (fun _ _ => early) unchecked rfl held⟩
  · rw [if_neg early] at same
    have watched : supervisedState d.state = some expected := by
      rw [EcatController.state_inWorld, held]
      exact supervised
    have before : d.master.trace = i.controller.master.trace ++ earlier := grown
    obtain ⟨result, snapshot, recorded, quiet, verdict⟩ :=
      ProcessDataEngine.supervise_spec expected d
    rw [ProcessDataEngine.superviseSlaves_supervised d watched] at same
    refine ⟨earlier ++ [.soem .readState result, .checked expected i.foundStates] ++ snapshot,
      ?_, .checked expected supervised (by omega) ⟨earlier, result, snapshot, rfl, unchecked, quiet⟩
        ?_ ?_⟩
    · rw [same]
      apply recorded.trans
      rw [before]
      simp only [List.append_assoc]
      rfl
    · rw [same]
    · rw [same, ← held]
      exact verdict

/-- In Maintenance the check is all that a service does. -/
theorem maintained_watches (i : Impl β) (maintained : i.controller.state = .maintenance) :
    ∃ events, (checkSlaveStates.after i).controller.master.trace =
        i.controller.master.trace ++ events ∧
      Watches i events (checkSlaveStates.after i) := by
  have waits : i.beforeCheck = i.controller := by simp [beforeCheck, maintained]
  have checking := checkSlaveStates_watches i
    (show supervisedState i.controller.state = some EcState.preOp by rw [maintained]; rfl)
    (by rw [waits])
    (show i.beforeCheck.master.trace = i.controller.master.trace ++ [] by
      rw [waits, List.append_nil])
    (by simp)
  rw [waits] at checking
  exact checking

/-- In Operational the check follows a cycle, which makes no check and keeps the state. -/
theorem cycled_watches (i : Impl β) (operational : i.controller.state = .operational) :
    let d := ProcessDataEngine.runOnce.after i.controller
    ∃ events, (checkSlaveStates.after { i with controller := d }).controller.master.trace =
        i.controller.master.trace ++ events ∧
      Watches i events (checkSlaveStates.after { i with controller := d }) := by
  intro d
  have cycles : i.beforeCheck = d := by simp [beforeCheck, operational, d]
  obtain ⟨m, nodes, cycled, -, touches⟩ :=
    ProcessDataEngine.runOnce_after i.controller operational
  obtain ⟨earlier, grown, shown⟩ := touches.grows
  have quiet : ∀ mark ∈ Lifecycle.cycleMarks i.controller.abstraction, mark.isCheck = false := by
    intro mark member
    simp only [Lifecycle.cycleMarks, List.mem_append, List.mem_map, List.mem_cons,
      List.not_mem_nil, or_false] at member
    rcases member with (⟨slave, -, rfl⟩ | rfl | rfl) | ⟨slave, -, rfl⟩ <;> rfl
  have checking := checkSlaveStates_watches i
    (show supervisedState i.controller.state = some EcState.operational by
      rw [operational]; rfl)
    (by rw [cycles, show d = _ from cycled])
    (show i.beforeCheck.master.trace = i.controller.master.trace ++ earlier by
      rw [cycles, show d = _ from cycled]; exact grown)
    (unchecked_events shown quiet)
  rw [cycles] at checking
  exact checking

/-- Every service of a settled master watches the slaves. -/
theorem service_watches (i : Impl β) (settled : Settled i) :
    ∃ events, ((perform .service).after i).controller.master.trace =
        i.controller.master.trace ++ events ∧
      Watches i events ((perform .service).after i) := by
  obtain ⟨delivered, performed⟩ := service_after i
  have watches : ∃ events, (serviceEngine.after i).controller.master.trace =
      i.controller.master.trace ++ events ∧ Watches i events (serviceEngine.after i) := by
    rcases serviceEngine_selects i settled with
      ⟨maintained, same⟩ | ⟨operational, same⟩ | ⟨⟨unmaintained, stopped⟩, same⟩
    · rw [same]
      exact maintained_watches i maintained
    · rw [same]
      exact cycled_watches i operational
    · rw [same]
      refine ⟨[], by rw [List.append_nil], .idle ?_ (by simp) rfl rfl⟩
      intro expected supervised
      cases held : i.controller.state <;> simp_all [supervisedState]
  have same : (perform .service).after i = { serviceEngine.after i with delivered := delivered } :=
    performed
  obtain ⟨events, grown, watched⟩ := watches
  rw [same]
  refine ⟨events, grown, ?_⟩
  cases watched with
  | idle notDue unchecked kept still => exact .idle notDue unchecked kept still
  | checked expected supervised due reads taken verdict =>
    exact .checked expected supervised due reads taken verdict

/-! ## What a run of services does -/

/-- The events recorded during an operation. -/
def newEvents (entry : Runs.Turn (Impl β) MasterOperation Bool) : List Event :=
  entry.after.controller.master.trace.drop entry.before.controller.master.trace.length

/-- Whether an operation is a service that made its periodic check. -/
def isPeriodicCheck (entry : Runs.Turn (Impl β) MasterOperation Bool) : Bool :=
  entry.operation == .service && (newEvents entry).any Event.isCheck

/-- The instants of the periodic checks in a history, in order. -/
def checkTimes (history : List (Runs.Turn (Impl β) MasterOperation Bool)) : List Int :=
  (history.filter isPeriodicCheck).map fun entry => entry.before.checkInstant

/-- The instant of the last periodic check, or the epoch of the clock. -/
def lastCheck (history : List (Runs.Turn (Impl β) MasterOperation Bool)) : Int :=
  (checkTimes history).getLast?.getD 0

/-- A service counts as a periodic check exactly when it takes the instant. -/
theorem service_counts (i : Impl β) (settled : Settled i) :
    let entry := Runs.turn perform i .service
    Watches i (newEvents entry) entry.after ∧
      ((isPeriodicCheck entry = false ∧ entry.after.lastStateCheckTime = i.lastStateCheckTime) ∨
        (isPeriodicCheck entry = true ∧ entry.after.lastStateCheckTime = i.checkInstant ∧
          stateCheckInterval ≤ i.checkInstant - i.lastStateCheckTime)) := by
  intro entry
  obtain ⟨events, grown, watches⟩ := service_watches i settled
  have fresh : newEvents entry = events := by
    rw [newEvents]
    exact (congrArg (List.drop _) grown).trans List.drop_left
  refine ⟨by rw [fresh]; exact watches, ?_⟩
  have counted : isPeriodicCheck entry = events.any Event.isCheck := by
    rw [isPeriodicCheck, fresh]
    rfl
  cases watches with
  | idle notDue unchecked kept still =>
    refine .inl ⟨?_, kept⟩
    rw [counted]
    simpa using unchecked
  | checked expected supervised due reads taken verdict =>
    refine .inr ⟨?_, taken, due⟩
    obtain ⟨before, result, after, rfl, -, -⟩ := reads
    rw [counted]
    simp [Event.isCheck]

/-- A service made an interval after the stored time reads all slave states and leaves a
fault if a slave is not in the expected one; no other service changes the state. -/
theorem service_verdict (i : Impl β) (settled : Settled i) :
    let entry := Runs.turn perform i .service
    (∀ expected made, supervisedState i.controller.state = some expected →
        made ≤ i.checkInstant → stateCheckInterval ≤ made - i.lastStateCheckTime →
          ReadsAllStates expected i.foundStates (newEvents entry) ∧
            (i.SlaveMissing expected → entry.after.controller.state = .fault)) ∧
      (entry.after.controller.state ≠ i.controller.state →
        ∃ expected, supervisedState i.controller.state = some expected ∧
          stateCheckInterval ≤ i.checkInstant - i.lastStateCheckTime ∧
          i.SlaveMissing expected ∧ entry.after.controller.state = .fault) := by
  intro entry
  cases (service_counts i settled).1 with
  | idle notDue unchecked kept still =>
    refine ⟨fun expected made supervised clock due => ?_, fun changed => absurd still changed⟩
    have early := notDue expected supervised
    omega
  | checked expected supervised due reads taken verdict =>
    have all : i.foundStates.all (· == expected) = true ↔ ¬ i.SlaveMissing expected := by
      rw [slaveMissing_iff]
      simp
    constructor
    · intro other made supervised' clock gap
      obtain rfl : other = expected := Option.some.inj (supervised'.symm.trans supervised)
      refine ⟨reads, fun missing => ?_⟩
      rw [verdict, if_neg (mt all.mp (not_not_intro missing))]
    · intro changed
      by_cases missing : i.SlaveMissing expected
      · rw [if_neg (mt all.mp (not_not_intro missing))] at verdict
        exact ⟨expected, supervised, due, missing, verdict⟩
      · rw [if_pos (all.mpr missing)] at verdict
        exact absurd verdict changed

/-- Any other operation neither counts as a periodic check nor touches the stored time. -/
theorem perform_uncounted (i : Impl β) (settled : Settled i) {operation : MasterOperation}
    (other : operation ≠ .service) :
    isPeriodicCheck (Runs.turn perform i operation) = false ∧
      ((perform operation).after i).lastStateCheckTime = i.lastStateCheckTime := by
  refine ⟨by simp [isPeriodicCheck, Runs.turn, other], ?_⟩
  cases requested : operation.request with
  | action action =>
    obtain ⟨inner, framed⟩ := MasterOperation.framed_request requested
    obtain ⟨platform, logger, same⟩ := prepared_after operation i
    rw [(perform_delivers framed requested settled).2, same]
  | service => exact absurd (MasterOperation.eq_service requested) other
  | access =>
    obtain ⟨m, same, -⟩ := perform_access requested i
    rw [same]

section Runs

variable (platform : β) (onStateChanged onRuntimeStateChanged : Bool)

/-- After every run the stored time is the instant of the last periodic check, and the
checks have been spaced by the interval. The induction is on the run. -/
theorem checkTimes_final (operations : List MasterOperation) :
    let start := constructed platform onStateChanged onRuntimeStateChanged
    (Runs.final perform start operations).lastStateCheckTime =
        lastCheck (Runs.history perform start operations) ∧
      Spaced stateCheckInterval (checkTimes (Runs.history perform start operations)) := by
  intro start
  induction operations using List.reverseRecOn with
  | nil => exact ⟨rfl, List.Pairwise.nil⟩
  | append_singleton operations last inductionHypothesis =>
    obtain ⟨stored, spaced⟩ := inductionHypothesis
    have settled : Settled (Runs.final perform start operations) :=
      settled_operations platform onStateChanged onRuntimeStateChanged operations
    rw [Runs.final_concat, Runs.history_concat]
    have uncounted : ∀ entry : Runs.Turn (Impl β) MasterOperation Bool,
        isPeriodicCheck entry = false →
        checkTimes (Runs.history perform start operations ++ [entry]) =
          checkTimes (Runs.history perform start operations) := by
      intro entry skipped
      simp [checkTimes, List.filter_append, skipped]
    by_cases served : last = .service
    · subst served
      rcases (service_counts _ settled).2 with ⟨skipped, kept⟩ | ⟨counted, taken, due⟩
      · rw [lastCheck, uncounted _ skipped]
        exact ⟨kept.trans stored, spaced⟩
      · have added : checkTimes (Runs.history perform start operations ++
            [Runs.turn perform (Runs.final perform start operations) .service]) =
            checkTimes (Runs.history perform start operations) ++
              [(Runs.final perform start operations).checkInstant] := by
          rw [checkTimes, List.filter_append, List.filter_cons_of_pos counted, List.map_append]
          rfl
        rw [lastCheck, added, List.getLast?_concat]
        refine ⟨taken, spaced.concat (by decide) fun recent latest => ?_⟩
        rw [stored, lastCheck, latest] at due
        exact due
    · obtain ⟨skipped, kept⟩ := perform_uncounted _ settled served
      rw [lastCheck, uncounted _ skipped]
      exact ⟨kept.trans stored, spaced⟩

/-- In every run, two periodic checks are never less than the interval apart. A service
in Maintenance or Operational that is made at an instant at least the interval after
the last check, or the epoch, reads the states of slaves 1 to `slavecount`, and leaves a
fault if one of them is not exactly the expected one; and a service changes the state in
no other case. -/
theorem periodic_checks (operations : List MasterOperation) :
    let history := Runs.history perform
      (constructed platform onStateChanged onRuntimeStateChanged) operations
    Spaced stateCheckInterval (checkTimes history) ∧
      ∀ earlier entry later, history = earlier ++ entry :: later → entry.operation = .service →
        (∀ expected made, supervisedState entry.before.controller.state = some expected →
          made ≤ entry.before.checkInstant →
          stateCheckInterval ≤ made - lastCheck earlier →
            ReadsAllStates expected
              ((List.range entry.before.checkedMaster.ctx.slavecount).map fun i =>
                (entry.before.checkedMaster.ctx.slavelist (i + 1)).state) (newEvents entry) ∧
              (entry.before.SlaveMissing expected → entry.after.controller.state = .fault)) ∧
        (entry.after.controller.state ≠ entry.before.controller.state →
          ∃ expected, supervisedState entry.before.controller.state = some expected ∧
            stateCheckInterval ≤ entry.before.checkInstant - lastCheck earlier ∧
            entry.before.SlaveMissing expected ∧ entry.after.controller.state = .fault) := by
  intro history
  refine ⟨(checkTimes_final platform onStateChanged onRuntimeStateChanged operations).2, ?_⟩
  intro earlier entry later split served
  obtain ⟨first, operation, recorded, rfl⟩ := Runs.history_split_turn perform _ split
  obtain rfl : operation = .service := served
  have settled := settled_operations platform onStateChanged onRuntimeStateChanged first
  have stored := (checkTimes_final platform onStateChanged onRuntimeStateChanged first).1
  rw [recorded] at stored
  rw [← stored]
  exact service_verdict _ settled

end Runs

end Impl

/-! ## A drop-out on the bench -/

/-- The bench with a clock that moves on by half a second whenever it is read, and a first
slave that falls back to SAFE_OP with an error flag after a while. -/
structure DroppingBench where
  bench : Bench
  now : Int
  dropsAt : Int

namespace DroppingBench

/-- What a read of the slave states shows once the slave has dropped out. -/
def dropped (ctx : EcContext) : EcContext := ctx.setState 1 (EcState.safeOp ||| EcState.error)

/-- The bench answers all calls; from some instant on a slave is found dropped out. The clock
moves on by half a second whenever it is read. -/
instance : Platform DroppingBench where
  soem call ctx world :=
    let answer := world.bench.answer call ctx
    (answer.1, if call = .readState ∧ world.dropsAt ≤ world.now then dropped answer.2 else answer.2,
      world)
  steadyClock world := (world.now, { world with now := world.now + 500000000 })
  openLogFile path world := ((Platform.openLogFile path world.bench).1, world)

end DroppingBench

namespace Impl

/-- Two slaves in Operational: the first service finds both of them, the second finds one
of them gone, which is the one change of state that a service makes. -/
theorem periodic_checks_bench :
    let start := constructed
      ({ bench := { slaves := [{}, {}] }, now := 1000000000, dropsAt := 2500000000 } :
        DroppingBench) false false
    let operations : List MasterOperation := [.initializeAdapter {}, .scan, .enterMaintenance,
      .prepareRun, .startOperation, .service, .service]
    let history := Runs.history perform start operations
    (checkTimes history = [1500000000, 2500000000] ∧
      history.map (·.after.controller.state) = [.adapterReady, .scanned, .maintenance,
        .readyToRun, .operational, .operational, .fault]) ∧
    Spaced stateCheckInterval (checkTimes history) ∧
      ∀ earlier entry later, history = earlier ++ entry :: later → entry.operation = .service →
        (∀ expected made, supervisedState entry.before.controller.state = some expected →
          made ≤ entry.before.checkInstant →
          stateCheckInterval ≤ made - lastCheck earlier →
            ReadsAllStates expected
              ((List.range entry.before.checkedMaster.ctx.slavecount).map fun i =>
                (entry.before.checkedMaster.ctx.slavelist (i + 1)).state) (newEvents entry) ∧
              (entry.before.SlaveMissing expected → entry.after.controller.state = .fault)) ∧
        (entry.after.controller.state ≠ entry.before.controller.state →
          ∃ expected, supervisedState entry.before.controller.state = some expected ∧
            stateCheckInterval ≤ entry.before.checkInstant - lastCheck earlier ∧
            entry.before.SlaveMissing expected ∧ entry.after.controller.state = .fault) := by
  intro start operations history
  exact ⟨by decide +kernel, periodic_checks _ false false operations⟩

end Impl

end MoEcat
