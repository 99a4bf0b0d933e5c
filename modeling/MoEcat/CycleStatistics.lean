import MoEcat.Bench
import MoEcat.CyclicUpdates
import MoEcat.Frames
import Mathlib.Data.List.DropRight

/-!
# The statistics of the cycles

The time stamp of the last cycle and the counters live in the bus master, which outlives
every stay in Operational. Nothing but a cycle writes them, so a stay inherits what the
stay before it has left: its first interval spans the time in between, and its run of
mismatches goes on. It is stated exactly when that does not show.
-/

namespace MoEcat

open Program

variable {β : Type}

/-- A word holds the integer that it was made from exactly when that fits. -/
theorem toNat_ofInt_iff (n : Int) :
    ((UInt32.ofInt n).toNat : Int) = n ↔ 0 ≤ n ∧ n < 4294967296 := by
  have value : (UInt32.ofInt n).toNat = (n % 2 ^ 32).toNat := by
    rw [UInt32.ofInt, UInt32.toNat_ofNat']
    omega
  rw [value]
  omega

/-! ## One exchange -/

namespace EcMaster

variable [Platform β]

/-- The bus master when the answer to the frame has arrived. -/
def exchanged (m : EcMaster β) : EcMaster β :=
  (soem (.receiveProcessData ecTimeoutRet)).after ((soem .sendProcessData).after m)

/-- The working counter of the answer. -/
def answeredWkc (m : EcMaster β) : Int :=
  ((soem (.receiveProcessData ecTimeoutRet)).result ((soem .sendProcessData).after m)).result

/-- The instant that the cycle is stamped with. -/
def cycleInstant (m : EcMaster β) : Int := steadyNow.result m.exchanged

/-- The interval that the cycle folds into the cycle times, in microseconds. Without an
earlier time stamp there is none. -/
def foldedInterval (m : EcMaster β) : Option UInt32 :=
  if m.lastCycleTime ≠ 0 then some (UInt32.ofInt ((m.cycleInstant - m.lastCycleTime).tdiv 1000))
  else none

/-- The statistics after the cycle: the interval is folded in, and the working counter
is compared with the expected one. -/
def cycleStats (m : EcMaster β) : CyclicStats :=
  (m.foldedInterval.elim m.stats m.stats.recordInterval).recordWkc m.answeredWkc m.expectedWkc
    m.exchanged.ctx.dcTime

/-- A cycle leaves these statistics and its own instant. -/
theorem runOneCycle_stats (m : EcMaster β) :
    (runOneCycle.after m).stats = m.cycleStats ∧
      (runOneCycle.after m).lastCycleTime = m.cycleInstant := by
  refine ⟨?_, rfl⟩
  have kept : m.exchanged.stats = m.stats ∧ m.exchanged.lastCycleTime = m.lastCycleTime ∧
      m.exchanged.expectedWkc = m.expectedWkc := ⟨rfl, rfl, rfl⟩
  have cycled : (runOneCycle.after m).stats =
      (if m.exchanged.lastCycleTime ≠ 0 then
        m.exchanged.stats.recordInterval
          (UInt32.ofInt ((m.cycleInstant - m.exchanged.lastCycleTime).tdiv 1000))
      else m.exchanged.stats).recordWkc m.answeredWkc m.exchanged.expectedWkc
        m.exchanged.ctx.dcTime := rfl
  obtain ⟨stats, stamp, expected⟩ := kept
  rw [cycled, stats, stamp, expected, cycleStats, foldedInterval]
  by_cases stamped : m.lastCycleTime ≠ 0
  · rw [if_pos stamped, if_pos stamped]
    rfl
  · rw [if_neg stamped, if_neg stamped]
    rfl

/-- A cycle counts a mismatch on, or begins to count again. -/
theorem cycleStats_consecutive (m : EcMaster β) :
    m.cycleStats.consecutiveWkcMismatch =
      if m.answeredWkc ≠ m.expectedWkc then m.stats.consecutiveWkcMismatch + 1 else 0 := by
  have folded : (m.foldedInterval.elim m.stats m.stats.recordInterval).consecutiveWkcMismatch =
      m.stats.consecutiveWkcMismatch := by
    cases m.foldedInterval <;> rfl
  rw [cycleStats, CyclicStats.recordWkc, folded]

/-- Only a cycle is seen in the statistics and the time stamp. -/
theorem ignores_stats :
    Ignores (fun m : EcMaster β => (m.stats, m.lastCycleTime)) where
  note _ _ := rfl
  soem _ _ _ := rfl
  world _ _ := rfl
  setState _ _ _ := rfl
  store _ _ _ := rfl
  config _ _ := rfl
  closed _ _ := rfl
  expectedWkc _ _ := rfl

end EcMaster

/-! ## Stays in Operational -/

namespace Impl

/-- A call of a run, with the master before and after it. -/
abbrev CallTurn (β : Type) := Runs.Turn (Impl β) Call Bool

/-- A turn that runs one cycle. -/
def isCycle (entry : CallTurn β) : Bool :=
  entry.operation = .operation .service ∧ entry.before.controller.state = .operational

/-- A turn by which Operational is entered. -/
def beginsStay (entry : CallTurn β) : Bool :=
  entry.before.controller.state ≠ .operational ∧ entry.after.controller.state = .operational

/-- The cycles of the stay that was begun last, which is the current one as long as the
master is in Operational. -/
def currentStay (past : List (CallTurn β)) : List (CallTurn β) :=
  (past.rtakeWhile fun entry => !beginsStay entry).filter isCycle

/-- A cycle begins no stay: it is run in Operational already. -/
theorem goesOn_of_cycle {entry : CallTurn β} (cycle : isCycle entry = true) :
    beginsStay entry = false := by
  simp_all [beginsStay, isCycle]

/-- A stay that has just been begun has no cycles. -/
theorem currentStay_begun (past : List (CallTurn β)) {entry : CallTurn β}
    (begins : beginsStay entry = true) : currentStay (past ++ [entry]) = [] := by
  rw [currentStay, List.rtakeWhile_concat_neg _ _ _ (by simp [begins]), List.filter_nil]

/-- A cycle is added to the stay. -/
theorem currentStay_cycled (past : List (CallTurn β)) {entry : CallTurn β}
    (cycle : isCycle entry = true) : currentStay (past ++ [entry]) = currentStay past ++ [entry] := by
  rw [currentStay, List.rtakeWhile_concat_pos _ _ _ (by simp [goesOn_of_cycle cycle]),
    List.filter_append, List.filter_singleton, cycle]
  rfl

/-- A turn that neither runs a cycle nor enters Operational adds nothing to the stay. -/
theorem currentStay_idle (past : List (CallTurn β)) {entry : CallTurn β}
    (idle : isCycle entry = false) (goesOn : beginsStay entry = false) :
    currentStay (past ++ [entry]) = currentStay past := by
  rw [currentStay, List.rtakeWhile_concat_pos _ _ _ (by simp [goesOn]), List.filter_append,
    List.filter_singleton, idle]
  simp [currentStay]

/-! ## One turn of a run -/

/-- The bus master of a cycle when its outputs have been written. -/
def outputsWritten (i : Impl β) : EcMaster β :=
  (SlaveNodeManager.updateAllOutputs i.controller.nodes).after i.controller.master

/-- Writing the outputs keeps what a cycle is measured by. -/
theorem outputsWritten_kept (i : Impl β) :
    i.outputsWritten.stats = i.controller.master.stats ∧
      i.outputsWritten.lastCycleTime = i.controller.master.lastCycleTime ∧
      i.outputsWritten.expectedWkc = i.controller.master.expectedWkc := by
  have written := (SlaveNodeManager.updateAllOutputs_spec i.controller.nodes i.controller.master).2
  rw [outputsWritten, written]
  exact ⟨rfl, rfl, rfl⟩

variable [Platform β]

/-- The instant of the cycle that the turn runs. -/
def cycleTime (entry : CallTurn β) : Int := entry.before.outputsWritten.cycleInstant

/-- The working counter that the cycle is answered with is not the expected one. -/
def mismatched (entry : CallTurn β) : Bool :=
  entry.before.outputsWritten.answeredWkc ≠ entry.before.controller.master.expectedWkc

/-- The interval that the turn folds into the cycle times. -/
def foldedInterval (entry : CallTurn β) : Option UInt32 :=
  if isCycle entry then entry.before.outputsWritten.foldedInterval else none

/-- How many of the last cycles of the current stay were mismatched in a row. -/
def mismatchRun (past : List (CallTurn β)) : Nat :=
  ((currentStay past).rtakeWhile mismatched).length

/-- A service in Operational runs one cycle, and what follows it keeps the statistics. -/
theorem service_cycled (i : Impl β) (settled : Settled i)
    (operational : i.controller.state = .operational) :
    let m := ((perform .service).after i).controller.master
    m.stats = i.outputsWritten.cycleStats ∧ m.lastCycleTime = i.outputsWritten.cycleInstant := by
  intro m
  obtain ⟨delivered, performed⟩ := service_after i
  let d := ProcessDataEngine.runOnce.after i.controller
  have selected : serviceEngine.after i = checkSlaveStates.after { i with controller := d } := by
    rcases serviceEngine_selects i settled with ⟨maintained, -⟩ | ⟨-, same⟩ | ⟨⟨-, stopped⟩, -⟩
    · rw [operational] at maintained
      cases maintained
    · exact same
    · exact absurd operational stopped
  have checked : (m.stats, m.lastCycleTime) = (d.master.stats, d.master.lastCycleTime) := by
    have served : m = (serviceEngine.after i).controller.master :=
      congrArg (fun left => left.controller.master) performed
    rw [served, selected]
    exact keeps_checkSlaveStates EcMaster.ignores_stats { i with controller := d }
  have exchanged : (d.master.stats, d.master.lastCycleTime) =
      ((EcMaster.runOneCycle.after i.outputsWritten).stats,
        (EcMaster.runOneCycle.after i.outputsWritten).lastCycleTime) := by
    have cycled := ProcessDataEngine.runOnce_spec i.controller operational
    have master := congrArg EcatController.master cycled
    rw [show d.master = _ from master]
    rfl
  obtain ⟨stats, stamp⟩ := EcMaster.runOneCycle_stats i.outputsWritten
  have both := checked.trans exchanged
  exact ⟨(congrArg Prod.fst both).trans stats, (congrArg Prod.snd both).trans stamp⟩

/-- Any other call keeps the statistics. -/
theorem handle_uncycled (i : Impl β) (settled : Settled i) (call : Call)
    (idle : isCycle (Runs.turn handle i call) = false) :
    Shown (fun m => (m.stats, m.lastCycleTime)) ((handle call).after i) =
      Shown (fun m => (m.stats, m.lastCycleTime)) i := by
  have scans : call.Scans → Keeps (fun m : EcMaster β => (m.stats, m.lastCycleTime))
      (EcMaster.soem .configInit) := fun _ _ => rfl
  by_cases served : call = .operation .service
  · subst served
    have stopped : i.controller.state ≠ .operational := by
      simpa [isCycle, Runs.turn] using idle
    obtain ⟨delivered, performed⟩ := service_after i
    have handled : (handle (.operation .service)).after i =
        { serviceEngine.after i with delivered := delivered } := performed
    rw [handled]
    rcases serviceEngine_selects i settled with ⟨-, same⟩ | ⟨operational, -⟩ | ⟨-, same⟩
    · rw [same]
      exact keeps_checkSlaveStates EcMaster.ignores_stats i
    · exact absurd operational stopped
    · rw [same]
      rfl
  · exact keeps_handle EcMaster.ignores_stats call scans (fun same => absurd same served) i

/-- The statistics and the time stamp after a turn: only a cycle writes them. -/
theorem turn_stats {entry : CallTurn β} (settled : Settled entry.before)
    (recorded : entry.after = (handle entry.operation).after entry.before) :
    entry.after.controller.master.stats =
        (if isCycle entry then entry.before.outputsWritten.cycleStats
        else entry.before.controller.master.stats) ∧
      entry.after.controller.master.lastCycleTime =
        if isCycle entry then cycleTime entry else entry.before.controller.master.lastCycleTime := by
  rw [recorded]
  by_cases cycle : isCycle entry = true
  · obtain ⟨served, operational⟩ : entry.operation = .operation .service ∧
        entry.before.controller.state = .operational := by
      simpa [isCycle] using cycle
    rw [if_pos cycle, if_pos cycle, served]
    exact service_cycled entry.before settled operational
  · have kept := handle_uncycled entry.before settled entry.operation (Bool.eq_false_iff.mpr cycle)
    rw [if_neg cycle, if_neg cycle]
    exact ⟨congrArg Prod.fst kept, congrArg Prod.snd kept⟩

/-! ## Runs -/

/-- What the statistics owe to the cycles: an interval that is folded in lies between
two consecutive cycles of the current stay, and the counter of consecutive mismatches is
the length of the stay's last run of them. -/
structure KeptApart (past : List (CallTurn β)) (entry : CallTurn β) : Prop where
  intervals : ∀ elapsed, foldedInterval entry = some elapsed →
    ∃ previous, (currentStay past).getLast? = some previous ∧
      (elapsed.toNat : Int) = (cycleTime entry - cycleTime previous).tdiv 1000
  mismatches : entry.after.controller.master.stats.consecutiveWkcMismatch.toNat =
    mismatchRun (past ++ [entry])

/-- A stay that takes over nothing: it begins with the counter at zero, its first cycle
finds no time stamp, and neither an interval nor the counter exceeds 32 bits. -/
structure StartsAfresh (past : List (CallTurn β)) (entry : CallTurn β) : Prop where
  counter : beginsStay entry = true →
    entry.before.controller.master.stats.consecutiveWkcMismatch = 0
  stamp : isCycle entry = true → currentStay past = [] →
    entry.before.controller.master.lastCycleTime = 0
  interval : isCycle entry = true → entry.before.controller.master.lastCycleTime ≠ 0 →
    let elapsed := (cycleTime entry - entry.before.controller.master.lastCycleTime).tdiv 1000
    0 ≤ elapsed ∧ elapsed < 4294967296
  room : isCycle entry = true → mismatched entry = true →
    entry.before.controller.master.stats.consecutiveWkcMismatch.toNat + 1 < 4294967296

/-- What a run knows of the master as long as the statistics are kept apart: the time
stamp is that of the stay's last cycle, and the counter counts its mismatches. -/
structure Accounted (past : List (CallTurn β)) (i : Impl β) : Prop where
  settled : Settled i
  stamped : ∀ previous, (currentStay past).getLast? = some previous →
    i.controller.master.lastCycleTime = cycleTime previous
  counted : i.controller.master.stats.consecutiveWkcMismatch.toNat = mismatchRun past

/-- A cycle makes the run of mismatches longer by one, or ends it. -/
theorem mismatchRun_cycled (past : List (CallTurn β)) {entry : CallTurn β}
    (cycle : isCycle entry = true) :
    mismatchRun (past ++ [entry]) = if mismatched entry then mismatchRun past + 1 else 0 := by
  rw [mismatchRun, currentStay_cycled past cycle, List.rtakeWhile_concat]
  by_cases wrong : mismatched entry = true
  · rw [if_pos wrong, if_pos wrong, List.length_append]
    rfl
  · rw [if_neg wrong, if_neg wrong, List.length_nil]

/-- A cycle folds in the time since the last time stamp, if there is one. -/
theorem foldedInterval_cycle {entry : CallTurn β} (cycle : isCycle entry = true) :
    foldedInterval entry =
      if entry.before.controller.master.lastCycleTime ≠ 0 then
        some (UInt32.ofInt
          ((cycleTime entry - entry.before.controller.master.lastCycleTime).tdiv 1000))
      else none := by
  obtain ⟨-, stamp, -⟩ := outputsWritten_kept entry.before
  rw [foldedInterval, if_pos cycle, EcMaster.foldedInterval, stamp]
  rfl

section Turn

variable {past : List (CallTurn β)} {entry : CallTurn β}
  (recorded : entry.after = (handle entry.operation).after entry.before)

include recorded

/-- The counter after a turn: one more or back to zero after a cycle, else as before. -/
theorem counter_turn (settled : Settled entry.before) :
    entry.after.controller.master.stats.consecutiveWkcMismatch =
      if isCycle entry then
        if mismatched entry then entry.before.controller.master.stats.consecutiveWkcMismatch + 1
        else 0
      else entry.before.controller.master.stats.consecutiveWkcMismatch := by
  have stats := (turn_stats settled recorded).1
  by_cases cycle : isCycle entry = true
  · obtain ⟨before, -, expected⟩ := outputsWritten_kept entry.before
    rw [if_pos cycle] at stats
    rw [if_pos cycle, stats, EcMaster.cycleStats_consecutive, before, expected]
    simp [mismatched]
  · rw [if_neg cycle] at stats
    rw [if_neg cycle, stats]

variable (known : Accounted past entry.before)

include known

/-- The counter after a turn is right exactly when a new stay does not take it over and
it does not overflow. -/
theorem mismatches_iff :
    entry.after.controller.master.stats.consecutiveWkcMismatch.toNat =
        mismatchRun (past ++ [entry]) ↔
      (beginsStay entry = true →
          entry.before.controller.master.stats.consecutiveWkcMismatch = 0) ∧
        (isCycle entry = true → mismatched entry = true →
          entry.before.controller.master.stats.consecutiveWkcMismatch.toNat + 1 < 4294967296) := by
  have counted := known.counted
  rw [counter_turn recorded known.settled]
  cases cycle : isCycle entry with
  | true =>
    rw [if_pos rfl, mismatchRun_cycled past cycle, goesOn_of_cycle cycle]
    cases wrong : mismatched entry with
    | true => simp [← counted]
    | false => simp
  | false =>
    rw [if_neg Bool.false_ne_true]
    cases begins : beginsStay entry with
    | true =>
      rw [mismatchRun, currentStay_begun past begins]
      simp [← UInt32.toNat_inj]
    | false =>
      rw [mismatchRun, currentStay_idle past cycle begins, ← mismatchRun]
      simpa using counted

omit recorded

/-- The interval of a turn is right exactly when a new stay does not take over the time
stamp and the interval fits. -/
theorem intervals_iff :
    let elapsed := (cycleTime entry - entry.before.controller.master.lastCycleTime).tdiv 1000
    (∀ folded, foldedInterval entry = some folded →
        ∃ previous, (currentStay past).getLast? = some previous ∧
          (folded.toNat : Int) = (cycleTime entry - cycleTime previous).tdiv 1000) ↔
      (isCycle entry = true → currentStay past = [] →
          entry.before.controller.master.lastCycleTime = 0) ∧
        (isCycle entry = true → entry.before.controller.master.lastCycleTime ≠ 0 →
          0 ≤ elapsed ∧ elapsed < 4294967296) := by
  intro elapsed
  cases cycle : isCycle entry with
  | false => simp [foldedInterval, cycle]
  | true =>
    rw [foldedInterval_cycle cycle]
    by_cases unstamped : entry.before.controller.master.lastCycleTime = 0
    · simp [unstamped]
    rw [if_pos unstamped]
    cases last : (currentStay past).getLast? with
    | none =>
      have empty : currentStay past = [] := List.getLast?_eq_none_iff.mp last
      simp [empty, unstamped]
    | some previous =>
      have present : currentStay past ≠ [] := by
        intro empty
        simp [empty] at last
      have same : (cycleTime entry - cycleTime previous).tdiv 1000 = elapsed := by
        rw [← known.stamped previous last]
      simpa [present, unstamped, same] using toNat_ofInt_iff elapsed

include recorded

/-- A turn is kept apart, given what the run knows before it, exactly when it takes over
nothing. -/
theorem keptApart_iff : KeptApart past entry ↔ StartsAfresh past entry := by
  constructor
  · intro kept
    obtain ⟨counter, room⟩ := (mismatches_iff recorded known).mp kept.mismatches
    obtain ⟨stamp, interval⟩ := (intervals_iff known).mp kept.intervals
    exact ⟨counter, stamp, interval, room⟩
  · intro afresh
    exact ⟨(intervals_iff known).mpr ⟨afresh.stamp, afresh.interval⟩,
      (mismatches_iff recorded known).mpr ⟨afresh.counter, afresh.room⟩⟩

/-- A turn that is kept apart leaves a master that is accounted for. -/
theorem Accounted.turn (kept : KeptApart past entry) :
    Accounted (past ++ [entry]) entry.after := by
  have stays : Settled entry.after := by
    rw [recorded]
    exact (handle_path entry.before known.settled entry.operation).2
  refine ⟨stays, fun previous last => ?_, kept.mismatches⟩
  rw [(turn_stats known.settled recorded).2]
  cases cycle : isCycle entry with
  | true =>
    rw [currentStay_cycled past cycle, List.getLast?_concat] at last
    obtain rfl := Option.some.inj last
    rfl
  | false =>
    cases begins : beginsStay entry with
    | true =>
      rw [currentStay_begun past begins] at last
      cases last
    | false =>
      rw [currentStay_idle past cycle begins] at last
      exact known.stamped previous last

end Turn

/-- In every run of calls, only cycles write the statistics, and these are kept apart
throughout exactly when every stay starts afresh. -/
theorem statistics_apart_iff (platform : β) (onStateChanged onRuntimeStateChanged : Bool)
    (calls : List Call) :
    let history := Runs.history handle
      (constructed platform onStateChanged onRuntimeStateChanged) calls
    (∀ entry ∈ history, entry.after.controller.master.stats =
      if isCycle entry then
        ((foldedInterval entry).elim entry.before.controller.master.stats
          entry.before.controller.master.stats.recordInterval).recordWkc
            entry.before.outputsWritten.answeredWkc entry.before.controller.master.expectedWkc
            entry.before.outputsWritten.exchanged.ctx.dcTime
      else entry.before.controller.master.stats) ∧
      (Runs.Throughout KeptApart history ↔ Runs.Throughout StartsAfresh history) := by
  intro history
  constructor
  · intro entry member
    obtain ⟨first, call, same⟩ := Runs.turn_of_mem_history handle _ member
    have settled : Settled entry.before := by
      rw [same]
      exact settled_final platform onStateChanged onRuntimeStateChanged first
    have recorded : entry.after = (handle entry.operation).after entry.before := by rw [same]; rfl
    obtain ⟨stats, -, expected⟩ := outputsWritten_kept entry.before
    rw [(turn_stats settled recorded).1]
    by_cases cycle : isCycle entry = true
    · rw [if_pos cycle, if_pos cycle, EcMaster.cycleStats, stats, expected, foldedInterval,
        if_pos cycle]
    · rw [if_neg cycle, if_neg cycle]
  · refine Runs.throughout_iff handle _ KeptApart StartsAfresh Accounted ?_ ?_ ?_ calls
    · exact fun past i call known => keptApart_iff rfl known
    · exact fun past i call known kept => Accounted.turn rfl known kept
    · refine ⟨settled_constructed .., fun previous last => ?_, ?_⟩
      · simp [currentStay] at last
      · simp [mismatchRun, currentStay, constructed, fresh, EcatController.fresh]

end Impl

/-! ## Two stays on the bench -/

/-- The bench with a clock that moves on by a second whenever it is read. -/
structure TickingBench where
  bench : Bench
  now : Int

/-- The bench answers all calls; only the clock is its own. -/
instance : Platform TickingBench where
  soem call ctx world :=
    ((Platform.soem call ctx world.bench).1, (Platform.soem call ctx world.bench).2.1, world)
  steadyClock world := (world.now, { world with now := world.now + 1000000000 })
  openLogFile path world := ((Platform.openLogFile path world.bench).1, world)

namespace Impl

/-- Two stays of one cycle each: the second takes over the time stamp and the mismatch
of the first. -/
theorem statistics_mixed :
    let start : Impl TickingBench :=
      constructed { bench := { slaves := [{}] }, now := 1000000000 } true true
    let calls : List Call := [.operation (.initializeAdapter {}), .operation .scan,
      .operation .enterMaintenance, .operation .prepareRun, .operation .startOperation,
      .operation .service, .operation .backToMaintenance, .operation .prepareRun,
      .operation .startOperation]
    let past := Runs.history handle start calls
    let entry := Runs.turn handle (Runs.final handle start calls) (.operation .service)
    (foldedInterval entry = some 2000000 ∧ (currentStay past).length = 0) ∧
      (entry.after.controller.master.stats.consecutiveWkcMismatch = 2 ∧
        mismatchRun (past ++ [entry]) = 1) ∧
      ¬Runs.Throughout KeptApart
        (Runs.history handle start (calls ++ [.operation .service])) := by
  intro start calls past entry
  have folded : foldedInterval entry = some 2000000 := by decide
  have begun : (currentStay past).length = 0 := by decide
  refine ⟨⟨folded, begun⟩, ⟨by decide, by decide⟩, fun apart => ?_⟩
  rw [Runs.history_concat] at apart
  obtain ⟨previous, last, -⟩ :=
    ((Runs.throughout_concat _ past entry).mp apart).2.intervals _ folded
  rw [List.length_eq_zero_iff.mp begun] at last
  cases last

end Impl

end MoEcat
