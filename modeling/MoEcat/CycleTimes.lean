import MoEcat.CycleStatistics
import MoEcat.RunningMean
import Mathlib.Algebra.Order.Field.Rat
import Mathlib.Order.Bounds.Basic

/-!
# The cycle times over a run

The cycle times are updated with the interval of every cycle but the first, in words of
32 bits. It is stated exactly when the running average is computed without wrapping, and
exactly when the times say what they are meant to say: almost never, since the average is
weighted by cycles where there is one interval less, and since a minimum of zero counts
as none.
-/

namespace MoEcat

open Program
open RunningMean (Mean)

variable {β : Type} [Platform β]

/-! ## Runs of cycles -/

/-- A cycle of a run, with the master before and after it. -/
abbrev CycleTurn (β : Type) := Runs.Turn (EcMaster β) Unit Unit

/-- So many cycles, one after another. -/
def cycleRun (m : EcMaster β) (n : Nat) : List (CycleTurn β) :=
  Runs.history (fun _ => EcMaster.runOneCycle) m (List.replicate n ())

/-- The interval that a cycle records, in microseconds. -/
def recordedInterval (entry : CycleTurn β) : Option Nat :=
  entry.before.foldedInterval.map UInt32.toNat

/-- The mean of the recorded intervals as integers give it. -/
def idealMean (past : List (CycleTurn β)) : Mean := .of (past.map recordedInterval)

/-- One more cycle observes its interval. -/
theorem idealMean_concat (past : List (CycleTurn β)) (entry : CycleTurn β) :
    idealMean (past ++ [entry]) = (idealMean past).observe (recordedInterval entry) := by
  rw [idealMean, List.map_append, List.map_singleton, Mean.of_concat]
  rfl

/-- The mean counts all cycles, those without an interval too. -/
theorem count_idealMean (past : List (CycleTurn β)) : (idealMean past).count = past.length := by
  rw [idealMean, Mean.count_of, List.length_map]

/-! ## The arithmetic of the average -/

/-- The words that a cycle computes for the average are the integers they stand for. -/
structure AverageExact (entry : CycleTurn β) : Prop where
  nonzero : entry.before.stats.cycleCount + 1 ≠ 0
  divisor : (entry.before.stats.cycleCount + 1).toNat = entry.before.stats.cycleCount.toNat + 1
  product : ∀ elapsed, entry.before.foldedInterval = some elapsed →
    (entry.before.stats.avgCycleUs * entry.before.stats.cycleCount).toNat =
      entry.before.stats.avgCycleUs.toNat * entry.before.stats.cycleCount.toNat
  sum : ∀ elapsed, entry.before.foldedInterval = some elapsed →
    (entry.before.stats.avgCycleUs * entry.before.stats.cycleCount + elapsed).toNat =
      entry.before.stats.avgCycleUs.toNat * entry.before.stats.cycleCount.toNat + elapsed.toNat

/-- The words have room for the mean of the intervals so far and the new one. -/
structure MeanFits (past : List (CycleTurn β)) (entry : CycleTurn β) : Prop where
  count : past.length + 1 < 4294967296
  weight : ∀ elapsed, recordedInterval entry = some elapsed →
    (idealMean past).weight + elapsed < 4294967296

/-- What a run without wrapping knows: the average is the mean of the intervals. -/
structure Averaged (past : List (CycleTurn β)) (m : EcMaster β) : Prop where
  count : m.stats.cycleCount.toNat = past.length
  mean : m.stats.avgCycleUs.toNat = (idealMean past).mean

/-- A sum of words is exact if and only if it fits. -/
theorem toNat_add_eq_iff (a b : UInt32) :
    (a + b).toNat = a.toNat + b.toNat ↔ a.toNat + b.toNat < 4294967296 := by
  rw [UInt32.toNat_add]
  omega

/-- A product of words is exact if and only if it fits. -/
theorem toNat_mul_eq_iff (a b : UInt32) :
    (a * b).toNat = a.toNat * b.toNat ↔ a.toNat * b.toNat < 4294967296 := by
  rw [UInt32.toNat_mul]
  omega

variable {past : List (CycleTurn β)} {entry : CycleTurn β}

/-- A recorded interval is a folded word, read as a number. -/
theorem recordedInterval_eq_some {elapsed : Nat} :
    recordedInterval entry = some elapsed ↔
      ∃ word, entry.before.foldedInterval = some word ∧ word.toNat = elapsed :=
  Option.map_eq_some_iff

/-- The weight of the mean is the average times the number of cycles, as the words have them.
-/
theorem weight_idealMean (known : Averaged past entry.before) :
    (idealMean past).weight =
      entry.before.stats.avgCycleUs.toNat * entry.before.stats.cycleCount.toNat := by
  rw [Mean.weight, count_idealMean, known.count, known.mean]

/-- While the average is the mean, its words are exact where they have room. -/
theorem averageExact_iff (known : Averaged past entry.before) :
    AverageExact entry ↔ MeanFits past entry := by
  have weight := weight_idealMean known
  constructor
  · intro exact
    refine ⟨?_, fun elapsed recorded => ?_⟩
    · rw [← known.count]
      exact (toNat_add_eq_iff _ 1).mp exact.divisor
    · obtain ⟨word, folded, rfl⟩ := recordedInterval_eq_some.mp recorded
      have sum := exact.sum word folded
      rw [← exact.product word folded] at sum
      rw [weight, ← exact.product word folded]
      exact (toNat_add_eq_iff _ _).mp sum
  · intro fits
    have room := fits.count
    rw [← known.count] at room
    have divisor := (toNat_add_eq_iff entry.before.stats.cycleCount 1).mpr room
    have total : ∀ word, entry.before.foldedInterval = some word →
        entry.before.stats.avgCycleUs.toNat * entry.before.stats.cycleCount.toNat + word.toNat <
          4294967296 := by
      intro word folded
      rw [← weight]
      exact fits.weight _ (recordedInterval_eq_some.mpr ⟨word, folded, rfl⟩)
    have product : ∀ word, entry.before.foldedInterval = some word →
        (entry.before.stats.avgCycleUs * entry.before.stats.cycleCount).toNat =
          entry.before.stats.avgCycleUs.toNat * entry.before.stats.cycleCount.toNat :=
      fun word folded => (toNat_mul_eq_iff _ _).mpr (Nat.lt_of_le_of_lt (Nat.le_add_right ..)
        (total word folded))
    refine ⟨fun zero => ?_, divisor, product, fun word folded => ?_⟩
    · rw [zero] at divisor
      exact absurd divisor (by simp)
    · rw [← product word folded, toNat_add_eq_iff, product word folded]
      exact total word folded

/-- The statistics that a cycle leaves, as far as the average goes. -/
theorem runOneCycle_average (m : EcMaster β) :
    (EcMaster.runOneCycle.after m).stats.cycleCount = m.stats.cycleCount + 1 ∧
      (EcMaster.runOneCycle.after m).stats.avgCycleUs =
        m.foldedInterval.elim m.stats.avgCycleUs fun elapsed =>
          (m.stats.avgCycleUs * m.stats.cycleCount + elapsed) / (m.stats.cycleCount + 1) := by
  rw [(EcMaster.runOneCycle_stats m).1, EcMaster.cycleStats]
  cases m.foldedInterval <;> exact ⟨rfl, rfl⟩

/-- A cycle whose words are exact leaves the mean of the intervals. -/
theorem Averaged.turn (known : Averaged past entry.before)
    (cycled : entry.after = EcMaster.runOneCycle.after entry.before)
    (exact : AverageExact entry) : Averaged (past ++ [entry]) entry.after := by
  obtain ⟨counted, averaged⟩ := runOneCycle_average entry.before
  rw [← cycled] at counted averaged
  constructor
  · rw [counted, exact.divisor, known.count, List.length_append]
    rfl
  · rw [averaged, idealMean_concat]
    cases folded : entry.before.foldedInterval with
    | none =>
      have unrecorded : recordedInterval entry = none := by rw [recordedInterval, folded]; rfl
      rw [unrecorded]
      exact known.mean
    | some elapsed =>
      have recorded := recordedInterval_eq_some.mpr ⟨elapsed, folded, rfl⟩
      rw [recorded, Option.elim_some, UInt32.toNat_div, exact.sum elapsed folded, exact.divisor,
        ← weight_idealMean known, known.count, ← count_idealMean]
      rfl

/-- A run has as many turns as cycles. -/
theorem length_cycleRun (m : EcMaster β) (n : Nat) : (cycleRun m n).length = n := by
  induction n generalizing m with
  | zero => rfl
  | succ n inductionHypothesis => exact congrArg (· + 1) (inductionHypothesis _)

/-- The words are exact throughout a run if and only if the mean fits throughout.

Proof: both directions carry that the average is the mean so far. As long as it is, each
cycle is exact if and only if the new mean fits. -/
theorem averageExact_throughout_iff {m : EcMaster β} (fresh : m.stats = {}) (n : Nat) :
    Runs.Throughout (fun _ => AverageExact) (cycleRun m n) ↔
      Runs.Throughout MeanFits (cycleRun m n) := by
  refine Runs.throughout_iff _ _ (fun _ => AverageExact) MeanFits Averaged ?_ ?_ ?_ _
  · exact fun past state operation known => averageExact_iff known
  · exact fun past state operation known exact => known.turn rfl exact
  · constructor <;> rw [fresh] <;> rfl

/-- Intervals with a small sum leave room, whatever their number. -/
theorem averageExact_of_sum {m : EcMaster β} (fresh : m.stats = {}) {n : Nat} (values : List Nat)
    (recorded : (cycleRun m n).map recordedInterval = none :: values.map some)
    (small : values.sum < 4294967296) (few : n < 4294967296) :
    Runs.Throughout (fun _ => AverageExact) (cycleRun m n) := by
  apply (averageExact_throughout_iff fresh n).mpr
  intro earlier entry starts
  have count : earlier.length + 1 < 4294967296 := by
    have shorter := starts.length_le
    rw [List.length_append, length_cycleRun] at shorter
    exact Nat.lt_of_le_of_lt shorter few
  have mapped := starts.map recordedInterval
  rw [recorded, List.map_append, List.map_singleton] at mapped
  refine ⟨count, fun elapsed now => ?_⟩
  rw [now] at mapped
  exact Nat.lt_of_le_of_lt (Mean.weight_add_le_sum mapped) small

/-- In every run of cycles from fresh statistics, the average is computed exactly
throughout if and only if the words have room for the mean of the intervals. They have
room as long as the intervals of all cycles but the first add up to less than 2^32. -/
theorem average_exact_iff (m : EcMaster β) (fresh : m.stats = {}) (n : Nat) :
    (Runs.Throughout (fun _ => AverageExact) (cycleRun m n) ↔
      Runs.Throughout MeanFits (cycleRun m n)) ∧
    ∀ values : List Nat, (cycleRun m n).map recordedInterval = none :: values.map some →
      values.sum < 4294967296 → n < 4294967296 →
        Runs.Throughout (fun _ => AverageExact) (cycleRun m n) :=
  ⟨averageExact_throughout_iff fresh n,
    fun values recorded small few => averageExact_of_sum fresh values recorded small few⟩

/-- A world in which only the clock shows anything, one instant at a time. -/
structure Clock where
  instants : List Int

/-- The clock shows its instants one after the other. Nothing else is answered. -/
instance : Platform Clock where
  soem _ ctx clock := ({}, ctx, clock)
  steadyClock clock := (clock.instants.headD 0, ⟨clock.instants.tail⟩)
  openLogFile _ clock := (.opened, clock)

/-- Three cycles, a millisecond apart, leave room. -/
theorem average_exact_clock :
    let m : EcMaster Clock := { platform := ⟨[1, 1000001, 2000001]⟩ }
    Runs.Throughout (fun _ => AverageExact) (cycleRun m 3) := by
  intro m
  exact (average_exact_iff m rfl 3).2 [1000, 1000] (by decide) (by decide) (by decide)

/-- An interval of 2^32 - 1 microseconds and one of 5 do not: the first weighs 2^32 - 2 once
its average is cut off, and the sum with the second is taken for 3. -/
theorem average_wraps :
    let m : EcMaster Clock := { platform := ⟨[1, 4294967295001, 4294967300001]⟩ }
    let third := Runs.final (fun _ => EcMaster.runOneCycle) m [(), ()]
    (third.stats.cycleCount = 2 ∧ third.stats.avgCycleUs = 2147483647 ∧
      third.foldedInterval = some 5 ∧
      third.stats.avgCycleUs * third.stats.cycleCount + 5 = 3) ∧
      ¬Runs.Throughout (fun _ => AverageExact) (cycleRun m 3) := by
  intro m third
  refine ⟨by decide, fun exact => ?_⟩
  have last := exact ((cycleRun m 3).take 2) (Runs.turn (fun _ => EcMaster.runOneCycle) third ())
    ⟨[], rfl⟩
  exact absurd (last.sum 5 (by decide)) (by decide)

/-! ## What the cycle times say -/

/-- The intervals that were recorded, in order. -/
def recorded (past : List (CycleTurn β)) : List Nat := past.filterMap recordedInterval

/-- The minimum, the maximum and the average are those of the intervals, the average up to
a microsecond. -/
structure Describes (stats : CyclicStats) (intervals : List Nat) : Prop where
  minimum : IsLeast {e | e ∈ intervals} stats.minCycleUs.toNat
  maximum : IsGreatest {e | e ∈ intervals} stats.maxCycleUs.toNat
  between : stats.minCycleUs.toNat ≤ stats.avgCycleUs.toNat ∧
    stats.avgCycleUs.toNat ≤ stats.maxCycleUs.toNat
  mean : (stats.avgCycleUs.toNat : Rat) ≤ (intervals.sum : Rat) / intervals.length + 1 ∧
    (intervals.sum : Rat) / intervals.length ≤ stats.avgCycleUs.toNat + 1

/-- The cycle times describe the intervals once there are any. -/
def Described (past : List (CycleTurn β)) (entry : CycleTurn β) : Prop :=
  recorded (past ++ [entry]) ≠ [] → Describes entry.after.stats (recorded (past ++ [entry]))

/-- An interval that is too short to be measured. -/
def Immeasurable (_ : List (CycleTurn β)) (entry : CycleTurn β) : Prop :=
  ∀ elapsed, recordedInterval entry = some elapsed → elapsed = 0

/-- The maximum is right, and not below the average. -/
def MaximumRight (past : List (CycleTurn β)) (entry : CycleTurn β) : Prop :=
  recorded (past ++ [entry]) ≠ [] →
    IsGreatest {e | e ∈ recorded (past ++ [entry])} entry.after.stats.maxCycleUs.toNat ∧
      entry.after.stats.avgCycleUs.toNat ≤ entry.after.stats.maxCycleUs.toNat

/-- The minimum is the least of the intervals, once there are any. -/
def MinimumRight (past : List (CycleTurn β)) (entry : CycleTurn β) : Prop :=
  recorded (past ++ [entry]) ≠ [] →
    IsLeast {e | e ∈ recorded (past ++ [entry])} entry.after.stats.minCycleUs.toNat

/-- After an interval of zero, there are only such intervals. -/
def NoZeroBefore (past : List (CycleTurn β)) (entry : CycleTurn β) : Prop :=
  0 ∈ recorded past → Immeasurable past entry

/-- One more cycle records its interval, if it has one. -/
theorem recorded_concat (past : List (CycleTurn β)) (entry : CycleTurn β) :
    recorded (past ++ [entry]) = recorded past ++ (recordedInterval entry).toList := by
  rw [recorded, List.filterMap_append, List.filterMap_cons, List.filterMap_nil]
  cases recordedInterval entry <;> rfl

/-- The extremes that a cycle leaves. -/
theorem runOneCycle_extremes (m : EcMaster β) :
    (EcMaster.runOneCycle.after m).stats.minCycleUs.toNat =
        (m.foldedInterval.map UInt32.toNat).elim m.stats.minCycleUs.toNat (fun elapsed =>
          if m.stats.minCycleUs.toNat = 0 ∨ elapsed < m.stats.minCycleUs.toNat then elapsed
          else m.stats.minCycleUs.toNat) ∧
      (EcMaster.runOneCycle.after m).stats.maxCycleUs.toNat =
        (m.foldedInterval.map UInt32.toNat).elim m.stats.maxCycleUs.toNat
          fun elapsed => max elapsed m.stats.maxCycleUs.toNat := by
  rw [(EcMaster.runOneCycle_stats m).1, EcMaster.cycleStats]
  cases m.foldedInterval with
  | none => exact ⟨rfl, rfl⟩
  | some elapsed =>
    simp only [Option.elim_some, Option.map_some, CyclicStats.recordInterval, CyclicStats.recordWkc,
      UInt32.lt_iff_toNat_lt, ← UInt32.toNat_inj]
    constructor
    · split
      · rename_i low
        exact (if_pos low).symm
      · rename_i high
        exact (if_neg high).symm
    · split
      · omega
      · omega

/-- A value that is the extreme of some intervals, or zero while there are none. -/
structure Extreme (le : Nat → Nat → Prop) (intervals : List Nat) (value : Nat) : Prop where
  reached : value ∈ intervals ∨ intervals = [] ∧ value = 0
  bounds : ∀ e ∈ intervals, le e value

/-- The greatest of the intervals, once there are any. -/
theorem Extreme.isGreatest {intervals : List Nat} {value : Nat}
    (extreme : Extreme (· ≤ ·) intervals value) (nonempty : intervals ≠ []) :
    IsGreatest {e | e ∈ intervals} value := by
  refine ⟨extreme.reached.resolve_right fun empty => nonempty empty.1, extreme.bounds⟩

/-- The least of the intervals, once there are any. -/
theorem Extreme.isLeast {intervals : List Nat} {value : Nat}
    (extreme : Extreme (· ≥ ·) intervals value) (nonempty : intervals ≠ []) :
    IsLeast {e | e ∈ intervals} value := by
  refine ⟨extreme.reached.resolve_right fun empty => nonempty empty.1, extreme.bounds⟩

section Turn

variable (cycled : entry.after = EcMaster.runOneCycle.after entry.before)

include cycled

/-- A cycle keeps the maximum right. -/
theorem maximum_turn
    (known : Extreme (· ≤ ·) (recorded past) entry.before.stats.maxCycleUs.toNat) :
    Extreme (· ≤ ·) (recorded (past ++ [entry])) entry.after.stats.maxCycleUs.toNat := by
  have updated := (runOneCycle_extremes entry.before).2
  rw [← cycled, ← recordedInterval] at updated
  rw [recorded_concat, updated]
  cases recordedInterval entry with
  | none => simpa using known
  | some elapsed =>
    obtain ⟨reached, bounds⟩ := known
    rw [Option.toList_some, Option.elim_some]
    constructor
    · left
      rw [List.mem_append, List.mem_singleton]
      rcases Nat.le_total entry.before.stats.maxCycleUs.toNat elapsed with longer | shorter
      · exact .inr (Nat.max_eq_left longer)
      · rw [Nat.max_eq_right shorter]
        rcases reached with member | ⟨-, zero⟩
        · exact .inl member
        · exact .inr (by omega)
    · intro e member
      rcases List.mem_append.mp member with earlier | last
      · exact Nat.le_trans (bounds e earlier) (Nat.le_max_right ..)
      · rw [List.mem_singleton.mp last]
        exact Nat.le_max_left ..

/-- A cycle keeps the minimum right exactly when its interval does not follow a zero, or
is zero itself. -/
theorem minimum_turn_iff
    (known : Extreme (· ≥ ·) (recorded past) entry.before.stats.minCycleUs.toNat) :
    Extreme (· ≥ ·) (recorded (past ++ [entry])) entry.after.stats.minCycleUs.toNat ↔
      NoZeroBefore past entry := by
  have updated := (runOneCycle_extremes entry.before).1
  rw [← cycled, ← recordedInterval] at updated
  rw [recorded_concat, updated, NoZeroBefore, Immeasurable]
  cases recordedInterval entry with
  | none => simpa using known
  | some elapsed =>
    obtain ⟨reached, bounds⟩ := known
    simp only [Option.toList_some, Option.elim_some, Option.some.injEq, forall_eq']
    constructor
    · intro extreme zero
      have none := bounds 0 zero
      have low := extreme.bounds 0 (List.mem_append_left _ zero)
      rw [if_pos (.inl (Nat.le_zero.mp none))] at low
      exact Nat.le_zero.mp low
    · intro regular
      split
      · rename_i replaced
        refine ⟨.inl (List.mem_append_right _ List.mem_cons_self), fun e member => ?_⟩
        rcases List.mem_append.mp member with earlier | last
        · have above := bounds e earlier
          rcases replaced with none | shorter
          · rcases reached with zero | ⟨empty, -⟩
            · rw [none] at zero
              rw [regular zero]
              exact Nat.zero_le e
            · rw [empty] at earlier
              cases earlier
          · exact Nat.le_trans (Nat.le_of_lt shorter) above
        · rw [List.mem_singleton.mp last]
      · rename_i stays
        obtain ⟨positive, longer⟩ := not_or.mp stays
        refine ⟨.inl (List.mem_append_left _ (reached.resolve_right fun empty => positive empty.2)),
          fun e member => ?_⟩
        rcases List.mem_append.mp member with earlier | last
        · exact bounds e earlier
        · rw [List.mem_singleton.mp last]
          exact Nat.le_of_not_lt longer

/-- As long as the minimum was right so far, it is right after a cycle if and only if no zero
was recorded before. -/
theorem minimumRight_iff
    (known : Extreme (· ≥ ·) (recorded past) entry.before.stats.minCycleUs.toNat) :
    MinimumRight past entry ↔ NoZeroBefore past entry := by
  constructor
  · intro right zero
    have nonempty : recorded (past ++ [entry]) ≠ [] := by
      rw [recorded_concat]
      exact List.append_ne_nil_of_left_ne_nil (List.ne_nil_of_mem zero) _
    obtain ⟨reached, bounds⟩ := right nonempty
    exact (minimum_turn_iff cycled known).mp ⟨.inl reached, bounds⟩ zero
  · intro regular nonempty
    exact ((minimum_turn_iff cycled known).mpr regular).isLeast nonempty

/-- The average is a mean of values that the maximum bounds. -/
theorem maximumRight_turn (averaged : Averaged past entry.before)
    (known : Extreme (· ≤ ·) (recorded past) entry.before.stats.maxCycleUs.toNat)
    (exact : AverageExact entry) : MaximumRight past entry := by
  intro nonempty
  have extreme := maximum_turn cycled known
  refine ⟨extreme.isGreatest nonempty, ?_⟩
  rw [(averaged.turn cycled exact).mean]
  apply Mean.mean_le
  intro value member
  obtain ⟨cycle, listed, shown⟩ := List.mem_map.mp member
  exact extreme.bounds value (List.mem_filterMap.mpr ⟨cycle, listed, shown⟩)

end Turn

/-- While every interval was zero, all times are zero. -/
structure Idle (past : List (CycleTurn β)) (m : EcMaster β) : Prop where
  averaged : Averaged past m
  stamp : past = [] → m.lastCycleTime = 0
  intervals : ∀ e ∈ recorded past, e = 0
  minimum : m.stats.minCycleUs.toNat = 0
  maximum : m.stats.maxCycleUs.toNat = 0
  average : m.stats.avgCycleUs.toNat = 0

/-- Times that are all zero describe intervals that are all zero. -/
theorem Idle.describes {m : EcMaster β} (idle : Idle past m) (nonempty : recorded past ≠ []) :
    Describes m.stats (recorded past) := by
  obtain ⟨some, member⟩ := List.exists_mem_of_ne_nil _ nonempty
  have zero : 0 ∈ recorded past := idle.intervals some member ▸ member
  have sum : (recorded past).sum = 0 := List.sum_eq_zero idle.intervals
  refine ⟨⟨?_, ?_⟩, ⟨?_, ?_⟩, ?_, ?_⟩
  · rw [idle.minimum]
    exact zero
  · rw [idle.minimum]
    exact fun e _ => Nat.zero_le e
  · rw [idle.maximum]
    exact zero
  · rw [idle.maximum]
    exact fun e listed => Nat.le_of_eq (idle.intervals e listed)
  · rw [idle.minimum, idle.average, idle.maximum]
    exact ⟨Nat.le_refl 0, Nat.le_refl 0⟩
  · rw [idle.average, sum]
    simp

section Turn

variable (cycled : entry.after = EcMaster.runOneCycle.after entry.before)

include cycled

/-- A cycle without a measurable interval leaves the cycle times idle. -/
theorem Idle.turn (idle : Idle past entry.before) (exact : AverageExact entry)
    (immeasurable : Immeasurable past entry) : Idle (past ++ [entry]) entry.after := by
  obtain ⟨low, high⟩ := runOneCycle_extremes entry.before
  rw [← cycled, ← recordedInterval] at low high
  have averaged := idle.averaged.turn cycled exact
  have intervals : ∀ e ∈ recorded (past ++ [entry]), e = 0 := by
    rw [recorded_concat]
    refine List.forall_mem_append.mpr ⟨idle.intervals, fun e now => ?_⟩
    exact immeasurable e (Option.mem_toList.mp now)
  have mean : (idealMean (past ++ [entry])).mean ≤ 0 := by
    apply Mean.mean_le
    intro value member
    obtain ⟨cycle, listed, shown⟩ := List.mem_map.mp member
    exact Nat.le_of_eq (intervals value (List.mem_filterMap.mpr ⟨cycle, listed, shown⟩))
  refine ⟨averaged, fun empty => ?_, intervals, ?_, ?_, ?_⟩
  · exact absurd empty (by simp)
  · rw [low]
    cases now : recordedInterval entry with
    | none => exact idle.minimum
    | some elapsed => simp [immeasurable elapsed now, idle.minimum]
  · rw [high]
    cases now : recordedInterval entry with
    | none => exact idle.maximum
    | some elapsed => simp [immeasurable elapsed now, idle.maximum]
  · rw [averaged.mean]
    exact Nat.le_zero.mp mean

/-- The first interval that is not zero makes the minimum larger than the average. -/
theorem described_iff (idle : Idle past entry.before) (exact : AverageExact entry) :
    Described past entry ↔ Immeasurable past entry := by
  constructor
  · intro described elapsed now
    obtain ⟨low, -⟩ := runOneCycle_extremes entry.before
    rw [← cycled, ← recordedInterval, now, Option.elim_some, if_pos (.inl idle.minimum)] at low
    have average : entry.after.stats.avgCycleUs.toNat = elapsed / (past.length + 1) := by
      have weight : (idealMean past).weight = 0 := by
        rw [weight_idealMean idle.averaged, idle.average, Nat.zero_mul]
      rw [(idle.averaged.turn cycled exact).mean, idealMean_concat, now, Mean.observe, weight,
        count_idealMean, Nat.zero_add]
    have started : past ≠ [] := by
      intro empty
      rw [recordedInterval, EcMaster.foldedInterval, if_neg (not_not.mpr (idle.stamp empty))] at now
      cases now
    have nonempty : recorded (past ++ [entry]) ≠ [] := by
      rw [recorded_concat, now]
      exact List.append_ne_nil_of_right_ne_nil _ (List.cons_ne_nil _ _)
    have between := (described nonempty).between.1
    rw [low, average] at between
    by_contra positive
    have long : 1 < past.length + 1 := Nat.succ_lt_succ (List.length_pos_iff.mpr started)
    exact absurd between (Nat.not_le_of_lt (Nat.div_lt_self (Nat.pos_of_ne_zero positive) long))
  · intro immeasurable nonempty
    exact (idle.turn cycled exact immeasurable).describes nonempty

end Turn

/-- In a run of cycles from fresh statistics in which no word of the average wraps, the
cycle times describe the intervals throughout if and only if all intervals are zero. The
maximum is always right and not below the average; the minimum is right throughout if and
only if no other interval follows one of zero. -/
theorem cycle_times_describe_iff (m : EcMaster β) (fresh : m.stats = {})
    (unstamped : m.lastCycleTime = 0) (n : Nat)
    (exact : Runs.Throughout (fun _ => AverageExact) (cycleRun m n)) :
    (Runs.Throughout Described (cycleRun m n) ↔ Runs.Throughout Immeasurable (cycleRun m n)) ∧
    Runs.Throughout MaximumRight (cycleRun m n) ∧
    (Runs.Throughout MinimumRight (cycleRun m n) ↔
      Runs.Throughout NoZeroBefore (cycleRun m n)) := by
  have averaged : Averaged [] m := by
    constructor <;> rw [fresh] <;> rfl
  have idle : Idle [] m := by
    refine ⟨averaged, fun _ => unstamped, ?_, ?_, ?_, ?_⟩
    · exact fun e member => absurd member List.not_mem_nil
    all_goals rw [fresh]; rfl
  refine ⟨?_, ?_, ?_⟩
  · have same := Runs.throughout_iff (fun _ : Unit => EcMaster.runOneCycle) m
      (fun past entry => AverageExact entry ∧ Described past entry)
      (fun past entry => AverageExact entry ∧ Immeasurable past entry) Idle
      (fun past state _ known => and_congr_right fun exact => described_iff rfl known exact)
      (fun past state _ known kept => known.turn rfl kept.1
        ((described_iff rfl known kept.1).mp kept.2)) idle (List.replicate n ())
    rw [Runs.throughout_and (fun _ => AverageExact), Runs.throughout_and (fun _ => AverageExact)] at same
    exact ⟨fun described => (same.mp ⟨exact, described⟩).2,
      fun immeasurable => (same.mpr ⟨exact, immeasurable⟩).2⟩
  · have same := Runs.throughout_iff (fun _ : Unit => EcMaster.runOneCycle) m
      (fun past entry => AverageExact entry ∧ MaximumRight past entry)
      (fun _ entry => AverageExact entry ∧ True)
      (fun past m => Averaged past m ∧
        Extreme (· ≤ ·) (recorded past) m.stats.maxCycleUs.toNat)
      (fun past state _ known => and_congr_right fun exact =>
        iff_true_intro (maximumRight_turn rfl known.1 known.2 exact))
      (fun past state _ known kept => ⟨known.1.turn rfl kept.1, maximum_turn rfl known.2⟩)
      ⟨averaged, .inr ⟨rfl, by rw [fresh]; rfl⟩, fun e member => absurd member List.not_mem_nil⟩
      (List.replicate n ())
    rw [Runs.throughout_and (fun _ => AverageExact), Runs.throughout_and (fun _ => AverageExact)]
      at same
    exact (same.mpr ⟨exact, fun _ _ _ => trivial⟩).2
  · refine Runs.throughout_iff _ _ MinimumRight NoZeroBefore
      (fun past m => Extreme (· ≥ ·) (recorded past) m.stats.minCycleUs.toNat)
      (fun past state _ known => minimumRight_iff rfl known)
      (fun past state _ known kept =>
        (minimum_turn_iff rfl known).mpr ((minimumRight_iff rfl known).mp kept)) ?_ _
    exact ⟨.inr ⟨rfl, by rw [fresh]; rfl⟩, fun e member => absurd member List.not_mem_nil⟩

/-- Cycles that follow each other within a microsecond are described. -/
theorem cycle_times_describe_clock :
    let m : EcMaster Clock := { platform := ⟨[1, 501, 901]⟩ }
    Runs.Throughout Described (cycleRun m 3) := by
  intro m
  have exact : Runs.Throughout (fun _ => AverageExact) (cycleRun m 3) :=
    averageExact_of_sum rfl [0, 0] (by decide) (by decide) (by decide)
  have zero : ∀ entry ∈ cycleRun m 3, ∀ elapsed, recordedInterval entry = some elapsed →
      elapsed = 0 := by
    intro entry member elapsed now
    have listed : some elapsed ∈ (cycleRun m 3).map recordedInterval :=
      List.mem_map.mpr ⟨entry, member, now⟩
    rw [show (cycleRun m 3).map recordedInterval = [none, some 0, some 0] by decide] at listed
    simpa using listed
  refine (cycle_times_describe_iff m rfl rfl 3 exact).1.mpr fun earlier entry starts => ?_
  exact zero entry (starts.subset (List.mem_append_right _ List.mem_cons_self))

/-- Two cycles a millisecond apart are not: the average is half of the only interval. -/
theorem cycle_times_misdescribe :
    let m : EcMaster Clock := { platform := ⟨[1, 1000001]⟩ }
    let stats := (Runs.final (fun _ => EcMaster.runOneCycle) m [(), ()]).stats
    recorded (cycleRun m 2) = [1000] ∧
      (stats.minCycleUs = 1000 ∧ stats.maxCycleUs = 1000 ∧ stats.avgCycleUs = 500) ∧
      Runs.Throughout (fun _ => AverageExact) (cycleRun m 2) ∧
      ¬Runs.Throughout Described (cycleRun m 2) := by
  intro m stats
  refine ⟨by decide, by decide, ?_, fun described => ?_⟩
  · exact averageExact_of_sum rfl [1000] (by decide) (by decide) (by decide)
  · have last := described ((cycleRun m 2).take 1)
      (Runs.turn (fun _ => EcMaster.runOneCycle) (EcMaster.runOneCycle.after m) ()) ⟨[], rfl⟩
    exact absurd (last (by decide)).between.1 (by decide)

end MoEcat
