import Mathlib.Algebra.BigOperators.Group.List.Basic
import Mathlib.Algebra.GroupWithZero.Nat
import Mathlib.Data.List.Induction

/-!
# Running means over natural numbers

A running mean is updated by one value at a time. The mean so far weighs as much as the
steps so far, and the division cuts off the remainder. A step without a value leaves the
mean as it is but is counted as well, so the weight may be larger than the number of values.

The weight never exceeds what the values add up to when only the first step has no value,
and the mean never exceeds the largest value.
-/

namespace MoEcat.RunningMean

/-- A mean with the number of steps it was made from. -/
structure Mean where
  count : Nat := 0
  mean : Nat := 0

namespace Mean

/-- What the mean adds to the next value. -/
def weight (m : Mean) : Nat := m.mean * m.count

/-- One more value. Where there is none, only the count goes on. -/
def observe (m : Mean) : Option Nat → Mean
  | none => ⟨m.count + 1, m.mean⟩
  | some value => ⟨m.count + 1, (m.weight + value) / (m.count + 1)⟩

/-- The mean after a sequence of steps. -/
def of (values : List (Option Nat)) : Mean := values.foldl observe {}

/-- One more value is observed last. -/
theorem of_concat (values : List (Option Nat)) (last : Option Nat) :
    of (values ++ [last]) = (of values).observe last := by
  rw [of, List.foldl_append]
  rfl

/-- All values are counted, the missing ones too. -/
theorem count_of (values : List (Option Nat)) : (of values).count = values.length := by
  induction values using List.reverseRecOn with
  | nil => rfl
  | append_singleton values last inductionHypothesis =>
    rw [of_concat, List.length_append, ← inductionHypothesis]
    cases last <;> rfl

/-- Division leaves no more weight than there was. -/
theorem weight_observe_le (m : Mean) (value : Nat) :
    (m.observe (some value)).weight ≤ m.weight + value :=
  Nat.div_mul_le_self _ _

/-- The weight is at most the sum of the values: a mean that is rounded down does not gain.
The induction is on the list, from its last value. -/
theorem weight_le_sum (values : List Nat) :
    (of (none :: values.map some)).weight ≤ values.sum := by
  induction values using List.reverseRecOn with
  | nil => exact Nat.le_refl 0
  | append_singleton values last inductionHypothesis =>
    rw [List.map_append, ← List.cons_append, List.map_singleton, of_concat, List.sum_append,
      List.sum_singleton]
    exact Nat.le_trans (weight_observe_le _ last) (Nat.add_le_add_right inductionHypothesis last)

/-- The same at every point of a sequence of which only the first step has no value. -/
theorem weight_add_le_sum {earlier : List (Option Nat)} {value : Nat} {values : List Nat}
    (starts : earlier ++ [some value] <+: none :: values.map some) :
    (of earlier).weight + value ≤ values.sum := by
  cases earlier with
  | nil =>
    obtain ⟨contradiction, -⟩ := List.cons_prefix_cons.mp starts
    cases contradiction
  | cons head tail =>
    obtain ⟨rfl, behind⟩ := List.cons_prefix_cons.mp starts
    obtain ⟨taken, start, same⟩ := List.prefix_map_iff.mp behind
    obtain ⟨first, last, rfl, rfl, single⟩ := List.map_eq_append_iff.mp same.symm
    obtain ⟨other, rfl, equal⟩ := List.map_eq_singleton_iff.mp single
    obtain rfl := Option.some.inj equal
    obtain ⟨later, rfl⟩ := start
    have weight := weight_le_sum first
    simp only [List.sum_append, List.sum_singleton]
    omega

/-- A bound on all values is a bound on the mean. -/
theorem mean_le {values : List (Option Nat)} {bound : Nat}
    (below : ∀ value, some value ∈ values → value ≤ bound) : (of values).mean ≤ bound := by
  induction values using List.reverseRecOn with
  | nil => exact Nat.zero_le _
  | append_singleton values last inductionHypothesis =>
    have earlier := inductionHypothesis fun value member =>
      below value (List.mem_append_left _ member)
    rw [of_concat]
    cases last with
    | none => exact earlier
    | some value =>
      have now := below value (List.mem_append_right _ List.mem_cons_self)
      apply Nat.div_le_of_le_mul
      rw [Nat.add_one_mul, Nat.mul_comm]
      exact Nat.add_le_add (Nat.mul_le_mul_right _ earlier) now

end Mean

end MoEcat.RunningMean
