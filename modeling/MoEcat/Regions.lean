import Mathlib.Algebra.GroupWithZero.Nat
import Mathlib.Data.List.Pairwise
import Mathlib.Data.Set.Lattice
import Mathlib.Order.CompletePartialOrder
import Mathlib.Order.Interval.Set.Basic

/-!
# Regions of a memory and copies into them

A region is a range of addresses, given by its first address and its length. Regions
laid out one after another fill a stretch of memory and do not overlap.

A copy puts a block of data at an address and changes no address outside the region of
the block. After several copies an address that only one of them covers holds what that
copy alone would have left there. Nothing here depends on what the memory holds.
-/

namespace MoEcat.Regions

/-- A range of addresses. -/
structure Region where
  base : Nat
  length : Nat
deriving DecidableEq, Repr

namespace Region

/-- The first address after a region. -/
def stop (r : Region) : Nat := r.base + r.length

/-- The addresses of a region. -/
def addresses (r : Region) : Set Nat := Set.Ico r.base r.stop

/-- An address is in a region if it lies between its two ends. -/
theorem mem_addresses {r : Region} {a : Nat} :
    a ∈ r.addresses ↔ r.base ≤ a ∧ a < r.base + r.length := Set.mem_Ico

/-- Of two regions that begin together, the shorter one is part of the longer one. -/
theorem addresses_subset_iff {base n m : Nat} :
    (⟨base, n⟩ : Region).addresses ⊆ (⟨base, m⟩ : Region).addresses ↔ n ≤ m := by
  constructor
  · intro within
    by_contra longer
    have next : base + m ∈ (⟨base, n⟩ : Region).addresses :=
      mem_addresses.mpr ⟨Nat.le_add_right .., Nat.add_lt_add_left (Nat.lt_of_not_le longer) base⟩
    have outside := (mem_addresses.mp (within next)).2
    simp at outside
  · intro shorter a member
    rw [mem_addresses] at member ⊢
    exact ⟨member.1, member.2.trans_le (Nat.add_le_add_left shorter base)⟩

/-- A region between two addresses stays there. -/
theorem addresses_subset {r : Region} {start stop : Nat} (first : start ≤ r.base)
    (last : r.stop ≤ stop) : r.addresses ⊆ Set.Ico start stop :=
  Set.Ico_subset_Ico first last

end Region

/-- The regions follow one another from `start` to `stop`. -/
def Consecutive : Nat → List Region → Nat → Prop
  | start, [], stop => start = stop
  | start, r :: rest, stop => r.base = start ∧ Consecutive r.stop rest stop

/-- Regions that go on where others have ended follow them. -/
theorem Consecutive.append {start middle stop : Nat} {first second : List Region}
    (earlier : Consecutive start first middle) (later : Consecutive middle second stop) :
    Consecutive start (first ++ second) stop := by
  induction first generalizing start with
  | nil =>
    obtain rfl : start = middle := earlier
    exact later
  | cons r rest inductionHypothesis => exact ⟨earlier.1, inductionHypothesis earlier.2⟩

/-- Regions do not lead backwards. -/
theorem Consecutive.start_le {start stop : Nat} {regions : List Region}
    (laid : Consecutive start regions stop) : start ≤ stop := by
  induction regions generalizing start with
  | nil => exact Nat.le_of_eq laid
  | cons r rest inductionHypothesis =>
    obtain ⟨rfl, later⟩ := laid
    exact (Nat.le_add_right ..).trans (inductionHypothesis later)

/-- Every region lies between the two ends. -/
theorem Consecutive.bounds {start stop : Nat} {regions : List Region}
    (laid : Consecutive start regions stop) :
    ∀ r ∈ regions, start ≤ r.base ∧ r.stop ≤ stop := by
  induction regions generalizing start with
  | nil => simp
  | cons r rest inductionHypothesis =>
    obtain ⟨rfl, later⟩ := laid
    refine List.forall_mem_cons.mpr ⟨⟨Nat.le_refl _, later.start_le⟩, fun s member => ?_⟩
    obtain ⟨first, last⟩ := inductionHypothesis later s member
    exact ⟨(Nat.le_add_right ..).trans first, last⟩

/-- No two of the regions overlap. -/
theorem Consecutive.disjoint {start stop : Nat} {regions : List Region}
    (laid : Consecutive start regions stop) :
    regions.Pairwise fun r s => Disjoint r.addresses s.addresses := by
  induction regions generalizing start with
  | nil => exact .nil
  | cons r rest inductionHypothesis =>
    obtain ⟨rfl, later⟩ := laid
    refine .cons (fun s member => ?_) (inductionHypothesis later)
    rw [Set.disjoint_left]
    intro a within other
    have next := (later.bounds s member).1
    rw [Region.mem_addresses] at within other
    simp only [Region.stop] at next
    omega

/-- Regions of given sizes, each beginning where the sizes before it end, with those of
size zero left out. -/
theorem consecutive_packed (base : Nat) (size : Nat → Nat) (n : Nat) :
    Consecutive base
      ((List.range n).filterMap fun k =>
        if size k = 0 then none
        else some ⟨base + ((List.range k).map size).sum, size k⟩)
      (base + ((List.range n).map size).sum) := by
  induction n with
  | zero => exact rfl
  | succ n inductionHypothesis =>
    simp only [List.range_succ, List.filterMap_append, List.map_append, List.sum_append,
      List.map_cons, List.map_nil, List.sum_cons, List.sum_nil]
    apply inductionHypothesis.append
    by_cases vacant : size n = 0
    · simp [vacant, Consecutive]
    · simp [vacant, Consecutive, Region.stop, Nat.add_assoc]

/-! ## Copies -/

section Copies

variable {α : Type}

/-- A block of data with the address that it is copied to. -/
structure Copy (α : Type) where
  address : Nat
  data : List α

namespace Copy

/-- Where the copy writes. -/
def region (c : Copy α) : Region := ⟨c.address, c.data.length⟩

/-- The memory after the copy. -/
def apply (c : Copy α) (memory : Nat → α) : Nat → α := fun a =>
  if c.address ≤ a then (c.data[a - c.address]?).getD (memory a) else memory a

/-- A copy leaves the memory outside its region. -/
theorem apply_outside {c : Copy α} {a : Nat} (outside : a ∉ c.region.addresses)
    (memory : Nat → α) : c.apply memory a = memory a := by
  rw [Region.mem_addresses] at outside
  simp only [region, not_and, Nat.not_lt] at outside
  unfold apply
  split
  · have beyond : c.data.length ≤ a - c.address := by have := outside ‹_›; omega
    rw [List.getElem?_eq_none beyond]
    rfl
  · rfl

/-- What a copy leaves at an address depends on the memory only at that address. -/
theorem apply_congr (c : Copy α) {first second : Nat → α} {a : Nat} (same : first a = second a) :
    c.apply first a = c.apply second a := by
  simp [apply, same]

end Copy

/-- Make a list of copies in order. -/
def applyAll (copies : List (Copy α)) (memory : Nat → α) : Nat → α :=
  copies.foldl (fun memory c => c.apply memory) memory

/-- Copies after copies. -/
theorem applyAll_append (first second : List (Copy α)) (memory : Nat → α) :
    applyAll (first ++ second) memory = applyAll second (applyAll first memory) :=
  List.foldl_append

/-- Copies leave the memory outside their regions. The induction is on the copies. -/
theorem applyAll_outside {copies : List (Copy α)} {a : Nat}
    (outside : ∀ c ∈ copies, a ∉ c.region.addresses) (memory : Nat → α) :
    applyAll copies memory a = memory a := by
  induction copies generalizing memory with
  | nil => rfl
  | cons c rest inductionHypothesis =>
    obtain ⟨missed, others⟩ := List.forall_mem_cons.mp outside
    exact (inductionHypothesis others _).trans (Copy.apply_outside missed memory)

/-- An address that no other copy covers holds what its own copy leaves there. -/
theorem applyAll_own {before after : List (Copy α)} {c : Copy α} {a : Nat}
    (others : ∀ d ∈ before ++ after, a ∉ d.region.addresses) (memory : Nat → α) :
    applyAll (before ++ c :: after) memory a = c.apply memory a := by
  obtain ⟨earlier, later⟩ := List.forall_mem_append.mp others
  rw [applyAll_append]
  exact (applyAll_outside later _).trans (c.apply_congr (applyAll_outside earlier memory))

/-- An address holds what the last copy that covers it brought there. -/
theorem applyAll_latest {before after : List (Copy α)} {c : Copy α} {k : Nat} {value : α}
    (brought : c.data[k]? = some value)
    (later : ∀ d ∈ after, c.address + k ∉ d.region.addresses) (memory : Nat → α) :
    applyAll (before ++ c :: after) memory (c.address + k) = value := by
  rw [applyAll_append]
  refine (applyAll_outside later _).trans ?_
  simp [Copy.apply, brought]

/-! ## Blocks -/

/-- What the memory holds from an address on. -/
def block (memory : Nat → α) (address length : Nat) : List α :=
  (List.range length).map fun k => memory (address + k)

/-- A block depends on its own bytes only. -/
theorem block_congr {first second : Nat → α} {address length : Nat}
    (same : ∀ k, k < length → first (address + k) = second (address + k)) :
    block first address length = block second address length :=
  List.map_congr_left fun k member => same k (List.mem_range.mp member)

/-- A part of a block is a block. -/
theorem take_drop_block (memory : Nat → α) (address : Nat) {start size length : Nat}
    (within : start + size ≤ length) :
    ((block memory address length).drop start).take size = block memory (address + start) size := by
  apply List.ext_getElem
  · simp [block]
    omega
  · intro k _ _
    simp [block, Nat.add_assoc]

/-- Behind a copy, the memory holds the data that was copied. -/
theorem block_apply (c : Copy α) (memory : Nat → α) {start size : Nat}
    (within : start + size ≤ c.data.length) :
    block (c.apply memory) (c.address + start) size = (c.data.drop start).take size := by
  apply List.ext_getElem
  · simp [block]
    omega
  · intro k inside _
    have bound : start + k < c.data.length := by
      simp [block] at inside
      omega
    simp [block, Copy.apply, Nat.add_assoc, bound]

end Copies

end MoEcat.Regions
