import MoEcat.SlaveNode
import Mathlib.Data.Rat.Floor
import Mathlib.Tactic.Linarith

/-!
# Setpoints as raw fields

A setpoint is a quotient of rational numbers that is truncated toward zero and converted
to a field of 16 or 32 bits. The conversion is not checked: a quotient that the field
cannot hold is written as another value, often one of the opposite sign.
-/

namespace MoEcat

/-! ## Truncation -/

/-- A quotient that is not negative is rounded down. -/
theorem truncate_of_nonneg {q : Rat} (nonneg : 0 ≤ q) : truncate q = ⌊q⌋ := by
  rw [truncate, Int.tdiv_eq_ediv_of_nonneg (Rat.num_nonneg.mpr nonneg), Rat.floor_def']

/-- Rounding is the same on both sides of zero. -/
theorem truncate_neg (q : Rat) : truncate (-q) = -truncate q := by
  rw [truncate, Rat.neg_num, Rat.neg_den, Int.neg_tdiv, truncate]

/-- Rounding does not lead below zero. -/
theorem truncate_nonneg {q : Rat} (nonneg : 0 ≤ q) : 0 ≤ truncate q := by
  rw [truncate_of_nonneg nonneg]
  exact Int.floor_nonneg.mpr nonneg

/-- Rounding does not lead above zero. -/
theorem truncate_nonpos {q : Rat} (nonpos : q ≤ 0) : truncate q ≤ 0 := by
  have opposite := truncate_nonneg (neg_nonneg.mpr nonpos)
  rw [truncate_neg] at opposite
  omega

/-- A positive bound holds of a number and of what is left of it alike. -/
theorem truncate_lt_iff {q : Rat} {n : Int} (positive : 0 < n) : truncate q < n ↔ q < n := by
  rcases le_total 0 q with nonneg | nonpos
  · rw [truncate_of_nonneg nonneg, Int.floor_lt]
  · have above : (0 : Rat) < n := by exact_mod_cast positive
    exact iff_of_true (lt_of_le_of_lt (truncate_nonpos nonpos) positive)
      (lt_of_le_of_lt nonpos above)

/-- A negative number is below the rounded quotient if and only if it is below the quotient.
-/
theorem lt_truncate_iff {q : Rat} {n : Int} (negative : n < 0) : n < truncate q ↔ n < q := by
  have mirrored := truncate_lt_iff (q := -q) (n := -n) (by omega)
  rw [truncate_neg] at mirrored
  push_cast at mirrored
  rw [← neg_lt_neg_iff, mirrored, neg_lt_neg_iff]

/-- Rounding keeps the order. -/
theorem truncate_mono {q r : Rat} (le : q ≤ r) : truncate q ≤ truncate r := by
  by_contra reversed
  rw [not_le] at reversed
  rcases lt_or_ge 0 (truncate q) with positive | nonpos
  · have below : r < truncate q := (truncate_lt_iff positive).mp reversed
    exact lt_irrefl _ ((truncate_lt_iff positive).mpr (lt_of_le_of_lt le below))
  · have negative : truncate r < 0 := lt_of_lt_of_le reversed nonpos
    have above : (truncate r : Rat) < q := (lt_truncate_iff negative).mp reversed
    exact lt_irrefl _ ((lt_truncate_iff negative).mpr (lt_of_lt_of_le above le))

/-- Truncation goes toward zero, by less than one. -/
theorem abs_truncate_le (q : Rat) : |(truncate q : Rat)| ≤ |q| ∧ |(truncate q : Rat) - q| < 1 := by
  have ofNonneg : ∀ r : Rat, 0 ≤ r → |(truncate r : Rat)| ≤ |r| ∧ |(truncate r : Rat) - r| < 1 := by
    intro r nonneg
    have whole : (0 : Rat) ≤ truncate r := by exact_mod_cast truncate_nonneg nonneg
    rw [truncate_of_nonneg nonneg] at whole ⊢
    rw [abs_of_nonneg whole, abs_of_nonneg nonneg, abs_sub_comm,
      abs_of_nonneg (sub_nonneg.mpr (Int.floor_le r))]
    exact ⟨Int.floor_le r, by linarith [Int.lt_floor_add_one r]⟩
  rcases le_total 0 q with nonneg | nonpos
  · exact ofNonneg q nonneg
  · obtain ⟨smaller, close⟩ := ofNonneg (-q) (neg_nonneg.mpr nonpos)
    rw [truncate_neg, Int.cast_neg] at smaller close
    rw [abs_neg, abs_neg] at smaller
    rw [← neg_sub', abs_neg] at close
    exact ⟨smaller, close⟩

/-- A field of `width + 1` bits holds what is left of a number exactly when the number is
less than one beyond its range. -/
theorem castSigned_eq_iff (width : Nat) (q : Rat) :
    castSigned (width + 1) q = truncate q ↔ -2 ^ width - 1 < q ∧ q < 2 ^ width := by
  have size : (2 : Int) ^ (width + 1) = 2 * 2 ^ width := by rw [pow_succ, mul_comm]
  have positive : (0 : Int) < 2 ^ width := by positivity
  have upper := truncate_lt_iff (q := q) positive
  have lower := lt_truncate_iff (q := q) (n := -2 ^ width - 1) (by omega)
  push_cast at upper lower
  rw [← upper, ← lower, castSigned, Int.bmod_eq_iff (by positivity)]
  push_cast
  rw [size, sub_self, and_iff_left (dvd_zero _)]
  omega

/-! ## The setpoints of an axis -/

/-- A target with the field it is written to: an entry of the mapping, and a size in bytes. -/
structure Setpoint where
  entry : String
  size : Nat
  target : Rat
  scale : Rat
  direction : Int
deriving DecidableEq, Repr

namespace Setpoint

/-- The width of the entry in bits. -/
def bits (setpoint : Setpoint) : Nat := 8 * setpoint.size

/-- The quotient before it is rounded. -/
def quotient (setpoint : Setpoint) : Rat :=
  setpoint.target / setpoint.scale * setpoint.direction

/-- The value that is written. -/
def raw (setpoint : Setpoint) : Int :=
  DeviceProfile.rawTarget setpoint.bits setpoint.target setpoint.scale setpoint.direction

/-- The quotient is less than one beyond the range of the field. -/
def Fits (setpoint : Setpoint) : Prop :=
  -2 ^ (setpoint.bits - 1) - 1 < setpoint.quotient ∧ setpoint.quotient < 2 ^ (setpoint.bits - 1)

/-- The two bounds can be decided. -/
instance (setpoint : Setpoint) : Decidable setpoint.Fits := inferInstanceAs (Decidable (_ ∧ _))

variable {setpoint : Setpoint}

/-- A zero scale is no exception: its quotient is zero, and so is what is written. -/
theorem raw_eq (setpoint : Setpoint) :
    setpoint.raw = castSigned setpoint.bits setpoint.quotient := by
  unfold raw DeviceProfile.rawTarget quotient
  by_cases zero : setpoint.scale = 0
  · rw [if_neg (not_not.mpr zero), zero, div_zero, zero_mul]
    simp [castSigned, truncate]
  · rw [if_pos zero]

/-- The raw value is the rounded quotient if and only if the setpoint fits. -/
theorem raw_eq_truncate_iff (nonempty : 0 < setpoint.size) :
    setpoint.raw = truncate setpoint.quotient ↔ setpoint.Fits := by
  have width : setpoint.bits - 1 + 1 = setpoint.bits := by
    unfold bits
    omega
  have exact := castSigned_eq_iff (setpoint.bits - 1) setpoint.quotient
  rw [width] at exact
  rw [raw_eq, exact, Fits]

/-- What fits keeps its sign. -/
theorem raw_sign (nonempty : 0 < setpoint.size) (fits : setpoint.Fits) :
    (0 ≤ setpoint.quotient → 0 ≤ setpoint.raw) ∧ (setpoint.quotient ≤ 0 → setpoint.raw ≤ 0) := by
  rw [(raw_eq_truncate_iff nonempty).mpr fits]
  exact ⟨truncate_nonneg, truncate_nonpos⟩

/-- The same field with another target. -/
def retarget (setpoint : Setpoint) (target : Rat) : Setpoint := { setpoint with target := target }

/-- The quotient grows with the target, or falls where the scale and the direction have
opposite signs. -/
theorem quotient_mono {target : Rat} (le : setpoint.target ≤ target) :
    (0 ≤ setpoint.scale * setpoint.direction →
      setpoint.quotient ≤ (setpoint.retarget target).quotient) ∧
    (setpoint.scale * setpoint.direction ≤ 0 →
      (setpoint.retarget target).quotient ≤ setpoint.quotient) := by
  have linear : ∀ t : Rat, t / setpoint.scale * setpoint.direction =
      t * (setpoint.scale * setpoint.direction / (setpoint.scale * setpoint.scale)) := by
    intro t
    by_cases zero : setpoint.scale = 0
    · simp [zero]
    · field_simp
  have square := mul_self_nonneg setpoint.scale
  simp only [quotient, retarget, linear]
  refine ⟨fun same => ?_, fun opposite => ?_⟩
  · exact mul_le_mul_of_nonneg_right le (div_nonneg same square)
  · exact mul_le_mul_of_nonpos_right le (div_nonpos_of_nonpos_of_nonneg opposite square)

/-- Of two targets that fit, the larger one is written as the larger value, or as the
smaller one where the scale and the direction have opposite signs. -/
theorem raw_mono (nonempty : 0 < setpoint.size) {target : Rat} (le : setpoint.target ≤ target)
    (fits : setpoint.Fits) (fits' : (setpoint.retarget target).Fits) :
    (0 ≤ setpoint.scale * setpoint.direction →
      setpoint.raw ≤ (setpoint.retarget target).raw) ∧
    (setpoint.scale * setpoint.direction ≤ 0 →
      (setpoint.retarget target).raw ≤ setpoint.raw) := by
  have nonempty' : 0 < (setpoint.retarget target).size := nonempty
  rw [(raw_eq_truncate_iff nonempty).mpr fits, (raw_eq_truncate_iff nonempty').mpr fits']
  obtain ⟨rises, falls⟩ := quotient_mono le
  exact ⟨fun same => truncate_mono (rises same), fun opposite => truncate_mono (falls opposite)⟩

end Setpoint

/-- The setpoints of a servo axis, in the order in which they are written. -/
def ServoAxis.setpoints (axis : ServoAxis) : List Setpoint :=
  let cfg := axis.config
  [⟨"target_position", 4, axis.targetPosition, cfg.positionScale, cfg.direction⟩,
    ⟨"target_velocity", 4, axis.targetVelocity, cfg.velocityScale, cfg.direction⟩,
    ⟨"target_torque", 2, axis.targetTorque, cfg.torqueScale, cfg.direction⟩]

/-- An axis after its three targets have been set. -/
def ServoAxis.command (axis : ServoAxis) (position velocity torque : Rat) : ServoAxis :=
  ((axis.setTargetPosition position).setTargetVelocity velocity).setTargetTorque torque

/-- For every axis and all targets: encoding writes each setpoint as its truncated quotient
exactly when that is in the range of its field. Setpoints that are keep their signs and
their order. -/
theorem setpoints_unwrapped_iff (axis : ServoAxis) (position velocity torque : Rat)
    (mapping : PdoMapping) (buffer : List UInt8) :
    let commanded := axis.command position velocity torque
    DeviceProfile.encodePdoOutput (.servo commanded) mapping buffer =
      commanded.setpoints.foldl (fun buffer setpoint =>
        (writeRaw buffer (findEntry mapping.outputs setpoint.entry)
          (littleEndian setpoint.size setpoint.raw)).2) buffer ∧
    ∀ setpoint ∈ commanded.setpoints,
      (setpoint.raw = truncate setpoint.quotient ↔ setpoint.Fits) ∧
      (setpoint.Fits →
        ((0 ≤ setpoint.quotient → 0 ≤ setpoint.raw) ∧
          (setpoint.quotient ≤ 0 → setpoint.raw ≤ 0)) ∧
        ∀ target, setpoint.target ≤ target → (setpoint.retarget target).Fits →
          (0 ≤ setpoint.scale * setpoint.direction →
            setpoint.raw ≤ (setpoint.retarget target).raw) ∧
          (setpoint.scale * setpoint.direction ≤ 0 →
            (setpoint.retarget target).raw ≤ setpoint.raw)) := by
  intro commanded
  refine ⟨rfl, fun setpoint member => ?_⟩
  have nonempty : 0 < setpoint.size := by
    simp only [ServoAxis.setpoints, List.mem_cons, List.not_mem_nil, or_false] at member
    rcases member with rfl | rfl | rfl <;> exact Nat.succ_pos _
  exact ⟨Setpoint.raw_eq_truncate_iff nonempty, fun fits => ⟨Setpoint.raw_sign nonempty fits,
    fun target le fits' => Setpoint.raw_mono nonempty le fits fits'⟩⟩

/-- The axis of a drive as the factory configures it. -/
def benchAxis : ServoAxis where
  config := (SlaveConfigFactory.makeServoConfig {} "drive").axisConfig

/-- With the default scale, 32 Nm are written as 32000. -/
theorem setpoints_unwrapped_bench :
    (⟨"target_torque", 2, 32, 1 / 1000, 1⟩ : Setpoint) ∈ (benchAxis.command 0 0 32).setpoints ∧
      (⟨"target_torque", 2, 32, 1 / 1000, 1⟩ : Setpoint).raw =
        truncate (⟨"target_torque", 2, 32, 1 / 1000, 1⟩ : Setpoint).quotient := by
  have member : (⟨"target_torque", 2, 32, 1 / 1000, 1⟩ : Setpoint) ∈
      (benchAxis.command 0 0 32).setpoints := by decide +kernel
  refine ⟨member, ?_⟩
  exact ((setpoints_unwrapped_iff benchAxis 0 0 32 {} []).2 _ member).1.mpr (by decide +kernel)

/-- 33 Nm are written as if they were 32.536 Nm in the opposite direction. -/
theorem setpoints_wrap :
    let mapping := (SlaveConfigFactory.makeServoConfig {} "drive").mapping
    let encoded := DeviceProfile.encodePdoOutput (.servo (benchAxis.command 0 0 33)) mapping
      (List.replicate 10 0)
    truncate (33 / benchAxis.config.torqueScale * benchAxis.config.direction) = 33000 ∧
      signedLittleEndian (encoded.drop 8) = -32536 := by
  decide +kernel

end MoEcat
