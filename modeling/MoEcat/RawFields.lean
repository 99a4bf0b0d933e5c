import MoEcat.MoEcatMaster
import Mathlib.Algebra.Group.Int.Defs
import Mathlib.Algebra.GroupWithZero.Nat

/-!
# Numbers in raw fields

A raw field holds a number in a fixed count of bytes, the least significant first. What
does not fit is cut off, so the bytes depend on a residue of the number alone. Reading
the bytes gives this residue back, as a number without a sign or with one, and every
sequence of bytes is what is written for the number that it is read as.
-/

namespace MoEcat

/-- A value is written as so many bytes. -/
@[simp] theorem length_littleEndian (width : Nat) (value : Int) :
    (littleEndian width value).length = width := by
  simp [littleEndian]

/-- One more byte multiplies by 256. -/
theorem two_pow_byte (width : Nat) : 2 ^ (8 * (width + 1)) = 256 * 2 ^ (8 * width) := by
  rw [Nat.mul_succ, Nat.pow_add, Nat.mul_comm]

/-- Numbers with one residue have the same bytes. -/
theorem littleEndian_congr {width : Nat} {a b : Int}
    (same : a % (2 ^ (8 * width) : Nat) = b % (2 ^ (8 * width) : Nat)) :
    littleEndian width a = littleEndian width b := by
  rw [littleEndian, littleEndian, same]

/-- No byte of a number depends on what is cut off. -/
theorem littleEndian_natCast (width n : Nat) :
    littleEndian width n = (List.range width).map fun i => UInt8.ofNat (n / 2 ^ (8 * i)) := by
  apply List.map_congr_left
  intro i member
  have inside : 8 * (i + 1) ≤ 8 * width := Nat.mul_le_mul_left 8 (List.mem_range.mp member)
  have split : 2 ^ (8 * width) = 2 ^ (8 * i) * (2 ^ 8 * 2 ^ (8 * width - 8 * (i + 1))) := by
    rw [← Nat.pow_add, ← Nat.pow_add]
    congr 1
    omega
  rw [← Int.natCast_emod, Int.toNat_natCast, ← UInt8.toNat_inj, UInt8.toNat_ofNat',
    UInt8.toNat_ofNat', split, Nat.mod_mul_right_div_self, Nat.mod_mul_right_mod]

/-- The lowest byte comes first, and then the rest of the number. -/
theorem littleEndian_succ (width n : Nat) :
    littleEndian (width + 1) n = UInt8.ofNat n :: littleEndian width (n / 256 : Nat) := by
  rw [littleEndian_natCast, littleEndian_natCast, List.range_succ_eq_map, List.map_cons,
    List.map_map]
  congr 1
  · simp
  · apply List.map_congr_left
    intro i _
    rw [Function.comp_apply, two_pow_byte, Nat.div_div_eq_div_mul]

/-! ## Without a sign -/

/-- The first byte is the lowest. -/
theorem unsignedLittleEndian_cons (byte : UInt8) (rest : List UInt8) :
    unsignedLittleEndian (byte :: rest) = byte.toNat + 256 * unsignedLittleEndian rest := rfl

/-- Bytes are what is written for the number that they are read as. -/
theorem littleEndian_unsignedLittleEndian (bytes : List UInt8) :
    littleEndian bytes.length (unsignedLittleEndian bytes) = bytes := by
  induction bytes with
  | nil => rfl
  | cons byte rest inductionHypothesis =>
    have bound := byte.toNat_lt
    have low : UInt8.ofNat (unsignedLittleEndian (byte :: rest)) = byte := by
      rw [← UInt8.toNat_inj, UInt8.toNat_ofNat', unsignedLittleEndian_cons]
      omega
    have high : unsignedLittleEndian (byte :: rest) / 256 = unsignedLittleEndian rest := by
      rw [unsignedLittleEndian_cons]
      omega
    rw [List.length_cons, littleEndian_succ, low, high, inductionHypothesis]

/-- What was written reads back, up to the width. The induction is on the width. -/
theorem unsignedLittleEndian_littleEndian (width n : Nat) :
    unsignedLittleEndian (littleEndian width n) = n % 2 ^ (8 * width) := by
  induction width generalizing n with
  | zero => simp [littleEndian, unsignedLittleEndian, Nat.mod_one]
  | succ width inductionHypothesis =>
    rw [littleEndian_succ, unsignedLittleEndian_cons, inductionHypothesis, UInt8.toNat_ofNat',
      two_pow_byte, Nat.mod_mul]

/-- Zeros at the end do not change the number. -/
theorem unsignedLittleEndian_zeros (bytes : List UInt8) (n : Nat) :
    unsignedLittleEndian (bytes ++ List.replicate n 0) = unsignedLittleEndian bytes := by
  induction bytes with
  | nil =>
    induction n with
    | zero => rfl
    | succ n inductionHypothesis =>
      rw [List.replicate_succ, List.nil_append, unsignedLittleEndian_cons]
      rw [List.nil_append] at inductionHypothesis
      rw [inductionHypothesis]
      rfl
  | cons byte rest inductionHypothesis =>
    rw [List.cons_append, unsignedLittleEndian_cons, unsignedLittleEndian_cons,
      inductionHypothesis]

/-- Bytes of a field are those of a number exactly when they are read as it. -/
theorem eq_littleEndian_iff {bytes : List UInt8} {width n : Nat} (sized : bytes.length = width)
    (small : n < 2 ^ (8 * width)) :
    bytes = littleEndian width n ↔ unsignedLittleEndian bytes = n := by
  subst sized
  constructor
  · intro same
    rw [same, unsignedLittleEndian_littleEndian, Nat.mod_eq_of_lt small]
  · rintro rfl
    rw [littleEndian_unsignedLittleEndian]

/-! ## With a sign -/

/-- Reading with a sign is taking the balanced remainder. -/
theorem signedLittleEndian_eq (bytes : List UInt8) :
    signedLittleEndian bytes =
      Int.bmod (unsignedLittleEndian bytes) (2 ^ (8 * bytes.length)) := rfl

/-- The bytes of a number depend on its remainder only. -/
theorem littleEndian_bmod (width : Nat) (value : Int) :
    littleEndian width (Int.bmod value (2 ^ (8 * width))) = littleEndian width value :=
  littleEndian_congr Int.bmod_emod

/-- What was read with a sign is written as it was. -/
theorem littleEndian_signedLittleEndian (bytes : List UInt8) :
    littleEndian bytes.length (signedLittleEndian bytes) = bytes := by
  rw [signedLittleEndian_eq, littleEndian_bmod, littleEndian_unsignedLittleEndian]

/-- A number is read back as far as the field holds it. -/
theorem signedLittleEndian_littleEndian (width : Nat) (value : Int) :
    signedLittleEndian (littleEndian width value) = Int.bmod value (2 ^ (8 * width)) := by
  have nonzero : ((2 ^ (8 * width) : Nat) : Int) ≠ 0 :=
    Int.natCast_ne_zero.mpr (Nat.ne_of_gt (Nat.two_pow_pos (8 * width)))
  have residue : ((value % (2 ^ (8 * width) : Nat)).toNat : Int) =
      value % (2 ^ (8 * width) : Nat) :=
    Int.toNat_of_nonneg (Int.emod_nonneg value nonzero)
  have bytes : littleEndian width value =
      littleEndian width ((value % (2 ^ (8 * width) : Nat)).toNat : Nat) := by
    apply littleEndian_congr
    rw [residue, Int.emod_emod_of_dvd _ (Int.dvd_refl _)]
  rw [signedLittleEndian_eq, length_littleEndian, bytes, unsignedLittleEndian_littleEndian,
    Int.natCast_emod, residue, Int.emod_bmod, Int.emod_bmod]

end MoEcat
