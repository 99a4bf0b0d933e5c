import MoEcat.CyclicRedundancy
import MoEcat.SiiImage

/-!
# The checksum of the SII head

The generator writes a checksum of the first fourteen bytes behind them. It is the CRC
that the format asks for: the register is set to ones, and the divisor is
x⁸ + x² + x + 1. The bits of each byte are taken from the most significant one on.
-/

namespace MoEcat

open CyclicRedundancy Polynomial

/-- What a sequence of bytes stands for. -/
def crcWords (bytes : List UInt8) : List (BitVec 8) := bytes.map UInt8.toBitVec

/-- The bits of a sequence of bytes, in the order in which they are sent. -/
def sentBits (bytes : List UInt8) : List Bool := sent (crcWords bytes)

/-- A mask selects the bit that leaves. -/
theorem and_0x80 (crc : UInt8) : crc &&& 0x80 ≠ 0 ↔ crc.toBitVec.msb = true := by
  have mask : (0x80#8 : BitVec 8) = BitVec.twoPow 8 7 := rfl
  rw [ne_eq, ← UInt8.toBitVec_inj, UInt8.toBitVec_and]
  change ¬crc.toBitVec &&& 0x80#8 = 0#8 ↔ _
  rw [mask, BitVec.and_twoPow, BitVec.msb_eq_getLsbD_last]
  cases crc.toBitVec.getLsbD 7 <;> decide

/-- One bit of the source's checksum is a step of the register. -/
theorem crcStep_toBitVec (crc : UInt8) :
    (crcStep crc).toBitVec = step 0x07#8 crc.toBitVec := by
  by_cases leaves : crc.toBitVec.msb = true
  · rw [crcStep, if_pos ((and_0x80 crc).mpr leaves), step, if_pos leaves]
    rfl
  · rw [crcStep, if_neg ((and_0x80 crc).not.mpr leaves), step, if_neg leaves]
    rfl

/-- One byte of it is absorbed by the register. -/
theorem calcCrcByte_toBitVec (crc byte : UInt8) :
    (calcCrcByte crc byte).toBitVec = absorb 0x07#8 crc.toBitVec byte.toBitVec :=
  Function.Semiconj.iterate_right crcStep_toBitVec 8 (crc ^^^ byte)

/-- The checksum is what the register holds in the end. -/
theorem foldl_calcCrcByte_toBitVec (bytes : List UInt8) (crc : UInt8) :
    (bytes.foldl calcCrcByte crc).toBitVec =
      (crcWords bytes).foldl (absorb 0x07#8) crc.toBitVec := by
  rw [crcWords, List.foldl_map]
  exact (List.foldl_hom UInt8.toBitVec
    fun register byte => (calcCrcByte_toBitVec register byte).symm).symm

/-- The generator polynomial of the checksum. -/
theorem generator_0x07 : generator 0x07#8 = X ^ 8 + X ^ 2 + X + 1 := by
  have low : transmitted 0x07#8 = [false, false, false, false, false, true, true, true] := by
    decide
  rw [generator, polynomial, low]
  simp [ofBits, add_assoc]

/-- Sequences of one length with different bits only in a window of one byte's width have
different checksums. -/
theorem foldl_calcCrcByte_ne {a b : List UInt8} (sameLength : a.length = b.length)
    (different : a ≠ b) {start : Nat}
    (agree : ∀ i, i < start ∨ start + 8 ≤ i → (sentBits a)[i]? = (sentBits b)[i]?)
    (crc : UInt8) : a.foldl calcCrcByte crc ≠ b.foldl calcCrcByte crc := by
  have differentWords : crcWords a ≠ crcWords b := fun same =>
    different (List.map_injective_iff.mpr (fun _ _ => UInt8.toBitVec_inj.mp) same)
  rw [ne_eq, ← UInt8.toBitVec_inj, foldl_calcCrcByte_toBitVec, foldl_calcCrcByte_toBitVec]
  exact foldl_absorb_ne (by decide) (by simp [crcWords, sameLength]) differentWords agree _

/-- The checksum of a nonempty sequence of bytes is the remainder of its polynomial, with
the first contents of the register added to the first byte, times x⁸. So sequences of one
length that differ only within eight consecutive bits have different checksums, and so have
heads that differ in this way in their first fourteen bytes. -/
theorem checksum_is_remainder :
    (∀ (byte : UInt8) (rest : List UInt8),
      polynomial ((byte :: rest).foldl calcCrcByte 0xFF).toBitVec =
        (message (crcWords ((byte ^^^ 0xFF) :: rest)) * X ^ 8) %ₘ
          (X ^ 8 + X ^ 2 + X + 1)) ∧
    (∀ a b : List UInt8, a.length = b.length → a ≠ b → ∀ start : Nat,
      (∀ i, i < start ∨ start + 8 ≤ i → (sentBits a)[i]? = (sentBits b)[i]?) →
        a.foldl calcCrcByte 0xFF ≠ b.foldl calcCrcByte 0xFF) ∧
    (∀ a b : List UInt8, a.length = b.length → a.take 14 ≠ b.take 14 → ∀ start : Nat,
      (∀ i, i < start ∨ start + 8 ≤ i →
        (sentBits (a.take 14))[i]? = (sentBits (b.take 14))[i]?) →
        siiCrc a ≠ siiCrc b) := by
  refine ⟨?_, ?_, ?_⟩
  · intro byte rest
    rw [foldl_calcCrcByte_toBitVec, ← generator_0x07]
    exact foldl_absorb_cons 0x07#8 byte.toBitVec (crcWords rest) 0xFF#8
  · intro a b sameLength different start agree
    exact foldl_calcCrcByte_ne sameLength different agree 0xFF
  · intro a b sameLength different start agree
    have sameHeadLength : (a.take 14).length = (b.take 14).length := by simp [sameLength]
    exact foldl_calcCrcByte_ne sameHeadLength different agree 0xFF

/-- Two heads that differ in five bits across two bytes. -/
theorem checksum_is_remainder_bench :
    let a : List UInt8 := [0x80, 0x0E, 0x05, 0xEE, 0x10, 0x27, 0, 0, 0, 0, 0, 0, 0, 0]
    let b : List UInt8 := [0x80, 0x01, 0x85, 0xEE, 0x10, 0x27, 0, 0, 0, 0, 0, 0, 0, 0]
    siiCrc a ≠ siiCrc b := by
  intro a b
  refine checksum_is_remainder.2.2 a b (by decide) (by decide) 12 ?_
  intro i outside
  rcases Nat.lt_or_ge i 112 with inside | beyond
  · have others : ∀ i < 112, i < 12 ∨ 12 + 8 ≤ i →
        (sentBits (a.take 14))[i]? = (sentBits (b.take 14))[i]? := by
      decide
    exact others i inside outside
  · have lengths : (sentBits (a.take 14)).length = 112 ∧ (sentBits (b.take 14)).length = 112 := by
      decide
    rw [List.getElem?_eq_none (by omega), List.getElem?_eq_none (by omega)]

end MoEcat
