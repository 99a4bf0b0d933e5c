import Mathlib.Algebra.Field.ZMod
import Mathlib.RingTheory.AdjoinRoot

/-!
# Cyclic redundancy

A sequence of bits, in the order in which they are sent, is a polynomial over the field
of two elements: the first bit has the highest power. A word stands for the bits in it,
the most significant first, and a message for the bits of its words.

A shift register of the width of a word takes one bit after another off the front of a
message. What it holds in the end is the remainder of the message under division by a
polynomial. Two messages that differ in no more consecutive bits than the register has
leave different remainders, as long as the polynomial has a constant term.
-/

namespace MoEcat.CyclicRedundancy

open Polynomial

/-! ## Bits as polynomials -/

/-- The polynomial of a sequence of bits. -/
noncomputable def ofBits : List Bool → (ZMod 2)[X]
  | [] => 0
  | bit :: rest => (if bit then X ^ rest.length else 0) + ofBits rest

/-- Bits that follow move the bits before them to higher powers. -/
theorem ofBits_append (front rest : List Bool) :
    ofBits (front ++ rest) = ofBits front * X ^ rest.length + ofBits rest := by
  induction front with
  | nil => simp [ofBits]
  | cons bit front inductionHypothesis =>
    rw [List.cons_append, ofBits, ofBits, inductionHypothesis, List.length_append, pow_add]
    cases bit <;> simp [add_mul, add_assoc]

/-- A polynomial has a degree below the number of its bits. -/
theorem degree_ofBits_lt (bits : List Bool) : (ofBits bits).degree < bits.length := by
  induction bits with
  | nil => simp [ofBits]
  | cons bit rest inductionHypothesis =>
    have longer : (rest.length : WithBot ℕ) < (bit :: rest).length := by
      exact_mod_cast Nat.lt_succ_self rest.length
    have head : (if bit then (X : (ZMod 2)[X]) ^ rest.length else 0).degree ≤ rest.length := by
      cases bit
      · simp
      · simp
    exact (degree_add_le _ _).trans_lt
      (max_lt (head.trans_lt longer) (inductionHypothesis.trans longer))

/-- A bit shows in its own coefficient only. -/
theorem coeff_bit_of_ne (bit : Bool) {i n : ℕ} (distinct : i ≠ n) :
    (if bit then (X : (ZMod 2)[X]) ^ n else 0).coeff i = 0 := by
  cases bit <;> simp [coeff_X_pow, distinct]

/-- The coefficients are the bits, counted from the end. -/
theorem coeff_ofBits (bits : List Bool) (i : ℕ) :
    (ofBits bits).coeff i = if bits.reverse[i]? = some true then 1 else 0 := by
  induction bits with
  | nil => simp [ofBits]
  | cons bit rest inductionHypothesis =>
    rw [ofBits, coeff_add, inductionHypothesis, List.reverse_cons]
    rcases Nat.lt_trichotomy i rest.length with before | rfl | behind
    · rw [coeff_bit_of_ne bit before.ne, zero_add,
        List.getElem?_append_left (by simpa using before)]
    · have last : (rest.reverse ++ [bit])[rest.length]? = some bit := by simp
      rw [last, List.getElem?_eq_none (by simp)]
      cases bit <;> simp
    · rw [coeff_bit_of_ne bit behind.ne', zero_add, List.getElem?_eq_none (by simpa using behind.le),
        List.getElem?_eq_none (by simpa using behind)]

/-- Sequences of one length are the same if their polynomials are. -/
theorem ofBits_inj {a b : List Bool} (sameLength : a.length = b.length)
    (same : ofBits a = ofBits b) : a = b := by
  apply List.reverse_injective
  apply List.ext_getElem (by simpa using sameLength)
  intro i insideA insideB
  have coefficients := congrArg (fun p => p.coeff i) same
  simp only [coeff_ofBits, List.getElem?_eq_getElem insideA,
    List.getElem?_eq_getElem insideB] at coefficients
  revert coefficients
  cases a.reverse[i] <;> cases b.reverse[i] <;> simp

/-! ## Words and messages -/

variable {w : ℕ}

/-- The bits of a word in the order in which they are sent. -/
def transmitted (word : BitVec w) : List Bool := List.ofFn fun i : Fin w => word.getMsb i

/-- The bits of a message in the order in which they are sent. -/
def sent (words : List (BitVec w)) : List Bool := words.flatMap transmitted

/-- The polynomial of a word. -/
noncomputable def polynomial (word : BitVec w) : (ZMod 2)[X] := ofBits (transmitted word)

/-- The polynomial of a message. -/
noncomputable def message (words : List (BitVec w)) : (ZMod 2)[X] := ofBits (sent words)

/-- A word is sent as so many bits as it has. -/
@[simp] theorem length_transmitted (word : BitVec w) : (transmitted word).length = w := by
  simp [transmitted]

/-- Words are sent as so many bits as they have together. -/
@[simp] theorem length_sent (words : List (BitVec w)) :
    (sent words).length = w * words.length := by
  induction words with
  | nil => rfl
  | cons word words inductionHypothesis =>
    rw [sent, List.flatMap_cons, List.length_append, length_transmitted]
    rw [sent] at inductionHypothesis
    rw [inductionHypothesis, List.length_cons, Nat.mul_succ, Nat.add_comm]

/-- The empty message is zero. -/
@[simp] theorem message_nil : message ([] : List (BitVec w)) = 0 := rfl

/-- A first word stands above all that follow. -/
theorem message_cons (word : BitVec w) (words : List (BitVec w)) :
    message (word :: words) = polynomial word * X ^ (w * words.length) + message words := by
  rw [message, sent, List.flatMap_cons, ofBits_append]
  exact congrArg (fun n => polynomial word * X ^ n + message words) (length_sent words)

/-- The polynomial of a word has a degree below its width. -/
theorem degree_polynomial_lt (word : BitVec w) : (polynomial word).degree < w := by
  have bound := degree_ofBits_lt (transmitted word)
  rwa [length_transmitted] at bound

/-- The coefficients are the bits. -/
theorem coeff_polynomial (word : BitVec w) (i : ℕ) :
    (polynomial word).coeff i = if word.getLsbD i then 1 else 0 := by
  have bit : (transmitted word).reverse[i]? = some true ↔ word.getLsbD i = true := by
    rcases Nat.lt_or_ge i w with inside | outside
    · have index : w - 1 - (w - 1 - i) = i := by omega
      rw [List.getElem?_eq_getElem (by simpa using inside), List.getElem_reverse]
      simp [transmitted, BitVec.getMsb_eq_getLsb, index, BitVec.getLsbD_eq_getElem inside]
    · rw [List.getElem?_eq_none (by simpa using outside), BitVec.getLsbD_of_ge _ _ outside]
      simp
  rw [polynomial, coeff_ofBits, if_congr bit rfl rfl]

/-- Exclusive or adds polynomials, as their coefficients are bits. -/
theorem polynomial_xor (a b : BitVec w) :
    polynomial (a ^^^ b) = polynomial a + polynomial b := by
  ext i
  rw [coeff_add, coeff_polynomial, coeff_polynomial, coeff_polynomial, BitVec.getLsbD_xor]
  cases a.getLsbD i <;> cases b.getLsbD i <;> decide

/-- Words with one polynomial are equal, bit by bit. -/
theorem polynomial_inj {a b : BitVec w} (same : polynomial a = polynomial b) : a = b := by
  apply BitVec.eq_of_getLsbD_eq
  intro i _
  have coefficients := congrArg (fun p => p.coeff i) same
  simp only [coeff_polynomial] at coefficients
  revert coefficients
  cases a.getLsbD i <;> cases b.getLsbD i <;> simp

/-- Different messages of one length send different bits. -/
theorem sent_inj {a b : List (BitVec w)} (sameLength : a.length = b.length)
    (same : sent a = sent b) : a = b := by
  induction a generalizing b with
  | nil => exact (List.eq_nil_of_length_eq_zero sameLength.symm).symm
  | cons word a inductionHypothesis =>
    cases b with
    | nil => cases sameLength
    | cons other b =>
      obtain ⟨heads, rests⟩ := List.append_inj same (by simp)
      rw [polynomial_inj (congrArg ofBits heads),
        inductionHypothesis (Nat.succ.inj sameLength) rests]

/-- A shift to the left loses the most significant bit. -/
theorem polynomial_shiftLeft (word : BitVec w) :
    polynomial (word <<< 1) + (if word.msb then X ^ w else 0) = X * polynomial word := by
  ext i
  rw [coeff_add, coeff_polynomial, BitVec.getLsbD_shiftLeft]
  cases i with
  | zero =>
    rcases Nat.eq_zero_or_pos w with rfl | wide
    · simp [BitVec.msb_of_zero_length]
    · cases word.msb <;> simp [coeff_X_pow, wide.ne]
  | succ i =>
    rw [coeff_X_mul, coeff_polynomial]
    rcases Nat.lt_trichotomy (i + 1) w with inside | rfl | outside
    · cases word.msb <;> simp [coeff_X_pow, inside, inside.ne]
    · have last : word.msb = word.getLsbD i := by simp [BitVec.msb_eq_getLsbD_last]
      rw [last]
      cases word.getLsbD i <;> simp
    · have beyond : word.getLsbD i = false := BitVec.getLsbD_of_ge _ _ (by omega)
      cases word.msb <;> simp [coeff_X_pow, beyond, outside.ne', Nat.not_lt.mpr outside.le]

/-! ## The register -/

/-- One bit leaves the register; if it is set, the low terms of the divisor are added. -/
def step (low register : BitVec w) : BitVec w :=
  if register.msb then (register <<< 1) ^^^ low else register <<< 1

/-- A word is taken in, and as many bits leave. -/
def absorb (low register word : BitVec w) : BitVec w := (step low)^[w] (register ^^^ word)

/-- The divisor with the given low terms. -/
noncomputable def generator (low : BitVec w) : (ZMod 2)[X] := X ^ w + polynomial low

/-- The generator is monic: its highest term stands apart from the word of the lower ones. -/
theorem monic_generator (low : BitVec w) : (generator low).Monic :=
  monic_X_pow_add (degree_polynomial_lt low)

/-- The degree of the generator is the width of the register. -/
theorem degree_generator (low : BitVec w) : (generator low).degree = w := by
  rw [generator, add_comm, degree_add_eq_right_of_degree_lt] <;>
    simp [degree_polynomial_lt]

section Residues

variable (low : BitVec w)

/-- In the ring of residues a step is a multiplication by the unknown. -/
theorem mk_step (register : BitVec w) :
    AdjoinRoot.mk (generator low) (polynomial (step low register)) =
      AdjoinRoot.mk (generator low) (X * polynomial register) := by
  rw [AdjoinRoot.mk_eq_mk, ← polynomial_shiftLeft, step]
  cases register.msb with
  | false => simp
  | true =>
    have difference : polynomial (register <<< 1 ^^^ low) -
        (polynomial (register <<< 1) + X ^ w) = generator low := by
      rw [polynomial_xor, generator, add_sub_add_left_eq_sub, sub_eq_add_neg,
        CharTwo.neg_eq, add_comm]
    simp [difference]

/-- So many steps of the register multiply by the variable so often, modulo the generator. -/
theorem mk_iterate_step (n : ℕ) (register : BitVec w) :
    AdjoinRoot.mk (generator low) (polynomial ((step low)^[n] register)) =
      AdjoinRoot.mk (generator low) (polynomial register * X ^ n) := by
  induction n with
  | zero => simp
  | succ n inductionHypothesis =>
    rw [Function.iterate_succ_apply', mk_step, map_mul, inductionHypothesis, ← map_mul,
      pow_succ', mul_left_comm]

/-- What the register holds after a message, up to multiples of the divisor: its first
contents, moved in front of the message, and the message. -/
theorem mk_foldl (words : List (BitVec w)) (register : BitVec w) :
    AdjoinRoot.mk (generator low) (polynomial (words.foldl (absorb low) register)) =
      AdjoinRoot.mk (generator low)
        (polynomial register * X ^ (w * words.length) + message words * X ^ w) := by
  induction words generalizing register with
  | nil => simp
  | cons word words inductionHypothesis =>
    have moved : (polynomial register + polynomial word) * X ^ w * X ^ (w * words.length) +
        message words * X ^ w = polynomial register * X ^ (w * (word :: words).length) +
          message (word :: words) * X ^ w := by
      rw [message_cons, List.length_cons]
      ring
    rw [List.foldl_cons, inductionHypothesis, map_add, map_mul, absorb, mk_iterate_step,
      ← map_mul, ← map_add, polynomial_xor, moved]

/-- The register is the remainder of what it stands for. -/
theorem foldl_absorb (words : List (BitVec w)) (register : BitVec w) :
    polynomial (words.foldl (absorb low) register) =
      (polynomial register * X ^ (w * words.length) + message words * X ^ w) %ₘ
        generator low := by
  have small : (polynomial (words.foldl (absorb low) register)).degree <
      (generator low).degree := by
    rw [degree_generator]
    exact degree_polynomial_lt _
  rw [← (modByMonic_eq_self_iff (monic_generator low)).mpr small]
  exact modByMonic_eq_of_dvd_sub (monic_generator low)
    (AdjoinRoot.mk_eq_mk.mp (mk_foldl low words register))

/-- First contents of the register count as a change of the first word. -/
theorem foldl_absorb_cons (word : BitVec w) (words : List (BitVec w)) (register : BitVec w) :
    polynomial ((word :: words).foldl (absorb low) register) =
      (message ((word ^^^ register) :: words) * X ^ w) %ₘ generator low := by
  rw [foldl_absorb, message_cons, message_cons, polynomial_xor, List.length_cons]
  congr 1
  ring

end Residues

/-! ## Bursts -/

/-- A polynomial with a constant term divides no short polynomial, however far that is
moved to higher powers. -/
theorem not_dvd_mul_X_pow {F : Type*} [Field F] {divisor burst : F[X]}
    (constantTerm : divisor.coeff 0 ≠ 0) (nonzero : burst ≠ 0)
    (short : burst.degree < divisor.degree) (n : ℕ) : ¬ divisor ∣ burst * X ^ n := by
  intro divides
  have coprime : IsCoprime divisor ((X : F[X]) ^ n) := by
    apply IsCoprime.pow_right
    apply IsCoprime.symm
    rw [irreducible_X.coprime_iff_not_dvd, X_dvd_iff]
    exact constantTerm
  exact nonzero (eq_zero_of_dvd_of_degree_lt (coprime.dvd_of_dvd_mul_right divides) short)

/-- Sequences that agree outside a window differ by the polynomial of a short sequence,
moved to where the window ends. -/
theorem ofBits_sub_of_window {a b : List Bool} (sameLength : a.length = b.length)
    (different : a ≠ b) {start width : ℕ}
    (agree : ∀ i, i < start ∨ start + width ≤ i → a[i]? = b[i]?) :
    ∃ burst : (ZMod 2)[X], ∃ n, burst ≠ 0 ∧ burst.degree < width ∧
      ofBits a - ofBits b = burst * X ^ n := by
  have fronts : a.take start = b.take start := by
    apply List.ext_getElem?
    intro i
    rcases Nat.lt_or_ge i start with before | behind
    · rw [List.getElem?_take_of_lt before, List.getElem?_take_of_lt before, agree i (.inl before)]
    · rw [List.getElem?_take_eq_none behind, List.getElem?_take_eq_none behind]
  have backs : (a.drop start).drop width = (b.drop start).drop width := by
    apply List.ext_getElem?
    intro i
    rw [List.drop_drop, List.drop_drop, List.getElem?_drop, List.getElem?_drop]
    exact agree _ (.inr (Nat.le_add_right _ _))
  have parts : ∀ bits : List Bool, bits = bits.take start ++
      ((bits.drop start).take width ++ (bits.drop start).drop width) := by
    intro bits
    rw [List.take_append_drop, List.take_append_drop]
  have lengths : ((a.drop start).take width).length = ((b.drop start).take width).length := by
    simp [sameLength]
  have windows : (a.drop start).take width ≠ (b.drop start).take width := by
    intro same
    apply different
    rw [parts a, parts b, fronts, same, backs]
  refine ⟨ofBits ((a.drop start).take width) - ofBits ((b.drop start).take width),
    ((b.drop start).drop width).length, ?_, ?_, ?_⟩
  · exact sub_ne_zero.mpr fun same => windows (ofBits_inj lengths same)
  · have bound : ∀ bits : List Bool, (ofBits (bits.take width)).degree < width := by
      intro bits
      refine (degree_ofBits_lt _).trans_le ?_
      exact_mod_cast List.length_take_le width bits
    exact (degree_sub_le _ _).trans_lt (max_lt (bound _) (bound _))
  · have split : ∀ bits : List Bool, ofBits bits = ofBits (bits.take start) *
        X ^ ((bits.drop start).take width ++ (bits.drop start).drop width).length +
          (ofBits ((bits.drop start).take width) * X ^ ((bits.drop start).drop width).length +
            ofBits ((bits.drop start).drop width)) := by
      intro bits
      rw [← ofBits_append, ← ofBits_append, ← parts]
    rw [split a, split b, fronts, backs, List.length_append, List.length_append, lengths]
    ring

/-- Messages of one length that differ only in a window no wider than the register leave
different contents in it. -/
theorem foldl_absorb_ne {low : BitVec w} (constantTerm : low.getLsbD 0 = true)
    {a b : List (BitVec w)} (sameLength : a.length = b.length) (different : a ≠ b)
    {start : ℕ} (agree : ∀ i, i < start ∨ start + w ≤ i → (sent a)[i]? = (sent b)[i]?)
    (register : BitVec w) :
    a.foldl (absorb low) register ≠ b.foldl (absorb low) register := by
  intro same
  obtain ⟨burst, n, nonzero, short, apart⟩ :=
    ofBits_sub_of_window (by simp [sameLength]) (fun same => different (sent_inj sameLength same))
      agree
  have residues := congrArg (fun word => AdjoinRoot.mk (generator low) (polynomial word)) same
  simp only [mk_foldl] at residues
  rw [AdjoinRoot.mk_eq_mk, sameLength, add_sub_add_left_eq_sub, ← sub_mul] at residues
  rw [message, message, apart, mul_assoc, ← pow_add] at residues
  have lastTerm : (generator low).coeff 0 ≠ 0 := by
    have wide : w ≠ 0 := by
      rintro rfl
      simp at constantTerm
    simp [generator, coeff_polynomial, constantTerm, coeff_X_pow, wide.symm]
  exact not_dvd_mul_X_pow lastTerm nonzero (by rwa [degree_generator]) (n + w) residues

end MoEcat.CyclicRedundancy
