import Mathlib.Data.Nat.Digits.Defs

/-!
# Numerals in a text

A numeral is written in base 10, in base 8 with a leading zero, or in base 16 with a
leading `0x`. The conversion of the standard library finds out the base by itself. It is
lenient: it skips blanks, takes a sign, converts the longest numeral at the front and
ignores what follows; a negative number is taken modulo 2^64. It fails where no numeral
begins, and where the number takes more than 64 bits.

A text that is a numeral as a whole is converted to its value, if that takes no more than
64 bits.
-/

namespace MoEcat.Numerals

/-! ## Digits -/

/-- The value of a digit in the bases up to 36. -/
def digitValue (c : Char) : Option Nat :=
  if c.isDigit then some (c.toNat - '0'.toNat)
  else if c.isLower then some (c.toNat - 'a'.toNat + 10)
  else if c.isUpper then some (c.toNat - 'A'.toNat + 10)
  else none

/-- The value of a character that is a digit of the base. -/
def digitIn (base : Nat) (c : Char) : Option Nat := (digitValue c).filter (· < base)

/-- The digits at the front of a text. -/
def leadingDigits (base : Nat) : List Char → List Nat
  | [] => []
  | c :: rest =>
    match digitIn base c with
    | some digit => digit :: leadingDigits base rest
    | none => []

/-- The number that is read off digit by digit. -/
def accumulate (base : Nat) (digits : List Nat) : Nat :=
  digits.foldl (fun n digit => n * base + digit) 0

/-- Accumulating digits from the first on is reading them from the last on. -/
theorem accumulate_eq (base : Nat) (digits : List Nat) :
    accumulate base digits = Nat.ofDigits base digits.reverse := by
  rw [accumulate, Nat.ofDigits_eq_foldr, List.foldr_reverse]
  congr 1
  funext n digit
  rw [Nat.cast_id, Nat.add_comm, Nat.mul_comm]

/-- All of a text that has digits only belongs to its front. -/
theorem leadingDigits_of_forall {base : Nat} {text : List Char}
    (digits : ∀ c ∈ text, (digitIn base c).isSome) :
    leadingDigits base text = text.filterMap (digitIn base) := by
  induction text with
  | nil => rfl
  | cons c rest inductionHypothesis =>
    obtain ⟨first, others⟩ := List.forall_mem_cons.mp digits
    obtain ⟨digit, value⟩ := Option.isSome_iff_exists.mp first
    rw [leadingDigits, value, List.filterMap_cons, value, inductionHypothesis others]

/-! ## The conversion -/

/-- The blanks of the C locale. -/
def blanks : List Char := [' ', '\t', '\n', '\x0b', '\x0c', '\r']

/-- The digits behind the mark of base 16. -/
def hexDigits : List Char → List Nat
  | [] => []
  | mark :: rest => if mark = 'x' ∨ mark = 'X' then leadingDigits 16 rest else []

/-- The number that the longest numeral at the front stands for. A zero without a digit
behind its mark is a zero. -/
def longestNumeral : List Char → Option Nat
  | [] => none
  | c :: rest =>
    if c = '0' then
      if hexDigits rest ≠ [] then some (accumulate 16 (hexDigits rest))
      else some (accumulate 8 (leadingDigits 8 rest))
    else if leadingDigits 10 (c :: rest) ≠ [] then
      some (accumulate 10 (leadingDigits 10 (c :: rest)))
    else none

/-- The two exceptions of `std::stoul`. -/
inductive StoulError where
  | invalidArgument
  | outOfRange
deriving DecidableEq, Repr

/-- A number of at most 64 bits, or its negative. -/
def convert (negative : Bool) : Option Nat → Except StoulError Nat
  | none => .error .invalidArgument
  | some n =>
    if 2 ^ 64 ≤ n then .error .outOfRange
    else .ok (if negative then (2 ^ 64 - n) % 2 ^ 64 else n)

/-- The conversion to an unsigned number of 64 bits, in a base that it finds out. -/
def stoul (text : String) : Except StoulError Nat :=
  match text.toList.dropWhile (· ∈ blanks) with
  | '-' :: rest => convert true (longestNumeral rest)
  | '+' :: rest => convert false (longestNumeral rest)
  | rest => convert false (longestNumeral rest)

example : stoul " -1abc" = .ok 18446744073709551615 := by decide

/-- A signed number of 32 bits with these digits. -/
def convertSigned (negative : Bool) (digits : List Nat) : Except StoulError Int :=
  let n : Int := accumulate 10 digits
  let value := if negative then -n else n
  if digits = [] then .error .invalidArgument
  else if value < -2 ^ 31 ∨ 2 ^ 31 ≤ value then .error .outOfRange
  else .ok value

/-- The conversion to a signed number of 32 bits in base 10. -/
def stoi (text : String) : Except StoulError Int :=
  match text.toList.dropWhile (· ∈ blanks) with
  | '-' :: rest => convertSigned true (leadingDigits 10 rest)
  | '+' :: rest => convertSigned false (leadingDigits 10 rest)
  | rest => convertSigned false (leadingDigits 10 rest)

/-! ## Complete numerals -/

/-- The value of a nonempty text that has digits of a base only. -/
def inBase (base : Nat) (text : List Char) : Option Nat :=
  if text ≠ [] ∧ text.all fun c => (digitIn base c).isSome then
    some (Nat.ofDigits base (text.filterMap (digitIn base)).reverse)
  else none

/-- The value of a text that is a numeral as a whole. -/
def wholeNumeral : List Char → Option Nat
  | '0' :: 'x' :: digits => inBase 16 digits
  | '0' :: 'X' :: digits => inBase 16 digits
  | '0' :: digits => inBase 8 ('0' :: digits)
  | digits => inBase 10 digits

/-- Of a text that is all digits, all digits lead. -/
theorem accumulate_leadingDigits {base n : Nat} {text : List Char}
    (whole : inBase base text = some n) :
    leadingDigits base text ≠ [] ∧ accumulate base (leadingDigits base text) = n := by
  rw [inBase] at whole
  split at whole
  · rename_i digits
    obtain ⟨nonempty, digits⟩ := digits
    rw [List.all_eq_true] at digits
    rw [accumulate_eq, leadingDigits_of_forall digits]
    refine ⟨?_, Option.some.inj whole⟩
    intro empty
    obtain ⟨c, rest, rfl⟩ := List.exists_cons_of_ne_nil nonempty
    obtain ⟨first, -⟩ := List.forall_mem_cons.mp digits
    rw [List.filterMap_eq_nil_iff] at empty
    rw [empty c List.mem_cons_self] at first
    cases first
  · cases whole

/-- Of a complete numeral nothing is left over. -/
theorem longestNumeral_of_whole {text : List Char} {n : Nat} (whole : wholeNumeral text = some n) :
    longestNumeral text = some n := by
  unfold wholeNumeral at whole
  split at whole
  · obtain ⟨nonempty, value⟩ := accumulate_leadingDigits whole
    simp [longestNumeral, hexDigits, nonempty, value]
  · obtain ⟨nonempty, value⟩ := accumulate_leadingDigits whole
    simp [longestNumeral, hexDigits, nonempty, value]
  · rename_i digits small large
    obtain ⟨-, value⟩ := accumulate_leadingDigits whole
    have unmarked : hexDigits digits = [] := by
      cases digits with
      | nil => rfl
      | cons mark rest =>
        rw [hexDigits, if_neg]
        rintro (rfl | rfl)
        · exact small rest rfl
        · exact large rest rfl
    have zero : leadingDigits 8 ('0' :: digits) = 0 :: leadingDigits 8 digits := rfl
    rw [longestNumeral, if_pos rfl, unmarked, if_neg (not_not.mpr rfl), ← value, zero]
    rfl
  · rename_i octal
    obtain ⟨nonempty, value⟩ := accumulate_leadingDigits whole
    cases text with
    | nil => exact absurd rfl nonempty
    | cons c rest =>
      have decimal : c ≠ '0' := by
        rintro rfl
        exact octal rest rfl
      rw [longestNumeral, if_neg decimal, if_pos nonempty, value]

/-- It begins with a digit. -/
theorem head_of_whole {text : List Char} {n : Nat} (whole : wholeNumeral text = some n) :
    ∃ c rest, text = c :: rest ∧ (digitIn 10 c).isSome := by
  unfold wholeNumeral at whole
  split at whole
  · exact ⟨_, _, rfl, by decide⟩
  · exact ⟨_, _, rfl, by decide⟩
  · exact ⟨_, _, rfl, by decide⟩
  · rw [inBase] at whole
    split at whole
    · rename_i digits
      obtain ⟨c, rest, rfl⟩ := List.exists_cons_of_ne_nil digits.1
      exact ⟨c, rest, rfl, List.all_eq_true.mp digits.2 c List.mem_cons_self⟩
    · cases whole

/-- A complete numeral is converted to its value, if that takes no more than 64 bits. -/
theorem stoul_of_whole {text : String} {n : Nat} (whole : wholeNumeral text.toList = some n) :
    stoul text = if 2 ^ 64 ≤ n then .error .outOfRange else .ok n := by
  obtain ⟨c, rest, begins, digit⟩ := head_of_whole whole
  have others : c ∉ '-' :: '+' :: blanks := by
    intro member
    simp only [blanks, List.mem_cons, List.not_mem_nil, or_false] at member
    rcases member with rfl | rfl | rfl | rfl | rfl | rfl | rfl | rfl <;>
      exact absurd digit (by decide)
  simp only [List.mem_cons, not_or] at others
  obtain ⟨minus, plus, blank⟩ := others
  have kept : text.toList.dropWhile (· ∈ blanks) = text.toList := by
    rw [begins, List.dropWhile_cons_of_neg (by simpa using blank)]
  rw [stoul, kept, begins]
  split
  · rename_i same
    exact absurd (List.cons.inj same).1 minus
  · rename_i same
    exact absurd (List.cons.inj same).1 plus
  · rw [← begins, longestNumeral_of_whole whole]
    rfl

/-- A text that is all digits of a small number is read as that number. -/
theorem stoul_of_whole_of_lt {text : String} {n : Nat} (whole : wholeNumeral text.toList = some n)
    (small : n < 2 ^ 64) : stoul text = .ok n := by
  rw [stoul_of_whole whole, if_neg (Nat.not_le_of_lt small)]

/-- What a complete numeral is converted to is its value. -/
theorem whole_of_stoul {text : String} {n : Nat} (converted : stoul text = .ok n)
    (whole : (wholeNumeral text.toList).isSome) : wholeNumeral text.toList = some n := by
  obtain ⟨value, read⟩ := Option.isSome_iff_exists.mp whole
  rw [stoul_of_whole read] at converted
  split at converted
  · cases converted
  · rw [read, Except.ok.inj converted]

end MoEcat.Numerals
