import Mathlib.Data.List.Basic

/-!
# ESI documents

An ESI document is a tree of elements with attributes and texts. The generator finds
its elements by paths of tags, strips its texts, and reads its numbers and byte strings
by the rules of the language it is written in: numbers may carry a sign, a base prefix
and single underscores, byte strings are pairs of hexadecimal digits with blanks between
them. A program that reads a document has a result or ends with an error.
-/

namespace MoEcat

/-- How a program of the generator fails. -/
inductive PyError where
  | valueError
  | structError
  | indexError
  | stringTooLong (value : String)
  | deviceNotFound (productCode revisionNo : Int)
  | imageTooSmall (needed available : Nat)
deriving DecidableEq, Repr

/-- What a Python expression comes to: a value, or an exception. -/
abbrev Py (α : Type) := Except PyError α

namespace Py

variable {α γ : Type}

/-- A value is handed to what follows. -/
@[simp] theorem ok_bind (a : α) (f : α → Py γ) : ((Except.ok a : Py α) >>= f) = f a := rfl

/-- Returning a value raises nothing. -/
@[simp] theorem pure_eq_ok (a : α) : (pure a : Py α) = .ok a := rfl

/-- A sequence has a result only if both parts have one. -/
theorem bind_eq_ok {p : Py α} {f : α → Py γ} {c : γ} :
    p >>= f = .ok c ↔ ∃ a, p = .ok a ∧ f a = .ok c := by
  cases p with
  | error e => simp [bind, Except.bind]
  | ok a => simp

end Py

/-! ## Elements -/

/-- An element of a parsed document, as ElementTree has it. -/
structure Element where
  tag : String
  attrib : List (String × String) := []
  text : Option String := none
  children : List Element := []

namespace Element

/-- The value of an attribute, if the element has it. -/
def get (e : Element) (attr : String) : Option String := e.attrib.lookup attr

/-- The elements at the end of a path of tags, in the order of the document. -/
def findall (e : Element) (path : List String) : List Element :=
  path.foldl (fun found tag => found.flatMap fun e => e.children.filter fun c => c.tag == tag) [e]

/-- The first element under a path. -/
def find (e : Element) (path : List String) : Option Element := (e.findall path).head?

/-- The text of the first such element; an element without a text has the empty one. -/
def findtext (e : Element) (path : List String) : Option String :=
  (e.find path).map fun found => found.text.getD ""

end Element

/-- `a or b` on texts that may be missing: a missing or empty text gives way. -/
def orText (a b : Option String) : Option String :=
  match a with
  | none => b
  | some text => if text = "" then b else some text

/-! ## Texts -/

/-- White space outside a text, by code point. -/
def isSpace (c : Char) : Bool :=
  let n := c.toNat
  (9 ≤ n && n ≤ 13) || (28 ≤ n && n ≤ 32) || n == 0x85 || n == 0xA0 || n == 0x1680 ||
    (0x2000 ≤ n && n ≤ 0x200A) || n == 0x2028 || n == 0x2029 || n == 0x202F || n == 0x205F ||
    n == 0x3000

/-- The characters without the blank ones at both ends. -/
def stripBy (blank : Char → Bool) (text : List Char) : List Char :=
  ((text.dropWhile blank).reverse.dropWhile blank).reverse

/-- `str.strip` of a text. -/
def strip (text : String) : String := String.ofList (stripBy isSpace text.toList)

/-- White space inside a number or a byte string. -/
def isAsciiSpace (c : Char) : Bool := c == ' ' || (9 ≤ c.toNat && c.toNat ≤ 13)

/-! ## Numbers -/

/-- The zeros of the decimal digits of all scripts outside ASCII. -/
def decimalZeros : List Nat :=
  [0x660, 0x6f0, 0x7c0, 0x966, 0x9e6, 0xa66, 0xae6, 0xb66, 0xbe6, 0xc66, 0xce6, 0xd66, 0xde6,
    0xe50, 0xed0, 0xf20, 0x1040, 0x1090, 0x17e0, 0x1810, 0x1946, 0x19d0, 0x1a80, 0x1a90, 0x1b50,
    0x1bb0, 0x1c40, 0x1c50, 0xa620, 0xa8d0, 0xa900, 0xa9d0, 0xa9f0, 0xaa50, 0xabf0, 0xff10,
    0x104a0, 0x10d30, 0x11066, 0x110f0, 0x11136, 0x111d0, 0x112f0, 0x11450, 0x114d0, 0x11650,
    0x116c0, 0x11730, 0x118e0, 0x11950, 0x11c50, 0x11d50, 0x11da0, 0x16a60, 0x16ac0, 0x16b50,
    0x1d7ce, 0x1d7d8, 0x1d7e2, 0x1d7ec, 0x1d7f6, 0x1e140, 0x1e2f0, 0x1e950, 0x1fbf0]

/-- Decimal digits and white space of all scripts are read as those of ASCII. -/
def toAscii (c : Char) : Char :=
  if c.toNat < 128 then c
  else if isSpace c then ' '
  else
    match decimalZeros.find? fun first => first ≤ c.toNat && c.toNat < first + 10 with
    | some first => Char.ofNat (48 + (c.toNat - first))
    | none => '?'

/-- The value of a digit in the bases up to 36. -/
def digitValue (c : Char) : Option Nat :=
  if '0' ≤ c ∧ c ≤ '9' then some (c.toNat - '0'.toNat)
  else if 'a' ≤ c ∧ c ≤ 'z' then some (c.toNat - 'a'.toNat + 10)
  else if 'A' ≤ c ∧ c ≤ 'Z' then some (c.toNat - 'A'.toNat + 10)
  else none

/-- Digits in a base, continuing a value. An underscore stands between two digits. -/
def numeral (base value : Nat) (afterDigit : Bool) : List Char → Option Nat
  | [] => if afterDigit then some value else none
  | c :: rest =>
    if c = '_' then if afterDigit then numeral base value false rest else none
    else
      match digitValue c with
      | some d => if d < base then numeral base (value * base + d) true rest else none
      | none => none

/-- The base that a letter after a leading zero announces. -/
def announcedBase (c : Char) : Option Nat :=
  if c = 'x' ∨ c = 'X' then some 16
  else if c = 'o' ∨ c = 'O' then some 8
  else if c = 'b' ∨ c = 'B' then some 2
  else none

/-- One underscore is permitted between a prefix and the digits. -/
def afterPrefix : List Char → List Char
  | '_' :: rest => rest
  | rest => rest

/-- A number without a sign. Base 0 stands for the base that the prefix announces, and
without one only zero may begin with a zero. -/
def unsignedNumber (base : Nat) (digits : List Char) : Option Nat :=
  match digits with
  | '0' :: c :: rest =>
    match announcedBase c with
    | some announced =>
      if base = 0 ∨ base = announced then numeral announced 0 false (afterPrefix rest)
      else numeral base 0 false digits
    | none =>
      if base = 0 then (numeral 10 0 false digits).filter fun value => value == 0
      else numeral base 0 false digits
  | _ => numeral (if base = 0 then 10 else base) 0 false digits

/-- Conversion of a text to a number. -/
def int (text : List Char) (base : Nat) : Option Int :=
  match stripBy isAsciiSpace (text.map toAscii) with
  | '-' :: digits => (unsignedNumber base digits).map fun n => -(n : Int)
  | '+' :: digits => (unsignedNumber base digits).map fun n => (n : Int)
  | digits => (unsignedNumber base digits).map fun n => (n : Int)

/-- A number of the document; hexadecimal ones begin with `#x`. -/
def parseInt (value : Option String) (default : Int := 0) : Py Int :=
  match value with
  | none => .ok default
  | some text =>
    let number :=
      match (strip text).toList with
      | '#' :: 'x' :: digits => int digits 16
      | digits => int digits 0
    match number with
    | some n => .ok n
    | none => .error .valueError

/-- Bytes from pairs of hexadecimal digits. -/
def fromHex : List Char → Py (List UInt8)
  | [] => .ok []
  | c :: rest =>
    if isAsciiSpace c then fromHex rest
    else
      match rest with
      | [] => .error .valueError
      | d :: rest =>
        match digitValue c, digitValue d with
        | some high, some low =>
          if high < 16 ∧ low < 16 then do
            return UInt8.ofNat (16 * high + low) :: (← fromHex rest)
          else .error .valueError
        | _, _ => .error .valueError

example : parseInt (some " #x1A ") = .ok 26 := by decide

end MoEcat
