import MoEcat.SiiImage

/-!
# The reader of SII images

The reader walks the categories of an image, lists its strings and shows which of them
the general category refers to. Reading a byte or a word outside the image is an error.
-/

namespace MoEcat

open Blocks (wordAt)

/-- A word of the data, where there are two bytes. -/
def readU16 (data : List UInt8) (offset : Nat) : Py Nat :=
  if offset + 2 ≤ data.length then .ok (wordAt data offset) else .error .structError

/-- A byte of the data, where there is one. -/
def readByte (data : List UInt8) (offset : Nat) : Py UInt8 :=
  match data[offset]? with
  | some byte => .ok byte
  | none => .error .indexError

/-- Where a category begins: from a start on, each head leads to the next one, up to the
end marker or the end of the data. -/
def findCategory (data : List UInt8) (catType : Nat) (start : Nat := 0x80) : Py (Option Nat) :=
  if room : start + 4 ≤ data.length then do
    let p ← readU16 data start
    if p = 0xFFFF then return none
    else
      let length ← readU16 data (start + 2)
      if p = catType then return some start
      else findCategory data catType (start + 4 + length * 2)
  else .ok none
termination_by data.length - start

/-- The text of some bytes: every byte is a character. -/
def decodeLatin1 (bytes : List UInt8) : String :=
  String.ofList (bytes.map fun byte => Char.ofNat byte.toNat)

/-- So many strings from an offset on, each after its length. -/
def readStrings (data : List UInt8) : Nat → Nat → Py (List String)
  | 0, _ => .ok []
  | count + 1, ba => do
    let length ← readByte data ba
    let text := decodeLatin1 ((data.drop (ba + 1)).take length.toNat)
    return text :: (← readStrings data count (ba + 1 + length.toNat))

/-- The strings of the category at an offset, the empty one first. -/
def parseStrings (data : List UInt8) (start : Nat) : Py (List String) := do
  let _ ← readU16 data start
  let _ ← readU16 data (start + 2)
  let count ← readByte data (start + 4)
  return "" :: (← readStrings data count.toNat (start + 5))

/-- A position in the list of strings, with the text that is shown for it. -/
structure StringReference where
  index : Nat
  text : String
deriving DecidableEq, Repr

/-- The four references of the general category. -/
structure GeneralReferences where
  group : StringReference
  image : StringReference
  order : StringReference
  name : StringReference
deriving DecidableEq, Repr

/-- A reference with its text; what leads nowhere is shown as such. -/
def showString (strings : List String) (index : Nat) : StringReference :=
  ⟨index, strings.getD index "N/A"⟩

/-- What the general category at an offset refers to. -/
def parseGeneral (data : List UInt8) (start : Nat) (strings : List String) :
    Py GeneralReferences := do
  let _ ← readU16 data start
  let _ ← readU16 data (start + 2)
  let group ← readByte data (start + 4)
  let image ← readByte data (start + 5)
  let order ← readByte data (start + 6)
  let name ← readByte data (start + 7)
  return ⟨showString strings group.toNat, showString strings image.toNat,
    showString strings order.toNat, showString strings name.toNat⟩

/-- A number of two words, the lower word first. -/
def readU32 (data : List UInt8) (offset : Nat) : Py Nat :=
  if offset + 4 ≤ data.length then
    .ok (wordAt data offset + 2 ^ 16 * wordAt data (offset + 2))
  else .error .structError

namespace ParseEeprom

/-- The fields of the fixed head that are listed. -/
structure FixedHeader where
  pdiControl : Nat
  pdiConfiguration : Nat
  vendorId : Nat
  productCode : Nat
  revisionNumber : Nat
  serialNumber : Nat
  eepromSize : Nat
deriving DecidableEq, Repr

/-- The fields of the head that are shown. -/
def fixedHeader (data : List UInt8) : Py FixedHeader := do
  let pdiControl ← readU16 data 0x00
  let pdiConfiguration ← readU16 data 0x02
  let vendorId ← readU32 data 0x10
  let productCode ← readU32 data 0x14
  let revisionNumber ← readU32 data 0x18
  let serialNumber ← readU32 data 0x1C
  let eepromSize ← readU16 data 0x7C
  return ⟨pdiControl, pdiConfiguration, vendorId, productCode, revisionNumber, serialNumber,
    eepromSize⟩

/-- What is listed of an image. A missing category ends the listing. -/
structure Listing where
  size : Nat
  header : FixedHeader
  strings : Option (List String)
  general : Option GeneralReferences
deriving DecidableEq, Repr

/-- The whole listing. Without a category of strings it ends there, and without a general one
after the strings. -/
def main (data : List UInt8) : Py Listing := do
  let header ← fixedHeader data
  match ← findCategory data catStrings with
  | none => return ⟨data.length, header, none, none⟩
  | some stringsOffset =>
    let strings ← parseStrings data stringsOffset
    match ← findCategory data catGeneral with
    | none => return ⟨data.length, header, some strings, none⟩
    | some generalOffset =>
      return ⟨data.length, header, some strings,
        some (← parseGeneral data generalOffset strings)⟩

end ParseEeprom

/-- Inside the data a word is read. -/
theorem readU16_eq {data : List UInt8} {offset : Nat} (inside : offset + 2 ≤ data.length) :
    readU16 data offset = .ok (wordAt data offset) :=
  if_pos inside

/-- On any bytes the search ends without reading outside them, with the first place of a
walk that holds the category. -/
theorem findCategory_eq (data : List UInt8) (catType start : Nat) :
    findCategory data catType start =
      .ok ((Blocks.walk 0xFFFF data start).visited.lookup catType) := by
  fun_induction Blocks.walk 0xFFFF data start with
  | case1 start room marker =>
    rw [findCategory, dif_pos room, readU16_eq (by omega), Py.ok_bind, if_pos marker]
    rfl
  | case2 start room other rest inductionHypothesis =>
    rw [findCategory, dif_pos room, readU16_eq (by omega), Py.ok_bind, if_neg other,
      readU16_eq (by omega), Py.ok_bind, List.lookup_cons]
    by_cases found : wordAt data start = catType
    · simp [found]
    · have skipped : (catType == wordAt data start) = false := by
        simpa using Ne.symm found
      rw [if_neg found, skipped, Nat.mul_comm]
      exact inductionHypothesis
  | case3 start full =>
    rw [findCategory, dif_neg full]
    rfl

end MoEcat
