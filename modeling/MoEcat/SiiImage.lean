import MoEcat.Blocks
import MoEcat.EsiDocument
import Mathlib.Algebra.Group.Int.Defs
import Mathlib.Algebra.GroupWithZero.Nat
import Mathlib.Logic.Function.Iterate

/-!
# The generator of SII images

The generator takes a device of an ESI document to the bytes of its EEPROM: a fixed
head, then categories of strings, general information, FMMUs, sync managers and PDOs.
Strings are collected in a table beforehand, and the categories refer to them by their
positions in it.

The source builds a category right before it appends it; here all payloads are built
first, which only changes which of two errors is met first. The modules that a device
uses by default are looked up before, as in the source.
-/

namespace MoEcat

open Blocks (wordBytes)

/-- The type of the category of strings. -/
def catStrings : Nat := 0x000A

/-- The type of the general category. -/
def catGeneral : Nat := 0x001E

/-- The type of the category of FMMUs. -/
def catFmmu : Nat := 0x0028

/-- The type of the category of sync managers. -/
def catSyncm : Nat := 0x0029

/-- The type of the category of transmitted PDOs. -/
def catTxPdo : Nat := 0x0032

/-- The type of the category of received PDOs. -/
def catRxPdo : Nat := 0x0033

/-- The marker behind the last category. -/
def catEnd : Nat := 0xFFFF

/-! ## Fields -/

/-- A number as a field of one byte. -/
def packByte (n : Int) : Py (List UInt8) :=
  if 0 ≤ n ∧ n < 256 then .ok [UInt8.ofNat n.toNat] else .error .structError

/-- A number as a field of one word. -/
def packWord (n : Int) : Py (List UInt8) :=
  if 0 ≤ n ∧ n < 65536 then .ok (wordBytes n.toNat) else .error .structError

/-- Assignment to one byte of a byte array. -/
def assignByte (n : Nat) : Py UInt8 :=
  if n < 256 then .ok (UInt8.ofNat n) else .error .valueError

/-- Assignment to a slice of a byte array, which may make the array longer. -/
def setSlice (buf : List UInt8) (start : Nat) (data : List UInt8) : List UInt8 :=
  buf.take start ++ data ++ buf.drop (start + data.length)

/-- Write a field inside the array. -/
def packInto (buf : List UInt8) (offset : Nat) (data : List UInt8) : Py (List UInt8) :=
  if offset + data.length ≤ buf.length then .ok (setSlice buf offset data)
  else .error .structError

/-- Put a number of one word, cut to its width, into the array. -/
def putU16 (buf : List UInt8) (offset : Nat) (value : Int) : Py (List UInt8) :=
  packInto buf offset (wordBytes (value % 2 ^ 16).toNat)

/-- Put a number of two words, cut to its width, into the array, the lower word first. -/
def putU32 (buf : List UInt8) (offset : Nat) (value : Int) : Py (List UInt8) :=
  let n := (value % 2 ^ 32).toNat
  packInto buf offset (wordBytes n ++ wordBytes (n / 2 ^ 16))

/-- One bit of the checksum. -/
def crcStep (crc : UInt8) : UInt8 :=
  if crc &&& 0x80 ≠ 0 then (crc <<< 1) ^^^ 0x07 else crc <<< 1

/-- One byte of the checksum. -/
def calcCrcByte (crc byte : UInt8) : UInt8 := Nat.iterate crcStep 8 (crc ^^^ byte)

/-- The checksum of the first seven words. -/
def siiCrc (buf : List UInt8) : UInt8 := (buf.take 14).foldl calcCrcByte 0xFF

/-- A category with its head; a payload of odd length is padded. -/
def category (catType : Nat) (payload : List UInt8) : Py (List UInt8) := do
  let payload := if payload.length % 2 = 1 then payload ++ [0] else payload
  return (← packWord catType) ++ (← packWord ((payload.length / 2 : Nat) : Int)) ++ payload

/-! ## The string table -/

/-- The bytes of a text; what has no byte of its own is replaced by a question mark. -/
def encodeLatin1 (text : String) : List UInt8 :=
  text.toList.map fun c => if c.toNat < 256 then UInt8.ofNat c.toNat else 0x3F

/-- Texts in the order in which they were added, with the position of each. Position 0 is
that of the empty text, which is not stored. -/
structure StringTable where
  items : List String := []
  index : String → Option Nat := fun value => if value = "" then some 0 else none
  consistent : ∀ value i, index value = some i ↔ ("" :: items)[i]? = some value := by
    intro value i
    cases i <;> simp [eq_comm]
  short : ∀ item ∈ items, (encodeLatin1 item).length ≤ 255 := by simp

namespace StringTable

/-- A text that is added takes the next position, and no other text changes its own. The
cases are whether a text is the new one and whether a position is the last. -/
theorem consistent_insert (strings : StringTable) (value : String)
    (absent : strings.index value = none) (other : String) (i : Nat) :
    Function.update strings.index value (some (strings.items.length + 1)) other = some i ↔
      ("" :: (strings.items ++ [value]))[i]? = some other := by
  have fresh : ∀ j : Nat, ("" :: strings.items)[j]? ≠ some value := by
    intro j found
    rw [(strings.consistent value j).mpr found] at absent
    cases absent
  rw [← List.cons_append]
  by_cases same : other = value
  · subst same
    rw [Function.update_self, Option.some_inj]
    constructor
    · rintro rfl
      simp
    · intro found
      rcases Nat.lt_or_ge i ("" :: strings.items).length with inside | outside
      · rw [List.getElem?_append_left inside] at found
        exact absurd found (fresh i)
      · obtain ⟨bound, -⟩ := List.getElem?_eq_some_iff.mp found
        simp only [List.length_cons, List.length_append, List.length_nil] at bound outside
        omega
  · rw [Function.update_of_ne same, strings.consistent other i]
    rcases Nat.lt_or_ge i ("" :: strings.items).length with inside | outside
    · rw [List.getElem?_append_left inside]
    · rw [List.getElem?_append_right outside, List.getElem?_eq_none outside]
      constructor
      · rintro ⟨⟩
      · intro found
        have member := List.mem_of_getElem? found
        exact absurd (List.mem_singleton.mp member) same

/-- The table with one more text. -/
def insert (strings : StringTable) (value : String) (absent : strings.index value = none)
    (fits : (encodeLatin1 value).length ≤ 255) : StringTable where
  items := strings.items ++ [value]
  index := Function.update strings.index value (some (strings.items.length + 1))
  consistent := strings.consistent_insert value absent
  short := List.forall_mem_append.mpr ⟨strings.short, List.forall_mem_singleton.mpr fits⟩

/-- The position of a text, stripped of the white space around it. A new one is put at
the end of the table. -/
def add (strings : StringTable) (value : Option String) : Py (Nat × StringTable) :=
  let value := strip (value.getD "")
  if value = "" then .ok (0, strings)
  else
    match found : strings.index value with
    | some i => .ok (i, strings)
    | none =>
      if fits : (encodeLatin1 value).length ≤ 255 then
        .ok (strings.items.length + 1, strings.insert value found fits)
      else .error (.stringTooLong value)

/-- The number of texts, then each of them after its length. -/
def payload (strings : StringTable) : Py (List UInt8) := do
  let count ← assignByte strings.items.length
  return count :: strings.items.flatMap fun item =>
    UInt8.ofNat (encodeLatin1 item).length :: encodeLatin1 item

end StringTable

/-! ## Devices and their fields -/

/-- The first device of a list with these numbers. A device without a type is passed over,
and one whose numbers cannot be read ends the search. -/
def findDeviceIn (productCode revisionNo : Int) : List Element → Py Element
  | [] => .error (.deviceNotFound productCode revisionNo)
  | dev :: rest =>
    match dev.find ["Type"] with
    | none => findDeviceIn productCode revisionNo rest
    | some typ => do
      if (← parseInt (typ.get "ProductCode")) = productCode then
        if (← parseInt (typ.get "RevisionNo")) = revisionNo then return dev
        else findDeviceIn productCode revisionNo rest
      else findDeviceIn productCode revisionNo rest

/-- The first device with this product code and revision. -/
def findDevice (root : Element) (productCode revisionNo : Int) : Py Element :=
  findDeviceIn productCode revisionNo (root.findall ["Descriptions", "Devices", "Device"])

/-- A bit, where it is set. -/
def flag (set : Bool) (value : UInt8) : UInt8 := if set then value else 0

/-- The details of CoE, from its attributes. -/
def coeDetails (coe : Option Element) : UInt8 :=
  match coe with
  | none => 0
  | some coe =>
    0x01 ||| flag (coe.get "SdoInfo" == some "1") 0x02 |||
      flag (coe.get "PdoAssign" == some "1") 0x04 |||
      flag (coe.get "PdoConfig" == some "1") 0x08 |||
      flag (coe.get "CompleteAccess" == some "1") 0x20

/-- A mailbox is there and has an element of this kind. -/
def hasProtocol (mailbox : Option Element) (tag : String) : Bool :=
  match mailbox with
  | none => false
  | some mailbox => (mailbox.find [tag]).isSome

/-- The mailbox protocols that the device has elements for. -/
def mailboxProtocol (mailbox : Option Element) : UInt8 :=
  flag (hasProtocol mailbox "CoE") 0x04 ||| flag (hasProtocol mailbox "FoE") 0x08 |||
    flag (hasProtocol mailbox "EoE") 0x02 ||| flag (hasProtocol mailbox "SoE") 0x10 |||
    flag (hasProtocol mailbox "VoE") 0x20

/-- The type of a sync manager, by its name; 0 for any other name. -/
def smType (name : String) : UInt8 :=
  ([("MBoxOut", 1), ("MBoxIn", 2), ("Outputs", 3), ("Inputs", 4)].lookup name).getD 0

/-- The use of an FMMU, by its name; 255 for any other name or none. -/
def fmmuValue (name : Option String) : UInt8 :=
  ([("Outputs", 1), ("Inputs", 2), ("MBoxState", 3)].lookup (name.getD "")).getD 0xFF

/-! ### The texts of the general category -/

/-- The name of the device's group. -/
def groupText (dev : Element) : Option String := dev.findtext ["GroupType"]

/-- The device's type, as its order code. -/
def orderText (dev : Element) : Option String := (dev.find ["Type"]).bind Element.text

/-- A device without a name goes by its type. -/
def nameText (dev : Element) : Option String := orText (dev.findtext ["Name"]) (orderText dev)

/-- One bit for each of the first four ports that is an Ethernet port. -/
def physWord (physics : String) : Nat :=
  ((physics.toList.take 4).mapIdx fun i port => if port = 'Y' then 2 ^ (4 * i) else 0).sum

/-- The device identifies itself through register 0x134. -/
def identificationReg134 (dev : Element) : Bool :=
  (strip ((dev.findtext ["Info", "IdentificationReg134"]).getD "")).toLower == "true"

/-- The general category: three positions in the string table and the device's features. -/
def buildGeneral (dev : Element) (strings : StringTable) : Py (List UInt8 × StringTable) := do
  let mailbox := dev.find ["Mailbox"]
  let (group, strings) ← strings.add (groupText dev)
  let group ← assignByte group
  let (order, strings) ← strings.add (orderText dev)
  let order ← assignByte order
  let (name, strings) ← strings.add (nameText dev)
  let name ← assignByte name
  let coe := coeDetails (mailbox.bind fun mailbox => mailbox.find ["CoE"])
  let foe := flag (hasProtocol mailbox "FoE") 1
  let eoe := flag (hasProtocol mailbox "EoE") 1
  let flags := flag ((mailbox.bind fun mailbox => mailbox.get "DataLinkLayer") == some "1") 0x04 |||
    flag (identificationReg134 dev) 0x10
  let phys := physWord ((dev.get "Physics").getD "")
  let reg134 := if identificationReg134 dev then 0x0134 else 0
  return ([group, 0, order, name, 0, coe, foe, eoe, 0, 0, 0, flags, 0, 0, group, 0] ++
    wordBytes phys ++ wordBytes reg134 ++ List.replicate 12 0, strings)

/-- One byte for each FMMU, filled up to whole words. -/
def buildFmmu (dev : Element) : List UInt8 :=
  let values := (dev.findall ["Fmmu"]).map fun node => fmmuValue node.text
  if values.length % 2 = 1 then values ++ [0xFF] else values

/-- The declared size of a sync manager, or the smallest one. -/
def smSize (sm : Element) : Py Int := parseInt (orText (sm.get "DefaultSize") (sm.get "MinSize"))

/-- The record of a sync manager. -/
def buildSm (sm : Element) : Py (List UInt8) := do
  let start ← parseInt (sm.get "StartAddress")
  let size ← smSize sm
  let control ← parseInt (sm.get "ControlByte")
  let enable ← parseInt (sm.get "Enable")
  return (← packWord start) ++ (← packWord size) ++ (← packByte control) ++ [0] ++
    (← packByte enable) ++ [smType (sm.text.getD "")]

/-- The records of all sync managers, in order. -/
def buildSyncm (dev : Element) : Py (List UInt8) := do
  return (← (dev.findall ["Sm"]).mapM buildSm).flatten

/-! ### Modules -/

/-- A device or a module with PDOs, and what its slot adds to their indices. -/
structure PdoSource where
  element : Element
  indexOffset : Int := 0
  pdoOffset : Int := 0

/-- The modules with an identification, the last one with a given number winning. -/
def moduleById : List Element → Py (List (Int × Element))
  | [] => .ok []
  | module :: rest =>
    match orText ((module.find ["Type"]).bind fun typ => typ.get "ModuleIdent") none with
    | none => moduleById rest
    | some ident => do
      let ident ← parseInt (some ident)
      return (← moduleById rest) ++ [(ident, module)]

/-- The default modules of the slots from one position on. -/
def defaultModules (modules : List (Int × Element)) (indexIncrement pdoIncrement : Int) :
    Nat → List Element → Py (List PdoSource)
  | _, [] => .ok []
  | position, slot :: rest =>
    match slot.find ["ModuleIdent"] with
    | none => defaultModules modules indexIncrement pdoIncrement (position + 1) rest
    | some ident =>
      if ident.get "Default" ≠ some "1" then
        defaultModules modules indexIncrement pdoIncrement (position + 1) rest
      else do
        let found := modules.lookup (← parseInt ident.text)
        let rest ← defaultModules modules indexIncrement pdoIncrement (position + 1) rest
        return (found.map fun module =>
          ⟨module, position * indexIncrement, position * pdoIncrement⟩).toList ++ rest

/-- The default modules of the device's slots, with what each slot adds. A device without
slots has none. -/
def findDefaultModules (root dev : Element) : Py (List PdoSource) :=
  match dev.find ["Slots"] with
  | none => .ok []
  | some slots => do
    let indexIncrement ← parseInt (slots.get "SlotIndexIncrement")
    let pdoIncrement ← parseInt (slots.get "SlotPdoIncrement")
    let modules ← moduleById (root.findall ["Descriptions", "Modules", "Module"])
    defaultModules modules indexIncrement pdoIncrement 0 (slots.findall ["Slot"])

/-! ### PDOs -/

/-- A text of a PDO or of an entry of one. -/
def pdoText (node : Element) : Option String := node.findtext ["Name"]

/-- The entries of a PDO. -/
def entriesOf (pdo : Element) : List Element := pdo.findall ["Entry"]

/-- Add the texts of elements in order. -/
def addTexts (nodes : List Element) (strings : StringTable) : Py StringTable :=
  nodes.foldlM (fun strings node => do return (← strings.add (pdoText node)).2) strings

/-- Add the texts of all PDOs, those received before those transmitted for each source. -/
def addPdoStrings (sources : List PdoSource) (strings : StringTable) : Py StringTable :=
  sources.foldlM (fun strings source =>
    (source.element.findall ["RxPdo"] ++ source.element.findall ["TxPdo"]).foldlM
      (fun strings pdo => do
        let strings := (← strings.add (pdoText pdo)).2
        addTexts (entriesOf pdo) strings) strings) strings

/-- A number given as an attribute or as a child, moved by the slot where it asks for it. -/
def adjustedIndex (node : Element) (attr : String) (indexOffset : Int) : Py Int := do
  let value ← parseInt (orText (node.get attr) (node.findtext [attr]))
  let moves := (node.find [attr]).bind (fun child => child.get "DependOnSlot") == some "true"
  return if moves then value + indexOffset else value

/-- A number given as an attribute or as a child. -/
def attributeOrChild (node : Element) (name : String) : Py Int :=
  parseInt (orText (node.get name) (node.findtext [name]))

/-- The record of an entry. -/
def buildEntry (indexOffset : Int) (entry : Element) (strings : StringTable) :
    Py (List UInt8 × StringTable) := do
  let index ← adjustedIndex entry "Index" indexOffset
  let subIndex ← attributeOrChild entry "SubIndex"
  let (name, strings) ← strings.add (pdoText entry)
  let bitLen ← attributeOrChild entry "BitLen"
  return ((← packWord index) ++ (← packByte subIndex) ++ (← packByte name) ++ [0] ++
    (← packByte bitLen) ++ wordBytes 0, strings)

/-- Build the records of elements one after another, the string table going from each to
the next. -/
def buildAll {α : Type} (build : α → StringTable → Py (List UInt8 × StringTable)) :
    List α → StringTable → Py (List UInt8 × StringTable)
  | [], strings => .ok ([], strings)
  | node :: rest, strings => do
    let (record, strings) ← build node strings
    let (records, strings) ← buildAll build rest strings
    return (record ++ records, strings)

/-- The record of a PDO, followed by those of its entries. -/
def buildPdo (smDefault : Int) (source : PdoSource) (pdo : Element) (strings : StringTable) :
    Py (List UInt8 × StringTable) := do
  let index ← adjustedIndex pdo "Index" source.pdoOffset
  let sm ← parseInt (pdo.get "Sm") smDefault
  let (name, strings) ← strings.add (pdoText pdo)
  let head := (← packWord index) ++ (← packByte (entriesOf pdo).length) ++ (← packByte sm) ++ [0] ++
    (← packByte name) ++ wordBytes 0
  let (entries, strings) ← buildAll (buildEntry source.indexOffset) (entriesOf pdo) strings
  return (head ++ entries, strings)

/-- The records of all PDOs of one direction, in the order of their sources. -/
def buildPdoCategory (sources : List PdoSource) (tag : String) (smDefault : Int)
    (strings : StringTable) : Py (List UInt8 × StringTable) :=
  buildAll (fun source => buildAll (buildPdo smDefault source) (source.element.findall [tag]))
    sources strings

/-! ## The image -/

/-- Put every text that the categories refer to into a table. -/
def collectStrings (dev : Element) (sources : List PdoSource) : Py StringTable := do
  let (_, strings) ← buildGeneral dev {}
  addPdoStrings sources strings

/-- The payloads of all categories, and the string table when the last one is built. -/
structure CategoryPayloads where
  strings : List UInt8
  general : List UInt8
  fmmu : List UInt8
  syncm : List UInt8
  rxPdo : List UInt8
  txPdo : List UInt8
  table : StringTable

/-- The payload of the strings is taken before the categories that refer to them. -/
def buildPayloads (dev : Element) (sources : List PdoSource) : Py CategoryPayloads := do
  let table ← collectStrings dev sources
  let strings ← table.payload
  let (general, table) ← buildGeneral dev table
  let syncm ← buildSyncm dev
  let (rxPdo, table) ← buildPdoCategory sources "RxPdo" 2 table
  let (txPdo, table) ← buildPdoCategory sources "TxPdo" 3 table
  return ⟨strings, general, buildFmmu dev, syncm, rxPdo, txPdo, table⟩

/-- The categories that are written, in order: the first two, and the others that are not
empty. -/
def CategoryPayloads.emitted (payloads : CategoryPayloads) : List (Nat × List UInt8) :=
  [(catStrings, payloads.strings), (catGeneral, payloads.general)] ++
    [(catFmmu, payloads.fmmu), (catSyncm, payloads.syncm), (catRxPdo, payloads.rxPdo),
      (catTxPdo, payloads.txPdo)].filter fun emitted => emitted.2 ≠ []

/-- The categories that are written, and the marker behind them. -/
def CategoryPayloads.bytes (payloads : CategoryPayloads) : Py (List UInt8) := do
  let categories ← payloads.emitted.mapM fun emitted => category emitted.1 emitted.2
  return categories.flatten ++ wordBytes catEnd

/-- The text of a byte string of the device's EEPROM; a missing or empty one has no bytes. -/
def eepromBytes (eeprom : Option Element) (tag : String) : Py (List UInt8) :=
  fromHex ((eeprom.bind fun eeprom => eeprom.findtext [tag]).getD "").toList

/-- An array of this size, its first 0x80 bytes cleared. -/
def blankImage (byteSize : Int) : Py (List UInt8) :=
  if byteSize < 0x80 then .error .indexError
  else .ok (List.replicate 0x80 0 ++ List.replicate (byteSize.toNat - 0x80) 0xFF)

/-- The mailbox windows of the first two sync managers. -/
def putMailboxes (sms : List Element) (buf : List UInt8) : Py (List UInt8) :=
  match sms with
  | out :: input :: _ => do
    let buf ← putU16 buf 0x30 (← parseInt (out.get "StartAddress"))
    let buf ← putU16 buf 0x32 (← smSize out)
    let buf ← putU16 buf 0x34 (← parseInt (input.get "StartAddress"))
    putU16 buf 0x36 (← smSize input)
  | _ => .ok buf

/-- The array before the categories are put into it. -/
def buildHead (dev : Element) (vendorId productCode revisionNo : Int) : Py (List UInt8) := do
  let eeprom := dev.find ["Eeprom"]
  let byteSize ← parseInt (eeprom.bind fun eeprom => eeprom.findtext ["ByteSize"]) 2048
  let buf ← blankImage byteSize
  let buf := setSlice buf 0 (← eepromBytes eeprom "ConfigData")
  let buf ← putU32 buf 0x10 vendorId
  let buf ← putU32 buf 0x14 productCode
  let buf ← putU32 buf 0x18 revisionNo
  let buf ← putU32 buf 0x1C 0
  let buf := setSlice buf 0x28 (← eepromBytes eeprom "BootStrap")
  let buf ← putMailboxes (dev.findall ["Sm"]) buf
  let buf ← putU16 buf 0x38 (mailboxProtocol (dev.find ["Mailbox"])).toNat
  let buf ← putU16 buf 0x7C (max (byteSize * 8 / 1024 - 1) 0)
  let buf ← putU16 buf 0x7E 1
  putU16 buf 0x0E (siiCrc buf).toNat

/-- Put the categories behind the head, if there is room for them. -/
def placeCategories (buf categories : List UInt8) : Py (List UInt8) :=
  if buf.length < 0x80 + categories.length then
    .error (.imageTooSmall (0x80 + categories.length) buf.length)
  else .ok (setSlice buf 0x80 categories)

/-- The bytes that are written to the file. -/
def buildImage (root : Element) (productCode revisionNo : Int) : Py (List UInt8) := do
  let vendorId ← parseInt (root.findtext ["Vendor", "Id"])
  let dev ← findDevice root productCode revisionNo
  let buf ← buildHead dev vendorId productCode revisionNo
  let modules ← findDefaultModules root dev
  let payloads ← buildPayloads dev ({ element := dev } :: modules)
  placeCategories buf (← payloads.bytes)

end MoEcat
