import MoEcat.DeviceDescription
import MoEcat.SiiCategories

/-!
# The strings of an image

The generator goes over the texts of a device and its modules twice: once to fill the
string table, and once to refer to it from the categories. Both passes add the same texts
in the same way, so the second one finds all of them and leaves the table as it was when
its payload was taken. Every reference is therefore the position of its text in the list
that the reader gets back.
-/

namespace MoEcat

open Blocks (wordBytes wordAt)

/-- A text with a question mark for every character that has no byte of its own. -/
def replaced (text : String) : String :=
  String.ofList (text.toList.map fun c => if c.toNat < 256 then c else '?')

/-- A text that is encoded and decoded has lost what has no byte of its own. -/
theorem decode_encode (text : String) : decodeLatin1 (encodeLatin1 text) = replaced text := by
  rw [decodeLatin1, encodeLatin1, replaced, List.map_map]
  congr 1
  apply List.map_congr_left
  intro c _
  by_cases small : c.toNat < 256
  · simp [small, Nat.mod_eq_of_lt small]
  · simp [small]

namespace StringTable

/-- A text is at this position of the table. -/
def Knows (strings : StringTable) (text : Option String) (i : Nat) : Prop :=
  strings.index (strip (text.getD "")) = some i

variable {strings strings' : StringTable} {text : Option String} {i : Nat}

/-- A known text stands at its position. -/
theorem Knows.getElem (knows : strings.Knows text i) :
    ("" :: strings.items)[i]? = some (strip (text.getD "")) :=
  (strings.consistent _ i).mp knows

/-- A longer table knows texts at the same positions. -/
theorem Knows.mono (knows : strings.Knows text i) (longer : strings.items <+: strings'.items) :
    strings'.Knows text i := by
  obtain ⟨added, same⟩ := longer
  apply (strings'.consistent _ i).mpr
  obtain ⟨inside, found⟩ := List.getElem?_eq_some_iff.mp knows.getElem
  rw [← same, ← List.cons_append, List.getElem?_append_left inside]
  exact knows.getElem

/-- Position 0 is that of the empty text. -/
theorem Knows.zero_iff (knows : strings.Knows text i) : i = 0 ↔ strip (text.getD "") = "" := by
  constructor
  · rintro rfl
    exact (Option.some.inj knows.getElem).symm
  · intro empty
    have first : strings.index "" = some 0 := (strings.consistent "" 0).mpr rfl
    rw [Knows, empty, first] at knows
    exact (Option.some.inj knows).symm

/-- Adding a known text changes nothing. -/
theorem add_known (knows : strings.Knows text i) : strings.add text = .ok (i, strings) := by
  unfold add
  by_cases empty : strip (text.getD "") = ""
  · rw [if_pos empty, knows.zero_iff.mpr empty]
  · rw [if_neg empty]
    split
    · rename_i j found
      rw [Knows, found] at knows
      rw [Option.some.inj knows]
    · rename_i absent
      rw [Knows, absent] at knows
      cases knows

/-- A text that is put into the table is known at its end. -/
theorem insert_knows (absent : strings.index (strip (text.getD "")) = none)
    (fits : (encodeLatin1 (strip (text.getD ""))).length ≤ 255) :
    (strings.insert _ absent fits).Knows text (strings.items.length + 1) := by
  simp only [Knows, insert, Function.update_self]

/-- An added text is known at the position that is returned. -/
theorem add_spec (added : strings.add text = .ok (i, strings')) :
    strings.items <+: strings'.items ∧ strings'.Knows text i := by
  by_cases known : ∃ j, strings.Knows text j
  · obtain ⟨j, knows⟩ := known
    rw [add_known knows] at added
    obtain ⟨rfl, rfl⟩ := Prod.mk.inj (Except.ok.inj added)
    exact ⟨List.prefix_rfl, knows⟩
  · unfold add at added
    have fresh : strip (text.getD "") ≠ "" := by
      intro empty
      exact known ⟨0, (strings.consistent _ 0).mpr (by simp [empty])⟩
    rw [if_neg fresh] at added
    split at added
    · rename_i j found
      exact absurd ⟨j, found⟩ known
    · split at added
      · rename_i absent fits
        obtain ⟨rfl, rfl⟩ := Prod.mk.inj (Except.ok.inj added)
        exact ⟨List.prefix_append .., insert_knows absent fits⟩
      · cases added

end StringTable

/-! ## Passes over texts -/

/-- A pass over texts leaves them known and removes nothing; over texts that are known it
changes nothing. -/
structure Refers (texts : List (Option String)) (strings strings' : StringTable) : Prop where
  longer : strings.items <+: strings'.items
  known : ∀ text ∈ texts, ∃ i, strings'.Knows text i
  same : (∀ text ∈ texts, ∃ i, strings.Knows text i) → strings' = strings

namespace Refers

variable {first second : List (Option String)} {a b c : StringTable}

/-- A pass over no texts. -/
theorem refl (strings : StringTable) : Refers [] strings strings :=
  ⟨List.prefix_rfl, by simp, fun _ => rfl⟩

/-- A pass after a pass. -/
theorem trans (earlier : Refers first a b) (later : Refers second b c) :
    Refers (first ++ second) a c := by
  refine ⟨earlier.longer.trans later.longer, ?_, ?_⟩
  · intro text member
    rcases List.mem_append.mp member with member | member
    · obtain ⟨i, knows⟩ := earlier.known text member
      exact ⟨i, knows.mono later.longer⟩
    · exact later.known text member
  · intro known
    obtain ⟨firstKnown, secondKnown⟩ := List.forall_mem_append.mp known
    obtain rfl := earlier.same firstKnown
    exact later.same secondKnown

/-- Adding one text is a pass over it. -/
theorem add {strings strings' : StringTable} {text : Option String} {i : Nat}
    (added : strings.add text = .ok (i, strings')) : Refers [text] strings strings' := by
  obtain ⟨longer, knows⟩ := StringTable.add_spec added
  refine ⟨longer, List.forall_mem_singleton.mpr ⟨i, knows⟩, fun known => ?_⟩
  obtain ⟨j, knew⟩ := List.forall_mem_singleton.mp known
  rw [StringTable.add_known knew] at added
  exact (Prod.mk.inj (Except.ok.inj added)).2.symm

/-- A loop whose passes refer to the texts of single items refers to those of all items. -/
theorem foldlM {α : Type} {step : StringTable → α → Py StringTable}
    {texts : α → List (Option String)}
    (each : ∀ strings item strings', step strings item = .ok strings' →
      Refers (texts item) strings strings') (items : List α) {strings strings' : StringTable}
    (ended : items.foldlM step strings = .ok strings') :
    Refers (items.flatMap texts) strings strings' := by
  induction items generalizing strings with
  | nil =>
    obtain rfl := Except.ok.inj ended
    exact refl _
  | cons item rest inductionHypothesis =>
    rw [List.foldlM_cons] at ended
    obtain ⟨middle, first, others⟩ := Py.bind_eq_ok.mp ended
    exact (each _ _ _ first).trans (inductionHypothesis others)

end Refers

/-- The texts of the general category. -/
def generalTexts (dev : Element) : List (Option String) :=
  [groupText dev, orderText dev, nameText dev]

/-- The texts of a PDO and its entries. -/
def pdoTexts (pdo : Element) : List (Option String) :=
  pdoText pdo :: (entriesOf pdo).map pdoText

/-- The PDOs of one direction. -/
def pdosOf (sources : List PdoSource) (tag : String) : List Element :=
  sources.flatMap fun source => source.element.findall [tag]

/-- Only what fits into a byte is assigned. -/
theorem assignByte_eq_ok {n : Nat} {byte : UInt8} (assigned : assignByte n = .ok byte) :
    byte.toNat = n := by
  unfold assignByte at assigned
  split at assigned
  · rename_i small
    rw [← Except.ok.inj assigned]
    simpa using small
  · cases assigned

/-- Adding the texts of elements is a pass over them. -/
theorem addTexts_refers {nodes : List Element} {strings strings' : StringTable}
    (added : addTexts nodes strings = .ok strings') :
    Refers (nodes.map pdoText) strings strings' := by
  rw [List.map_eq_flatMap]
  unfold addTexts at added
  apply Refers.foldlM _ nodes added
  intro strings node strings' stepped
  obtain ⟨⟨i, next⟩, first, ended⟩ := Py.bind_eq_ok.mp stepped
  obtain rfl := Except.ok.inj ended
  exact .add first

/-- Adding the texts of PDOs is a pass over them and over those of their entries. -/
theorem addPdoStrings_refers {sources : List PdoSource} {strings strings' : StringTable}
    (added : addPdoStrings sources strings = .ok strings') :
    Refers (sources.flatMap fun source => (source.element.findall ["RxPdo"] ++
      source.element.findall ["TxPdo"]).flatMap pdoTexts) strings strings' := by
  unfold addPdoStrings at added
  apply Refers.foldlM _ sources added
  intro strings source strings' gone
  apply Refers.foldlM _ _ gone
  intro strings pdo strings' stepped
  obtain ⟨⟨i, middle⟩, first, others⟩ := Py.bind_eq_ok.mp stepped
  exact (Refers.add first).trans (addTexts_refers others)

/-- The general category refers to its three texts by its first, third and fourth byte, and
to the first of them once more by its fifteenth. -/
theorem buildGeneral_spec {dev : Element} {strings strings' : StringTable} {payload : List UInt8}
    (built : buildGeneral dev strings = .ok (payload, strings')) :
    Refers (generalTexts dev) strings strings' ∧
      ∃ group order name rest, payload = group :: 0 :: order :: name :: rest ∧
        rest[10]? = some group ∧ strings'.Knows (groupText dev) group.toNat ∧
        strings'.Knows (orderText dev) order.toNat ∧ strings'.Knows (nameText dev) name.toNat := by
  unfold buildGeneral at built
  obtain ⟨⟨i, first⟩, addedGroup, built⟩ := Py.bind_eq_ok.mp built
  obtain ⟨group, assignedGroup, built⟩ := Py.bind_eq_ok.mp built
  obtain ⟨⟨j, second⟩, addedOrder, built⟩ := Py.bind_eq_ok.mp built
  obtain ⟨order, assignedOrder, built⟩ := Py.bind_eq_ok.mp built
  obtain ⟨⟨k, third⟩, addedName, built⟩ := Py.bind_eq_ok.mp built
  obtain ⟨name, assignedName, built⟩ := Py.bind_eq_ok.mp built
  obtain ⟨rfl, rfl⟩ := Prod.mk.inj (Except.ok.inj built)
  have later := StringTable.add_spec addedOrder
  have last := StringTable.add_spec addedName
  refine ⟨(Refers.add addedGroup).trans ((Refers.add addedOrder).trans (Refers.add addedName)),
    group, order, name, _, rfl, rfl, ?_, ?_, ?_⟩
  · rw [assignByte_eq_ok assignedGroup]
    exact ((StringTable.add_spec addedGroup).2.mono later.1).mono last.1
  · rw [assignByte_eq_ok assignedOrder]
    exact later.2.mono last.1
  · rw [assignByte_eq_ok assignedName]
    exact last.2

/-! ## Records -/

/-- Only what fits into a byte is packed. -/
theorem packByte_eq_ok {n : Int} {bytes : List UInt8} (packed : packByte n = .ok bytes) :
    ∃ byte, bytes = [byte] ∧ (byte.toNat : Int) = n := by
  unfold packByte at packed
  split at packed
  · rename_i small
    refine ⟨UInt8.ofNat n.toNat, (Except.ok.inj packed).symm, ?_⟩
    rw [UInt8.toNat_ofNat']
    omega
  · cases packed

/-- The record of an entry: eight bytes, the fourth referring to its text. -/
def EntryRecord (strings : StringTable) (entry : Element) (record : List UInt8) : Prop :=
  ∃ b₀ b₁ b₂ name b₄ b₅ b₆ b₇, record = [b₀, b₁, b₂, name, b₄, b₅, b₆, b₇] ∧
    strings.Knows (pdoText entry) name.toNat

/-- The record of a PDO: a head of eight bytes with the number of entries and a reference,
then the records of the entries. -/
def PdoRecord (strings : StringTable) (pdo : Element) (record : List UInt8) : Prop :=
  ∃ b₀ b₁ count b₃ b₄ name b₆ b₇ records,
    record = b₀ :: b₁ :: count :: b₃ :: b₄ :: name :: b₆ :: b₇ :: records.flatten ∧
    count.toNat = (entriesOf pdo).length ∧ strings.Knows (pdoText pdo) name.toNat ∧
    List.Forall₂ (EntryRecord strings) (entriesOf pdo) records

/-- A longer table knows the text of the entry too. -/
theorem EntryRecord.mono {strings strings' : StringTable} {entry : Element} {record : List UInt8}
    (longer : strings.items <+: strings'.items) (shape : EntryRecord strings entry record) :
    EntryRecord strings' entry record := by
  obtain ⟨b₀, b₁, b₂, name, b₄, b₅, b₆, b₇, same, knows⟩ := shape
  exact ⟨b₀, b₁, b₂, name, b₄, b₅, b₆, b₇, same, knows.mono longer⟩

/-- A longer table knows the texts of the PDO too. -/
theorem PdoRecord.mono {strings strings' : StringTable} {pdo : Element} {record : List UInt8}
    (longer : strings.items <+: strings'.items) (shape : PdoRecord strings pdo record) :
    PdoRecord strings' pdo record := by
  obtain ⟨b₀, b₁, count, b₃, b₄, name, b₆, b₇, records, same, counted, knows, entries⟩ := shape
  exact ⟨b₀, b₁, count, b₃, b₄, name, b₆, b₇, records, same, counted, knows.mono longer,
    entries.imp fun _ _ entry => entry.mono longer⟩

/-- Records that are built one after another, each of a shape that a longer table keeps. -/
theorem buildAll_spec {α : Type} {build : α → StringTable → Py (List UInt8 × StringTable)}
    (texts : α → List (Option String)) (Shape : StringTable → α → List UInt8 → Prop)
    (each : ∀ node strings record strings', build node strings = .ok (record, strings') →
      Refers (texts node) strings strings' ∧ Shape strings' node record)
    (mono : ∀ strings strings' node record, strings.items <+: strings'.items →
      Shape strings node record → Shape strings' node record)
    (nodes : List α) {strings strings' : StringTable} {bytes : List UInt8}
    (built : buildAll build nodes strings = .ok (bytes, strings')) :
    Refers (nodes.flatMap texts) strings strings' ∧
      ∃ records, bytes = records.flatten ∧ List.Forall₂ (Shape strings') nodes records := by
  induction nodes generalizing strings bytes with
  | nil =>
    obtain ⟨rfl, rfl⟩ := Prod.mk.inj (Except.ok.inj built)
    exact ⟨.refl _, [], rfl, .nil⟩
  | cons node rest inductionHypothesis =>
    obtain ⟨⟨record, middle⟩, first, built⟩ := Py.bind_eq_ok.mp built
    obtain ⟨⟨others, final⟩, later, built⟩ := Py.bind_eq_ok.mp built
    obtain ⟨rfl, rfl⟩ := Prod.mk.inj (Except.ok.inj built)
    obtain ⟨refers, shape⟩ := each _ _ _ _ first
    obtain ⟨refersRest, records, rfl, shapes⟩ := inductionHypothesis later
    exact ⟨refers.trans refersRest, record :: records, rfl,
      .cons (mono _ _ _ _ refersRest.longer shape) shapes⟩

/-- Building the record of an entry is a pass over its text, and the record refers to it. -/
theorem buildEntry_spec {indexOffset : Int} {entry : Element} {strings strings' : StringTable}
    {record : List UInt8}
    (built : buildEntry indexOffset entry strings = .ok (record, strings')) :
    Refers [pdoText entry] strings strings' ∧ EntryRecord strings' entry record := by
  unfold buildEntry at built
  obtain ⟨index, -, built⟩ := Py.bind_eq_ok.mp built
  obtain ⟨subIndex, -, built⟩ := Py.bind_eq_ok.mp built
  obtain ⟨⟨i, next⟩, added, built⟩ := Py.bind_eq_ok.mp built
  obtain ⟨bitLen, -, built⟩ := Py.bind_eq_ok.mp built
  obtain ⟨indexBytes, packedIndex, built⟩ := Py.bind_eq_ok.mp built
  obtain ⟨subBytes, packedSub, built⟩ := Py.bind_eq_ok.mp built
  obtain ⟨nameBytes, packedName, built⟩ := Py.bind_eq_ok.mp built
  obtain ⟨lengthBytes, packedLength, built⟩ := Py.bind_eq_ok.mp built
  obtain ⟨rfl, rfl⟩ := Prod.mk.inj (Except.ok.inj built)
  obtain ⟨-, rfl⟩ := packWord_eq_ok packedIndex
  obtain ⟨sub, rfl, -⟩ := packByte_eq_ok packedSub
  obtain ⟨name, rfl, position⟩ := packByte_eq_ok packedName
  obtain ⟨length, rfl, -⟩ := packByte_eq_ok packedLength
  refine ⟨.add added, _, _, sub, name, 0, length, _, _, rfl, ?_⟩
  have same : name.toNat = i := by exact_mod_cast position
  rw [same]
  exact (StringTable.add_spec added).2

/-- Building the record of a PDO is a pass over its texts, and the record refers to them. -/
theorem buildPdo_spec {smDefault : Int} {source : PdoSource} {pdo : Element}
    {strings strings' : StringTable} {record : List UInt8}
    (built : buildPdo smDefault source pdo strings = .ok (record, strings')) :
    Refers (pdoTexts pdo) strings strings' ∧ PdoRecord strings' pdo record := by
  unfold buildPdo at built
  obtain ⟨index, -, built⟩ := Py.bind_eq_ok.mp built
  obtain ⟨sm, -, built⟩ := Py.bind_eq_ok.mp built
  obtain ⟨⟨i, next⟩, added, built⟩ := Py.bind_eq_ok.mp built
  obtain ⟨indexBytes, packedIndex, built⟩ := Py.bind_eq_ok.mp built
  obtain ⟨countBytes, packedCount, built⟩ := Py.bind_eq_ok.mp built
  obtain ⟨smBytes, packedSm, built⟩ := Py.bind_eq_ok.mp built
  obtain ⟨nameBytes, packedName, built⟩ := Py.bind_eq_ok.mp built
  obtain ⟨⟨entries, final⟩, builtEntries, built⟩ := Py.bind_eq_ok.mp built
  obtain ⟨rfl, rfl⟩ := Prod.mk.inj (Except.ok.inj built)
  obtain ⟨-, rfl⟩ := packWord_eq_ok packedIndex
  obtain ⟨count, rfl, counted⟩ := packByte_eq_ok packedCount
  obtain ⟨smByte, rfl, -⟩ := packByte_eq_ok packedSm
  obtain ⟨name, rfl, position⟩ := packByte_eq_ok packedName
  obtain ⟨refers, records, rfl, shapes⟩ := buildAll_spec
    (fun entry => [pdoText entry]) EntryRecord (fun _ _ _ _ => buildEntry_spec)
    (fun _ _ _ _ => EntryRecord.mono) (entriesOf pdo) builtEntries
  rw [← List.map_eq_flatMap] at refers
  refine ⟨(Refers.add added).trans refers, _, _, count, smByte, 0, name, _, _, records, rfl,
    by exact_mod_cast counted, ?_, shapes⟩
  have same : name.toNat = i := by exact_mod_cast position
  rw [same]
  exact (StringTable.add_spec added).2.mono refers.longer

/-- Building a category of PDOs is a pass over their texts, and its records refer to them. -/
theorem buildPdoCategory_spec {sources : List PdoSource} {tag : String} {smDefault : Int}
    {strings strings' : StringTable} {payload : List UInt8}
    (built : buildPdoCategory sources tag smDefault strings = .ok (payload, strings')) :
    Refers ((pdosOf sources tag).flatMap pdoTexts) strings strings' ∧
      ∃ records, payload = records.flatten ∧
        List.Forall₂ (PdoRecord strings') (pdosOf sources tag) records := by
  unfold buildPdoCategory at built
  unfold pdosOf
  induction sources generalizing strings payload with
  | nil =>
    obtain ⟨rfl, rfl⟩ := Prod.mk.inj (Except.ok.inj built)
    exact ⟨.refl _, [], rfl, .nil⟩
  | cons source rest inductionHypothesis =>
    obtain ⟨⟨bytes, middle⟩, first, built⟩ := Py.bind_eq_ok.mp built
    obtain ⟨⟨others, final⟩, later, built⟩ := Py.bind_eq_ok.mp built
    obtain ⟨rfl, rfl⟩ := Prod.mk.inj (Except.ok.inj built)
    obtain ⟨refers, records, rfl, shapes⟩ := buildAll_spec pdoTexts PdoRecord
      (fun _ _ _ _ => buildPdo_spec) (fun _ _ _ _ => PdoRecord.mono) _ first
    obtain ⟨refersRest, recordsRest, rfl, shapesRest⟩ := inductionHypothesis later
    rw [List.flatMap_cons, List.flatMap_append]
    refine ⟨refers.trans refersRest, records ++ recordsRest, List.flatten_append.symm, ?_⟩
    exact List.rel_append (shapes.imp fun _ _ shape => shape.mono refersRest.longer) shapesRest

/-! ## The second pass -/

/-- What the payloads of a device refer to in the table that was filled beforehand. -/
structure PayloadReferences (dev : Element) (sources : List PdoSource)
    (payloads : CategoryPayloads) : Prop where
  frozen : collectStrings dev sources = .ok payloads.table
  strings : payloads.table.payload = .ok payloads.strings
  general : ∃ group order name rest, payloads.general = group :: 0 :: order :: name :: rest ∧
    rest[10]? = some group ∧ payloads.table.Knows (groupText dev) group.toNat ∧
    payloads.table.Knows (orderText dev) order.toNat ∧
    payloads.table.Knows (nameText dev) name.toNat
  rxPdo : ∃ records, payloads.rxPdo = records.flatten ∧
    List.Forall₂ (PdoRecord payloads.table) (pdosOf sources "RxPdo") records
  txPdo : ∃ records, payloads.txPdo = records.flatten ∧
    List.Forall₂ (PdoRecord payloads.table) (pdosOf sources "TxPdo") records

/-- The first pass leaves every text known that the categories refer to. -/
theorem collectStrings_knows {dev : Element} {sources : List PdoSource} {table : StringTable}
    (collected : collectStrings dev sources = .ok table) :
    (∀ text ∈ generalTexts dev, ∃ i, table.Knows text i) ∧
      ∀ tag ∈ ["RxPdo", "TxPdo"], ∀ text ∈ (pdosOf sources tag).flatMap pdoTexts,
        ∃ i, table.Knows text i := by
  obtain ⟨⟨payload, first⟩, general, later⟩ := Py.bind_eq_ok.mp collected
  have refers := addPdoStrings_refers later
  constructor
  · intro text member
    obtain ⟨i, knows⟩ := (buildGeneral_spec general).1.known text member
    exact ⟨i, knows.mono refers.longer⟩
  · intro tag tagged text member
    obtain ⟨pdo, inDirection, ofPdo⟩ := List.mem_flatMap.mp member
    obtain ⟨source, inSources, inElement⟩ := List.mem_flatMap.mp inDirection
    apply refers.known
    refine List.mem_flatMap.mpr ⟨source, inSources, List.mem_flatMap.mpr ⟨pdo, ?_, ofPdo⟩⟩
    rw [List.mem_append]
    rcases List.mem_pair.mp tagged with rfl | rfl
    · exact .inl inElement
    · exact .inr inElement

/-- The categories are built from known texts, so the table stays as it was when the
payload of the strings was taken. -/
theorem buildPayloads_references {dev : Element} {sources : List PdoSource}
    {payloads : CategoryPayloads} (built : buildPayloads dev sources = .ok payloads) :
    PayloadReferences dev sources payloads := by
  unfold buildPayloads at built
  obtain ⟨table, collected, built⟩ := Py.bind_eq_ok.mp built
  obtain ⟨strings, taken, built⟩ := Py.bind_eq_ok.mp built
  obtain ⟨⟨general, afterGeneral⟩, builtGeneral, built⟩ := Py.bind_eq_ok.mp built
  obtain ⟨syncm, -, built⟩ := Py.bind_eq_ok.mp built
  obtain ⟨⟨rxPdo, afterRx⟩, builtRx, built⟩ := Py.bind_eq_ok.mp built
  obtain ⟨⟨txPdo, afterTx⟩, builtTx, built⟩ := Py.bind_eq_ok.mp built
  obtain rfl := Except.ok.inj built
  obtain ⟨generalKnown, pdosKnown⟩ := collectStrings_knows collected
  obtain ⟨generalRefers, generalShape⟩ := buildGeneral_spec builtGeneral
  obtain rfl := generalRefers.same generalKnown
  obtain ⟨rxRefers, rxShape⟩ := buildPdoCategory_spec builtRx
  obtain rfl := rxRefers.same (pdosKnown _ (by simp))
  obtain ⟨txRefers, txShape⟩ := buildPdoCategory_spec builtTx
  obtain rfl := txRefers.same (pdosKnown _ (by simp))
  exact ⟨collected, taken, generalShape, rxShape, txShape⟩

/-! ## Reading references back -/

/-- The references of so many entries in a row. -/
def entryNames : Nat → List UInt8 → List Nat
  | count + 1, _ :: _ :: _ :: name :: _ :: _ :: _ :: _ :: rest =>
    name.toNat :: entryNames count rest
  | _, _ => []

/-- What a PDO and its entries refer to. -/
structure PdoNames where
  name : Nat
  entries : List Nat
deriving DecidableEq, Repr

/-- The references of the PDOs of a category, each with its entries behind its head. -/
def readPdos : List UInt8 → List PdoNames
  | _ :: _ :: count :: _ :: _ :: name :: _ :: _ :: rest =>
    ⟨name.toNat, entryNames count.toNat rest⟩ :: readPdos (rest.drop (8 * count.toNat))
  | _ => []
termination_by bytes => bytes.length
decreasing_by simp only [List.length_cons, List.length_drop]; omega

/-- The references that are read from records of entries are theirs. The induction is on the
entries with their records. -/
theorem entryNames_records {strings : StringTable} {entries : List Element}
    {records : List (List UInt8)} (shapes : List.Forall₂ (EntryRecord strings) entries records)
    (rest : List UInt8) :
    List.Forall₂ (fun entry => strings.Knows (pdoText entry)) entries
        (entryNames entries.length (records.flatten ++ rest)) ∧
      (records.flatten ++ rest).drop (8 * entries.length) = rest := by
  induction shapes with
  | nil => exact ⟨.nil, rfl⟩
  | cons shape shapes inductionHypothesis =>
    obtain ⟨b₀, b₁, b₂, name, b₄, b₅, b₆, b₇, rfl, knows⟩ := shape
    obtain ⟨reads, dropped⟩ := inductionHypothesis
    refine ⟨.cons knows reads, ?_⟩
    rw [List.length_cons, Nat.mul_add_one, Nat.add_comm, ← List.drop_drop]
    exact dropped

/-- The PDOs of a category are read back in order, whatever short padding follows. -/
theorem readPdos_records {strings : StringTable} {pdos : List Element}
    {records : List (List UInt8)} (shapes : List.Forall₂ (PdoRecord strings) pdos records)
    {padding : List UInt8} (short : padding.length < 8) :
    List.Forall₂ (fun pdo read => strings.Knows (pdoText pdo) read.name ∧
        List.Forall₂ (fun entry => strings.Knows (pdoText entry)) (entriesOf pdo) read.entries)
      pdos (readPdos (records.flatten ++ padding)) := by
  induction shapes with
  | nil =>
    have none : readPdos padding = [] := by
      unfold readPdos
      split
      · simp only [List.length_cons] at short
        omega
      · rfl
    rw [List.flatten_nil, List.nil_append, none]
    exact .nil
  | cons shape shapes inductionHypothesis =>
    obtain ⟨b₀, b₁, count, b₃, b₄, name, b₆, b₇, entries, rfl, counted, knows, names⟩ := shape
    obtain ⟨reads, dropped⟩ := entryNames_records names (_ ++ padding)
    rw [List.flatten_cons, List.append_assoc]
    simp only [List.cons_append]
    rw [readPdos, counted, dropped]
    exact .cons ⟨knows, reads⟩ inductionHypothesis

/-- A byte that stands at an offset is read there. -/
theorem readByte_eq {data rest : List UInt8} {offset : Nat} {byte : UInt8}
    (there : data.drop offset = byte :: rest) :
    readByte data offset = .ok byte ∧ data.drop (offset + 1) = rest := by
  have first : data[offset]? = some byte := by
    rw [← List.head?_drop, there, List.head?_cons]
  constructor
  · rw [readByte, first]
  · rw [← List.drop_drop, there, List.drop_one, List.tail_cons]

/-- Texts that were written after their lengths are read back. -/
theorem readStrings_eq {items : List String} {data rest : List UInt8} {offset : Nat}
    (short : ∀ item ∈ items, (encodeLatin1 item).length ≤ 255)
    (there : data.drop offset = (items.flatMap fun item =>
      UInt8.ofNat (encodeLatin1 item).length :: encodeLatin1 item) ++ rest) :
    readStrings data items.length offset = .ok (items.map replaced) := by
  induction items generalizing offset with
  | nil => rfl
  | cons item items inductionHypothesis =>
    obtain ⟨fits, others⟩ := List.forall_mem_cons.mp short
    rw [List.flatMap_cons, List.cons_append, List.cons_append, List.append_assoc] at there
    obtain ⟨lengthRead, behind⟩ := readByte_eq there
    have length : (UInt8.ofNat (encodeLatin1 item).length).toNat = (encodeLatin1 item).length := by
      rw [UInt8.toNat_ofNat']
      omega
    have next : data.drop (offset + 1 + (encodeLatin1 item).length) = (items.flatMap fun item =>
        UInt8.ofNat (encodeLatin1 item).length :: encodeLatin1 item) ++ rest := by
      rw [← List.drop_drop, behind, List.drop_left]
    rw [List.length_cons, readStrings, lengthRead, Py.ok_bind, length,
      inductionHypothesis others next, Py.ok_bind, behind, List.take_left, decode_encode]
    rfl

namespace FoundAs

variable {image : List UInt8} {emitted : Nat × List UInt8} {offset : Nat}

/-- The image goes on with the payload behind the head of a category. -/
theorem behind (foundAs : FoundAs image emitted offset) :
    ∃ rest, image.drop (offset + 4) = emitted.2 ++ rest := by
  obtain ⟨padding, -, words⟩ := foundAs.words
  refine ⟨padding ++ (image.drop (offset + 4)).drop (2 * wordAt image (offset + 2)), ?_⟩
  rw [← List.append_assoc, ← words, List.take_append_drop]

/-- The two words of a category's head are read. -/
theorem readWords (foundAs : FoundAs image emitted offset) :
    readU16 image offset = .ok (wordAt image offset) ∧
      readU16 image (offset + 2) = .ok (wordAt image (offset + 2)) := by
  have inside := foundAs.inside
  exact ⟨readU16_eq (by omega), readU16_eq (by omega)⟩

end FoundAs

/-- The strings of an image are those of the table it was built with. -/
theorem parseStrings_eq {table : StringTable} {strings image : List UInt8} {offset : Nat}
    (taken : table.payload = .ok strings) (foundAs : FoundAs image (catStrings, strings) offset) :
    parseStrings image offset = .ok ("" :: table.items.map replaced) := by
  obtain ⟨count, counted, packed⟩ := Py.bind_eq_ok.mp taken
  obtain rfl := Except.ok.inj packed
  obtain ⟨rest, there⟩ := foundAs.behind
  obtain ⟨countRead, behind⟩ := readByte_eq there
  obtain ⟨kind, length⟩ := foundAs.readWords
  rw [parseStrings, kind, Py.ok_bind, length, Py.ok_bind, countRead, Py.ok_bind,
    assignByte_eq_ok counted, readStrings_eq table.short behind, Py.ok_bind]
  rfl

/-- A reference leads to its source text in a list of strings; it is 0 exactly for an empty
or missing text. -/
structure Resolves (strings : List String) (text : Option String) (index : Nat) : Prop where
  inside : index < strings.length
  leads : strings[index]? = some (replaced (strip (text.getD "")))
  zero : index = 0 ↔ strip (text.getD "") = ""

/-- A reference to a known text resolves to it in the strings that are read back. -/
theorem StringTable.Knows.resolves {table : StringTable} {text : Option String} {i : Nat}
    (knows : table.Knows text i) : Resolves ("" :: table.items.map replaced) text i := by
  have mapped : "" :: table.items.map replaced = ("" :: table.items).map replaced := rfl
  have there : ("" :: table.items.map replaced)[i]? = some (replaced (strip (text.getD ""))) := by
    rw [mapped, List.getElem?_map, knows.getElem]
    rfl
  exact ⟨(List.getElem?_eq_some_iff.mp there).1, there, knows.zero_iff⟩

/-- What is shown for a reference is its source text. -/
theorem Resolves.shown {strings : List String} {text : Option String} {index : Nat}
    (resolves : Resolves strings text index) :
    (showString strings index).text = replaced (strip (text.getD "")) := by
  rw [showString, List.getD_eq_getElem?_getD, resolves.leads]
  rfl

/-- A PDO and its entries refer to the names that the document has for them. -/
structure PdoResolves (strings : List String) (pdo : Element) (names : PdoNames) : Prop where
  name : Resolves strings (pdo.findtext ["Name"]) names.name
  entries : List.Forall₂ (fun entry => Resolves strings (entry.findtext ["Name"]))
    (pdo.findall ["Entry"]) names.entries

/-- The PDOs of one direction as they are read from the words of their category. -/
theorem readPdos_resolves {table : StringTable} {pdos : List Element}
    {records : List (List UInt8)} {kind offset : Nat} {payload image : List UInt8}
    (built : payload = records.flatten) (shapes : List.Forall₂ (PdoRecord table) pdos records)
    (foundAs : FoundAs image (kind, payload) offset) :
    List.Forall₂ (PdoResolves ("" :: table.items.map replaced)) pdos
      (readPdos ((image.drop (offset + 4)).take (2 * wordAt image (offset + 2)))) := by
  obtain ⟨padding, shape, words⟩ := foundAs.words
  have short : padding.length < 8 := by
    rcases shape with rfl | rfl <;> decide
  rw [words, built]
  refine (readPdos_records shapes short).imp fun pdo read known => ?_
  exact ⟨known.1.resolves, known.2.imp fun _ _ knows => knows.resolves⟩

/-- The references of the general category as the reader shows them. -/
theorem parseGeneral_resolves {table : StringTable} {dev : Element}
    {payload image : List UInt8} {start : Nat}
    (references : ∃ group order name rest, payload = group :: 0 :: order :: name :: rest ∧
      rest[10]? = some group ∧ table.Knows (groupText dev) group.toNat ∧
      table.Knows (orderText dev) order.toNat ∧ table.Knows (nameText dev) name.toNat)
    (foundAs : FoundAs image (catGeneral, payload) start) :
    let strings := "" :: table.items.map replaced
    ∃ start general again, findCategory image catGeneral = .ok (some start) ∧
      parseGeneral image start strings = .ok general ∧
      readByte image (start + 18) = .ok again ∧ again.toNat = general.group.index ∧
      general.image = ⟨0, ""⟩ ∧
      ∀ reference ∈ [(dev.findtext ["GroupType"], general.group),
          ((dev.find ["Type"]).bind Element.text, general.order),
          (deviceName dev, general.name)],
        Resolves strings reference.1 reference.2.index ∧
          reference.2.text = replaced (strip (reference.1.getD "")) := by
  intro strings
  obtain ⟨group, order, name, rest, rfl, repeated, groupKnown, orderKnown, nameKnown⟩ := references
  obtain ⟨behind, there⟩ := foundAs.behind
  simp only [List.cons_append] at there
  obtain ⟨kind, length⟩ := foundAs.readWords
  obtain ⟨groupRead, afterGroup⟩ := readByte_eq there
  obtain ⟨imageRead, afterImage⟩ := readByte_eq afterGroup
  obtain ⟨orderRead, afterOrder⟩ := readByte_eq afterImage
  obtain ⟨nameRead, afterName⟩ := readByte_eq afterOrder
  have again : readByte image (start + 18) = .ok group := by
    have inside : 10 < rest.length := (List.getElem?_eq_some_iff.mp repeated).1
    have located : image[start + 4 + 1 + 1 + 1 + 1 + 10]? = some group := by
      rw [← List.getElem?_drop, afterName, List.getElem?_append_left inside, repeated]
    rw [readByte, located]
  have parsed : parseGeneral image start strings = .ok ⟨showString strings group.toNat,
      showString strings 0, showString strings order.toNat, showString strings name.toNat⟩ := by
    rw [parseGeneral, kind, Py.ok_bind, length, Py.ok_bind, groupRead, Py.ok_bind, imageRead,
      Py.ok_bind, orderRead, Py.ok_bind, nameRead, Py.ok_bind]
    rfl
  rw [nameText_eq] at nameKnown
  refine ⟨start, _, group, foundAs.found, parsed, again, rfl, rfl, ?_⟩
  simp only [List.forall_mem_cons, List.not_mem_nil, false_implies, implies_true, and_true]
  exact ⟨⟨groupKnown.resolves, groupKnown.resolves.shown⟩,
    ⟨orderKnown.resolves, orderKnown.resolves.shown⟩,
    ⟨nameKnown.resolves, nameKnown.resolves.shown⟩⟩

/-- A category of PDOs is emitted exactly when it is not empty. -/
theorem mem_emitted_of_direction {payloads : CategoryPayloads} {kind : Nat}
    {payload : List UInt8} (direction : (kind, payload) = (catRxPdo, payloads.rxPdo) ∨
      (kind, payload) = (catTxPdo, payloads.txPdo)) :
    (payload ≠ [] → (kind, payload) ∈ payloads.emitted) ∧
      (payload = [] → kind ∉ payloads.emitted.map Prod.fst) := by
  have listed : (kind, payload) ∈ [(catFmmu, payloads.fmmu), (catSyncm, payloads.syncm),
      (catRxPdo, payloads.rxPdo), (catTxPdo, payloads.txPdo)] := by
    rcases direction with same | same <;> simp [same]
  constructor
  · intro present
    exact List.mem_append_right _ (List.mem_filter.mpr ⟨listed, by simpa using present⟩)
  · intro empty member
    obtain ⟨⟨found, other⟩, inEmitted, equal⟩ := List.mem_map.mp member
    obtain rfl : found = kind := equal
    simp only [CategoryPayloads.emitted, List.mem_append, List.mem_filter, List.mem_cons,
      List.not_mem_nil, or_false, Prod.mk.injEq, decide_eq_true_eq] at inEmitted
    rcases direction with same | same <;> obtain ⟨rfl, rfl⟩ := Prod.mk.inj same <;>
      simp [catStrings, catGeneral, catFmmu, catSyncm, catRxPdo, catTxPdo, empty] at inEmitted

/-- A category of PDOs is found, or there is no PDO for it. -/
theorem pdos_found {payloads : CategoryPayloads} {table : StringTable} {pdos : List Element}
    {kind : Nat} {payload buf categories image : List UInt8}
    (direction : (kind, payload) = (catRxPdo, payloads.rxPdo) ∨
      (kind, payload) = (catTxPdo, payloads.txPdo))
    (references : ∃ records, payload = records.flatten ∧
      List.Forall₂ (PdoRecord table) pdos records)
    (built : payloads.bytes = .ok categories)
    (placed : placeCategories buf categories = .ok image) :
    (∃ start, findCategory image kind = .ok (some start) ∧
        List.Forall₂ (PdoResolves ("" :: table.items.map replaced)) pdos
          (readPdos ((image.drop (start + 4)).take (2 * wordAt image (start + 2))))) ∨
      findCategory image kind = .ok none ∧ pdos = [] := by
  obtain ⟨visited, -, -, each⟩ := walk_image built placed
  obtain ⟨emitted, omitted⟩ := mem_emitted_of_direction direction
  obtain ⟨records, flat, shapes⟩ := references
  by_cases empty : payload = []
  · right
    constructor
    · rw [findCategory_eq, List.lookup_eq_none_iff.mpr]
      intro place visit
      have listed := List.mem_map_of_mem (f := Prod.fst) visit
      rw [show (0xFFFF : Nat) = catEnd from rfl, visited] at listed
      have other : kind ≠ place.1 := fun same => omitted empty (same ▸ listed)
      simpa using other
    · cases shapes with
      | nil => rfl
      | cons shape shapes =>
        obtain ⟨_, _, _, _, _, _, _, _, _, rfl, -⟩ := shape
        rw [empty] at flat
        cases flat
  · left
    have member := emitted empty
    obtain ⟨start, foundAs⟩ := each _ member
    exact ⟨start, foundAs.found, readPdos_resolves flat shapes foundAs⟩

/-- Every string of an image is read back, and every reference to one leads to the text
that the document has for it. The general category refers to the group of the device, to the
text of its type, and to its name, for which the type stands in where the name is missing or
empty; the PDOs of the device and of its default modules refer to their names, and so do their
entries. No string was added after the payload of the strings was taken. -/
theorem strings_resolve (root : Element) (productCode revisionNo : Int) (image : List UInt8)
    (built : buildImage root productCode revisionNo = .ok image) :
    ∃ dev modules payloads, findDevice root productCode revisionNo = .ok dev ∧
      FirstDevice root productCode revisionNo dev ∧
      findDefaultModules root dev = .ok modules ∧ DefaultModules root dev modules ∧
      buildPayloads dev ({ element := dev } :: modules) = .ok payloads ∧
      (collectStrings dev ({ element := dev } :: modules) = .ok payloads.table ∧
        payloads.table.payload = .ok payloads.strings) ∧
      ∃ strings, strings = "" :: payloads.table.items.map replaced ∧
        (∃ start, findCategory image catStrings = .ok (some start) ∧
          parseStrings image start = .ok strings) ∧
        (∃ start general again, findCategory image catGeneral = .ok (some start) ∧
          parseGeneral image start strings = .ok general ∧
          readByte image (start + 18) = .ok again ∧ again.toNat = general.group.index ∧
          ∀ reference ∈ [(dev.findtext ["GroupType"], general.group),
              ((dev.find ["Type"]).bind Element.text, general.order),
              (if (dev.findtext ["Name"]).getD "" = "" then (dev.find ["Type"]).bind Element.text
                else dev.findtext ["Name"], general.name)],
            Resolves strings reference.1 reference.2.index ∧
              reference.2.text = replaced (strip (reference.1.getD ""))) ∧
        ∀ direction ∈ [(catRxPdo, "RxPdo"), (catTxPdo, "TxPdo")],
          let pdos := (({ element := dev } : PdoSource) :: modules).flatMap fun source =>
            source.element.findall [direction.2]
          (∃ start, findCategory image direction.1 = .ok (some start) ∧
            List.Forall₂ (fun pdo read => Resolves strings (pdo.findtext ["Name"]) read.name ∧
                List.Forall₂ (fun entry => Resolves strings (entry.findtext ["Name"]))
                  (pdo.findall ["Entry"]) read.entries) pdos
              (readPdos ((image.drop (start + 4)).take (2 * wordAt image (start + 2))))) ∨
          findCategory image direction.1 = .ok none ∧ pdos = [] := by
  obtain ⟨dev, modules, payloads, buf, categories, found, located, collected, joined, placed⟩ :=
    buildImage_eq_ok built
  have references := buildPayloads_references collected
  obtain ⟨-, -, -, each⟩ := walk_image joined placed
  refine ⟨dev, modules, payloads, found, findDevice_first found, located,
    findDefaultModules_default located, collected, ⟨references.frozen, references.strings⟩, _, rfl,
    ?_, ?_, ?_⟩
  · obtain ⟨start, foundAs⟩ := each (catStrings, payloads.strings) List.mem_cons_self
    exact ⟨start, foundAs.found, parseStrings_eq references.strings foundAs⟩
  · obtain ⟨start, foundAs⟩ :=
      each (catGeneral, payloads.general) (List.mem_cons_of_mem _ List.mem_cons_self)
    obtain ⟨start, general, again, found, parsed, read, repeated, -, resolved⟩ :=
      parseGeneral_resolves references.general foundAs
    exact ⟨start, general, again, found, parsed, read, repeated, resolved⟩
  · intro direction member
    have each {pdos : List Element} {names : List PdoNames}
        (resolved : List.Forall₂ (PdoResolves ("" :: payloads.table.items.map replaced)) pdos
          names) :=
      resolved.imp fun _ _ pdo => And.intro pdo.name pdo.entries
    rcases List.mem_pair.mp member with rfl | rfl
    · refine (pdos_found (.inl rfl) references.rxPdo joined placed).imp_left ?_
      rintro ⟨start, found, resolved⟩
      exact ⟨start, found, each resolved⟩
    · refine (pdos_found (.inr rfl) references.txPdo joined placed).imp_left ?_
      rintro ⟨start, found, resolved⟩
      exact ⟨start, found, each resolved⟩

/-- The image of the bench has a category of strings that is read back. -/
theorem strings_resolve_bench :
    ∃ image start strings, buildImage benchEsi 0x2000 1 = .ok image ∧
      findCategory image catStrings = .ok (some start) ∧
      parseStrings image start = .ok ("" :: strings) := by
  obtain ⟨image, built⟩ := benchImage_built
  obtain ⟨_, _, _, -, -, -, -, -, -, _, rfl, ⟨start, found, parsed⟩, -⟩ :=
    strings_resolve benchEsi 0x2000 1 image built
  exact ⟨image, start, _, built, found, parsed⟩

end MoEcat
