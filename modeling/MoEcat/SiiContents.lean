import MoEcat.SiiStrings

/-!
# The contents of SII images

What the document says of the process data of a device is in its image. The categories have
the numbers of every FMMU, sync manager, PDO and entry, none of them cut off: a number that a
field does not hold keeps the generator from writing an image.

The records are those of the generator; how a list of records is read back is stated here
for FMMUs, sync managers and PDOs, which the reader of the repository does not list.
-/

namespace MoEcat

open Blocks (wordBytes wordAt)

/-! ## Records -/

/-- The number of two bytes. -/
def wordOf (low high : UInt8) : Nat := low.toNat + 256 * high.toNat

/-- A packed word is read back as the number it was packed from. -/
theorem packWord_reads {n : Int} {bytes : List UInt8} (packed : packWord n = .ok bytes) :
    ∃ low high, bytes = [low, high] ∧ (wordOf low high : Int) = n := by
  unfold packWord at packed
  split at packed
  · next fits =>
    refine ⟨_, _, (Except.ok.inj packed).symm, ?_⟩
    simp only [wordOf, UInt8.toNat_ofNat']
    omega
  · cases packed

/-- An entry of a PDO. -/
structure SiiEntry where
  index : Nat
  subIndex : UInt8
  name : UInt8
  bitLength : UInt8
deriving DecidableEq, Repr

/-- A PDO with its entries. -/
structure SiiPdo where
  index : Nat
  syncManager : UInt8
  name : UInt8
  entries : List SiiEntry
deriving DecidableEq, Repr

/-- What the PDO and its entries refer to in the table of strings. -/
def SiiPdo.names (pdo : SiiPdo) : PdoNames :=
  ⟨pdo.name.toNat, pdo.entries.map fun entry => entry.name.toNat⟩

/-- A sync manager as its record has it. -/
structure SiiSyncManager where
  startAddress : Nat
  length : Nat
  control : UInt8
  enable : UInt8
  type : UInt8
deriving DecidableEq, Repr

/-- So many entries, eight bytes each. -/
def decodeEntries : Nat → List UInt8 → List SiiEntry
  | count + 1, low :: high :: subIndex :: name :: _ :: bitLength :: _ :: _ :: rest =>
    ⟨wordOf low high, subIndex, name, bitLength⟩ :: decodeEntries count rest
  | _, _ => []

/-- The PDOs of a category, up to the last whole record. -/
def decodePdos : List UInt8 → List SiiPdo
  | low :: high :: count :: syncManager :: _ :: name :: _ :: _ :: rest =>
    ⟨wordOf low high, syncManager, name, decodeEntries count.toNat rest⟩ ::
      decodePdos (rest.drop (8 * count.toNat))
  | _ => []
termination_by bytes => bytes.length
decreasing_by
  simp only [List.length_cons, List.length_drop]
  omega

/-- The sync managers of a category, eight bytes each. Padding at the end is no record. -/
def decodeSyncManagers : List UInt8 → List SiiSyncManager
  | startLow :: startHigh :: low :: high :: control :: _ :: enable :: type :: rest =>
    ⟨wordOf startLow startHigh, wordOf low high, control, enable, type⟩ :: decodeSyncManagers rest
  | _ => []

/-! ## Entries and PDOs -/

/-- The entry has the numbers that the document gives for its element, its index moved by the
slot where it depends on it. -/
structure EntryNumbers (indexOffset : Int) (element : Element) (entry : SiiEntry) : Prop where
  index : GivesIndex element indexOffset entry.index
  subIndex : GivesNumber element "SubIndex" entry.subIndex.toNat
  bitLength : GivesNumber element "BitLen" entry.bitLength.toNat

/-- The PDO has the numbers that the document gives for its element, moved by the slot, and all
the entries of the element in their order. -/
structure PdoNumbers (smDefault : Int) (source : PdoSource) (element : Element) (pdo : SiiPdo) :
    Prop where
  index : GivesIndex element source.pdoOffset pdo.index
  syncManager : parseInt (element.get "Sm") smDefault = .ok (pdo.syncManager.toNat : Int)
  entries : List.Forall₂ (EntryNumbers source.indexOffset) (element.findall ["Entry"]) pdo.entries

/-- The bytes of an entry. -/
def EntryBytes (entry : SiiEntry) (record : List UInt8) : Prop :=
  ∃ low high, record = [low, high, entry.subIndex, entry.name, 0, entry.bitLength, 0, 0] ∧
    entry.index = wordOf low high

/-- The bytes of a PDO: its own record, then those of its entries. -/
def PdoBytes (pdo : SiiPdo) (record : List UInt8) : Prop :=
  ∃ low high count records, record = low :: high :: count :: pdo.syncManager :: 0 :: pdo.name ::
      0 :: 0 :: records.flatten ∧
    pdo.index = wordOf low high ∧ count.toNat = pdo.entries.length ∧
    List.Forall₂ EntryBytes pdo.entries records

/-- Records of entries decode to these entries, and leave what stands behind them. The
induction is on the entries with their records. -/
theorem decodeEntries_records {entries : List SiiEntry} {records : List (List UInt8)}
    (shapes : List.Forall₂ EntryBytes entries records) (rest : List UInt8) :
    decodeEntries entries.length (records.flatten ++ rest) = entries ∧
      (records.flatten ++ rest).drop (8 * entries.length) = rest := by
  induction shapes with
  | nil => exact ⟨by simp [decodeEntries], rfl⟩
  | cons shape shapes inductionHypothesis =>
    obtain ⟨low, high, rfl, index⟩ := shape
    obtain ⟨reads, dropped⟩ := inductionHypothesis
    constructor
    · rw [List.length_cons, List.flatten_cons, List.append_assoc]
      simp only [List.cons_append, List.nil_append, decodeEntries, reads, ← index]
    · rw [List.length_cons, Nat.mul_add_one, Nat.add_comm, ← List.drop_drop]
      exact dropped

/-- PDOs that were written one after another are read back, whatever short padding
follows. -/
theorem decodePdos_records {pdos : List SiiPdo} {records : List (List UInt8)}
    (shapes : List.Forall₂ PdoBytes pdos records) {padding : List UInt8}
    (short : padding.length < 8) : decodePdos (records.flatten ++ padding) = pdos := by
  induction shapes with
  | nil =>
    rw [List.flatten_nil, List.nil_append]
    unfold decodePdos
    split
    · simp only [List.length_cons] at short
      omega
    · rfl
  | cons shape shapes inductionHypothesis =>
    obtain ⟨low, high, count, entries, rfl, index, counted, written⟩ := shape
    obtain ⟨reads, dropped⟩ := decodeEntries_records written (_ ++ padding)
    rw [List.flatten_cons, List.append_assoc]
    simp only [List.cons_append]
    rw [decodePdos, counted, dropped, reads, inductionHypothesis, ← index]

/-- The references of decoded entries are those that were read alone. -/
theorem names_decodeEntries (count : Nat) (bytes : List UInt8) :
    (decodeEntries count bytes).map (fun entry => entry.name.toNat) = entryNames count bytes := by
  fun_induction decodeEntries count bytes with
  | case1 count low high subIndex name b₄ bitLength b₆ b₇ rest inductionHypothesis =>
    rw [List.map_cons, inductionHypothesis, entryNames]
  | case2 count bytes short =>
    rw [List.map_nil, entryNames]
    exact short

/-- The references to strings in these PDOs are those that are read elsewhere. -/
theorem names_decodePdos (bytes : List UInt8) :
    (decodePdos bytes).map SiiPdo.names = readPdos bytes := by
  fun_induction decodePdos bytes with
  | case1 low high count syncManager b₄ name b₆ b₇ rest inductionHypothesis =>
    rw [List.map_cons, inductionHypothesis, SiiPdo.names, names_decodeEntries, readPdos]
  | case2 bytes short =>
    rw [List.map_nil, readPdos]
    exact short

/-- A record that is built for an entry of the document holds its numbers. -/
theorem buildEntry_numbers {indexOffset : Int} {element : Element} {strings strings' : StringTable}
    {record : List UInt8}
    (built : buildEntry indexOffset element strings = .ok (record, strings')) :
    ∃ entry, EntryNumbers indexOffset element entry ∧ EntryBytes entry record := by
  unfold buildEntry at built
  obtain ⟨index, hasIndex, built⟩ := Py.bind_eq_ok.mp built
  obtain ⟨subIndex, hasSubIndex, built⟩ := Py.bind_eq_ok.mp built
  obtain ⟨⟨i, next⟩, -, built⟩ := Py.bind_eq_ok.mp built
  obtain ⟨bitLength, hasLength, built⟩ := Py.bind_eq_ok.mp built
  obtain ⟨indexBytes, packedIndex, built⟩ := Py.bind_eq_ok.mp built
  obtain ⟨subBytes, packedSub, built⟩ := Py.bind_eq_ok.mp built
  obtain ⟨nameBytes, packedName, built⟩ := Py.bind_eq_ok.mp built
  obtain ⟨lengthBytes, packedLength, built⟩ := Py.bind_eq_ok.mp built
  obtain ⟨rfl, -⟩ := Prod.mk.inj (Except.ok.inj built)
  obtain ⟨low, high, rfl, rfl⟩ := packWord_reads packedIndex
  obtain ⟨sub, rfl, rfl⟩ := packByte_eq_ok packedSub
  obtain ⟨name, rfl, -⟩ := packByte_eq_ok packedName
  obtain ⟨length, rfl, rfl⟩ := packByte_eq_ok packedLength
  exact ⟨⟨wordOf low high, sub, name, length⟩, ⟨adjustedIndex_gives hasIndex,
    attributeOrChild_eq_ok.mp hasSubIndex, attributeOrChild_eq_ok.mp hasLength⟩,
    low, high, rfl, rfl⟩

/-- Records that are built one after another, each on its own account. -/
theorem buildAll_records {α γ : Type} {build : α → StringTable → Py (List UInt8 × StringTable)}
    {Numbers : α → γ → Prop} {Bytes : γ → List UInt8 → Prop}
    (each : ∀ node strings record strings', build node strings = .ok (record, strings') →
      ∃ read, Numbers node read ∧ Bytes read record)
    (nodes : List α) {strings strings' : StringTable} {bytes : List UInt8}
    (built : buildAll build nodes strings = .ok (bytes, strings')) :
    ∃ reads records, bytes = records.flatten ∧ List.Forall₂ Numbers nodes reads ∧
      List.Forall₂ Bytes reads records := by
  induction nodes generalizing strings bytes with
  | nil =>
    obtain ⟨rfl, -⟩ := Prod.mk.inj (Except.ok.inj built)
    exact ⟨[], [], rfl, .nil, .nil⟩
  | cons node rest inductionHypothesis =>
    obtain ⟨⟨record, middle⟩, first, built⟩ := Py.bind_eq_ok.mp built
    obtain ⟨⟨others, final⟩, later, built⟩ := Py.bind_eq_ok.mp built
    obtain ⟨rfl, rfl⟩ := Prod.mk.inj (Except.ok.inj built)
    obtain ⟨read, numbers, shape⟩ := each _ _ _ _ first
    obtain ⟨reads, records, rfl, others, shapes⟩ := inductionHypothesis later
    exact ⟨read :: reads, record :: records, rfl, .cons numbers others, .cons shape shapes⟩

/-- A record that is built for a PDO of the document holds its numbers, and those of its
entries in order. -/
theorem buildPdo_numbers {smDefault : Int} {source : PdoSource} {element : Element}
    {strings strings' : StringTable} {record : List UInt8}
    (built : buildPdo smDefault source element strings = .ok (record, strings')) :
    ∃ pdo, PdoNumbers smDefault source element pdo ∧ PdoBytes pdo record := by
  unfold buildPdo at built
  obtain ⟨index, hasIndex, built⟩ := Py.bind_eq_ok.mp built
  obtain ⟨sm, hasSm, built⟩ := Py.bind_eq_ok.mp built
  obtain ⟨⟨i, next⟩, -, built⟩ := Py.bind_eq_ok.mp built
  obtain ⟨indexBytes, packedIndex, built⟩ := Py.bind_eq_ok.mp built
  obtain ⟨countBytes, packedCount, built⟩ := Py.bind_eq_ok.mp built
  obtain ⟨smBytes, packedSm, built⟩ := Py.bind_eq_ok.mp built
  obtain ⟨nameBytes, packedName, built⟩ := Py.bind_eq_ok.mp built
  obtain ⟨⟨bytes, final⟩, builtEntries, built⟩ := Py.bind_eq_ok.mp built
  obtain ⟨rfl, -⟩ := Prod.mk.inj (Except.ok.inj built)
  obtain ⟨low, high, rfl, rfl⟩ := packWord_reads packedIndex
  obtain ⟨count, rfl, counted⟩ := packByte_eq_ok packedCount
  obtain ⟨syncManager, rfl, rfl⟩ := packByte_eq_ok packedSm
  obtain ⟨name, rfl, -⟩ := packByte_eq_ok packedName
  have each (node : Element) (strings : StringTable) (record : List UInt8) (strings' : StringTable)
      (built : buildEntry source.indexOffset node strings = .ok (record, strings')) :=
    buildEntry_numbers built
  obtain ⟨entries, records, rfl, numbers, shapes⟩ := buildAll_records each _ builtEntries
  refine ⟨⟨wordOf low high, syncManager, name, entries⟩,
    ⟨adjustedIndex_gives hasIndex, hasSm, numbers⟩, low, high, count, records, rfl, rfl, ?_, shapes⟩
  have all : (entriesOf element).length = entries.length := numbers.length_eq
  rw [← all]
  exact_mod_cast counted

/-- The PDOs of a direction in order, each with the device or module that has it. -/
def sourcedPdos (sources : List PdoSource) (tag : String) : List (PdoSource × Element) :=
  sources.flatMap fun source => (source.element.findall [tag]).map fun pdo => (source, pdo)

/-- A category of PDOs holds the records of all PDOs of its direction, in the order of their
sources. -/
theorem buildPdoCategory_numbers {sources : List PdoSource} {tag : String} {smDefault : Int}
    {strings strings' : StringTable} {payload : List UInt8}
    (built : buildPdoCategory sources tag smDefault strings = .ok (payload, strings')) :
    ∃ pdos records, payload = records.flatten ∧
      List.Forall₂ (fun sourced => PdoNumbers smDefault sourced.1 sourced.2)
        (sourcedPdos sources tag) pdos ∧
      List.Forall₂ PdoBytes pdos records := by
  unfold buildPdoCategory at built
  unfold sourcedPdos
  induction sources generalizing strings payload with
  | nil =>
    obtain ⟨rfl, -⟩ := Prod.mk.inj (Except.ok.inj built)
    exact ⟨[], [], rfl, .nil, .nil⟩
  | cons source rest inductionHypothesis =>
    obtain ⟨⟨bytes, middle⟩, first, built⟩ := Py.bind_eq_ok.mp built
    obtain ⟨⟨others, final⟩, later, built⟩ := Py.bind_eq_ok.mp built
    obtain ⟨rfl, rfl⟩ := Prod.mk.inj (Except.ok.inj built)
    have each (node : Element) (strings : StringTable) (record : List UInt8)
        (strings' : StringTable)
        (built : buildPdo smDefault source node strings = .ok (record, strings')) :=
      buildPdo_numbers built
    obtain ⟨pdos, records, rfl, numbers, shapes⟩ := buildAll_records each _ first
    obtain ⟨pdosRest, recordsRest, rfl, numbersRest, shapesRest⟩ := inductionHypothesis later
    refine ⟨pdos ++ pdosRest, records ++ recordsRest, List.flatten_append.symm, ?_,
      List.rel_append shapes shapesRest⟩
    have own : List.Forall₂ (fun sourced => PdoNumbers smDefault sourced.1 sourced.2)
        ((source.element.findall [tag]).map fun pdo => (source, pdo)) pdos :=
      List.forall₂_map_left_iff.mpr numbers
    rw [List.flatMap_cons]
    exact List.rel_append own numbersRest

/-! ## Sync managers and FMMUs -/

/-- The sync manager has the numbers that the document gives for its element, and the type
that stands for the function named by its text. -/
structure SmNumbers (element : Element) (sm : SiiSyncManager) : Prop where
  startAddress : parseInt (element.get "StartAddress") = .ok (sm.startAddress : Int)
  length : GivesSize element sm.length
  control : parseInt (element.get "ControlByte") = .ok (sm.control.toNat : Int)
  enable : parseInt (element.get "Enable") = .ok (sm.enable.toNat : Int)
  type : sm.type = syncManagerFunction (element.text.getD "")

/-- The record of a sync manager: eight bytes, the sixth always zero. -/
def SmBytes (sm : SiiSyncManager) (record : List UInt8) : Prop :=
  ∃ startLow startHigh low high,
    record = [startLow, startHigh, low, high, sm.control, 0, sm.enable, sm.type] ∧
    sm.startAddress = wordOf startLow startHigh ∧ sm.length = wordOf low high

/-- A record that is built for a sync manager of the document holds its numbers. -/
theorem buildSm_numbers {element : Element} {record : List UInt8}
    (built : buildSm element = .ok record) :
    ∃ sm, SmNumbers element sm ∧ SmBytes sm record := by
  unfold buildSm at built
  obtain ⟨start, hasStart, built⟩ := Py.bind_eq_ok.mp built
  obtain ⟨size, hasSize, built⟩ := Py.bind_eq_ok.mp built
  obtain ⟨control, hasControl, built⟩ := Py.bind_eq_ok.mp built
  obtain ⟨enable, hasEnable, built⟩ := Py.bind_eq_ok.mp built
  obtain ⟨startBytes, packedStart, built⟩ := Py.bind_eq_ok.mp built
  obtain ⟨sizeBytes, packedSize, built⟩ := Py.bind_eq_ok.mp built
  obtain ⟨controlBytes, packedControl, built⟩ := Py.bind_eq_ok.mp built
  obtain ⟨enableBytes, packedEnable, built⟩ := Py.bind_eq_ok.mp built
  obtain rfl := Except.ok.inj built
  obtain ⟨startLow, startHigh, rfl, rfl⟩ := packWord_reads packedStart
  obtain ⟨low, high, rfl, rfl⟩ := packWord_reads packedSize
  obtain ⟨control, rfl, rfl⟩ := packByte_eq_ok packedControl
  obtain ⟨enable, rfl, rfl⟩ := packByte_eq_ok packedEnable
  exact ⟨⟨wordOf startLow startHigh, wordOf low high, control, enable, _⟩,
    ⟨hasStart, smSize_eq_ok.mp hasSize, hasControl, hasEnable, smType_eq _⟩, startLow,
    startHigh, low, high, rfl, rfl, rfl⟩

/-- Records of sync managers decode to these sync managers. The induction is on the sync
managers with their records. -/
theorem decodeSyncManagers_records {sms : List SiiSyncManager} {records : List (List UInt8)}
    (shapes : List.Forall₂ SmBytes sms records) {padding : List UInt8}
    (short : padding.length < 8) : decodeSyncManagers (records.flatten ++ padding) = sms := by
  induction shapes with
  | nil =>
    rw [List.flatten_nil, List.nil_append]
    unfold decodeSyncManagers
    split
    · simp only [List.length_cons] at short
      omega
    · rfl
  | cons shape shapes inductionHypothesis =>
    obtain ⟨startLow, startHigh, low, high, rfl, start, length⟩ := shape
    rw [List.flatten_cons, List.append_assoc]
    simp only [List.cons_append, List.nil_append, decodeSyncManagers, inductionHypothesis, ← start,
      ← length]

/-- The records of all sync managers hold their numbers, in order. The induction is on the
elements. -/
theorem buildSms_numbers {elements : List Element} {records : List (List UInt8)}
    (built : elements.mapM buildSm = .ok records) :
    ∃ sms, List.Forall₂ SmNumbers elements sms ∧ List.Forall₂ SmBytes sms records := by
  induction elements generalizing records with
  | nil =>
    rw [List.mapM_nil] at built
    obtain rfl := Except.ok.inj built
    exact ⟨[], .nil, .nil⟩
  | cons element rest inductionHypothesis =>
    rw [List.mapM_cons] at built
    obtain ⟨record, first, built⟩ := Py.bind_eq_ok.mp built
    obtain ⟨others, later, built⟩ := Py.bind_eq_ok.mp built
    obtain rfl := Except.ok.inj built
    obtain ⟨sm, numbers, shape⟩ := buildSm_numbers first
    obtain ⟨sms, numbersRest, shapes⟩ := inductionHypothesis later
    exact ⟨sm :: sms, .cons numbers numbersRest, .cons shape shapes⟩

/-! ## Categories of an image -/

/-- The words that a category at an offset announces. -/
def categoryWords (image : List UInt8) (start : Nat) : List UInt8 :=
  (image.drop (start + 4)).take (2 * wordAt image (start + 2))

/-- A category that is written only if it has something to say. -/
def CategoryPayloads.optional (payloads : CategoryPayloads) : List (Nat × List UInt8) :=
  [(catFmmu, payloads.fmmu), (catSyncm, payloads.syncm), (catRxPdo, payloads.rxPdo),
    (catTxPdo, payloads.txPdo)]

/-- Every category that was emitted is found, and its words are its payload, filled up. -/
theorem emitted_found {payloads : CategoryPayloads} {buf categories image : List UInt8}
    (built : payloads.bytes = .ok categories)
    (placed : placeCategories buf categories = .ok image) {emitted : Nat × List UInt8}
    (member : emitted ∈ payloads.emitted) :
    ∃ start, findCategory image emitted.1 = .ok (some start) ∧
      categoryWords image start = padded emitted.2 := by
  obtain ⟨front, rest, blocks, length, writes, whole⟩ := placeCategories_spec built placed
  obtain ⟨distinct, regular⟩ := emitted_kinds payloads
  have kinds : payloads.emitted.map Prod.fst = blocks.map Blocks.Block.kind :=
    Blocks.map_eq_of_forall₂ (fun _ _ writes => writes.kind.symm) writes
  have others : ∀ block ∈ blocks, block.kind ≠ catEnd := by
    intro block member marker
    have present := List.mem_map_of_mem (f := Blocks.Block.kind) member
    rw [← kinds] at present
    obtain ⟨other, listed, same⟩ := List.mem_map.mp present
    exact regular other listed (same.trans marker)
  obtain ⟨visits, -⟩ :=
    Blocks.walk_blocks (show catEnd < 65536 by decide) front rest blocks others
  rw [← whole, length] at visits
  rw [kinds] at distinct
  obtain ⟨block, present, kind, payload⟩ := Blocks.exists_of_forall₂ writes member
  obtain ⟨start, located, holds⟩ := Blocks.lookup_holds visits distinct present
  refine ⟨start, ?_, ?_⟩
  · rw [findCategory_eq, ← kind]
    exact congrArg Except.ok located
  · have even := (padded_spec emitted.2).1
    have words : 2 * wordAt image (start + 2) = block.payload.length := by
      rw [holds.length, payload]
      omega
    rw [categoryWords, words, holds.payload, payload]

/-- Such a category is not found and has nothing to say, or is found with what it says. -/
theorem optional_found {payloads : CategoryPayloads} {kind : Nat}
    {payload buf categories image : List UInt8} (listed : (kind, payload) ∈ payloads.optional)
    (built : payloads.bytes = .ok categories)
    (placed : placeCategories buf categories = .ok image) :
    (payload = [] ∧ findCategory image kind = .ok none) ∨
      ∃ start, findCategory image kind = .ok (some start) ∧
        categoryWords image start = padded payload := by
  by_cases empty : payload = []
  · refine .inl ⟨empty, ?_⟩
    obtain ⟨visited, -⟩ := walk_image built placed
    rw [findCategory_eq, List.lookup_eq_none_iff.mpr]
    intro place visit
    have present := List.mem_map_of_mem (f := Prod.fst) visit
    rw [show (0xFFFF : Nat) = catEnd from rfl, visited] at present
    obtain ⟨⟨found, other⟩, inEmitted, equal⟩ := List.mem_map.mp present
    have different : kind ≠ found := by
      rintro rfl
      simp only [CategoryPayloads.emitted, List.mem_append, List.mem_filter, List.mem_cons,
        List.not_mem_nil, or_false, Prod.mk.injEq, decide_eq_true_eq] at inEmitted
      simp only [CategoryPayloads.optional, List.mem_cons, List.not_mem_nil, or_false,
        Prod.mk.injEq] at listed
      rcases listed with ⟨rfl, rfl⟩ | ⟨rfl, rfl⟩ | ⟨rfl, rfl⟩ | ⟨rfl, rfl⟩ <;>
        simp [catStrings, catGeneral, catFmmu, catSyncm, catRxPdo, catTxPdo, empty] at inEmitted
    rw [← equal]
    simpa using different
  · have emitted : (kind, payload) ∈ payloads.emitted :=
      List.mem_append_right _ (List.mem_filter.mpr ⟨listed, by simpa using empty⟩)
    exact .inr (emitted_found built placed emitted)

/-- Filling up adds less than a record. -/
theorem padded_eq (payload : List UInt8) :
    ∃ padding : List UInt8, padding.length < 8 ∧ padded payload = payload ++ padding := by
  obtain ⟨-, padding, shape, filled⟩ := padded_spec payload
  refine ⟨padding, ?_, filled⟩
  rcases shape with rfl | rfl <;> decide

/-- What the optional categories of a device say, before they are written. -/
theorem buildPayloads_numbers {dev : Element} {sources : List PdoSource}
    {payloads : CategoryPayloads} (built : buildPayloads dev sources = .ok payloads) :
    payloads.fmmu = buildFmmu dev ∧
      (∃ sms records, payloads.syncm = records.flatten ∧
        List.Forall₂ SmNumbers (dev.findall ["Sm"]) sms ∧ List.Forall₂ SmBytes sms records) ∧
      (∃ pdos records, payloads.rxPdo = records.flatten ∧
        List.Forall₂ (fun sourced => PdoNumbers 2 sourced.1 sourced.2) (sourcedPdos sources "RxPdo")
          pdos ∧ List.Forall₂ PdoBytes pdos records) ∧
      ∃ pdos records, payloads.txPdo = records.flatten ∧
        List.Forall₂ (fun sourced => PdoNumbers 3 sourced.1 sourced.2) (sourcedPdos sources "TxPdo")
          pdos ∧ List.Forall₂ PdoBytes pdos records := by
  unfold buildPayloads at built
  obtain ⟨table, -, built⟩ := Py.bind_eq_ok.mp built
  obtain ⟨strings, -, built⟩ := Py.bind_eq_ok.mp built
  obtain ⟨⟨general, afterGeneral⟩, -, built⟩ := Py.bind_eq_ok.mp built
  obtain ⟨syncm, builtSyncm, built⟩ := Py.bind_eq_ok.mp built
  obtain ⟨⟨rxPdo, afterRx⟩, builtRx, built⟩ := Py.bind_eq_ok.mp built
  obtain ⟨⟨txPdo, afterTx⟩, builtTx, built⟩ := Py.bind_eq_ok.mp built
  obtain rfl := Except.ok.inj built
  unfold buildSyncm at builtSyncm
  obtain ⟨records, mapped, builtSyncm⟩ := Py.bind_eq_ok.mp builtSyncm
  obtain rfl := Except.ok.inj builtSyncm
  obtain ⟨sms, numbers, shapes⟩ := buildSms_numbers mapped
  exact ⟨rfl, ⟨sms, records, rfl, numbers, shapes⟩, buildPdoCategory_numbers builtRx,
    buildPdoCategory_numbers builtTx⟩

/-- The bytes of the FMMUs, one for each, and the padding to a whole word. -/
theorem buildFmmu_eq (dev : Element) :
    ∃ padding, (padding = [] ∨ padding = [0xFF]) ∧ (buildFmmu dev).length % 2 = 0 ∧
      buildFmmu dev = (dev.findall ["Fmmu"]).map
        (fun element => fmmuFunction (element.text.getD "")) ++ padding := by
  simp only [buildFmmu, fmmuValue_eq]
  split
  · next odd =>
    refine ⟨[0xFF], .inr rfl, ?_, rfl⟩
    rw [List.length_append, List.length_singleton]
    omega
  · next even => exact ⟨[], .inl rfl, by omega, (List.append_nil _).symm⟩

/-- Records of eight bytes or more are there unless there is nothing to record. -/
theorem eq_nil_of_flatten {α γ : Type} {Bytes : γ → List UInt8 → Prop} {Numbers : α → γ → Prop}
    (long : ∀ read record, Bytes read record → record ≠ []) {nodes : List α} {reads : List γ}
    {records : List (List UInt8)} (numbers : List.Forall₂ Numbers nodes reads)
    (shapes : List.Forall₂ Bytes reads records) (empty : records.flatten = []) : nodes = [] := by
  cases shapes with
  | nil =>
    cases numbers
    rfl
  | cons shape shapes =>
    have nothing := List.flatten_eq_nil_iff.mp empty _ List.mem_cons_self
    exact absurd nothing (long _ _ shape)

/-- The PDO and its entries refer to the texts of their elements. -/
def PdoTexts (strings : List String) (sourced : PdoSource × Element) (pdo : SiiPdo) : Prop :=
  PdoResolves strings sourced.2 pdo.names

/-- The PDOs of a direction, without their sources. -/
theorem sourcedPdos_map_snd (sources : List PdoSource) (tag : String) :
    (sourcedPdos sources tag).map Prod.snd = pdosOf sources tag := by
  simp [sourcedPdos, pdosOf, List.map_flatMap, Function.comp_def]

/-- The PDOs of one direction are in the image, each with its numbers and its entries, and
with references to its texts. -/
theorem pdos_read_back {payloads : CategoryPayloads} {kind : Nat} {smDefault : Int}
    {payload buf categories image : List UInt8} (listed : (kind, payload) ∈ payloads.optional)
    (built : payloads.bytes = .ok categories)
    (placed : placeCategories buf categories = .ok image) {sources : List PdoSource} {tag : String}
    (recorded : ∃ pdos records, payload = records.flatten ∧
      List.Forall₂ (fun sourced => PdoNumbers smDefault sourced.1 sourced.2)
        (sourcedPdos sources tag) pdos ∧ List.Forall₂ PdoBytes pdos records)
    {table : StringTable} (references : ∃ records, payload = records.flatten ∧
      List.Forall₂ (PdoRecord table) (pdosOf sources tag) records) :
    (sourcedPdos sources tag = [] ∧ findCategory image kind = .ok none) ∨
      ∃ start, findCategory image kind = .ok (some start) ∧
        List.Forall₂ (fun sourced => PdoNumbers smDefault sourced.1 sourced.2)
          (sourcedPdos sources tag) (decodePdos (categoryWords image start)) ∧
        List.Forall₂ (PdoTexts ("" :: table.items.map replaced))
          (sourcedPdos sources tag) (decodePdos (categoryWords image start)) := by
  obtain ⟨pdos, records, rfl, numbers, shapes⟩ := recorded
  rcases optional_found listed built placed with ⟨empty, none⟩ | ⟨start, found, words⟩
  · refine .inl ⟨eq_nil_of_flatten ?_ numbers shapes empty, none⟩
    rintro _ _ ⟨_, _, _, _, rfl, -⟩
    exact List.cons_ne_nil _ _
  · obtain ⟨padding, short, filled⟩ := padded_eq records.flatten
    refine .inr ⟨start, found, ?_, ?_⟩
    · rw [words, filled, decodePdos_records shapes short]
      exact numbers
    · obtain ⟨named, same, known⟩ := references
      have texts : List.Forall₂ (PdoResolves ("" :: table.items.map replaced))
          ((sourcedPdos sources tag).map Prod.snd)
          ((decodePdos (categoryWords image start)).map SiiPdo.names) := by
        rw [sourcedPdos_map_snd, names_decodePdos, words, filled, same]
        refine (readPdos_records known short).imp fun pdo read knows => ?_
        exact ⟨knows.1.resolves, knows.2.imp fun _ _ name => name.resolves⟩
      have sourced := List.forall₂_map_left_iff.mp texts
      have both := List.forall₂_map_right_iff.mp sourced
      exact both

/-- All sync managers are read back. -/
theorem syncManagers_read_back {dev : Element} {sources : List PdoSource}
    {payloads : CategoryPayloads} {buf categories image : List UInt8}
    (collected : buildPayloads dev sources = .ok payloads)
    (joined : payloads.bytes = .ok categories)
    (placed : placeCategories buf categories = .ok image) :
    (dev.findall ["Sm"] = [] ∧ findCategory image catSyncm = .ok none) ∨
      ∃ start, findCategory image catSyncm = .ok (some start) ∧
        List.Forall₂ SmNumbers (dev.findall ["Sm"])
          (decodeSyncManagers (categoryWords image start)) := by
  obtain ⟨-, ⟨sms, records, syncm, smNumbers, smShapes⟩, -⟩ := buildPayloads_numbers collected
  have listed : (catSyncm, payloads.syncm) ∈ payloads.optional :=
    List.mem_cons_of_mem _ List.mem_cons_self
  rcases optional_found listed joined placed with ⟨empty, none⟩ | ⟨start, found, words⟩
  · refine .inl ⟨eq_nil_of_flatten ?_ smNumbers smShapes (syncm ▸ empty), none⟩
    rintro _ _ ⟨_, _, _, _, rfl, -⟩
    exact List.cons_ne_nil _ _
  · obtain ⟨padding, short, filled⟩ := padded_eq records.flatten
    refine .inr ⟨start, found, ?_⟩
    rw [words, syncm, filled, decodeSyncManagers_records smShapes short]
    exact smNumbers

/-- Every image that is written has what the document says of its device, read back from the
categories: the function of every FMMU, all fields of every sync manager, and every PDO of
both directions, of the device and of its default modules, with all its entries and with
references to the strings of their names. A category is left out only where the document
has nothing for it. -/
theorem contents_read_back (root : Element) (productCode revisionNo : Int) (image : List UInt8)
    (built : buildImage root productCode revisionNo = .ok image) :
    ∃ dev modules table strings, FirstDevice root productCode revisionNo dev ∧
      DefaultModules root dev modules ∧
      findCategory image catStrings = .ok (some table) ∧ parseStrings image table = .ok strings ∧
      ((dev.findall ["Fmmu"] = [] ∧ findCategory image catFmmu = .ok none) ∨
        ∃ start padding, findCategory image catFmmu = .ok (some start) ∧
          (padding = [] ∨ padding = [0xFF]) ∧ categoryWords image start =
            (dev.findall ["Fmmu"]).map (fun element => fmmuFunction (element.text.getD "")) ++
              padding) ∧
      ((dev.findall ["Sm"] = [] ∧ findCategory image catSyncm = .ok none) ∨
        ∃ start, findCategory image catSyncm = .ok (some start) ∧
          List.Forall₂ SmNumbers (dev.findall ["Sm"])
            (decodeSyncManagers (categoryWords image start))) ∧
      ∀ direction ∈ [(catRxPdo, "RxPdo", 2), (catTxPdo, "TxPdo", (3 : Int))],
        let sourced := (({ element := dev } : PdoSource) :: modules).flatMap fun source =>
          (source.element.findall [direction.2.1]).map fun pdo => (source, pdo)
        (sourced = [] ∧ findCategory image direction.1 = .ok none) ∨
          ∃ start, findCategory image direction.1 = .ok (some start) ∧
            List.Forall₂ (fun sourced => PdoNumbers direction.2.2 sourced.1 sourced.2) sourced
              (decodePdos (categoryWords image start)) ∧
            List.Forall₂ (PdoTexts strings) sourced (decodePdos (categoryWords image start)) := by
  obtain ⟨dev, modules, payloads, buf, categories, found, located, collected, joined, placed⟩ :=
    buildImage_eq_ok built
  obtain ⟨fmmu, -, rx, tx⟩ := buildPayloads_numbers collected
  have references := buildPayloads_references collected
  obtain ⟨-, -, -, each⟩ := walk_image joined placed
  obtain ⟨table, foundAs⟩ := each (catStrings, payloads.strings) List.mem_cons_self
  refine ⟨dev, modules, table, _, findDevice_first found, findDefaultModules_default located,
    foundAs.found, parseStrings_eq references.strings foundAs, ?_, ?_, ?_⟩
  · have listed : (catFmmu, payloads.fmmu) ∈ payloads.optional := List.mem_cons_self
    obtain ⟨padding, shape, even, same⟩ := buildFmmu_eq dev
    rcases optional_found listed joined placed with ⟨empty, none⟩ | ⟨start, found, words⟩
    · rw [fmmu, same, List.append_eq_nil_iff, List.map_eq_nil_iff] at empty
      exact .inl ⟨empty.1, none⟩
    · refine .inr ⟨start, padding, found, shape, ?_⟩
      rw [words, fmmu, padded, if_neg (by omega), same]
  · exact syncManagers_read_back collected joined placed
  · simp only [List.forall_mem_cons]
    refine ⟨?_, ?_, List.forall_mem_nil _⟩
    · have listed : (catRxPdo, payloads.rxPdo) ∈ payloads.optional := by
        simp [CategoryPayloads.optional]
      exact pdos_read_back listed joined placed rx references.rxPdo
    · have listed : (catTxPdo, payloads.txPdo) ∈ payloads.optional := by
        simp [CategoryPayloads.optional]
      exact pdos_read_back listed joined placed tx references.txPdo

/-- In the image of the bench there is one received PDO, with one entry. -/
theorem contents_read_back_bench :
    ∃ image start pdo, buildImage benchEsi 0x2000 1 = .ok image ∧
      findCategory image catRxPdo = .ok (some start) ∧
      decodePdos (categoryWords image start) = [pdo] ∧ pdo.index = 0x1600 ∧
      pdo.entries.length = 1 := by
  obtain ⟨image, built⟩ := benchImage_built
  obtain ⟨dev, modules, table, strings, found, located, -, -, -, -, pdos⟩ :=
    contents_read_back benchEsi 0x2000 1 image built
  obtain rfl : dev = benchDevice := found.only rfl
  obtain rfl := located.slotless rfl
  rcases pdos _ List.mem_cons_self with ⟨none, -⟩ | ⟨start, found, numbers, -⟩
  · cases none
  · generalize same : decodePdos (categoryWords image start) = read at numbers
    change List.Forall₂ _ [_] read at numbers
    obtain ⟨pdo, rest, first, others, rfl⟩ := List.forall₂_cons_left_iff.mp numbers
    obtain rfl := List.forall₂_nil_left_iff.mp others
    obtain ⟨given, number, moved⟩ := first.index
    obtain rfl : (0x1600 : Int) = given := Except.ok.inj number
    have index : (pdo.index : Int) = 0x1600 := by
      simpa only [ite_self, add_zero] using moved
    refine ⟨image, start, pdo, built, found, same, by omega, ?_⟩
    rw [← first.entries.length_eq]
    rfl

end MoEcat
