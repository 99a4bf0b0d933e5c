import MoEcat.SiiReader

/-!
# The categories of an image

The generator lays its categories out as blocks behind the head of the image, so the
reader's walk visits exactly these, in their order, and stops at the end marker. That
holds whatever the payloads are, and also when the image is filled to its last byte.
-/

namespace MoEcat

open Blocks (Block wordBytes wordAt)

/-- A payload as it is written: with one more byte where its length is odd. -/
def padded (payload : List UInt8) : List UInt8 :=
  if payload.length % 2 = 1 then payload ++ [0] else payload

/-- A padded payload has an even length, and is the payload with one zero at most behind it.
-/
theorem padded_spec (payload : List UInt8) :
    (padded payload).length % 2 = 0 ∧
      ∃ padding, (padding = [] ∨ padding = [0]) ∧ padded payload = payload ++ padding := by
  unfold padded
  by_cases odd : payload.length % 2 = 1
  · rw [if_pos odd, List.length_append, List.length_singleton]
    exact ⟨by omega, [0], .inr rfl, rfl⟩
  · rw [if_neg odd]
    exact ⟨by omega, [], .inl rfl, (List.append_nil _).symm⟩

/-- Only what fits into a word is packed, and then into its two bytes. -/
theorem packWord_eq_ok {n : Int} {bytes : List UInt8} (packed : packWord n = .ok bytes) :
    n.toNat < 65536 ∧ bytes = wordBytes n.toNat := by
  unfold packWord at packed
  split at packed
  · exact ⟨by omega, (Except.ok.inj packed).symm⟩
  · cases packed

/-- A block that is written for a category. -/
structure Writes (emitted : Nat × List UInt8) (block : Block) : Prop where
  kind : block.kind = emitted.1
  payload : block.payload = padded emitted.2

/-- A category that fits its head is a block. -/
theorem category_spec {catType : Nat} {payload bytes : List UInt8}
    (written : category catType payload = .ok bytes) :
    ∃ block, Writes (catType, payload) block ∧ bytes = block.bytes := by
  unfold category at written
  obtain ⟨kind, kindPacked, written⟩ := Py.bind_eq_ok.mp written
  obtain ⟨length, lengthPacked, written⟩ := Py.bind_eq_ok.mp written
  obtain ⟨kindFits, rfl⟩ := packWord_eq_ok kindPacked
  obtain ⟨lengthFits, rfl⟩ := packWord_eq_ok lengthPacked
  refine ⟨⟨catType, padded payload, kindFits, (padded_spec payload).1, lengthFits⟩,
    ⟨rfl, rfl⟩, ?_⟩
  rw [← Except.ok.inj written, List.append_assoc]
  rfl

/-- All emitted categories are written one after another. -/
theorem categories_spec {emitted : List (Nat × List UInt8)} {categories : List (List UInt8)}
    (written : emitted.mapM (fun emitted => category emitted.1 emitted.2) = .ok categories) :
    ∃ blocks, List.Forall₂ Writes emitted blocks ∧
      categories.flatten = blocks.flatMap Block.bytes := by
  induction emitted generalizing categories with
  | nil =>
    rw [List.mapM_nil] at written
    obtain rfl := Except.ok.inj written
    exact ⟨[], .nil, rfl⟩
  | cons first rest inductionHypothesis =>
    rw [List.mapM_cons] at written
    obtain ⟨bytes, firstWritten, written⟩ := Py.bind_eq_ok.mp written
    obtain ⟨others, restWritten, written⟩ := Py.bind_eq_ok.mp written
    obtain rfl := Except.ok.inj written
    obtain ⟨block, writes, rfl⟩ := category_spec firstWritten
    obtain ⟨blocks, all, flat⟩ := inductionHypothesis restWritten
    exact ⟨block :: blocks, .cons writes all, by simp [flat]⟩

/-- The blocks behind a successful image. -/
theorem placeCategories_spec {buf image : List UInt8} {payloads : CategoryPayloads}
    {categories : List UInt8} (built : payloads.bytes = .ok categories)
    (placed : placeCategories buf categories = .ok image) :
    ∃ front rest blocks, front.length = 0x80 ∧ List.Forall₂ Writes payloads.emitted blocks ∧
      image = front ++ (blocks.flatMap Block.bytes ++ (wordBytes catEnd ++ rest)) := by
  obtain ⟨parts, written, built⟩ := Py.bind_eq_ok.mp built
  obtain ⟨blocks, writes, flat⟩ := categories_spec written
  unfold placeCategories at placed
  split at placed
  · cases placed
  · rename_i room
    refine ⟨buf.take 0x80, buf.drop (0x80 + categories.length), blocks, ?_, writes, ?_⟩
    · rw [List.length_take]
      omega
    · rw [← Except.ok.inj placed, setSlice, ← Except.ok.inj built, flat]
      simp

/-- The parts of a successful run of the generator. -/
theorem buildImage_eq_ok {root : Element} {productCode revisionNo : Int} {image : List UInt8}
    (built : buildImage root productCode revisionNo = .ok image) :
    ∃ dev modules payloads buf categories,
      findDevice root productCode revisionNo = .ok dev ∧
      findDefaultModules root dev = .ok modules ∧
      buildPayloads dev ({ element := dev } :: modules) = .ok payloads ∧
      payloads.bytes = .ok categories ∧ placeCategories buf categories = .ok image := by
  unfold buildImage at built
  obtain ⟨vendorId, -, built⟩ := Py.bind_eq_ok.mp built
  obtain ⟨dev, found, built⟩ := Py.bind_eq_ok.mp built
  obtain ⟨buf, -, built⟩ := Py.bind_eq_ok.mp built
  obtain ⟨modules, located, built⟩ := Py.bind_eq_ok.mp built
  obtain ⟨payloads, collected, built⟩ := Py.bind_eq_ok.mp built
  obtain ⟨categories, joined, placed⟩ := Py.bind_eq_ok.mp built
  exact ⟨dev, modules, payloads, buf, categories, found, located, collected, joined, placed⟩

/-- The kinds of the emitted categories are distinct, and none is the end marker. -/
theorem emitted_kinds (payloads : CategoryPayloads) :
    (payloads.emitted.map Prod.fst).Nodup ∧
      ∀ emitted ∈ payloads.emitted, emitted.1 ≠ catEnd := by
  have all : payloads.emitted.Sublist [(catStrings, payloads.strings),
      (catGeneral, payloads.general), (catFmmu, payloads.fmmu), (catSyncm, payloads.syncm),
      (catRxPdo, payloads.rxPdo), (catTxPdo, payloads.txPdo)] :=
    (List.Sublist.refl [_, _]).append List.filter_sublist
  have kinds : (payloads.emitted.map Prod.fst).Sublist
      [catStrings, catGeneral, catFmmu, catSyncm, catRxPdo, catTxPdo] := all.map Prod.fst
  constructor
  · exact kinds.nodup (by decide)
  · intro emitted member marker
    have listed := kinds.subset (List.mem_map_of_mem (f := Prod.fst) member)
    rw [marker] at listed
    exact absurd listed (by decide)

/-- What a category is found as: its place, the announced number of words, and its payload
there with at most one byte of padding. -/
structure FoundAs (image : List UInt8) (emitted : Nat × List UInt8) (offset : Nat) : Prop where
  found : findCategory image emitted.1 = .ok (some offset)
  inside : offset + 4 ≤ image.length
  words : ∃ padding, (padding = [] ∨ padding = [0]) ∧
    (image.drop (offset + 4)).take (2 * wordAt image (offset + 2)) = emitted.2 ++ padding

/-- The walk over a successful image visits the emitted categories and stops at the end
marker. -/
theorem walk_image {payloads : CategoryPayloads} {buf categories image : List UInt8}
    (built : payloads.bytes = .ok categories)
    (placed : placeCategories buf categories = .ok image) :
    let walk := Blocks.walk catEnd image 0x80
    walk.visited.map Prod.fst = payloads.emitted.map Prod.fst ∧
      walk.stopped + 2 ≤ image.length ∧ wordAt image walk.stopped = catEnd ∧
      ∀ emitted ∈ payloads.emitted, ∃ offset, FoundAs image emitted offset := by
  intro walk
  obtain ⟨front, rest, blocks, length, writes, whole⟩ := placeCategories_spec built placed
  obtain ⟨distinct, regular⟩ := emitted_kinds payloads
  have kinds : payloads.emitted.map Prod.fst = blocks.map Block.kind :=
    Blocks.map_eq_of_forall₂ (fun _ _ writes => writes.kind.symm) writes
  have others : ∀ block ∈ blocks, block.kind ≠ catEnd := by
    intro block member marker
    have listed := List.mem_map_of_mem (f := Block.kind) member
    rw [← kinds] at listed
    obtain ⟨emitted, present, same⟩ := List.mem_map.mp listed
    exact regular emitted present (same.trans marker)
  obtain ⟨visits, stops⟩ :=
    Blocks.walk_blocks (show catEnd < 65536 by decide) front rest blocks others
  rw [← whole, length] at visits stops
  have moved : image = (front ++ blocks.flatMap Block.bytes) ++ (wordBytes catEnd ++ rest) := by
    rw [whole, List.append_assoc]
  have stopped : walk.stopped = (front ++ blocks.flatMap Block.bytes).length := by
    rw [List.length_append, length]
    exact stops
  refine ⟨?_, ?_, ?_, ?_⟩
  · rw [kinds]
    exact (Blocks.map_eq_of_forall₂ (fun _ _ holds => holds.kind.symm) visits).symm
  · rw [stopped, moved]
    simp only [List.length_append, Blocks.length_wordBytes]
    omega
  · rw [stopped, moved]
    exact Blocks.wordAt_append _ _ (by decide)
  · intro emitted member
    obtain ⟨block, present, kind, payload⟩ := Blocks.exists_of_forall₂ writes member
    rw [kinds] at distinct
    obtain ⟨offset, located, holds⟩ := Blocks.lookup_holds visits distinct present
    refine ⟨offset, ?_, holds.inside, ?_⟩
    · rw [findCategory_eq, ← kind]
      exact congrArg Except.ok located
    · obtain ⟨even, padding, shape, appended⟩ := padded_spec emitted.2
      have words : 2 * wordAt image (offset + 2) = block.payload.length := by
        rw [holds.length, payload]
        omega
      refine ⟨padding, shape, ?_⟩
      rw [words, holds.payload, payload, appended]

/-- What the builders return for a device and the sources of its PDOs, each of them going on
with the table of strings that the one before it left. -/
structure Built (dev : Element) (sources : List PdoSource) (payloads : CategoryPayloads) :
    Prop where
  strings : ∃ table, collectStrings dev sources = .ok table ∧
    table.payload = .ok payloads.strings ∧
    ∃ afterGeneral afterRx, buildGeneral dev table = .ok (payloads.general, afterGeneral) ∧
      buildPdoCategory sources "RxPdo" 2 afterGeneral = .ok (payloads.rxPdo, afterRx) ∧
      buildPdoCategory sources "TxPdo" 3 afterRx = .ok (payloads.txPdo, payloads.table)
  fmmu : payloads.fmmu = buildFmmu dev
  syncm : buildSyncm dev = .ok payloads.syncm

/-- The payloads of a successful run are those of the builders. -/
theorem buildPayloads_built {dev : Element} {sources : List PdoSource}
    {payloads : CategoryPayloads} (collected : buildPayloads dev sources = .ok payloads) :
    Built dev sources payloads := by
  unfold buildPayloads at collected
  obtain ⟨table, texts, collected⟩ := Py.bind_eq_ok.mp collected
  obtain ⟨strings, taken, collected⟩ := Py.bind_eq_ok.mp collected
  obtain ⟨⟨general, afterGeneral⟩, builtGeneral, collected⟩ := Py.bind_eq_ok.mp collected
  obtain ⟨syncm, builtSyncm, collected⟩ := Py.bind_eq_ok.mp collected
  obtain ⟨⟨rxPdo, afterRx⟩, builtRx, collected⟩ := Py.bind_eq_ok.mp collected
  obtain ⟨⟨txPdo, afterTx⟩, builtTx, collected⟩ := Py.bind_eq_ok.mp collected
  obtain rfl := Except.ok.inj collected
  exact ⟨⟨table, texts, taken, afterGeneral, afterRx, builtGeneral, builtRx, builtTx⟩, rfl,
    builtSyncm⟩

/-- The categories of every image that is built are read back. They are the strings and the
general category, and behind them those of the FMMUs, sync managers, outputs and inputs that
are not empty, in this order, with the payloads of their builders. The reader's walk visits
exactly these and stops at the end marker, so each of them is found with its payload and
nothing else is found. On any bytes the search has a result, which is the first place of its
walk that holds the category. -/
theorem categories_read_back (root : Element) (productCode revisionNo : Int) (image : List UInt8)
    (built : buildImage root productCode revisionNo = .ok image) :
    let walk := Blocks.walk catEnd image 0x80
    (∃ dev modules payloads, findDevice root productCode revisionNo = .ok dev ∧
      findDefaultModules root dev = .ok modules ∧
      Built dev ({ element := dev } :: modules) payloads ∧
      let emitted := [(catStrings, payloads.strings), (catGeneral, payloads.general)] ++
        [(catFmmu, payloads.fmmu), (catSyncm, payloads.syncm), (catRxPdo, payloads.rxPdo),
          (catTxPdo, payloads.txPdo)].filter fun category => category.2 ≠ []
      (walk.visited.map Prod.fst = emitted.map Prod.fst ∧
        walk.stopped + 2 ≤ image.length ∧ wordAt image walk.stopped = catEnd) ∧
      (∀ catType ≠ catEnd, (∃ offset, findCategory image catType = .ok (some offset)) ↔
        catType ∈ emitted.map Prod.fst) ∧
      ∀ category ∈ emitted, ∃ offset,
        findCategory image category.1 = .ok (some offset) ∧
        ∃ padding, (padding = [] ∨ padding = [0]) ∧
          (image.drop (offset + 4)).take (2 * wordAt image (offset + 2)) =
            category.2 ++ padding) ∧
    ∀ data catType start, findCategory data catType start =
      .ok ((Blocks.walk catEnd data start).visited.lookup catType) := by
  intro walk
  refine ⟨?_, findCategory_eq⟩
  obtain ⟨dev, modules, payloads, buf, categories, found, located, collected, joined, placed⟩ :=
    buildImage_eq_ok built
  obtain ⟨visited, inside, marker, each⟩ := walk_image joined placed
  refine ⟨dev, modules, payloads, found, located, buildPayloads_built collected,
    ⟨visited, inside, marker⟩, ?_, ?_⟩
  · intro catType _
    constructor
    · rintro ⟨offset, result⟩
      rw [findCategory_eq] at result
      obtain ⟨before, after, split, -⟩ := List.lookup_eq_some_iff.mp (Except.ok.inj result)
      have listed : catType ∈ walk.visited.map Prod.fst := by
        rw [show walk.visited = before ++ (catType, offset) :: after from split]
        simp
      rw [visited] at listed
      exact listed
    · intro listed
      obtain ⟨emitted, member, rfl⟩ := List.mem_map.mp listed
      obtain ⟨offset, foundAs⟩ := each emitted member
      exact ⟨offset, foundAs.found⟩
  · intro emitted member
    obtain ⟨offset, foundAs⟩ := each emitted member
    exact ⟨offset, foundAs.found, foundAs.words⟩

/-! ## A small device -/

/-- An element that holds a text. -/
def textElement (tag text : String) : Element := { tag := tag, text := some text }

/-- A drive with one output PDO and an image of 256 bytes. -/
def benchDevice : Element where
  tag := "Device"
  children :=
    [{ tag := "Type", attrib := [("ProductCode", "#x2000"), ("RevisionNo", "1")]
       text := some "Drive" },
      textElement "Name" " Drive € ", textElement "GroupType" "Servo",
      { tag := "Eeprom", children := [textElement "ByteSize" "256"] },
      { tag := "RxPdo"
        children := [textElement "Index" "#x1600", textElement "Name" "Outputs",
          { tag := "Entry"
            children := [textElement "Index" "#x607A", textElement "SubIndex" "0",
              textElement "BitLen" "32", textElement "Name" "Drive"] }] }]

/-- A document with one vendor and one device. -/
def benchEsi : Element where
  tag := "EtherCATInfo"
  children :=
    [{ tag := "Vendor", children := [textElement "Id" "#x766"] },
      { tag := "Descriptions", children := [{ tag := "Devices", children := [benchDevice] }] }]

/-- The document of the bench becomes an image. -/
theorem benchImage_built : ∃ image, buildImage benchEsi 0x2000 1 = .ok image := by
  have built : (buildImage benchEsi 0x2000 1).toOption.isSome = true := by decide +kernel
  cases result : buildImage benchEsi 0x2000 1 with
  | ok image => exact ⟨image, rfl⟩
  | error e =>
    rw [result] at built
    cases built

/-- The strings of the small device are found. -/
theorem categories_read_back_bench :
    ∃ image offset, buildImage benchEsi 0x2000 1 = .ok image ∧
      findCategory image catStrings = .ok (some offset) := by
  obtain ⟨image, built⟩ := benchImage_built
  obtain ⟨dev, modules, payloads, -, -, -, -, found, -⟩ :=
    (categories_read_back benchEsi 0x2000 1 image built).1
  obtain ⟨offset, located⟩ :=
    (found catStrings (by decide)).mpr List.mem_cons_self
  exact ⟨image, offset, built, located⟩

end MoEcat
