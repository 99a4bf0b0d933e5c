import MoEcat.Regions
import MoEcat.SiiChecksum
import MoEcat.SiiContents

/-!
# The fixed head of SII images

The generator puts the fields of the head into its array one after another, over what the
document gives as raw bytes, and the categories behind them. Each field is a copy into the
memory that the array is, so a field that nothing written later covers is read back.

The checksum is taken before it is written and does not cover itself. It fits the finished
image, and it does not fit any more where a burst of up to eight bits has changed the bytes
that it covers.
-/

namespace MoEcat

open Blocks (wordBytes wordAt)
open Regions

/-! ## Arrays as memories -/

/-- What an array holds at each address; there are zeros behind its end. -/
def contents (buf : List UInt8) (a : Nat) : UInt8 := buf.getD a 0

/-- A word is made of the two bytes at its address. -/
theorem wordAt_eq (buf : List UInt8) (offset : Nat) :
    wordAt buf offset = wordOf (contents buf offset) (contents buf (offset + 1)) :=
  rfl

/-- The beginning of an array is a block of its memory. -/
theorem take_eq_block {buf : List UInt8} {n : Nat} (inside : n ≤ buf.length) :
    buf.take n = block (contents buf) 0 n := by
  apply List.ext_getElem
  · simp [block, inside]
  · intro k within _
    have bound : k < buf.length := by
      simp at within
      omega
    simp [block, contents, bound]

/-- Assignment to a slice is a copy into the memory. -/
theorem contents_setSlice {buf data : List UInt8} {start : Nat} (inside : start ≤ buf.length) :
    contents (setSlice buf start data) = (Copy.mk start data).apply (contents buf) := by
  funext a
  have front : (buf.take start).length = start := by
    simp [inside]
  simp only [contents, setSlice, Copy.apply, List.getD_eq_getElem?_getD, List.append_assoc]
  by_cases before : a < start
  · rw [if_neg (by omega), List.getElem?_append_left (by omega), List.getElem?_take, if_pos before]
  · rw [if_pos (by omega), List.getElem?_append_right (by omega), front]
    by_cases within : a - start < data.length
    · rw [List.getElem?_append_left within, List.getElem?_eq_getElem within]
      rfl
    · have located : start + data.length + (a - start - data.length) = a := by omega
      have beyond : data[a - start]? = none := List.getElem?_eq_none (by omega)
      rw [List.getElem?_append_right (by omega), List.getElem?_drop, located, beyond]
      rfl

/-- An array that copies have been made into, none of them shortening it. -/
structure Patched (buf : List UInt8) (copies : List (Copy UInt8)) (buf' : List UInt8) : Prop where
  holds : contents buf' = applyAll copies (contents buf)
  keeps : buf.length ≤ buf'.length

namespace Patched

variable {buf buf' buf'' data : List UInt8} {first second : List (Copy UInt8)} {offset : Nat}

/-- An array is itself without copies. -/
theorem refl (buf : List UInt8) : Patched buf [] buf := ⟨rfl, Nat.le_refl _⟩

/-- Copies after copies. -/
theorem trans (earlier : Patched buf first buf') (later : Patched buf' second buf'') :
    Patched buf (first ++ second) buf'' where
  holds := by rw [applyAll_append, later.holds, earlier.holds]
  keeps := earlier.keeps.trans later.keeps

/-- Setting a slice that begins in the array is one copy. -/
theorem setSlice (inside : offset ≤ buf.length) (data : List UInt8) :
    Patched buf [⟨offset, data⟩] (setSlice buf offset data) where
  holds := contents_setSlice inside
  keeps := by
    simp only [MoEcat.setSlice, List.length_append, List.length_take, List.length_drop]
    omega

/-- Packing a field is one copy. -/
theorem packInto (packed : packInto buf offset data = .ok buf') :
    Patched buf [⟨offset, data⟩] buf' := by
  unfold MoEcat.packInto at packed
  split at packed
  · obtain rfl := Except.ok.inj packed
    exact setSlice (by omega) data
  · cases packed

end Patched

/-- The bytes of a number of two words. -/
def dwordBytes (n : Int) : List UInt8 :=
  wordBytes (n % 2 ^ 32).toNat ++ wordBytes ((n % 2 ^ 32).toNat / 2 ^ 16)

/-- The bytes of a number of one word. -/
def fieldBytes (n : Int) : List UInt8 := wordBytes (n % 2 ^ 16).toNat

/-! ## The copies of the head -/

/-- The copies that put the mailbox windows into the head. -/
inductive MailboxCopies : List Element → List (Copy UInt8) → Prop
  | windows {out input : Element} {rest : List Element} {outStart outSize start size : Int} :
      parseInt (out.get "StartAddress") = .ok outStart → smSize out = .ok outSize →
      parseInt (input.get "StartAddress") = .ok start → smSize input = .ok size →
      MailboxCopies (out :: input :: rest) [⟨0x30, fieldBytes outStart⟩,
        ⟨0x32, fieldBytes outSize⟩, ⟨0x34, fieldBytes start⟩, ⟨0x36, fieldBytes size⟩]
  | none {sms : List Element} : sms.length < 2 → MailboxCopies sms []

/-- Putting the mailbox windows makes their copies. -/
theorem putMailboxes_patched {sms : List Element} {buf buf' : List UInt8}
    (put : putMailboxes sms buf = .ok buf') :
    ∃ copies, MailboxCopies sms copies ∧ Patched buf copies buf' := by
  rcases sms with _ | ⟨out, _ | ⟨input, rest⟩⟩
  · obtain rfl := Except.ok.inj put
    exact ⟨[], .none (by decide), .refl buf⟩
  · obtain rfl := Except.ok.inj put
    exact ⟨[], .none (by simp), .refl buf⟩
  · unfold putMailboxes at put
    obtain ⟨outStart, hasOutStart, put⟩ := Py.bind_eq_ok.mp put
    obtain ⟨first, putFirst, put⟩ := Py.bind_eq_ok.mp put
    obtain ⟨outSize, hasOutSize, put⟩ := Py.bind_eq_ok.mp put
    obtain ⟨second, putSecond, put⟩ := Py.bind_eq_ok.mp put
    obtain ⟨start, hasStart, put⟩ := Py.bind_eq_ok.mp put
    obtain ⟨third, putThird, put⟩ := Py.bind_eq_ok.mp put
    obtain ⟨size, hasSize, put⟩ := Py.bind_eq_ok.mp put
    exact ⟨_, .windows hasOutStart hasOutSize hasStart hasSize,
      (Patched.packInto putFirst).trans ((Patched.packInto putSecond).trans
        ((Patched.packInto putThird).trans (.packInto put)))⟩

/-- The mailbox windows have their place in the head. -/
theorem MailboxCopies.inside {sms : List Element} {copies : List (Copy UInt8)}
    (windows : MailboxCopies sms copies) :
    ∀ c ∈ copies, 0x30 ≤ c.address ∧ c.address + c.data.length ≤ 0x38 := by
  cases windows with
  | windows => simp [fieldBytes]
  | none => simp

/-- What the document says about the head, and the copies of it into a cleared array. -/
structure HeadCopies (dev : Element) where
  byteSize : Int
  config : List UInt8
  bootstrap : List UInt8
  mailboxes : List (Copy UInt8)
  hasByteSize : parseInt ((dev.find ["Eeprom"]).bind fun eeprom =>
    eeprom.findtext ["ByteSize"]) 2048 = .ok byteSize
  hasConfig : eepromBytes (dev.find ["Eeprom"]) "ConfigData" = .ok config
  hasBootstrap : eepromBytes (dev.find ["Eeprom"]) "BootStrap" = .ok bootstrap
  windows : MailboxCopies (dev.findall ["Sm"]) mailboxes

namespace HeadCopies

variable {dev : Element} {vendorId productCode revisionNo : Int}

/-- The fields in front of the mailbox windows. -/
def front (head : HeadCopies dev) (vendorId productCode revisionNo : Int) : List (Copy UInt8) :=
  [⟨0, head.config⟩, ⟨0x10, dwordBytes vendorId⟩, ⟨0x14, dwordBytes productCode⟩,
    ⟨0x18, dwordBytes revisionNo⟩, ⟨0x1C, dwordBytes 0⟩, ⟨0x28, head.bootstrap⟩]

/-- The fields behind them. -/
def behind (head : HeadCopies dev) : List (Copy UInt8) :=
  [⟨0x38, fieldBytes (mailboxProtocol (dev.find ["Mailbox"])).toNat⟩,
    ⟨0x7C, fieldBytes (max (head.byteSize * 8 / 1024 - 1) 0)⟩, ⟨0x7E, fieldBytes 1⟩]

/-- All fields of the head, in the order in which they are written. -/
def fields (head : HeadCopies dev) (vendorId productCode revisionNo : Int) : List (Copy UInt8) :=
  head.front vendorId productCode revisionNo ++ (head.mailboxes ++ head.behind)

end HeadCopies

/-- A cleared array has room for the head, the declared size, and zeros in the head. -/
theorem blankImage_spec {byteSize : Int} {blank : List UInt8}
    (cleared : blankImage byteSize = .ok blank) :
    0x80 ≤ blank.length ∧ (blank.length : Int) = byteSize ∧ ∀ a < 0x80, contents blank a = 0 := by
  unfold blankImage at cleared
  split at cleared
  · cases cleared
  · next large =>
    obtain rfl := Except.ok.inj cleared
    have length : (List.replicate 0x80 (0 : UInt8) ++
        List.replicate (byteSize.toNat - 0x80) 0xFF).length = byteSize.toNat := by
      rw [List.length_append, List.length_replicate, List.length_replicate]
      omega
    refine ⟨by omega, by omega, ?_⟩
    intro a low
    have inside : a < (List.replicate 0x80 (0 : UInt8)).length := by
      rwa [List.length_replicate]
    rw [contents, List.getD_eq_getElem?_getD, List.getElem?_append_left inside,
      List.getElem?_replicate, if_pos low]
    rfl

/-- The checksum covers the first fourteen bytes only. -/
theorem siiCrc_congr {buf buf' : List UInt8} (long : 14 ≤ buf.length) (long' : 14 ≤ buf'.length)
    (same : ∀ a < 14, contents buf a = contents buf' a) : siiCrc buf = siiCrc buf' := by
  have heads : buf.take 14 = buf'.take 14 := by
    rw [take_eq_block long, take_eq_block long']
    refine block_congr fun k low => ?_
    rw [Nat.zero_add]
    exact same k low
  rw [siiCrc, heads, siiCrc]

/-- The array before the categories is a cleared one with the fields and the checksum. -/
theorem buildHead_patched {dev : Element} {vendorId productCode revisionNo : Int}
    {buf : List UInt8} (built : buildHead dev vendorId productCode revisionNo = .ok buf) :
    ∃ (head : HeadCopies dev) (blank cleared : List UInt8),
      blankImage head.byteSize = .ok blank ∧
      Patched blank (head.fields vendorId productCode revisionNo) cleared ∧
      Patched cleared [⟨0x0E, fieldBytes (siiCrc cleared).toNat⟩] buf := by
  unfold buildHead at built
  obtain ⟨byteSize, hasByteSize, built⟩ := Py.bind_eq_ok.mp built
  obtain ⟨blank, isBlank, built⟩ := Py.bind_eq_ok.mp built
  obtain ⟨config, hasConfig, built⟩ := Py.bind_eq_ok.mp built
  obtain ⟨vendorPut, putVendor, built⟩ := Py.bind_eq_ok.mp built
  obtain ⟨productPut, putProduct, built⟩ := Py.bind_eq_ok.mp built
  obtain ⟨revisionPut, putRevision, built⟩ := Py.bind_eq_ok.mp built
  obtain ⟨serialPut, putSerial, built⟩ := Py.bind_eq_ok.mp built
  obtain ⟨bootstrap, hasBootstrap, built⟩ := Py.bind_eq_ok.mp built
  obtain ⟨windowsPut, putWindows, built⟩ := Py.bind_eq_ok.mp built
  obtain ⟨protocolPut, putProtocol, built⟩ := Py.bind_eq_ok.mp built
  obtain ⟨sizePut, putSize, built⟩ := Py.bind_eq_ok.mp built
  obtain ⟨versionPut, putVersion, built⟩ := Py.bind_eq_ok.mp built
  obtain ⟨mailboxes, windows, mailboxesPatched⟩ := putMailboxes_patched putWindows
  obtain ⟨long, -, -⟩ := blankImage_spec isBlank
  have identity := (Patched.setSlice (Nat.zero_le _) config).trans
    ((Patched.packInto putVendor).trans ((Patched.packInto putProduct).trans
      ((Patched.packInto putRevision).trans (Patched.packInto putSerial))))
  have inside : 0x28 ≤ serialPut.length := by
    have grown := identity.keeps
    omega
  have fields := (identity.trans (.setSlice inside bootstrap)).trans (mailboxesPatched.trans
    ((Patched.packInto putProtocol).trans ((Patched.packInto putSize).trans
      (Patched.packInto putVersion))))
  exact ⟨⟨byteSize, config, bootstrap, mailboxes, hasByteSize, hasConfig, hasBootstrap, windows⟩,
    blank, versionPut, isBlank, fields, .packInto built⟩

/-- Placing the categories is one copy, behind the head. -/
theorem Patched.setSlice_eq_ok {buf categories image : List UInt8}
    (placed : placeCategories buf categories = .ok image) (long : 0x80 ≤ buf.length) :
    Patched buf [⟨0x80, categories⟩] image := by
  unfold placeCategories at placed
  split at placed
  · cases placed
  · obtain rfl := Except.ok.inj placed
    exact .setSlice long categories

/-- An image is a cleared array with the fields, the checksum and the categories, and its
checksum is that of the whole image. -/
structure Headed (dev : Element) (head : HeadCopies dev)
    (vendorId productCode revisionNo : Int) (image : List UInt8) : Prop where
  long : 0x80 ≤ image.length
  sized : head.byteSize ≤ image.length
  written : ∃ (blank categories : List UInt8), (∀ a < 0x80, contents blank a = 0) ∧
    contents image = applyAll (head.fields vendorId productCode revisionNo ++
      [⟨0x0E, fieldBytes (siiCrc image).toNat⟩, ⟨0x80, categories⟩]) (contents blank)

/-- Two memories agree where the copies between them do not reach. -/
theorem Patched.same {buf buf' : List UInt8} {copies : List (Copy UInt8)}
    (patched : Patched buf copies buf') {a : Nat}
    (outside : ∀ c ∈ copies, a ∉ c.region.addresses) : contents buf' a = contents buf a := by
  rw [patched.holds]
  exact applyAll_outside outside _

/-- Every image is headed by what the document says.

Proof: the steps of the builder are gone through, each adding its copies. Neither the
checksum nor the categories behind it reach the bytes that it is taken of, so it is still
right at the end. -/
theorem buildImage_headed {root : Element} {productCode revisionNo : Int} {image : List UInt8}
    (built : buildImage root productCode revisionNo = .ok image) :
    ∃ vendorId dev, parseInt (root.findtext ["Vendor", "Id"]) = .ok vendorId ∧
      findDevice root productCode revisionNo = .ok dev ∧
      ∃ head : HeadCopies dev, Headed dev head vendorId productCode revisionNo image := by
  unfold buildImage at built
  obtain ⟨vendorId, hasVendor, built⟩ := Py.bind_eq_ok.mp built
  obtain ⟨dev, found, built⟩ := Py.bind_eq_ok.mp built
  obtain ⟨buf, hasHead, built⟩ := Py.bind_eq_ok.mp built
  obtain ⟨modules, -, built⟩ := Py.bind_eq_ok.mp built
  obtain ⟨payloads, -, built⟩ := Py.bind_eq_ok.mp built
  obtain ⟨categories, -, placed⟩ := Py.bind_eq_ok.mp built
  obtain ⟨head, blank, cleared, isBlank, fields, checksum⟩ := buildHead_patched hasHead
  obtain ⟨long, sized, zeros⟩ := blankImage_spec isBlank
  have filled := fields.keeps
  have checked := filled.trans checksum.keeps
  have categoriesPatched := Patched.setSlice_eq_ok placed (long.trans checked)
  have behind := checksum.trans categoriesPatched
  have grown := filled.trans behind.keeps
  have fits : siiCrc cleared = siiCrc image := by
    refine siiCrc_congr (by omega) (by omega) fun a low => (behind.same ?_).symm
    simp [Region.mem_addresses, Copy.region, fieldBytes]
    omega
  refine ⟨vendorId, dev, hasVendor, found, head, by omega, by omega, blank, categories, zeros, ?_⟩
  rw [(fields.trans behind).holds, fits]
  rfl

/-! ## Fields that are read back -/

/-- A word of a copy that the later copies leave alone. -/
theorem wordOf_applyAll (before : List (Copy UInt8)) (field : Copy UInt8)
    (after : List (Copy UInt8)) (k : Nat) {low high : UInt8} (first : field.data[k]? = some low)
    (second : field.data[k + 1]? = some high)
    (clear : ∀ d ∈ after, d.address + d.data.length ≤ field.address + k ∨
      field.address + k + 2 ≤ d.address) (memory : Nat → UInt8) :
    wordOf (applyAll (before ++ field :: after) memory (field.address + k))
      (applyAll (before ++ field :: after) memory (field.address + k + 1)) = wordOf low high := by
  have apart : ∀ d ∈ after,
      field.address + k ∉ d.region.addresses ∧ field.address + (k + 1) ∉ d.region.addresses := by
    intro d later
    have place := clear d later
    simp only [Region.mem_addresses, Copy.region]
    omega
  rw [applyAll_latest first fun d later => (apart d later).1, Nat.add_assoc,
    applyAll_latest second fun d later => (apart d later).2]

/-- The bytes of a word make the word, as far as it fits. -/
theorem wordOf_wordBytes (n : Nat) :
    wordOf (UInt8.ofNat n) (UInt8.ofNat (n / 256)) = n % 65536 := by
  simp only [wordOf, UInt8.toNat_ofNat']
  omega

namespace Headed

variable {dev : Element} {head : HeadCopies dev} {vendorId productCode revisionNo : Int}
  {image : List UInt8}

/-- A word of a field that the fields written after it leave alone. -/
theorem field_word (headed : Headed dev head vendorId productCode revisionNo image)
    (before : List (Copy UInt8)) {after : List (Copy UInt8)} {field : Copy UInt8} {k : Nat}
    {low high : UInt8}
    (split : head.fields vendorId productCode revisionNo = before ++ field :: after)
    (first : field.data[k]? = some low) (second : field.data[k + 1]? = some high)
    (inside : 0x10 ≤ field.address + k ∧ field.address + k + 2 ≤ 0x80)
    (clear : ∀ d ∈ after, d.address + d.data.length ≤ field.address + k ∨
      field.address + k + 2 ≤ d.address) :
    wordAt image (field.address + k) = wordOf low high := by
  obtain ⟨blank, categories, -, written⟩ := headed.written
  rw [wordAt_eq, written, split, List.append_assoc, List.cons_append]
  refine wordOf_applyAll before field _ k first second (fun d member => ?_) _
  rcases List.mem_append.mp member with later | last
  · exact clear d later
  · rcases List.mem_pair.mp last with rfl | rfl
    · exact .inl inside.1
    · exact .inr inside.2

/-- A field of one word reads back, if no later copy reaches it. -/
theorem readU16_field (headed : Headed dev head vendorId productCode revisionNo image)
    (before : List (Copy UInt8)) {after : List (Copy UInt8)} {a : Nat} {n : Int}
    (split : head.fields vendorId productCode revisionNo = before ++ ⟨a, fieldBytes n⟩ :: after)
    (inside : 0x10 ≤ a ∧ a + 2 ≤ 0x80)
    (clear : ∀ d ∈ after, d.address + d.data.length ≤ a ∨ a + 2 ≤ d.address) :
    readU16 image a = .ok (n % 2 ^ 16).toNat := by
  have word : wordAt image (a + 0) = _ := headed.field_word before split rfl rfl inside clear
  have long := headed.long
  rw [wordOf_wordBytes] at word
  rw [readU16_eq (by omega), show wordAt image a = _ from word, Nat.mod_eq_of_lt (by omega)]

/-- A field of two words reads back, if no later copy reaches it. -/
theorem readU32_field (headed : Headed dev head vendorId productCode revisionNo image)
    (before : List (Copy UInt8)) {after : List (Copy UInt8)} {a : Nat} {n : Int}
    (split : head.fields vendorId productCode revisionNo = before ++ ⟨a, dwordBytes n⟩ :: after)
    (inside : 0x10 ≤ a ∧ a + 4 ≤ 0x80)
    (clear : ∀ d ∈ after, d.address + d.data.length ≤ a ∨ a + 4 ≤ d.address) :
    readU32 image a = .ok (n % 2 ^ 32).toNat := by
  have lower : wordAt image (a + 0) = _ := headed.field_word before split rfl rfl
    ⟨inside.1, by simp only; omega⟩ fun d later => by
      have apart := clear d later
      simp only
      omega
  have upper : wordAt image (a + 2) = _ := headed.field_word before split rfl rfl
    ⟨by simp only; omega, by simp only; omega⟩ fun d later => by
      have apart := clear d later
      simp only
      omega
  have long := headed.long
  rw [wordOf_wordBytes] at lower upper
  rw [readU32, if_pos (by omega), show wordAt image a = _ from lower, upper]
  congr 1
  omega

/-- The first words are those of the raw bytes that the document gives. -/
theorem word_config (headed : Headed dev head vendorId productCode revisionNo image) {a : Nat}
    (first : a + 2 ≤ 0x0E) : readU16 image a = .ok (wordAt head.config a) := by
  obtain ⟨blank, categories, zeros, written⟩ := headed.written
  have long := headed.long
  have byte : ∀ k, k < 0x0E → contents image k = contents head.config k := by
    intro k low
    rw [written, HeadCopies.fields, HeadCopies.front, List.cons_append, List.cons_append,
      applyAll, List.foldl_cons]
    refine (applyAll_outside (fun c member covered => ?_) _).trans ?_
    · have reached := (Region.mem_addresses.mp covered).1
      have beyond : 0x0E ≤ c.address := by
        simp only [HeadCopies.behind, List.mem_append, List.mem_cons, List.not_mem_nil,
          or_false] at member
        rcases member with (own | window | own) | own
        · rcases own with rfl | rfl | rfl | rfl | rfl <;> simp
        · exact Nat.le_trans (by decide) (head.windows.inside c window).1
        · rcases own with rfl | rfl | rfl <;> simp
        · rcases own with rfl | rfl <;> simp
      simp only [Copy.region] at reached
      omega
    · rw [Copy.apply, if_pos (Nat.zero_le k), zeros k (by omega)]
      rfl
  rw [readU16_eq (by omega), wordAt_eq, wordAt_eq, byte a (by omega), byte (a + 1) (by omega)]

/-- A field in front of the mailbox windows is clear of what is written after it. -/
theorem clear_front {own : List (Copy UInt8)} {first last : Nat} (low : last ≤ 0x30)
    (near : ∀ d ∈ own, last ≤ d.address) :
    ∀ d ∈ own ++ (head.mailboxes ++ head.behind),
      d.address + d.data.length ≤ first ∨ last ≤ d.address := by
  intro d member
  right
  simp only [HeadCopies.behind, List.mem_append, List.mem_cons, List.not_mem_nil,
    or_false] at member
  rcases member with own | window | later
  · exact near d own
  · exact low.trans (head.windows.inside d window).1
  · rcases later with rfl | rfl | rfl <;> simp <;> omega

/-- A field behind the mailbox windows. -/
theorem readU16_behind (headed : Headed dev head vendorId productCode revisionNo image)
    (before : List (Copy UInt8)) {after : List (Copy UInt8)} {a : Nat} {n : Int}
    (split : head.behind = before ++ ⟨a, fieldBytes n⟩ :: after)
    (inside : 0x10 ≤ a ∧ a + 2 ≤ 0x80) (clear : ∀ d ∈ after, a + 2 ≤ d.address) :
    readU16 image a = .ok (n % 2 ^ 16).toNat := by
  have whole : head.fields vendorId productCode revisionNo =
      (head.front vendorId productCode revisionNo ++ (head.mailboxes ++ before)) ++
        ⟨a, fieldBytes n⟩ :: after := by
    simp only [HeadCopies.fields, split, List.append_assoc]
  exact headed.readU16_field _ whole inside fun d later => .inr (clear d later)

/-- The listed fields of the head. -/
theorem fixedHeader_eq (headed : Headed dev head vendorId productCode revisionNo image) :
    ParseEeprom.fixedHeader image = .ok {
      pdiControl := wordAt head.config 0
      pdiConfiguration := wordAt head.config 2
      vendorId := (vendorId % 2 ^ 32).toNat
      productCode := (productCode % 2 ^ 32).toNat
      revisionNumber := (revisionNo % 2 ^ 32).toNat
      serialNumber := 0
      eepromSize := (max (head.byteSize * 8 / 1024 - 1) 0 % 2 ^ 16).toNat } := by
  have vendor := headed.readU32_field [⟨0, head.config⟩] rfl (by decide)
    (clear_front (by decide) (by simp))
  have product := headed.readU32_field [⟨0, head.config⟩, ⟨0x10, dwordBytes vendorId⟩] rfl
    (by decide) (clear_front (by decide) (by simp))
  have revision := headed.readU32_field
    [⟨0, head.config⟩, ⟨0x10, dwordBytes vendorId⟩, ⟨0x14, dwordBytes productCode⟩] rfl
    (by decide) (clear_front (by decide) (by simp))
  have serial := headed.readU32_field [⟨0, head.config⟩, ⟨0x10, dwordBytes vendorId⟩,
      ⟨0x14, dwordBytes productCode⟩, ⟨0x18, dwordBytes revisionNo⟩] rfl
    (by decide) (clear_front (by decide) (by simp))
  have size := headed.readU16_behind
    [⟨0x38, fieldBytes (mailboxProtocol (dev.find ["Mailbox"])).toNat⟩] rfl (by decide) (by simp)
  rw [ParseEeprom.fixedHeader, headed.word_config (by decide), Py.ok_bind,
    headed.word_config (by decide), Py.ok_bind, vendor, Py.ok_bind, product, Py.ok_bind,
    revision, Py.ok_bind, serial, Py.ok_bind, size, Py.ok_bind]
  rfl

/-- The checksum that is read back is that of the image. -/
theorem readU16_checksum (headed : Headed dev head vendorId productCode revisionNo image) :
    readU16 image 0x0E = .ok (siiCrc image).toNat := by
  obtain ⟨blank, categories, -, written⟩ := headed.written
  have long := headed.long
  have word := wordOf_applyAll (head.fields vendorId productCode revisionNo)
    ⟨0x0E, fieldBytes (siiCrc image).toNat⟩ [⟨0x80, categories⟩] 0 rfl rfl (by simp)
    (contents blank)
  have fits := (siiCrc image).toNat_lt
  rw [← written, wordOf_wordBytes] at word
  rw [readU16_eq (by omega), wordAt_eq]
  refine congrArg Except.ok (word.trans ?_)
  omega

/-- A mailbox window. -/
theorem readU16_window (headed : Headed dev head vendorId productCode revisionNo image)
    (before : List (Copy UInt8)) {after : List (Copy UInt8)} {a : Nat} {n : Int}
    (split : head.mailboxes = before ++ ⟨a, fieldBytes n⟩ :: after)
    (inside : 0x30 ≤ a ∧ a + 2 ≤ 0x38) (clear : ∀ d ∈ after, a + 2 ≤ d.address) :
    readU16 image a = .ok (n % 2 ^ 16).toNat := by
  have whole : head.fields vendorId productCode revisionNo =
      (head.front vendorId productCode revisionNo ++ before) ++
        ⟨a, fieldBytes n⟩ :: (after ++ head.behind) := by
    simp only [HeadCopies.fields, split, List.append_assoc, List.cons_append]
  refine headed.readU16_field _ whole ⟨by omega, by omega⟩ fun d member => ?_
  rcases List.mem_append.mp member with later | field
  · exact .inr (clear d later)
  · simp only [HeadCopies.behind, List.mem_cons, List.not_mem_nil, or_false] at field
    rcases field with rfl | rfl | rfl <;> simp <;> omega

/-- The windows of the head are those of the first two sync managers. -/
theorem readU16_windows (headed : Headed dev head vendorId productCode revisionNo image)
    {out input : SiiSyncManager} {rest : List SiiSyncManager}
    (numbers : List.Forall₂ SmNumbers (dev.findall ["Sm"]) (out :: input :: rest))
    (small : ∀ sm ∈ [out, input], sm.startAddress < 65536 ∧ sm.length < 65536) :
      readU16 image 0x30 = .ok out.startAddress ∧ readU16 image 0x32 = .ok out.length ∧
      readU16 image 0x34 = .ok input.startAddress ∧ readU16 image 0x36 = .ok input.length := by
  obtain ⟨first, others, outNumbers, later, elements⟩ := List.forall₂_cons_right_iff.mp numbers
  obtain ⟨second, _, inputNumbers, -, rfl⟩ := List.forall₂_cons_right_iff.mp later
  have windows := head.windows
  rw [elements] at windows
  generalize copied : head.mailboxes = copies at windows
  have number {n : Nat} (fits : n < 65536) : ((n : Int) % 2 ^ 16).toNat = n := by omega
  obtain ⟨outStart, outLength⟩ := small out List.mem_cons_self
  obtain ⟨start, length⟩ := small input (List.mem_cons_of_mem _ List.mem_cons_self)
  cases windows with
  | none few =>
    simp only [List.length_cons] at few
    omega
  | windows hasOutStart hasOutLength hasStart hasLength =>
    obtain rfl := Except.ok.inj (hasOutStart.symm.trans outNumbers.startAddress)
    obtain rfl := Except.ok.inj (hasOutLength.symm.trans (smSize_eq_ok.mpr outNumbers.length))
    obtain rfl := Except.ok.inj (hasStart.symm.trans inputNumbers.startAddress)
    obtain rfl := Except.ok.inj (hasLength.symm.trans (smSize_eq_ok.mpr inputNumbers.length))
    refine ⟨?_, ?_, ?_, ?_⟩
    · exact number outStart ▸ headed.readU16_window [] copied (by decide) (by simp)
    · exact number outLength ▸ headed.readU16_window [_] copied (by decide) (by simp)
    · exact number start ▸ headed.readU16_window [_, _] copied (by decide) (by simp)
    · exact number length ▸ headed.readU16_window [_, _, _] copied (by decide) (by simp)

end Headed

/-- The numbers of a sync manager that is read fit in words. -/
theorem decodeSyncManagers_small (bytes : List UInt8) :
    ∀ sm ∈ decodeSyncManagers bytes, sm.startAddress < 65536 ∧ sm.length < 65536 := by
  have small (low high : UInt8) : wordOf low high < 65536 := by
    have lower := low.toNat_lt
    have upper := high.toNat_lt
    simp only [wordOf]
    omega
  fun_induction decodeSyncManagers bytes with
  | case1 startLow startHigh low high control status enable type rest inductionHypothesis =>
    exact List.forall_mem_cons.mpr ⟨⟨small _ _, small _ _⟩, inductionHypothesis⟩
  | case2 => simp

/-! ## Whole images -/

/-- Every image that is written is listed to its end, and the listing shows what the document
and the caller gave: the identity of the device modulo 2^32 and its size, the raw configuration
words, and for each reference of the general category the text of the document. The group, the
type and the name of the device are referred to, the type in the place of the name where that is
missing or empty; there is no image, so the reference to one is the empty text. -/
theorem listing_shows_document (root : Element) (productCode revisionNo : Int)
    (image : List UInt8) (built : buildImage root productCode revisionNo = .ok image) :
    ∃ vendorId dev config byteSize strings general,
      parseInt (root.findtext ["Vendor", "Id"]) = .ok vendorId ∧
      FirstDevice root productCode revisionNo dev ∧
      fromHex (((dev.find ["Eeprom"]).bind fun eeprom =>
        eeprom.findtext ["ConfigData"]).getD "").toList = .ok config ∧
      parseInt ((dev.find ["Eeprom"]).bind fun eeprom =>
        eeprom.findtext ["ByteSize"]) 2048 = .ok byteSize ∧ byteSize ≤ image.length ∧
      ParseEeprom.main image = .ok {
        size := image.length
        header := {
          pdiControl := wordAt config 0
          pdiConfiguration := wordAt config 2
          vendorId := (vendorId % 2 ^ 32).toNat
          productCode := (productCode % 2 ^ 32).toNat
          revisionNumber := (revisionNo % 2 ^ 32).toNat
          serialNumber := 0
          eepromSize := (max (byteSize * 8 / 1024 - 1) 0 % 2 ^ 16).toNat }
        strings := some strings
        general := some general } ∧
      general.image = ⟨0, ""⟩ ∧
      ∀ reference ∈ [(dev.findtext ["GroupType"], general.group),
          ((dev.find ["Type"]).bind Element.text, general.order),
          (if (dev.findtext ["Name"]).getD "" = "" then (dev.find ["Type"]).bind Element.text
            else dev.findtext ["Name"], general.name)],
        Resolves strings reference.1 reference.2.index ∧
          reference.2.text = replaced (strip (reference.1.getD "")) := by
  obtain ⟨vendorId, dev, hasVendor, found, head, headed⟩ := buildImage_headed built
  obtain ⟨dev', modules, payloads, buf, categories, found', -, collected, joined, placed⟩ :=
    buildImage_eq_ok built
  obtain rfl := Except.ok.inj (found.symm.trans found')
  have references := buildPayloads_references collected
  obtain ⟨-, -, -, each⟩ := walk_image joined placed
  obtain ⟨table, foundAs⟩ := each (catStrings, payloads.strings) List.mem_cons_self
  obtain ⟨start, foundGeneral⟩ :=
    each (catGeneral, payloads.general) (List.mem_cons_of_mem _ List.mem_cons_self)
  obtain ⟨start, general, -, located, parsed, -, -, unpictured, shown⟩ :=
    parseGeneral_resolves references.general foundGeneral
  refine ⟨vendorId, dev, head.config, head.byteSize, _, general, hasVendor,
    findDevice_first found, head.hasConfig, head.hasByteSize, headed.sized, ?_, unpictured, shown⟩
  rw [ParseEeprom.main, headed.fixedHeader_eq, Py.ok_bind, foundAs.found, Py.ok_bind]
  simp only [parseStrings_eq references.strings foundAs, Py.ok_bind, located, parsed]
  rfl

/-- The listing of the image of the bench shows the vendor, the product and the size. -/
theorem listing_shows_document_bench :
    ∃ image listing, buildImage benchEsi 0x2000 1 = .ok image ∧
      ParseEeprom.main image = .ok listing ∧ listing.header.vendorId = 0x766 ∧
      listing.header.productCode = 0x2000 ∧ listing.header.eepromSize = 1 := by
  obtain ⟨image, built⟩ := benchImage_built
  obtain ⟨vendorId, dev, config, byteSize, strings, general, hasVendor, found, -, hasByteSize, -,
    listed, -⟩ := listing_shows_document benchEsi 0x2000 1 image built
  obtain rfl : dev = benchDevice := found.only rfl
  obtain rfl : (0x766 : Int) = vendorId := Except.ok.inj (hasVendor.symm.trans rfl).symm
  obtain rfl : (256 : Int) = byteSize := Except.ok.inj (hasByteSize.symm.trans rfl).symm
  exact ⟨image, _, built, listed, rfl, rfl, rfl⟩

/-- The head of every image that is written agrees with the rest of it. The checksum fits, and
it does not fit an image of which a burst of up to eight bits has changed the bytes it covers.
The mailbox windows are those of the first two sync managers of their category. -/
theorem head_consistent (root : Element) (productCode revisionNo : Int) (image : List UInt8)
    (built : buildImage root productCode revisionNo = .ok image) :
    ∃ dev, findDevice root productCode revisionNo = .ok dev ∧
      readU16 image 0x38 = .ok (mailboxProtocol (dev.find ["Mailbox"])).toNat ∧
      readU16 image 0x7E = .ok 1 ∧
      readU16 image 0x0E = .ok (siiCrc image).toNat ∧
      (∀ damaged : List UInt8, damaged.length = image.length → damaged ≠ image →
        damaged.drop 14 = image.drop 14 → ∀ start : Nat,
          (∀ i, i < start ∨ start + 8 ≤ i →
            (sentBits (damaged.take 14))[i]? = (sentBits (image.take 14))[i]?) →
          readU16 damaged 0x0E ≠ .ok (siiCrc damaged).toNat) ∧
      (2 ≤ (dev.findall ["Sm"]).length → ∃ start out input rest,
        findCategory image catSyncm = .ok (some start) ∧
        decodeSyncManagers (categoryWords image start) = out :: input :: rest ∧
        readU16 image 0x30 = .ok out.startAddress ∧ readU16 image 0x32 = .ok out.length ∧
        readU16 image 0x34 = .ok input.startAddress ∧
        readU16 image 0x36 = .ok input.length) := by
  obtain ⟨vendorId, dev, -, found, head, headed⟩ := buildImage_headed built
  obtain ⟨dev', modules, payloads, buf, categories, found', -, collected, joined, placed⟩ :=
    buildImage_eq_ok built
  obtain rfl := Except.ok.inj (found.symm.trans found')
  have long := headed.long
  have checksum := headed.readU16_checksum
  refine ⟨dev, found, ?_, ?_, checksum, ?_, ?_⟩
  · have protocol := headed.readU16_behind [] rfl (by decide) (by simp)
    have small := (mailboxProtocol (dev.find ["Mailbox"])).toNat_lt
    refine protocol.trans (congrArg Except.ok ?_)
    omega
  · exact headed.readU16_behind [_, _] rfl (by decide) (by simp)
  · intro damaged sameLength different behind start agree fits
    have heads : damaged.take 14 ≠ image.take 14 := by
      intro same
      apply different
      rw [← List.take_append_drop 14 damaged, same, behind, List.take_append_drop]
    have byte (k : Nat) : contents damaged (14 + k) = contents image (14 + k) := by
      rw [contents, contents, List.getD_eq_getElem?_getD, List.getD_eq_getElem?_getD,
        ← List.getElem?_drop, ← List.getElem?_drop, behind]
    have same : readU16 damaged 0x0E = readU16 image 0x0E := by
      rw [readU16, readU16, sameLength, wordAt_eq, wordAt_eq, byte 0, byte 1]
    have sameHeadLength : (damaged.take 14).length = (image.take 14).length := by
      simp [sameLength]
    have changed := foldl_calcCrcByte_ne sameHeadLength heads agree 0xFF
    apply changed
    rw [same, checksum] at fits
    exact UInt8.toNat_inj.mp (Except.ok.inj fits).symm
  · intro several
    rcases syncManagers_read_back collected joined placed with ⟨none, -⟩ | ⟨start, located, numbers⟩
    · rw [none] at several
      cases several
    · have small := decodeSyncManagers_small (categoryWords image start)
      have counted := numbers.length_eq
      rcases read : decodeSyncManagers (categoryWords image start) with _ | ⟨out, _ | ⟨input, rest⟩⟩
      · simp only [read, List.length_nil] at counted
        omega
      · simp only [read, List.length_singleton] at counted
        omega
      · rw [read] at numbers small
        have both : ∀ sm ∈ [out, input], sm.startAddress < 65536 ∧ sm.length < 65536 :=
          fun sm member => small sm (List.mem_append_left rest member)
        exact ⟨start, out, input, rest, located, read, headed.readU16_windows numbers both⟩

/-- The image of the bench has its version and its checksum. -/
theorem head_consistent_bench :
    ∃ image, buildImage benchEsi 0x2000 1 = .ok image ∧ readU16 image 0x7E = .ok 1 ∧
      readU16 image 0x0E = .ok (siiCrc image).toNat := by
  obtain ⟨image, built⟩ := benchImage_built
  obtain ⟨_, -, -, version, checksum, -⟩ := head_consistent benchEsi 0x2000 1 image built
  exact ⟨image, built, version, checksum⟩

end MoEcat
