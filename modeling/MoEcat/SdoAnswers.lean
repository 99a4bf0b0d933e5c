import MoEcat.ActivityScheduler
import MoEcat.ObjectLists
import MoEcat.RawFields

/-!
# What a successful read delivers

A read of service data hands SOEM the size of its buffer and is told how many bytes were
stored in it. Nobody looks at that number: a read counts as successful whenever SOEM
does, and the rest of the buffer keeps what the caller had put there. So a slave that
answers with fewer bytes than asked for leaves a mixture behind, which the wrappers pass
on, which can pass for the value of a parameter, and which ends up in lists.
-/

namespace MoEcat

variable {β : Type} [Platform β]

/-- The reply to a SOEM call. -/
def EcMaster.replyTo (m : EcMaster β) (call : SoemCall) : SoemReply :=
  (EcMaster.soem call).result m

/-- SOEM reports success, but stored less than was asked for. -/
def SoemReply.Short (reply : SoemReply) (size : Nat) : Prop :=
  0 < reply.result ∧ reply.data.length < size

/-! ## Single reads -/

/-- Every byte in the buffer of a successful read is one that was stored there. -/
def Supplied (reply : SoemReply) (read : Bool × List UInt8) : Prop :=
  read.1 = true → read.2 <+: reply.data

/-- The answer and the buffer can be compared. -/
instance (reply : SoemReply) (read : Bool × List UInt8) : Decidable (Supplied reply read) :=
  inferInstanceAs (Decidable (_ → _))

/-- The stored bytes replace the start of the buffer. -/
theorem sdoRead_result (m : EcMaster β) (slave index : UInt16) (subindex : UInt8)
    (data : List UInt8) (len timeoutUs : Int) :
    let reply := m.replyTo (.sdoRead slave index subindex false len timeoutUs)
    (EcMaster.sdoRead slave index subindex data len timeoutUs).result m =
      (decide (0 < reply.result), reply.data.take data.length ++ data.drop reply.data.length) :=
  (rfl)

/-- A read is supplied if and only if the reply is not short. -/
theorem supplied_iff (m : EcMaster β) (slave index : UInt16) (subindex : UInt8)
    (data : List UInt8) (len timeoutUs : Int) :
    let reply := m.replyTo (.sdoRead slave index subindex false len timeoutUs)
    Supplied reply ((EcMaster.sdoRead slave index subindex data len timeoutUs).result m) ↔
      ¬reply.Short data.length := by
  intro reply
  rw [sdoRead_result, Supplied, SoemReply.Short, decide_eq_true_iff, not_and]
  apply imp_congr_right
  intro _
  constructor
  · intro whole
    have bound := whole.length_le
    rw [List.length_append, List.length_take, List.length_drop] at bound
    change _ ≤ reply.data.length at bound
    omega
  · intro enough
    rw [List.drop_eq_nil_of_le (Nat.le_of_not_lt enough), List.append_nil]
    exact List.take_prefix _ _

namespace Impl

/-- A refused read delivers nothing. -/
theorem readSdo_supplied_iff (i : Impl β) (slaveId : Int) (index : UInt16) (subindex : UInt8)
    (data : List UInt8) (timeoutMs : Int) :
    let reply := i.controller.master.replyTo (.sdoRead (UInt16.ofInt slaveId) index subindex false
      (narrowInt data.length) (narrowInt (timeoutMs * 1000)))
    Supplied reply ((readSdo slaveId index subindex data timeoutMs).result i) ↔
      slaveId ≤ 0 ∨ ¬reply.Short data.length := by
  intro reply
  by_cases refused : slaveId ≤ 0 ∨ data = []
  · have failed : ((readSdo slaveId index subindex data timeoutMs).result i).1 = false := by
      simp [readSdo, refused]
    refine iff_of_true (fun succeeded => ?_) ?_
    · rw [failed] at succeeded
      cases succeeded
    · refine refused.imp_right ?_
      rintro rfl ⟨-, less⟩
      exact absurd less (Nat.not_lt_zero _)
  · have same : (readSdo slaveId index subindex data timeoutMs).result i =
        (EcMaster.sdoRead (UInt16.ofInt slaveId) index subindex data (narrowInt data.length)
          (narrowInt (timeoutMs * 1000))).result i.controller.master := by
      rw [readSdo, Program.result_ite, if_neg refused]
      rfl
    have read := supplied_iff i.controller.master (UInt16.ofInt slaveId) index subindex data
      (narrowInt data.length) (narrowInt (timeoutMs * 1000))
    rw [same]
    exact read.trans (or_iff_right (not_or.mp refused).1).symm

end Impl

/-! ## Verified parameters -/

/-- What is left of a body when its accesses have found these bus masters, one after
another and whatever happened in between. -/
def ActivityBody.through : List (EcMaster β) → ActivityBody β → ActivityBody β
  | [], body => body
  | m :: rest, .access act => through rest (act m).1
  | _ :: _, body => body

namespace SdoParameterActivity

/-- The reply to the write, and to the read that verifies it. -/
def writeReply (m : EcMaster β) (node : SlaveNode) (index : UInt16) (subindex : UInt8)
    (value : UInt32) : SoemReply :=
  m.replyTo (.sdoWrite (UInt16.ofInt node.info.slaveId) index subindex false 4
    (littleEndian 4 value.toNat) 10000)

/-- The reply to the read. -/
def readReply (m : EcMaster β) (node : SlaveNode) (index : UInt16) (subindex : UInt8) :
    SoemReply :=
  m.replyTo (.sdoRead (UInt16.ofInt node.info.slaveId) index subindex false 4 10000)

variable {node : SlaveNode} {index : UInt16} {subindex : UInt8} {value : UInt32}

/-- The write succeeds if its reply does. -/
theorem writeParameter_result (m : EcMaster β) :
    (writeParameter node index subindex value).result m =
      decide (0 < (writeReply m node index subindex value).result) := (rfl)

/-- The read back succeeds if its reply does and the buffer holds the value. -/
theorem readBackAndVerify_result (m : EcMaster β) :
    let reply := readReply m node index subindex
    (readBackAndVerify node index subindex value).result m =
      (decide (0 < reply.result) &&
        reply.data.take 4 ++ [0, 0, 0, 0].drop reply.data.length == littleEndian 4 value.toNat) :=
  (rfl)

/-- With verification the activity succeeds when both accesses do. -/
theorem execute_through (m m' : EcMaster β) :
    (execute node index subindex value true).through [m, m'] = .finished true ↔
      (writeParameter node index subindex value).result m = true ∧
        (readBackAndVerify node index subindex value).result m' = true := by
  rw [execute, ActivityBody.through]
  cases written : (writeParameter node index subindex value).result m with
  | false => simp [ActivityBody.through, written]
  | true => simp [ActivityBody.through, written]

/-- With verification, the activity succeeds only if the slave returned all four bytes of
the value that was written. -/
def VerifiesWhole (m m' : EcMaster β) (node : SlaveNode) (index : UInt16) (subindex : UInt8)
    (value : UInt32) : Prop :=
  (execute node index subindex value true).through [m, m'] = .finished true →
    littleEndian 4 value.toNat <+: (readReply m' node index subindex).data

/-- A short reply passes for the value if it is the value without leading zeros. -/
theorem verifiesWhole_iff (m m' : EcMaster β) (node : SlaveNode) (index : UInt16)
    (subindex : UInt8) (value : UInt32) :
    VerifiesWhole m m' node index subindex value ↔
      ¬(0 < (writeReply m node index subindex value).result ∧
        (readReply m' node index subindex).Short 4 ∧
        unsignedLittleEndian (readReply m' node index subindex).data = value.toNat) := by
  rw [VerifiesWhole, execute_through, writeParameter_result, readBackAndVerify_result,
    SoemReply.Short, Bool.and_eq_true, decide_eq_true_iff, decide_eq_true_iff, beq_iff_eq]
  generalize readReply m' node index subindex = reply
  rcases Nat.lt_or_ge reply.data.length 4 with less | enough
  · have rest : [0, 0, 0, 0].drop reply.data.length =
        List.replicate (4 - reply.data.length) (0 : UInt8) := by
      change (List.replicate 4 (0 : UInt8)).drop reply.data.length = _
      exact List.drop_replicate
    have sized : (reply.data ++ List.replicate (4 - reply.data.length) (0 : UInt8)).length = 4 := by
      rw [List.length_append, List.length_replicate]
      omega
    have missing : ¬littleEndian 4 value.toNat <+: reply.data := by
      intro whole
      have bound := whole.length_le
      rw [length_littleEndian] at bound
      omega
    rw [List.take_of_length_le (Nat.le_of_lt less), rest,
      eq_littleEndian_iff sized value.toNat_lt, unsignedLittleEndian_zeros]
    simp only [missing, less, and_true, imp_false]
  · rw [List.drop_eq_nil_of_le enough, List.append_nil]
    refine iff_of_true ?_ ?_
    · rintro ⟨-, -, same⟩
      rw [← same]
      exact List.take_prefix _ _
    · rintro ⟨-, ⟨-, less⟩, -⟩
      exact absurd less (Nat.not_lt_of_le enough)

end SdoParameterActivity

/-! ## Lists -/

section Lists

variable (m : EcMaster β) (slave index : UInt16) (width : Nat)

/-- The master once the length of the list and its first `k` entries have been asked for. -/
def listAsked (k : Nat) : EcMaster β :=
  ByteLoop.asked (readSubindex slave index width) ((readSubindex slave index 1 0).after m) k

/-- The reply to the request for entry `k`. -/
def entryReply (k : Nat) : SoemReply :=
  (listAsked m slave index width k).replyTo
    (.sdoRead slave index (UInt8.ofNat (k + 1)) false width 10000)

/-- Entry `k` is asked for, and the reply is a success. -/
def EntryReached (count k : Nat) : Prop :=
  ByteLoop.Reached (readSubindex slave index width) ((readSubindex slave index 1 0).after m)
    (UInt8.ofNat count) k

/-- Every entry of a list that the reader returns is the value of bytes that were all
stored for it. -/
def ListsSupplied (reader : Nat → Program (EcMaster β) (Option (Bool × List Nat))) : Prop :=
  ∀ fuel ok values, (reader fuel).result m = some (ok, values) → ∀ k < values.length,
    ∃ bytes, bytes <+: (entryReply m slave index width k).data ∧ bytes.length = width ∧
      values[k]? = some (unsignedLittleEndian bytes)

/-- The requests for entries come to an end, and one of them got a short reply before. -/
def ShortEntry : Prop :=
  ∃ count, announced m slave index = some count ∧
    (∃ n, ¬EntryReached m slave index width count n) ∧
    ∃ k, EntryReached m slave index width count k ∧
      (entryReply m slave index width k).data.length < width

/-- The value of an entry is what its reply has stored, over zeros. -/
theorem valueOf_eq (k : Nat) :
    let reply := entryReply m slave index width k
    ByteLoop.answer (readSubindex slave index width) ((readSubindex slave index 1 0).after m) k =
      if 0 < reply.result then
        some (unsignedLittleEndian
          (reply.data.take width ++ (List.replicate width 0).drop reply.data.length))
      else none := by
  intro reply
  have run : ByteLoop.answer (readSubindex slave index width)
      ((readSubindex slave index 1 0).after m) k =
        if decide (0 < reply.result) = false then none
        else some (unsignedLittleEndian (reply.data.take (List.replicate width (0 : UInt8)).length ++
          (List.replicate width 0).drop reply.data.length)) := rfl
  rw [run, List.length_replicate]
  by_cases succeeded : 0 < reply.result <;> simp [succeeded]

/-- The value of an entry that was reached comes from stored bytes alone exactly when
enough of them were stored. -/
theorem entry_supplied_iff {count k : Nat} (reached : EntryReached m slave index width count k) :
    (∃ bytes, bytes <+: (entryReply m slave index width k).data ∧ bytes.length = width ∧
      ByteLoop.answer (readSubindex slave index width) ((readSubindex slave index 1 0).after m) k =
        some (unsignedLittleEndian bytes)) ↔
      width ≤ (entryReply m slave index width k).data.length := by
  constructor
  · rintro ⟨bytes, stored, sized, -⟩
    have bound := stored.length_le
    rwa [sized] at bound
  · intro enough
    have answered := (reached k (Nat.le_refl k)).2
    rw [valueOf_eq] at answered ⊢
    refine ⟨_, List.take_prefix width _, by simp [enough], ?_⟩
    split
    · rw [List.drop_eq_nil_of_le (by simpa using enough), List.append_nil]
    · rename_i failed
      rw [if_neg failed] at answered
      cases answered

/-- A list is supplied if and only if no entry that counts had a short reply. -/
theorem readObjectList_supplied_iff :
    ListsSupplied m slave index width (fun fuel => Impl.readObjectList fuel slave index width) ↔
      ¬ShortEntry m slave index width := by
  cases heard : announced m slave index with
  | none =>
    refine iff_of_true ?_ ?_
    · intro fuel ok values ended k before
      rw [(readObjectList_failed fuel width heard).1] at ended
      obtain ⟨-, rfl⟩ := Prod.mk.inj (Option.some.inj ended)
      exact absurd before (Nat.not_lt_zero k)
    · rintro ⟨count, some, -⟩
      rw [heard] at some
      cases some
  | some count =>
    have collected := ByteLoop.forall_collected_iff (readSubindex slave index width)
      ((readSubindex slave index 1 0).after m) (UInt8.ofNat count)
      fun k value => ∃ bytes, bytes <+: (entryReply m slave index width k).data ∧
        bytes.length = width ∧ value = some (unsignedLittleEndian bytes)
    have short : ShortEntry m slave index width ↔
        (∃ n, ¬EntryReached m slave index width count n) ∧
          ∃ k, EntryReached m slave index width count k ∧
            (entryReply m slave index width k).data.length < width := by
      rw [ShortEntry, heard]
      simp only [Option.some_inj, exists_eq_left']
    simp only [ListsSupplied, (readObjectList_answered _ width heard).1]
    rw [collected, short, not_and, not_exists]
    apply imp_congr_right
    intro _
    apply forall_congr'
    intro k
    rw [not_and, Nat.not_lt]
    exact imp_congr_right fun reached => entry_supplied_iff m slave index width reached

end Lists

/-- Whatever was stored and returned: single reads deliver stored bytes only, unless SOEM
stored less than was asked for; a verification answers for all four bytes, unless a shorter
reply has the value without its leading zeros; and lists have fully received entries only,
unless a reader that ends got a short reply for an entry. -/
theorem answers_supplied_iff (m m' : EcMaster β) (i : Impl β) (node : SlaveNode)
    (slave index : UInt16) (subindex : UInt8) (slaveId timeoutMs timeoutUs : Int)
    (data : List UInt8) (value : UInt32) :
    let own := UInt16.ofInt node.info.slaveId
    let size := narrowInt data.length
    let masterReply := m.replyTo (.sdoRead slave index subindex false data.length timeoutUs)
    let nodeReply := m.replyTo (.sdoRead own index subindex false size timeoutUs)
    let apiReply := i.controller.master.replyTo (.sdoRead (UInt16.ofInt slaveId) index subindex
      false size (narrowInt (timeoutMs * 1000)))
    let written := SdoParameterActivity.writeReply m node index subindex value
    let readBack := SdoParameterActivity.readReply m' node index subindex
    (Supplied masterReply
        ((EcMaster.sdoRead slave index subindex data data.length timeoutUs).result m) ↔
      ¬masterReply.Short data.length) ∧
    (Supplied nodeReply ((node.sdoRead index subindex data data.length timeoutUs).result m) ↔
      ¬nodeReply.Short data.length) ∧
    (Supplied apiReply ((Impl.readSdo slaveId index subindex data timeoutMs).result i) ↔
      slaveId ≤ 0 ∨ ¬apiReply.Short data.length) ∧
    (SdoParameterActivity.VerifiesWhole m m' node index subindex value ↔
      ¬(0 < written.result ∧ readBack.Short 4 ∧
        unsignedLittleEndian readBack.data = value.toNat)) ∧
    (ListsSupplied m slave index 2 (fun fuel => Impl.readSmAssignment fuel slave index) ↔
      ¬ShortEntry m slave index 2) ∧
    (ListsSupplied m slave index 4 (fun fuel => Impl.readPdoMapping fuel slave index) ↔
      ¬ShortEntry m slave index 4) ∧
    (ListsSupplied m own index 2
        (fun fuel => PdoMappingActivity.readSmAssignment fuel node index) ↔
      ¬ShortEntry m own index 2) ∧
    (ListsSupplied m own index 4
        (fun fuel => PdoMappingActivity.readPdoMapping fuel node index) ↔
      ¬ShortEntry m own index 4) := by
  intro own size masterReply nodeReply apiReply written readBack
  refine ⟨supplied_iff m slave index subindex data data.length timeoutUs,
    supplied_iff m own index subindex data size timeoutUs,
    Impl.readSdo_supplied_iff i slaveId index subindex data timeoutMs,
    SdoParameterActivity.verifiesWhole_iff m m' node index subindex value,
    readObjectList_supplied_iff m slave index 2, readObjectList_supplied_iff m slave index 4,
    ?_, ?_⟩
  · simp only [PdoMappingActivity.readSmAssignment_eq]
    exact readObjectList_supplied_iff m own index 2
  · simp only [PdoMappingActivity.readPdoMapping_eq]
    exact readObjectList_supplied_iff m own index 4

/-- A slave all of whose objects are a byte with the value 1. -/
structure Terse where

/-- Every call is answered with the byte 1. -/
instance : Platform Terse where
  soem _ ctx terse := ({ result := 1, data := [1] }, ctx, terse)
  steadyClock terse := (0, terse)
  openLogFile _ terse := (.opened, terse)

/-- Its byte is read into two, passes for the four bytes of a 1, and becomes an entry of
each list. -/
theorem answers_not_supplied :
    let m : EcMaster Terse := { platform := {} }
    let i : Impl Terse := Impl.fresh {}
    let node : SlaveNode := { info := { slaveId := 1 } }
    let call := SoemCall.sdoRead 1 0x6061 0 false 2 10000
    ¬Supplied (m.replyTo call) ((EcMaster.sdoRead 1 0x6061 0 [0xAB, 0xCD] 2 10000).result m) ∧
    ¬Supplied (m.replyTo call) ((node.sdoRead 0x6061 0 [0xAB, 0xCD] 2 10000).result m) ∧
    ¬Supplied (i.controller.master.replyTo call)
      ((Impl.readSdo 1 0x6061 0 [0xAB, 0xCD] 10).result i) ∧
    ¬SdoParameterActivity.VerifiesWhole m m node 0x6061 0 1 ∧
    ¬ListsSupplied m 1 0x1C12 2 (fun fuel => Impl.readSmAssignment fuel 1 0x1C12) ∧
    ¬ListsSupplied m 1 0x1600 4 (fun fuel => Impl.readPdoMapping fuel 1 0x1600) ∧
    ¬ListsSupplied m 1 0x1C12 2
      (fun fuel => PdoMappingActivity.readSmAssignment fuel node 0x1C12) ∧
    ¬ListsSupplied m 1 0x1600 4
      (fun fuel => PdoMappingActivity.readPdoMapping fuel node 0x1600) := by
  intro m i node call
  have short : ∀ index width, 1 < width → ∀ reader : Nat → Program (EcMaster Terse) _,
      (reader 2).result m = some (true, [1]) → ¬ListsSupplied m 1 index width reader := by
    intro index width wide reader ended supplied
    obtain ⟨bytes, stored, sized, -⟩ := supplied 2 true [1] ended 0 Nat.one_pos
    have bound : bytes.length ≤ 1 := stored.length_le
    omega
  refine ⟨by decide, by decide, by decide, ?_, ?_, ?_, ?_, ?_⟩
  · intro verified
    have whole := verified rfl
    revert whole
    decide
  · exact short 0x1C12 2 (by decide) _ (by decide)
  · exact short 0x1600 4 (by decide) _ (by decide)
  · exact short 0x1C12 2 (by decide) _ (by decide)
  · exact short 0x1600 4 (by decide) _ (by decide)

end MoEcat
