import MoEcat.MasterRefinement
import MoEcat.Runs
import MoEcat.Bench

/-!
# Whom a service data request reaches

The public operations on service data take the slave number as a plain integer and the
timeout in milliseconds. On the way to SOEM the number is cut to 16 bits and the timeout
is multiplied in 32, and only the lower bound of the number is looked at. The requests
reach the slave that the caller named exactly when both conversions keep their values
and the number is one of a scanned slave.
-/

namespace MoEcat

/-- The slave and the timeout of a service data request. -/
def Event.sdoRequest : Event → Option (UInt16 × Int)
  | .soem (.sdoRead slave _ _ _ _ timeoutUs) _ => some (slave, timeoutUs)
  | .soem (.sdoWrite slave _ _ _ _ _ timeoutUs) _ => some (slave, timeoutUs)
  | _ => none

/-- A number that names a scanned slave. -/
def EcMaster.Scanned {β : Type} (m : EcMaster β) (slaveId : Int) : Prop :=
  1 ≤ slaveId ∧ slaveId ≤ m.getSlaveCount

/-- What a request with this slave number and these admissible timeouts should do, given
the events it caused and whether it reported failure: every SOEM request goes to that
very slave, which is a scanned one, with an admissible timeout; and for any other number
it reports failure and makes no SOEM call. -/
structure RequestsExactly {β : Type} (m : EcMaster β) (slaveId : Int) (timeouts : Int → Prop)
    (events : List Event) (failed : Prop) : Prop where
  addressed : ∀ event ∈ events, ∀ slave timeoutUs, event.sdoRequest = some (slave, timeoutUs) →
    (slave.toNat : Int) = slaveId ∧ m.Scanned slaveId ∧ timeouts timeoutUs
  rejected : ¬m.Scanned slaveId → failed ∧ ∀ call result, .soem call result ∉ events

/-- The number survives being cut to 16 bits. -/
theorem toNat_ofInt_eq_iff (slaveId : Int) :
    ((UInt16.ofInt slaveId).toNat : Int) = slaveId ↔ 0 ≤ slaveId ∧ slaveId < 65536 := by
  have cut : ((UInt16.ofInt slaveId).toNat : Int) = slaveId % 65536 := by
    simp only [UInt16.ofInt, UInt16.toNat_ofNat']
    omega
  rw [cut]
  omega

/-- The product survives being computed in 32 bits. -/
theorem narrowInt_eq_iff (n : Int) : narrowInt n = n ↔ -2147483648 ≤ n ∧ n < 2147483648 := by
  rw [narrowInt, Int.bmod_eq_iff (by decide)]
  omega

variable {β : Type}

/-- The record grows by service data requests to one slave only. -/
def Asks (slave : UInt16) (m m' : EcMaster β) : Prop :=
  ∃ events, m'.trace = m.trace ++ events ∧
    ∀ event ∈ events, ∃ timeoutUs, event.sdoRequest = some (slave, timeoutUs)

/-- Doing nothing asks for nothing. -/
theorem Asks.refl (slave : UInt16) (m : EcMaster β) : Asks slave m m :=
  ⟨[], by simp, by simp⟩

/-- Requests after requests. -/
theorem Asks.trans {slave : UInt16} {m m' m'' : EcMaster β} (earlier : Asks slave m m')
    (later : Asks slave m' m'') : Asks slave m m'' := by
  obtain ⟨first, grown, asked⟩ := earlier
  obtain ⟨second, grown', asked'⟩ := later
  exact ⟨first ++ second, by rw [grown', grown, List.append_assoc],
    List.forall_mem_append.mpr ⟨asked, asked'⟩⟩

/-- Nothing happens, so only a number of a scanned slave would not have been rejected. -/
theorem requestsExactly_idle (m : EcMaster β) (slaveId : Int) (timeouts : Int → Prop)
    {failed : Prop} (reported : failed) : RequestsExactly m slaveId timeouts [] failed :=
  ⟨by simp, fun _ => ⟨reported, by simp⟩⟩

/-- Requests to one slave, of which there are some, are as they should be exactly when
that slave is the scanned one that the number names and the timeouts are admissible. -/
theorem requestsExactly_iff (m : EcMaster β) (slaveId : Int) (timeouts : Int → Prop)
    {events : List Event} {failed : Prop} (slave : UInt16) (nonempty : events ≠ [])
    (asked : ∀ event ∈ events, ∃ timeoutUs, event.sdoRequest = some (slave, timeoutUs)) :
    RequestsExactly m slaveId timeouts events failed ↔
      (slave.toNat : Int) = slaveId ∧ m.Scanned slaveId ∧
        ∀ event ∈ events, ∀ timeoutUs, event.sdoRequest = some (slave, timeoutUs) →
          timeouts timeoutUs := by
  constructor
  · intro exact
    obtain ⟨event, member⟩ := List.exists_mem_of_ne_nil events nonempty
    obtain ⟨timeoutUs, shown⟩ := asked event member
    obtain ⟨same, scanned, -⟩ := exact.addressed event member slave timeoutUs shown
    exact ⟨same, scanned, fun event member timeoutUs shown =>
      (exact.addressed event member slave timeoutUs shown).2.2⟩
  · rintro ⟨same, scanned, admissible⟩
    refine ⟨fun event member other timeoutUs shown => ?_, fun missing => absurd scanned missing⟩
    obtain ⟨own, named⟩ := asked event member
    obtain ⟨rfl, rfl⟩ := Prod.mk.inj (Option.some.inj (shown.symm.trans named))
    exact ⟨same, scanned, admissible event member _ shown⟩

namespace Impl

/-- The events that an operation caused. -/
def caused (i i' : Impl β) : List Event :=
  i'.controller.master.trace.drop i.controller.master.trace.length

/-- What the record has grown by was caused. -/
theorem caused_eq {i i' : Impl β} {events : List Event}
    (grown : i'.controller.master.trace = i.controller.master.trace ++ events) :
    caused i i' = events := by
  rw [caused, grown, List.drop_left]

/-- The arguments that a transfer refuses, or that keep their values on the way down. -/
def TransferSafe (i : Impl β) (slaveId : Int) (data : List UInt8) (timeoutMs : Int) : Prop :=
  slaveId ≤ 0 ∨ data = [] ∨
    slaveId ≤ i.controller.master.getSlaveCount ∧ slaveId < 65536 ∧
      -2147483648 ≤ 1000 * timeoutMs ∧ 1000 * timeoutMs < 2147483648

/-- The bounds can be decided. -/
instance (i : Impl β) (slaveId : Int) (data : List UInt8) (timeoutMs : Int) :
    Decidable (TransferSafe i slaveId data timeoutMs) :=
  inferInstanceAs (Decidable (_ ∨ _ ∨ _))

/-- A transfer that does nothing on refused arguments, and otherwise makes one request
with the cut number and the narrowed timeout. -/
theorem transfer_exactly_iff {i i' : Impl β} {failed : Prop} (slaveId timeoutMs : Int)
    (data : List UInt8) (idle : slaveId ≤ 0 ∨ data = [] → i' = i ∧ failed)
    (asks : ¬(slaveId ≤ 0 ∨ data = []) → ∃ event,
      i'.controller.master.trace = i.controller.master.trace ++ [event] ∧
        event.sdoRequest = some (UInt16.ofInt slaveId, narrowInt (timeoutMs * 1000))) :
    RequestsExactly i.controller.master slaveId (· = 1000 * timeoutMs) (caused i i') failed ↔
      TransferSafe i slaveId data timeoutMs := by
  by_cases refused : slaveId ≤ 0 ∨ data = []
  · obtain ⟨rfl, reported⟩ := idle refused
    have nothing : caused i' i' = [] := List.drop_length
    rw [nothing]
    exact ⟨fun _ => refused.imp_right Or.inl, fun _ => requestsExactly_idle _ _ _ reported⟩
  · obtain ⟨event, grown, shown⟩ := asks refused
    obtain ⟨positive, filled⟩ := not_or.mp refused
    have asked : ∀ other ∈ [event], ∃ timeoutUs,
        other.sdoRequest = some (UInt16.ofInt slaveId, timeoutUs) :=
      List.forall_mem_singleton.mpr ⟨_, shown⟩
    have kept : ((UInt16.ofInt slaveId).toNat : Int) = slaveId ∧
          i.controller.master.Scanned slaveId ∧ narrowInt (timeoutMs * 1000) = 1000 * timeoutMs ↔
        TransferSafe i slaveId data timeoutMs := by
      rw [toNat_ofInt_eq_iff, Int.mul_comm timeoutMs, narrowInt_eq_iff, EcMaster.Scanned,
        TransferSafe]
      simp only [positive, filled, false_or]
      omega
    rw [caused_eq grown, requestsExactly_iff _ _ _ _ (List.cons_ne_nil _ _) asked, ← kept]
    simp [shown]

variable [Platform β]

/-- A read with these arguments is as it should be. -/
def ReadsExactly (i : Impl β) (slaveId : Int) (index : UInt16) (subindex : UInt8)
    (data : List UInt8) (timeoutMs : Int) : Prop :=
  let call := readSdo slaveId index subindex data timeoutMs
  RequestsExactly i.controller.master slaveId (· = 1000 * timeoutMs) (caused i (call.after i))
    ((call.result i).1 = false)

/-- A write with these arguments is as it should be. -/
def WritesExactly (i : Impl β) (slaveId : Int) (index : UInt16) (subindex : UInt8)
    (data : List UInt8) (timeoutMs : Int) : Prop :=
  let call := writeSdo slaveId index subindex data timeoutMs
  RequestsExactly i.controller.master slaveId (· = 1000 * timeoutMs) (caused i (call.after i))
    (call.result i = false)

/-- A dump of this slave is as it should be; its timeouts are its own, and it reports
failure by an empty text. -/
def DumpsExactly (i : Impl β) (fuel : Nat) (slaveId : Int) : Prop :=
  let call := dumpPdoMapping fuel slaveId
  RequestsExactly i.controller.master slaveId (fun _ => True) (caused i (call.after i))
    (call.result i = some "")

/-- An upload is as it should be if and only if its arguments are safe.

Proof: a safe one is refused, or keeps its numbers. An unsafe one is transferred with a slave
that was not scanned, with another number, or with another timeout. -/
theorem readsExactly_iff (i : Impl β) (slaveId : Int) (index : UInt16) (subindex : UInt8)
    (data : List UInt8) (timeoutMs : Int) :
    ReadsExactly i slaveId index subindex data timeoutMs ↔
      TransferSafe i slaveId data timeoutMs := by
  refine transfer_exactly_iff slaveId timeoutMs data (fun refused => ?_) (fun accepted => ?_)
  · simp [readSdo, refused]
  · rw [readSdo, Program.after_ite, if_neg accepted]
    exact ⟨_, rfl, rfl⟩

/-- A download is as it should be if and only if its arguments are safe. -/
theorem writesExactly_iff (i : Impl β) (slaveId : Int) (index : UInt16) (subindex : UInt8)
    (data : List UInt8) (timeoutMs : Int) :
    WritesExactly i slaveId index subindex data timeoutMs ↔
      TransferSafe i slaveId data timeoutMs := by
  refine transfer_exactly_iff slaveId timeoutMs data (fun refused => ?_) (fun accepted => ?_)
  · simp [writeSdo, refused]
  · rw [writeSdo, Program.after_ite, if_neg accepted]
    exact ⟨_, rfl, rfl⟩

/-- A single transfer asks its slave. -/
theorem sdoRead_asks (slave index : UInt16) (subindex : UInt8) (data : List UInt8)
    (len timeoutUs : Int) :
    Program.Relates (Asks (β := β) slave)
      (EcMaster.sdoRead slave index subindex data len timeoutUs) :=
  fun _ => ⟨[_], rfl, List.forall_mem_singleton.mpr ⟨timeoutUs, rfl⟩⟩

/-- A dump that is not refused asks the slave of the cut number, at least once. -/
theorem dumpPdoMapping_asks (i : Impl β) (fuel : Nat) (slaveId : Int) (positive : ¬slaveId ≤ 0) :
    caused i ((dumpPdoMapping fuel slaveId).after i) ≠ [] ∧
      ∀ event ∈ caused i ((dumpPdoMapping fuel slaveId).after i), ∃ timeoutUs,
        event.sdoRequest = some (UInt16.ofInt slaveId, timeoutUs) := by
  let slave := UInt16.ofInt slaveId
  obtain ⟨later, grown, asked⟩ := dumpDirections_starts slave (Asks.refl slave)
    (fun _ _ _ => Asks.trans) (sdoRead_asks slave) fuel i.controller.master
  obtain ⟨result, first⟩ : ∃ result,
      ((EcMaster.sdoRead slave 0x1C12 0 [0] 1 10000).after i.controller.master).trace =
        i.controller.master.trace ++ [.soem (.sdoRead slave 0x1C12 0 false 1 10000) result] :=
    ⟨_, rfl⟩
  have all : caused i ((dumpPdoMapping fuel slaveId).after i) =
      .soem (.sdoRead slave 0x1C12 0 false 1 10000) result :: later := by
    apply caused_eq
    rw [dumpPdoMapping, Program.after_ite, if_neg positive]
    apply grown.trans
    rw [first, List.append_assoc]
    rfl
  rw [all]
  exact ⟨List.cons_ne_nil _ _, List.forall_mem_cons.mpr ⟨⟨10000, rfl⟩, asked⟩⟩

/-- A dump is as it should be if and only if its slave is a scanned one or its number is
refused. -/
theorem dumpsExactly_iff (i : Impl β) (fuel : Nat) (slaveId : Int) :
    DumpsExactly i fuel slaveId ↔
      slaveId ≤ 0 ∨ slaveId ≤ i.controller.master.getSlaveCount ∧ slaveId < 65536 := by
  by_cases refused : slaveId ≤ 0
  · have idle : caused i ((dumpPdoMapping fuel slaveId).after i) = [] := by
      simp [dumpPdoMapping, refused, caused]
    have failed : (dumpPdoMapping fuel slaveId).result i = some "" := by
      simp [dumpPdoMapping, refused]
    rw [DumpsExactly, idle]
    exact ⟨fun _ => .inl refused, fun _ => requestsExactly_idle _ _ _ failed⟩
  · obtain ⟨nonempty, asked⟩ := dumpPdoMapping_asks i fuel slaveId refused
    rw [DumpsExactly, requestsExactly_iff _ _ _ _ nonempty asked, toNat_ofInt_eq_iff,
      EcMaster.Scanned]
    simp only [implies_true, and_true]
    omega

/-- In every state of the master and for all arguments, reads and writes of service data
reach exactly the slave that was named, in the time that was given, when their arguments
are refused or keep their values on the way down and name a scanned slave, and in no
other case; dumps likewise, except that they take no timeout. -/
theorem requests_exactly_iff (i : Impl β) (slaveId : Int) (index : UInt16) (subindex : UInt8)
    (data : List UInt8) (timeoutMs : Int) (fuel : Nat) :
    (ReadsExactly i slaveId index subindex data timeoutMs ↔
      TransferSafe i slaveId data timeoutMs) ∧
    (WritesExactly i slaveId index subindex data timeoutMs ↔
      TransferSafe i slaveId data timeoutMs) ∧
    (DumpsExactly i fuel slaveId ↔
      slaveId ≤ 0 ∨ slaveId ≤ i.controller.master.getSlaveCount ∧ slaveId < 65536) :=
  ⟨readsExactly_iff i slaveId index subindex data timeoutMs,
    writesExactly_iff i slaveId index subindex data timeoutMs, dumpsExactly_iff i fuel slaveId⟩

/-- Slave 65537 is slave 1 for SOEM, and slave 2 of a line of one is asked all the same. -/
theorem requests_not_exactly :
    let i := Runs.final perform (fresh ({ slaves := [{}] } : Bench)) [.initializeAdapter {}, .scan]
    ¬ReadsExactly i 65537 0x1018 1 [0, 0, 0, 0] 1000 ∧
      ¬WritesExactly i 2 0x6060 0 [8] 1000 ∧ ¬DumpsExactly i 3 2 := by
  intro i
  rw [readsExactly_iff, writesExactly_iff, dumpsExactly_iff]
  decide

end Impl

end MoEcat
