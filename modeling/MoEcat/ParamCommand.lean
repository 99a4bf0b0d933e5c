import MoEcat.Numerals
import MoEcat.RawFields
import MoEcat.SdoRequests
import Mathlib.Data.List.Basic

/-!
# The param command

The command line writes one parameter of 32 bits to all slaves. Its three words are
converted by the standard library, and two of the three numbers are compared with the
range of what they are for. The conversion takes more than numerals, and the value is cut
to 32 bits, so some command lines that are no parameter at all are sent to every drive.
-/

namespace MoEcat

open Numerals (stoul wholeNumeral StoulError)

namespace EcatApplication

variable {β : Type}

/-- Why a command line is refused. -/
inductive ParamRefusal where
  | usage
  | indexOutOfRange (word : String)
  | subindexOutOfRange (word : String)
  | invalid (error : StoulError)
deriving DecidableEq, Repr

/-- What is logged then. Both errors of the conversion carry its name only. -/
def ParamRefusal.message : ParamRefusal → String
  | .usage => "Usage: param <index> <subindex> <value>"
  | .indexOutOfRange word => "Index out of range: " ++ word ++ " (must be <= 0xFFFF)"
  | .subindexOutOfRange word => "Subindex out of range: " ++ word ++ " (must be <= 0xFF)"
  | .invalid _ => "Invalid param argument: stoul\nUsage: param <index> <subindex> <value>"

/-- The words as numbers. The value is cut to 32 bits. -/
def parseParam (index subindex value : String) :
    Except ParamRefusal (UInt16 × UInt8 × UInt32) := do
  let rawIndex ← (stoul index).mapError .invalid
  let rawSubindex ← (stoul subindex).mapError .invalid
  let rawValue ← (stoul value).mapError .invalid
  if rawIndex > 0xFFFF then .error (.indexOutOfRange index)
  else if rawSubindex > 0xFF then .error (.subindexOutOfRange subindex)
  else .ok (UInt16.ofNat rawIndex, UInt8.ofNat rawSubindex, UInt32.ofNat rawValue)

/-- The four bytes of a value. -/
def paramData (value : UInt32) : List UInt8 :=
  [(value &&& 0xFF).toUInt8, ((value >>> 8) &&& 0xFF).toUInt8,
    ((value >>> 16) &&& 0xFF).toUInt8, ((value >>> 24) &&& 0xFF).toUInt8]

variable [Platform β]

/-- Write to the slaves of these numbers, one after another whether or not one fails, and
log how each write went. -/
def writeToSlaves (index : UInt16) (subindex : UInt8) (data : List UInt8) :
    List Nat → Program (Impl β) (List String)
  | [] => return []
  | i :: rest => do
    let ok ← Impl.writeSdo (narrowInt i) index subindex data 1000
    let line := "Slave " ++ toString i ++
      if ok then " parameter write OK" else " parameter write failed"
    return line :: (← writeToSlaves index subindex data rest)

/-- The command, with the lines that it logs. The first word is not looked at. -/
def onParam (args : List String) : Program (Impl β) (List String) :=
  match args with
  | [_, index, subindex, value] =>
    match parseParam index subindex value with
    | .error refusal => return [refusal.message]
    | .ok (index, subindex, value) => do
      let i ← get
      let header := "Writing parameter 0x" ++ hex index.toNat ++ ":" ++ hex subindex.toNat ++
        " = 0x" ++ hex value.toNat ++ " to all slaves"
      return header ::
        (← writeToSlaves index subindex (paramData value) (List.range' 1 i.getSlaveCount))
  | _ => return [ParamRefusal.usage.message]

/-! ## What was typed -/

/-- A write as a slave sees it: whom it reaches, what it writes to, and how many bytes of
which value. -/
structure ParamWrite where
  slave : Nat
  index : Nat
  subindex : Nat
  size : Nat
  value : Nat
deriving DecidableEq, Repr

end EcatApplication

open EcatApplication (ParamWrite)

/-- The download that an event is: its slave, its object, and the value with its size. -/
def Event.paramWrite : Event → Option ParamWrite
  | .soem (.sdoWrite slave index subindex _ _ data _) _ =>
    some ⟨slave.toNat, index.toNat, subindex.toNat, data.length, unsignedLittleEndian data⟩
  | _ => none

namespace EcatApplication

variable {β : Type}

/-- The parameter that three words name: numerals in the ranges of an index, a subindex and
a value. -/
def typedParam (index subindex value : String) : Option (Nat × Nat × Nat) :=
  match wholeNumeral index.toList, wholeNumeral subindex.toList, wholeNumeral value.toList with
  | some x, some y, some z =>
    if x ≤ 0xFFFF ∧ y ≤ 0xFF ∧ z ≤ 0xFFFFFFFF then some (x, y, z) else none
  | _, _, _ => none

/-- The writes that were typed: one to each slave, or none where the words do not name a
parameter. -/
def typedWrites (count : Nat) (index subindex value : String) : List ParamWrite :=
  match typedParam index subindex value with
  | some (x, y, z) => (List.range' 1 count).map fun slave => ⟨slave, x, y, 4, z⟩
  | none => []

/-- A command line writes exactly what was typed, or nothing. -/
def WritesTyped [Platform β] (i : Impl β) (command index subindex value : String) : Prop :=
  (Impl.caused i ((onParam [command, index, subindex, value]).after i)).filterMap
      Event.paramWrite =
    typedWrites i.getSlaveCount index subindex value

/-- The command accepts its three words, as these numbers. -/
structure Accepted (index subindex value : String) (x y z : Nat) : Prop where
  index : stoul index = .ok x
  subindex : stoul subindex = .ok y
  value : stoul value = .ok z
  indexInRange : x ≤ 0xFFFF
  subindexInRange : y ≤ 0xFF

/-- Accepted words are parsed as the numbers that they are accepted for. -/
theorem parseParam_of_accepted {index subindex value : String} {x y z : Nat}
    (accepted : Accepted index subindex value x y z) :
    parseParam index subindex value =
      .ok (UInt16.ofNat x, UInt8.ofNat y, UInt32.ofNat z) := by
  obtain ⟨first, second, third, indexInRange, subindexInRange⟩ := accepted
  rw [parseParam, first, second, third]
  change (if x > 0xFFFF then _ else if y > 0xFF then _ else _) = _
  rw [if_neg (Nat.not_lt_of_le indexInRange), if_neg (Nat.not_lt_of_le subindexInRange)]

/-- What comes out of two conversions comes out of both, whatever their errors are called. -/
theorem ok_of_mapError_bind {ε δ α γ : Type} {converted : Except ε α} {wrap : ε → δ}
    {next : α → Except δ γ} {c : γ} (ok : (converted.mapError wrap >>= next) = .ok c) :
    ∃ a, converted = .ok a ∧ next a = .ok c := by
  cases converted with
  | error error => cases ok
  | ok a => exact ⟨a, rfl, ok⟩

/-- Other words are refused. -/
theorem accepted_of_parseParam {index subindex value : String} {numbers : UInt16 × UInt8 × UInt32}
    (parsed : parseParam index subindex value = .ok numbers) :
    ∃ x y z, Accepted index subindex value x y z := by
  obtain ⟨x, first, parsed⟩ := ok_of_mapError_bind parsed
  obtain ⟨y, second, parsed⟩ := ok_of_mapError_bind parsed
  obtain ⟨z, third, parsed⟩ := ok_of_mapError_bind parsed
  refine ⟨x, y, z, first, second, third, ?_, ?_⟩
  · apply Nat.le_of_not_lt
    intro wide
    rw [if_pos wide] at parsed
    cases parsed
  · apply Nat.le_of_not_lt
    intro high
    rw [if_pos high] at parsed
    split at parsed <;> cases parsed

/-- Words name a parameter exactly when they are accepted, are numerals as a whole, and
the value takes no more than 32 bits. -/
theorem typedParam_eq_some_iff (index subindex value : String) (x y z : Nat) :
    typedParam index subindex value = some (x, y, z) ↔
      Accepted index subindex value x y z ∧
        (∀ word ∈ [index, subindex, value], (wholeNumeral word.toList).isSome) ∧ z ≤ 0xFFFFFFFF := by
  rw [typedParam]
  constructor
  · intro typed
    split at typed
    · rename_i first second third
      split at typed
      · rename_i bounds
        obtain ⟨rfl, rfl, rfl⟩ : _ = x ∧ _ = y ∧ _ = z := by simpa using typed
        obtain ⟨indexInRange, subindexInRange, valueInRange⟩ := bounds
        refine ⟨⟨?_, ?_, ?_, indexInRange, subindexInRange⟩, ?_, valueInRange⟩
        · exact Numerals.stoul_of_whole_of_lt first (by omega)
        · exact Numerals.stoul_of_whole_of_lt second (by omega)
        · exact Numerals.stoul_of_whole_of_lt third (by omega)
        · simp [first, second, third]
      · cases typed
    · cases typed
  · rintro ⟨accepted, whole, valueInRange⟩
    have first := Numerals.whole_of_stoul accepted.index (whole index (by simp))
    have second := Numerals.whole_of_stoul accepted.subindex (whole subindex (by simp))
    have third := Numerals.whole_of_stoul accepted.value (whole value (by simp))
    rw [first, second, third]
    exact if_pos ⟨accepted.indexInRange, accepted.subindexInRange, valueInRange⟩

/-! ## What is sent -/

/-- The four bytes of a parameter read back as its value. -/
theorem unsignedLittleEndian_paramData (value : UInt32) :
    unsignedLittleEndian (paramData value) = value.toNat := by
  have bound := value.toNat_lt
  have mask : ∀ n : Nat, n &&& 255 = n % 256 := fun n => Nat.and_two_pow_sub_one_eq_mod n 8
  simp only [paramData, unsignedLittleEndian, List.foldr_cons, List.foldr_nil,
    UInt32.toNat_toUInt8, UInt32.toNat_and, UInt32.toNat_shiftRight, UInt32.reduceToNat, mask,
    Nat.shiftRight_eq_div_pow, Nat.reduceMod, Nat.reducePow]
  omega

variable [Platform β]

/-- The write to a slave of this number, which is cut on the way down. -/
def paramWrite (index : UInt16) (subindex : UInt8) (data : List UInt8) (n : Nat) :
    Option ParamWrite :=
  if narrowInt n ≤ 0 then none
  else some ⟨(UInt16.ofInt (narrowInt n)).toNat, index.toNat, subindex.toNat, data.length,
    unsignedLittleEndian data⟩

/-- One write, which is not made if the cut number is not positive. -/
theorem writeSdo_caused (index : UInt16) (subindex : UInt8) {data : List UInt8}
    (nonempty : data ≠ []) (n : Nat) (i : Impl β) :
    ∃ events, ((Impl.writeSdo (narrowInt n) index subindex data 1000).after
        i).controller.master.trace = i.controller.master.trace ++ events ∧
      events.filterMap Event.paramWrite = (paramWrite index subindex data n).toList := by
  rw [Impl.writeSdo, Program.after_ite, paramWrite]
  by_cases refused : narrowInt n ≤ 0
  · rw [if_pos (.inl refused), if_pos refused]
    exact ⟨[], by simp, rfl⟩
  · rw [if_neg (not_or.mpr ⟨refused, nonempty⟩), if_neg refused]
    exact ⟨[_], rfl, rfl⟩

/-- The loop makes the downloads to its slaves, in their order. The induction is on the
slaves. -/
theorem writeToSlaves_caused (index : UInt16) (subindex : UInt8) {data : List UInt8}
    (nonempty : data ≠ []) (slaves : List Nat) (i : Impl β) :
    ∃ events, ((writeToSlaves index subindex data slaves).after i).controller.master.trace =
        i.controller.master.trace ++ events ∧
      events.filterMap Event.paramWrite = slaves.filterMap (paramWrite index subindex data) := by
  induction slaves generalizing i with
  | nil => exact ⟨[], by simp [writeToSlaves], rfl⟩
  | cons n rest inductionHypothesis =>
    obtain ⟨first, grown, shown⟩ := writeSdo_caused index subindex nonempty n i
    obtain ⟨later, grown', shown'⟩ := inductionHypothesis
      ((Impl.writeSdo (narrowInt n) index subindex data 1000).after i)
    refine ⟨first ++ later, ?_, ?_⟩
    · rw [writeToSlaves, Program.after_bind, Program.after_bind, Program.after_pure, grown',
        grown, List.append_assoc]
    · rw [List.filterMap_append, shown, shown']
      cases sent : paramWrite index subindex data n <;> simp [sent]

/-- The numbers of up to 65535 slaves reach them as they are. -/
theorem filterMap_paramWrite_iff (index : UInt16) (subindex : UInt8) (data : List UInt8)
    (count : Nat) :
    (List.range' 1 count).filterMap (paramWrite index subindex data) =
        (List.range' 1 count).map (fun slave => ⟨slave, index.toNat, subindex.toNat, data.length,
          unsignedLittleEndian data⟩) ↔
      count ≤ 65535 := by
  constructor
  · intro same
    by_contra many
    have named : (⟨65536, index.toNat, subindex.toNat, data.length, unsignedLittleEndian data⟩ :
        ParamWrite) ∈ (List.range' 1 count).filterMap (paramWrite index subindex data) := by
      rw [same]
      exact List.mem_map_of_mem (List.mem_range'_1.mpr (by omega))
    obtain ⟨n, -, sent⟩ := List.mem_filterMap.mp named
    rw [paramWrite] at sent
    split at sent
    · cases sent
    · have cut := congrArg ParamWrite.slave (Option.some.inj sent)
      exact absurd cut (Nat.ne_of_lt (UInt16.toNat_lt _))
  · intro few
    rw [← List.filterMap_eq_map]
    apply List.filterMap_congr
    intro n member
    obtain ⟨first, last⟩ := List.mem_range'_1.mp member
    have kept : narrowInt n = n := (narrowInt_eq_iff n).mpr (by omega)
    have uncut := (toNat_ofInt_eq_iff n).mpr (by omega)
    rw [paramWrite, kept, if_neg (by omega), Function.comp_apply, Int.ofNat_inj.mp uncut]

/-- What an accepted command line sends. -/
theorem sent_of_accepted {index subindex value : String} {x y z : Nat}
    (accepted : Accepted index subindex value x y z) (i : Impl β) (command : String) :
    (Impl.caused i ((onParam [command, index, subindex, value]).after i)).filterMap
        Event.paramWrite =
      (List.range' 1 i.getSlaveCount).filterMap
        (paramWrite (UInt16.ofNat x) (UInt8.ofNat y) (paramData (UInt32.ofNat z))) := by
  have nonempty : paramData (UInt32.ofNat z) ≠ [] := List.cons_ne_nil _ _
  obtain ⟨events, grown, shown⟩ := writeToSlaves_caused (UInt16.ofNat x) (UInt8.ofNat y) nonempty
    (List.range' 1 i.getSlaveCount) i
  rw [← shown, Impl.caused_eq]
  simp only [onParam, parseParam_of_accepted accepted, Program.after_bind, Program.result_get,
    Program.after_get, Program.after_pure, grown]

/-- Words that are not accepted cause no download. -/
theorem sent_of_refused {index subindex value : String}
    (refused : ∀ x y z, ¬Accepted index subindex value x y z) (i : Impl β) (command : String) :
    (Impl.caused i ((onParam [command, index, subindex, value]).after i)).filterMap
        Event.paramWrite = [] := by
  have same : (onParam [command, index, subindex, value]).after i = i := by
    cases parsed : parseParam index subindex value with
    | error refusal => simp only [onParam, parsed, Program.after_pure]
    | ok numbers =>
      obtain ⟨x, y, z, accepted⟩ := accepted_of_parseParam parsed
      exact absurd accepted (refused x y z)
  rw [same, Impl.caused, List.drop_length]
  rfl

/-- Words that name no parameter ask for no download. -/
theorem typedWrites_of_none {index subindex value : String} (count : Nat)
    (unnamed : ∀ x y z, typedParam index subindex value ≠ some (x, y, z)) :
    typedWrites count index subindex value = [] := by
  rw [typedWrites]
  split
  · rename_i x y z named
    exact absurd named (unnamed x y z)
  · rfl

/-- An accepted command line is sent as it was typed where its words name a parameter and
the slaves have numbers of 16 bits, or where there is nobody to send it to. -/
theorem writesTyped_iff_of_accepted {index subindex value : String} {x y z : Nat}
    (accepted : Accepted index subindex value x y z) (i : Impl β) (command : String) :
    WritesTyped i command index subindex value ↔
      i.getSlaveCount = 0 ∨
        (∀ word ∈ [index, subindex, value], (wholeNumeral word.toList).isSome) ∧ z ≤ 0xFFFFFFFF ∧
          i.getSlaveCount ≤ 65535 := by
  rw [WritesTyped, sent_of_accepted accepted]
  by_cases named : (∀ word ∈ [index, subindex, value], (wholeNumeral word.toList).isSome) ∧
      z ≤ 0xFFFFFFFF
  · have typed := (typedParam_eq_some_iff index subindex value x y z).mpr ⟨accepted, named⟩
    have indexKept : (UInt16.ofNat x).toNat = x :=
      UInt16.toNat_ofNat_of_lt' (Nat.lt_succ_of_le accepted.indexInRange)
    have subindexKept : (UInt8.ofNat y).toNat = y :=
      UInt8.toNat_ofNat_of_lt' (Nat.lt_succ_of_le accepted.subindexInRange)
    have valueKept : (UInt32.ofNat z).toNat = z :=
      UInt32.toNat_ofNat_of_lt' (Nat.lt_succ_of_le named.2)
    have sent := filterMap_paramWrite_iff (UInt16.ofNat x) (UInt8.ofNat y)
      (paramData (UInt32.ofNat z)) i.getSlaveCount
    have length : (paramData (UInt32.ofNat z)).length = 4 := rfl
    rw [unsignedLittleEndian_paramData, indexKept, subindexKept, valueKept, length] at sent
    rw [typedWrites, typed]
    refine sent.trans ⟨fun few => .inr ⟨named.1, named.2, few⟩, ?_⟩
    rintro (nobody | ⟨-, -, few⟩)
    · omega
    · exact few
  · have unnamed : ∀ x' y' z', typedParam index subindex value ≠ some (x', y', z') := by
      intro x' y' z' typed
      obtain ⟨accepted', named'⟩ := (typedParam_eq_some_iff index subindex value x' y' z').mp typed
      obtain rfl := Except.ok.inj (accepted'.value.symm.trans accepted.value)
      exact named named'
    rw [typedWrites_of_none _ unnamed]
    constructor
    · intro nothing
      left
      by_contra somebody
      have first := List.filterMap_eq_nil_iff.mp nothing 1 (List.mem_range'_1.mpr (by omega))
      cases first
    · rintro (nobody | ⟨whole, small, -⟩)
      · rw [nobody]
        rfl
      · exact absurd ⟨whole, small⟩ named

/-- For every state of the master and all words, the command writes exactly what was typed,
or nothing, if the master has no slaves, or if the words are refused, or if they are whole
numerals, the value takes no more than 32 bits and the numbers of the slaves no more than
16; and in no other case. -/
theorem writes_typed_iff (i : Impl β) (command index subindex value : String) :
    WritesTyped i command index subindex value ↔
      i.getSlaveCount = 0 ∨ ∀ x y z, Accepted index subindex value x y z →
        (∀ word ∈ [index, subindex, value], (wholeNumeral word.toList).isSome) ∧ z ≤ 0xFFFFFFFF ∧
          i.getSlaveCount ≤ 65535 := by
  by_cases accepts : ∃ x y z, Accepted index subindex value x y z
  · obtain ⟨x, y, z, accepted⟩ := accepts
    rw [writesTyped_iff_of_accepted accepted i command]
    refine or_congr_right ⟨fun safe x' y' z' accepted' => ?_, fun safe => safe x y z accepted⟩
    obtain rfl := Except.ok.inj (accepted'.value.symm.trans accepted.value)
    exact safe
  · have refused : ∀ x y z, ¬Accepted index subindex value x y z := fun x y z accepted =>
      accepts ⟨x, y, z, accepted⟩
    refine iff_of_true ?_ (.inr fun x y z accepted => absurd accepted (refused x y z))
    rw [WritesTyped, sent_of_refused refused, typedWrites_of_none]
    intro x y z typed
    exact refused x y z ((typedParam_eq_some_iff index subindex value x y z).mp typed).1

/-- A value of more than 32 bits, the mark of base 16 without digits of that base, and a
sign: all three are sent to the slave of a master in maintenance. -/
theorem writes_not_typed :
    let i := Runs.final Impl.perform (Impl.fresh ({ slaves := [{}] } : Bench))
      [.initializeAdapter {}, .scan, .enterMaintenance]
    i.getState = .maintenance ∧ ¬WritesTyped i "param" "0x2000" "0" "0x100000001" ∧
      ¬WritesTyped i "param" "0xzz" "0" "1" ∧ ¬WritesTyped i "param" "0x6060" "0" "-1" := by
  intro i
  have large : Accepted "0x2000" "0" "0x100000001" 0x2000 0 0x100000001 :=
    ⟨by decide, by decide, by decide, by decide, by decide⟩
  have rest : Accepted "0xzz" "0" "1" 0 0 1 :=
    ⟨by decide, by decide, by decide, by decide, by decide⟩
  have signed : Accepted "0x6060" "0" "-1" 0x6060 0 0xFFFFFFFFFFFFFFFF :=
    ⟨by decide, by decide, by decide, by decide, by decide⟩
  have one : i.getSlaveCount = 1 := by decide
  refine ⟨by decide, ?_, ?_, ?_⟩
  · rw [writesTyped_iff_of_accepted large, one]
    decide
  · rw [writesTyped_iff_of_accepted rest, one]
    decide
  · rw [writesTyped_iff_of_accepted signed, one]
    decide

end EcatApplication

end MoEcat
