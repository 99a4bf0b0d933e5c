import MoEcat.LifecycleRefinement
import MoEcat.Bench

/-!
# The scan as an identity gate

A configuration lists by position which slaves it expects. The scan should let only a
topology pass that has a slave at every expected position, agreeing with every field of
the expectation that is not a wildcard. The code compares two of the four fields, and
only at the positions that both lists have; what it leaves out is stated exactly.
-/

namespace MoEcat

section Positions

variable {ε δ : Type}

/-- Every position of the first list has a related element at it in the second. -/
def MatchedBy (agrees : ε → δ → Prop) (expected : List ε) (found : List δ) : Prop :=
  ∀ (i : Nat) wanted, expected[i]? = some wanted → ∃ actual, found[i]? = some actual ∧ agrees wanted actual

/-- A list is matched exactly when the other is long enough and all common positions
are related. -/
theorem matchedBy_iff (agrees : ε → δ → Prop) (expected : List ε) (found : List δ) :
    MatchedBy agrees expected found ↔
      expected.length ≤ found.length ∧ ∀ pair ∈ expected.zip found, agrees pair.1 pair.2 := by
  constructor
  · intro matched
    refine ⟨?_, fun pair member => ?_⟩
    · by_contra short
      have within : found.length < expected.length := Nat.lt_of_not_le short
      obtain ⟨actual, present, -⟩ := matched _ _ (List.getElem?_eq_getElem within)
      simp at present
    · obtain ⟨i, paired⟩ := List.mem_iff_getElem?.mp member
      obtain ⟨wanted, present⟩ := List.getElem?_zip_eq_some.mp paired
      obtain ⟨actual, same, agreed⟩ := matched i pair.1 wanted
      obtain rfl : pair.2 = actual := Option.some.inj (present.symm.trans same)
      exact agreed
  · rintro ⟨long, related⟩ i wanted present
    obtain ⟨bound, -⟩ := List.getElem?_eq_some_iff.mp present
    have found_i := List.getElem?_eq_getElem (Nat.lt_of_lt_of_le bound long)
    exact ⟨_, found_i, related (wanted, _)
      (List.mem_of_getElem? (List.getElem?_zip_eq_some.mpr ⟨present, found_i⟩))⟩

end Positions

/-- A field of an expectation is met when it is a wildcard or equals the actual one. -/
def fieldAgrees (expected actual : UInt32) : Prop := expected ≠ 0 → actual = expected

/-- Zero agrees with all values, so two numbers decide. -/
instance (expected actual : UInt32) : Decidable (fieldAgrees expected actual) :=
  inferInstanceAs (Decidable (expected ≠ 0 → actual = expected))

/-- All four identifying fields are met. -/
structure SlaveIdentity.Agrees (expected : SlaveIdentity) (actual : SlaveInfo) : Prop where
  vendor : fieldAgrees expected.vendorId actual.vendorId
  product : fieldAgrees expected.productId actual.productId
  revision : fieldAgrees expected.revisionId actual.revisionId
  serial : fieldAgrees expected.serialId actual.serialId

/-- The topology that a configuration describes: the expected number of slaves, if one
is expected, and a slave that agrees at every expected position. -/
def MatchesTopology (config : EcMasterConfig) (infos : List SlaveInfo) : Prop :=
  (0 < config.expectedSlaveCount → (infos.length : Int) = config.expectedSlaveCount) ∧
    MatchedBy SlaveIdentity.Agrees config.expectedIdentities infos

/-- What the scan does not look at, found in order: no expectation lies beyond the last
slave, and no common position differs in revision or serial number. -/
def UncheckedAgrees (config : EcMasterConfig) (infos : List SlaveInfo) : Prop :=
  config.expectedIdentities.length ≤ infos.length ∧
    ∀ pair ∈ config.expectedIdentities.zip infos,
      fieldAgrees pair.1.revisionId pair.2.revisionId ∧
        fieldAgrees pair.1.serialId pair.2.serialId

/-- The two parts can be decided by going through the list. -/
instance (config : EcMasterConfig) (infos : List SlaveInfo) :
    Decidable (UncheckedAgrees config infos) :=
  inferInstanceAs (Decidable (_ ∧ _))

namespace EcatController

/-- The three parts can be decided. -/
instance (config : EcMasterConfig) (infos : List SlaveInfo) : Decidable (Accepts config infos) :=
  inferInstanceAs (Decidable (_ ∧ _ ∧ _))

/-- The comparison looks at the vendor and the product. -/
theorem identityMismatch_eq_false (expected : SlaveIdentity) (actual : SlaveInfo) :
    identityMismatch expected actual = false ↔
      fieldAgrees expected.vendorId actual.vendorId ∧
        fieldAgrees expected.productId actual.productId := by
  simp only [identityMismatch, fieldAgrees, Bool.or_eq_false_iff, Bool.and_eq_false_imp, bne_iff_ne,
    bne_eq_false_iff_eq]

/-- Of an accepted topology only the unchecked part remains to be in order. -/
theorem Accepts.matches_iff {config : EcMasterConfig} {infos : List SlaveInfo}
    (accepts : Accepts config infos) :
    MatchesTopology config infos ↔ UncheckedAgrees config infos := by
  obtain ⟨-, counted, compared⟩ := accepts
  have count : 0 < config.expectedSlaveCount →
      (infos.length : Int) = config.expectedSlaveCount := by omega
  have checked : ∀ pair ∈ config.expectedIdentities.zip infos,
      fieldAgrees pair.1.vendorId pair.2.vendorId ∧
        fieldAgrees pair.1.productId pair.2.productId := by
    intro pair member
    rw [← identityMismatch_eq_false]
    simpa using fun mismatch => compared (List.any_eq_true.mpr ⟨pair, member, mismatch⟩)
  rw [MatchesTopology, matchedBy_iff, UncheckedAgrees]
  constructor
  · rintro ⟨-, long, agreed⟩
    exact ⟨long, fun pair member => ⟨(agreed pair member).revision, (agreed pair member).serial⟩⟩
  · rintro ⟨long, agreed⟩
    refine ⟨count, long, fun pair member => ?_⟩
    exact ⟨(checked pair member).1, (checked pair member).2, (agreed pair member).1,
      (agreed pair member).2⟩

variable {β : Type} [Platform β]

/-- The scan passes only the topology that the configuration describes, and otherwise
fails back to Uninitialized. -/
def ScanGates (c : EcatController β) : Prop :=
  scan.result c = true ∧ MatchesTopology c.config (EcMaster.scanSlaves.result c.master) ∨
    scan.result c = false ∧ (scan.after c).state = .uninitialized

/-- Whatever is expected and whatever is found, the scan is a gate exactly when the found
slaves are refused by what it checks or in order in what it leaves out. -/
theorem scan_gates_iff (c : EcatController β) (ready : c.state = .adapterReady) :
    ScanGates c ↔
      (Accepts c.config (EcMaster.scanSlaves.result c.master) →
        UncheckedAgrees c.config (EcMaster.scanSlaves.result c.master)) := by
  rcases scan_spec c ready with ⟨accepts, passed, -⟩ | ⟨refused, failed, same⟩
  · have gates : ScanGates c ↔
        MatchesTopology c.config (EcMaster.scanSlaves.result c.master) := by
      simp [ScanGates, passed]
    rw [gates, accepts.matches_iff]
    exact ⟨fun agreed _ => agreed, fun agreed => agreed accepts⟩
  · obtain ⟨m, marks, shut, -⟩ := doShutdown_after
      { c with
        master := EcMaster.scanSlaves.after c.master
        slaveInfos := EcMaster.scanSlaves.result c.master }
    have vacant : (scan.after c).state = .uninitialized := by rw [same, shut]
    exact ⟨fun _ accepts => absurd accepts refused, fun _ => .inr ⟨failed, vacant⟩⟩

/-- A scan that passes a topology which is not in order where it does not look. -/
theorem not_scanGates (c : EcatController β) (passed : scan.result c = true)
    (accepts : Accepts c.config (EcMaster.scanSlaves.result c.master))
    (disagrees : ¬UncheckedAgrees c.config (EcMaster.scanSlaves.result c.master)) :
    ¬ScanGates c := by
  rintro (⟨-, matched⟩ | ⟨failed, -⟩)
  · exact disagrees (accepts.matches_iff.mp matched)
  · simp [passed] at failed

/-- A controller that is ready to scan a bench. -/
def readyToScan (bench : Bench) (config : EcMasterConfig) : EcatController Bench :=
  (initializeAdapter config).after (fresh bench)

/-- Two slaves of the expected kinds pass, the second one being expected only by its
vendor. -/
theorem scan_gates_bench :
    ScanGates (readyToScan
      { slaves := [{ eepMan := 0x766, eepId := 0x2000, eepRev := 3 }, { eepMan := 0x9a }] }
      { expectedSlaveCount := 2
        expectedIdentities := [{ vendorId := 0x766, productId := 0x2000 }, { vendorId := 0x9a }] }) :=
  (scan_gates_iff _ rfl).mpr fun _ => by decide

/-- A drive of another hardware revision passes, and so does a line whose expected second
slave is missing. -/
theorem scan_not_gate :
    ¬ScanGates (readyToScan
        { slaves := [{ eepMan := 0x766, eepRev := 1 }] }
        { expectedIdentities := [{ vendorId := 0x766, revisionId := 2 }] }) ∧
      ¬ScanGates (readyToScan
        { slaves := [{ eepMan := 0x766 }] }
        { expectedIdentities := [{ vendorId := 0x766 }, { vendorId := 0x766 }] }) :=
  ⟨not_scanGates _ (by decide) (by decide) (by decide),
    not_scanGates _ (by decide) (by decide) (by decide)⟩

end EcatController

end MoEcat
