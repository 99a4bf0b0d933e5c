import MoEcat.ImageLayout
import Mathlib.Data.List.Basic

/-!
# The size of the process image

SOEM lays the windows of all slaves out one after another and answers how many bytes
they take. It does not know how long the master's buffer is, and the master only logs the
answer, so an image that does not fit is accepted like any other. Preparing a run guards
the buffer exactly when the image fits or the run is refused for another reason, and as
long as that is so, no window ever lies outside the buffer.
-/

namespace MoEcat

open Regions

/-- The mapping places the windows of all slaves one after another from the start of the
image, in some order, and answers the number of bytes that they take. -/
def MapsConsecutively (β : Type) [Platform β] : Prop :=
  ∀ (group : Nat) (ctx : EcContext) (platform : β),
    let answer := Platform.soem (.configMapGroup group) ctx platform
    ∃ (regions : List Region) (total : Nat), regions.Perm answer.2.1.layout.windows ∧
      Consecutive 0 regions total ∧ answer.1.result = total

/-- Every window lies inside the buffer. -/
def ImageLayout.InsideIomap (layout : ImageLayout) : Prop :=
  ∀ window ∈ layout.windows, window.addresses ⊆ Set.Ico 0 iomapSize

variable {β : Type} [Platform β]

namespace EcatController

/-- The number of bytes that the mapping of a run's preparation answers. -/
def mappedSize (c : EcatController β) : Int :=
  ((EcMaster.soem (.configMapGroup 0)).result c.master).result

/-- On a populated bus the preparation begins with that call and that answer. -/
theorem prepareRun_maps (c : EcatController β) (maintained : c.state = .maintenance)
    (populated : c.master.ctx.slavecount ≠ 0) :
    ∃ rest, (prepareRun.after c).master.trace =
      c.master.trace ++ .soem (.configMapGroup 0) c.mappedSize :: rest := by
  have mapped : (EcMaster.configureProcessData.after c.master).trace =
      c.master.trace ++ [.soem (.configMapGroup 0) c.mappedSize] := by
    simp [EcMaster.configureProcessData, populated]
    rfl
  have continued : ∀ {m m' : EcMaster β} {marks : List Mark},
      EcMaster.Touches m m' marks →
      m.trace = (EcMaster.configureProcessData.after c.master).trace →
      ∃ rest, m'.trace = c.master.trace ++ .soem (.configMapGroup 0) c.mappedSize :: rest := by
    intro m m' marks touches same
    obtain ⟨added, grown, -⟩ := touches.grows
    exact ⟨added, by rw [grown, same, mapped, List.append_assoc]; rfl⟩
  obtain ⟨asked, asking, -⟩ :=
    confirmSafeOp_confirms (EcMaster.configureProcessData.after c.master)
  rcases prepareRun_spec c maintained with ⟨vacant, -⟩ | ⟨-, -, -, same⟩ | ⟨-, -, -, same⟩
  · exact absurd vacant populated
  · obtain ⟨m, faulted, reading⟩ := enterFault_after
      { c with
        nodes := (SlaveNodeManager.configureAll c.nodes).2
        master := confirmSafeOp.after (EcMaster.configureProcessData.after c.master) }
    rw [same, faulted]
    exact continued (asking.trans reading) rfl
  · obtain ⟨clocks, setting, -⟩ := (EcMaster.configureDc_touches
      (confirmSafeOp.after (EcMaster.configureProcessData.after c.master))).1
    rw [same]
    exact continued (asking.trans setting) rfl

/-- Preparing a run keeps the image inside the buffer: it succeeds only if the image
fits, and an image that does not fit ends in a fault. -/
structure PrepareGuardsIomap (c : EcatController β) : Prop where
  accepted : (prepareRun.after c).state = .readyToRun → c.mappedSize ≤ iomapSize
  rejected : iomapSize < c.mappedSize → (prepareRun.after c).state = .fault

/-- There is nothing to map, or the image fits, or the bus does not confirm SAFE_OP after
the mapping. -/
def IomapSafe (c : EcatController β) : Prop :=
  c.master.ctx.slavecount = 0 ∨ c.mappedSize ≤ iomapSize ∨
    confirmSafeOp.result (EcMaster.configureProcessData.after c.master) = false

/-- The three parts can be decided. -/
instance (c : EcatController β) : Decidable (IomapSafe c) :=
  inferInstanceAs (Decidable (_ ∨ _ ∨ _))

/-- The preparation compares the size with nothing, so only these conditions guard. -/
theorem prepareGuardsIomap_iff (c : EcatController β) (maintained : c.state = .maintenance) :
    PrepareGuardsIomap c ↔ IomapSafe c := by
  have faults : ∀ d : EcatController β, (enterFault.after d).state = .fault := by
    intro d
    obtain ⟨m, same, -⟩ := enterFault_after d
    rw [same]
  have guards : (prepareRun.after c).state = .fault → PrepareGuardsIomap c := by
    intro faulted
    exact ⟨fun reached => by simp [faulted] at reached, fun _ => faulted⟩
  rcases prepareRun_spec c maintained with
    ⟨vacant, -, same⟩ | ⟨-, unconfirmed, -, same⟩ | ⟨populated, confirmed, -, same⟩
  · exact ⟨fun _ => .inl vacant, fun _ => guards (by rw [same]; exact faults _)⟩
  · exact ⟨fun _ => .inr (.inr unconfirmed), fun _ => guards (by rw [same]; exact faults _)⟩
  · have reached : (prepareRun.after c).state = .readyToRun := by rw [same]
    constructor
    · exact fun guarded => .inr (.inl (guarded.accepted reached))
    · rintro (vacant | fits | unconfirmed)
      · exact absurd vacant populated
      · exact ⟨fun _ => fits, fun tooLarge => absurd fits (Int.not_le.mpr tooLarge)⟩
      · simp [confirmed] at unconfirmed

/-- Consecutive windows that take no more bytes than the buffer has lie inside it. -/
theorem insideIomap_mappedLayout (consecutive : MapsConsecutively β) {c : EcatController β}
    (populated : c.master.ctx.slavecount ≠ 0) (fits : c.mappedSize ≤ iomapSize) :
    c.mappedLayout.InsideIomap := by
  obtain ⟨regions, total, same, laid, answered⟩ :=
    consecutive 0 c.master.ctx c.master.platform
  have size : c.mappedSize = total := answered
  rw [mappedLayout_eq populated]
  intro window member
  obtain ⟨first, last⟩ := laid.bounds window (same.mem_iff.mpr member)
  exact Region.addresses_subset first (by omega)

/-- A safe preparation that succeeds lays the image out inside the buffer. -/
theorem IomapSafe.mapsTo (consecutive : MapsConsecutively β) {c : EcatController β}
    (safe : c.state = .maintenance → IomapSafe c) : MapsTo ImageLayout.InsideIomap c := by
  intro maintained succeeded
  obtain ⟨populated, confirmed⟩ := prepareRun_succeeds c maintained succeeded
  rcases safe maintained with vacant | fits | unconfirmed
  · exact absurd vacant populated
  · exact insideIomap_mappedLayout consecutive populated fits
  · simp [confirmed] at unconfirmed

end EcatController

/-! ## The bench satisfies the assumptions -/

namespace Bench

/-- On the bench only a scan and a mapping change the windows. -/
theorem keepsLayout : KeepsLayout Bench where
  ordinary := by
    intro call ordinary ctx bench
    match call with
    | .writeState 0 requested =>
      have broadcasts : (Platform.soem (.writeState 0 requested) ctx bench).2.1 =
          if requested ∈ bench.refused then ctx else broadcast ctx := rfl
      rw [broadcasts]
      split <;> rfl
    | .readState | .stateCheck 0 _ _ => exact ctx.layout_setState 0 _
    | .writeState (_ + 1) _ | .stateCheck (_ + 1) _ _ | .configDc | .sendProcessData
    | .receiveProcessData _ | .sdoRead .. | .sdoWrite .. => rfl
  mapping := fun _ _ _ => rfl

/-- The bench maps one window after the other. -/
theorem mapsConsecutively : MapsConsecutively Bench := by
  intro group ctx bench answer
  have outputs := consecutive_packed 0 bench.outputSize ctx.slavecount
  have inputs := consecutive_packed (bench.outputBase ctx.slavecount) bench.inputSize
    ctx.slavecount
  rw [Nat.zero_add] at outputs
  have outputWindows : answer.2.1.layout.outputWindows = (List.range ctx.slavecount).filterMap
      fun k => if bench.outputSize k = 0 then none
        else some ⟨0 + ((List.range k).map bench.outputSize).sum, bench.outputSize k⟩ := by
    apply List.filterMap_congr
    intro k _
    have window : answer.2.1.layout.output (k + 1) =
        (if bench.outputSize k = 0 then none else some (bench.outputBase k)).map
          fun base => ⟨base, bench.outputSize k⟩ := rfl
    rw [window, Nat.zero_add]
    split <;> rfl
  have inputWindows : answer.2.1.layout.inputWindows = (List.range ctx.slavecount).filterMap
      fun k => if bench.inputSize k = 0 then none
        else some ⟨bench.outputBase ctx.slavecount + ((List.range k).map bench.inputSize).sum,
          bench.inputSize k⟩ := by
    apply List.filterMap_congr
    intro k _
    have window : answer.2.1.layout.input (k + 1) =
        (if bench.inputSize k = 0 then none
          else some (bench.inputBase ctx.slavecount k)).map
          fun base => ⟨base, bench.inputSize k⟩ := rfl
    rw [window]
    split <;> rfl
  refine ⟨_, _, .refl _, ?_, rfl⟩
  rw [ImageLayout.windows, outputWindows, inputWindows]
  exact outputs.append inputs

end Bench

/-! ## Runs -/

namespace Impl

open EcatController (PrepareGuardsIomap IomapSafe)

/-- A preparation guards the buffer exactly when it is safe; and in every run whose
preparations are all safe, every window lies inside the buffer whenever there is a
process image. -/
theorem iomap_guarded_iff (keeps : KeepsLayout β) (consecutive : MapsConsecutively β) :
    (∀ c : EcatController β, c.state = .maintenance → (PrepareGuardsIomap c ↔ IomapSafe c)) ∧
    ∀ (platform : β) (onStateChanged onRuntimeStateChanged : Bool)
      (interactions : List Interaction),
      let start := constructed platform onStateChanged onRuntimeStateChanged
      let c := (Runs.final interact start interactions).controller
      (∀ entry ∈ Runs.history interact start interactions, entry.operation.prepares = true →
        entry.before.controller.state = .maintenance → IomapSafe entry.before.controller) →
      c.state.holdsImage = true → c.master.ctx.layout.InsideIomap := by
  refine ⟨EcatController.prepareGuardsIomap_iff, ?_⟩
  intro platform onStateChanged onRuntimeStateChanged interactions start c safe holds
  have imaged := imaged_final keeps platform onStateChanged onRuntimeStateChanged interactions
    fun entry member asked => IomapSafe.mapsTo consecutive (safe entry member asked)
  exact imaged.laidOut holds

/-- The calls that take a constructed master to Operational, with one cycle. -/
def intoOperation : List Interaction :=
  [.call (.operation (.initializeAdapter {})), .call (.operation .scan),
    .call (.operation .enterMaintenance), .call (.operation .prepareRun),
    .call (.operation .startOperation), .call (.operation .service)]

/-- Two drives with windows of ten bytes each way fit. -/
theorem iomap_guarded_bench :
    let start := constructed
      (Bench.mk [{ obytes := 10, ibytes := 10 }, { obytes := 10, ibytes := 10 }] [] 0) false false
    let c := (Runs.final interact start intoOperation).controller
    c.state = .operational ∧ c.master.ctx.layout.InsideIomap :=
  ⟨by decide +kernel,
    (iomap_guarded_iff Bench.keepsLayout Bench.mapsConsecutively).2 _ false false intoOperation
      (by decide +kernel) (by decide +kernel)⟩

/-- Five slaves with a thousand output bytes each do not fit. The preparation succeeds
nevertheless, the last window crosses the end of the buffer, and cycles are run on it. -/
theorem iomap_not_guarded :
    let bench : Bench := { slaves := List.replicate 5 { obytes := 1000 } }
    let start := constructed bench false false
    let maintained := (Runs.final interact start (intoOperation.take 3)).controller
    let c := (Runs.final interact start intoOperation).controller
    KeepsLayout Bench ∧ MapsConsecutively Bench ∧ maintained.state = .maintenance ∧
      ¬PrepareGuardsIomap maintained ∧ c.state = .operational ∧
      ¬c.master.ctx.layout.InsideIomap := by
  refine ⟨Bench.keepsLayout, Bench.mapsConsecutively, by decide +kernel, fun guarded => ?_,
    by decide +kernel, fun inside => ?_⟩
  · exact absurd (guarded.accepted (by decide +kernel)) (by decide +kernel)
  · have window := inside ⟨4000, 1000⟩ (by decide +kernel)
    have last : (4999 : Nat) ∈ (⟨4000, 1000⟩ : Region).addresses :=
      Region.mem_addresses.mpr (by decide)
    exact absurd (window last).2 (by decide)

end Impl

end MoEcat
