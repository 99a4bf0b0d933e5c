import MoEcat.IomapSize

/-!
# Isolation of the slaves in the process image

A node copies its whole buffer to the start of its slave's output window and fills its
whole buffer from the start of the input window. The buffers have the sizes that belong
to the detected type; the windows have the sizes that the slave itself asked for. Nothing
compares the two. A cycle is isolated exactly when every buffer is at most as long as its
window; then the bytes for one slave come from its own node alone, in whatever order the
nodes are updated.
-/

namespace MoEcat

open Regions

/-! ## Windows that do not overlap -/

namespace ImageLayout

/-- No two windows of the layout overlap. -/
def Apart (layout : ImageLayout) : Prop :=
  layout.windows.Pairwise fun v w => Disjoint v.addresses w.addresses

/-- The output windows of two slaves do not overlap. -/
def OutputsApart (layout : ImageLayout) (i j : Nat) : Prop :=
  ∀ v ∈ layout.output i, ∀ w ∈ layout.output j, Disjoint v.addresses w.addresses

/-- Being apart is mutual. -/
theorem OutputsApart.symm {layout : ImageLayout} {i j : Nat} (apart : layout.OutputsApart i j) :
    layout.OutputsApart j i :=
  fun v first w second => (apart w second v first).symm

/-- In a layout without overlaps the output windows of all slaves are apart. -/
theorem Apart.outputs {layout : ImageLayout} (apart : layout.Apart) :
    (List.range' 1 layout.slavecount).Pairwise layout.OutputsApart := by
  have windows := (List.pairwise_append.mp apart).1
  rw [outputWindows, List.pairwise_filterMap] at windows
  rw [List.range'_eq_map_range, List.pairwise_map]
  refine windows.imp fun {k l} apart v first w second => ?_
  rw [Nat.add_comm] at first second
  exact apart v first w second

end ImageLayout

variable {β : Type} [Platform β]

/-- The mapping gives all slaves windows that do not overlap. -/
def MapsDisjointly (β : Type) [Platform β] : Prop :=
  ∀ (group : Nat) (ctx : EcContext) (platform : β),
    (Platform.soem (.configMapGroup group) ctx platform).2.1.layout.Apart

/-- Windows that follow one another do not overlap. -/
theorem MapsConsecutively.disjointly (consecutive : MapsConsecutively β) : MapsDisjointly β := by
  intro group ctx platform
  obtain ⟨regions, total, same, laid, -⟩ := consecutive group ctx platform
  exact (same.pairwise_iff fun {v w} apart => apart.symm).mp laid.disjoint

/-! ## One node -/

/-- A copy to or from the image stays inside the window of the slave it is made for. -/
def Event.InOwnWindow (layout : ImageLayout) : Event → Prop
  | .wroteImage slave address length =>
    ∃ window ∈ layout.output slave, (⟨address, length⟩ : Region).addresses ⊆ window.addresses
  | .readImage slave address length =>
    ∃ window ∈ layout.input slave, (⟨address, length⟩ : Region).addresses ⊆ window.addresses
  | _ => True

namespace SlaveNode

/-- The buffers of the detected type are at most as long as the windows of the slave, in
each direction in which it has one. -/
def Fits (layout : ImageLayout) (node : SlaveNode) : Prop :=
  (∀ window ∈ layout.output node.info.slaveId, defaultOutputSize node.info ≤ window.length) ∧
    ∀ window ∈ layout.input node.info.slaveId, defaultInputSize node.info ≤ window.length

/-- A slave has one window at most in each direction, so it can be decided. -/
instance (layout : ImageLayout) (node : SlaveNode) : Decidable (node.Fits layout) :=
  inferInstanceAs (Decidable (_ ∧ _))

variable (ctx : EcContext) {node : SlaveNode}

/-- The copies of a node's outputs stay in its window if and only if the default size fits.
-/
theorem outputEvents_inside_iff (configured : node.configured = true) (default : node.IsDefault) :
    (∀ event ∈ node.outputEvents ctx.slavelist, event.InOwnWindow ctx.layout) ↔
      ∀ window ∈ ctx.layout.output node.info.slaveId,
        defaultOutputSize node.info ≤ window.length := by
  have length := default.length_encoded
  cases window : (ctx.slavelist node.info.slaveId).outputs with
  | none =>
    simp [outputEvents, outputCopy, configured, window, Event.InOwnWindow, EcContext.layout,
      EcSlave.outputWindow]
  | some base =>
    by_cases vacant : node.encoded = []
    · have empty : defaultOutputSize node.info = 0 := by rw [← length, vacant]; rfl
      simp [outputEvents, outputCopy, configured, vacant, empty, Event.InOwnWindow]
    · simp [outputEvents, outputCopy, configured, vacant, window, Event.InOwnWindow,
        EcContext.layout, EcSlave.outputWindow, length, Region.addresses_subset_iff]

/-- The copies of a node's inputs stay in its window if and only if the default size fits. -/
theorem inputEvents_inside_iff (configured : node.configured = true) (default : node.IsDefault) :
    (∀ event ∈ node.inputEvents ctx.slavelist, event.InOwnWindow ctx.layout) ↔
      ∀ window ∈ ctx.layout.input node.info.slaveId,
        defaultInputSize node.info ≤ window.length := by
  have length := default.inputs
  cases window : (ctx.slavelist node.info.slaveId).inputs with
  | none =>
    simp [inputEvents, inputRegion, configured, window, Event.InOwnWindow, EcContext.layout,
      EcSlave.inputWindow]
  | some base =>
    by_cases vacant : node.inputBuffer = []
    · have empty : defaultInputSize node.info = 0 := by rw [← length, vacant]; rfl
      simp [inputEvents, inputRegion, configured, vacant, empty, Event.InOwnWindow]
    · simp [inputEvents, inputRegion, configured, vacant, window, Event.InOwnWindow,
        EcContext.layout, EcSlave.inputWindow, length, Region.addresses_subset_iff]

/-- Where the buffers fit, the copy of a node lies in its slave's window. -/
theorem outputCopy_inside (default : node.IsDefault)
    (fits : ∀ window ∈ ctx.layout.output node.info.slaveId,
      defaultOutputSize node.info ≤ window.length) :
    ∀ copy ∈ node.outputCopy ctx.slavelist,
      ∃ window ∈ ctx.layout.output node.info.slaveId,
        copy.region.addresses ⊆ window.addresses := by
  intro copy made
  rw [outputCopy] at made
  split at made
  · obtain ⟨base, placed, rfl⟩ := Option.map_eq_some_iff.mp made
    have window : ctx.layout.output node.info.slaveId =
        some ⟨base, (ctx.slavelist node.info.slaveId).obytes.toNat⟩ := by
      simp [EcContext.layout, EcSlave.outputWindow, placed]
    refine ⟨_, window, Region.addresses_subset_iff.mpr ?_⟩
    rw [default.length_encoded]
    exact fits _ window
  · cases made

end SlaveNode

/-! ## The outputs of all nodes -/

namespace SlaveNodeManager

/-- The bytes that the frame of a cycle takes along. -/
def sentImage (nodes : List SlaveNode) (m : EcMaster β) : Nat → UInt8 :=
  ((updateAllOutputs nodes).after m).ctx.image

omit [Platform β] in
/-- Where all copies stay in their own windows, the bytes of a window are those that its
own node leaves there. -/
theorem sentImage_own (m : EcMaster β) {nodes : List SlaveNode}
    (inside : ∀ node ∈ nodes, ∀ copy ∈ node.outputCopy m.ctx.slavelist,
      ∃ window ∈ m.ctx.layout.output node.info.slaveId,
        copy.region.addresses ⊆ window.addresses)
    (apart : (nodes.map fun node => node.info.slaveId).Pairwise m.ctx.layout.OutputsApart)
    {node : SlaveNode} (member : node ∈ nodes) {window : Region}
    (own : window ∈ m.ctx.layout.output node.info.slaveId) {a : Nat}
    (within : a ∈ window.addresses) :
    sentImage nodes m a = applyAll (node.outputCopy m.ctx.slavelist).toList m.ctx.image a := by
  obtain ⟨before, after, rfl⟩ := List.append_of_mem member
  rw [List.pairwise_map, List.pairwise_append, List.pairwise_cons] at apart
  obtain ⟨-, ⟨later, -⟩, earlier⟩ := apart
  have others : ∀ other ∈ before ++ after,
      m.ctx.layout.OutputsApart node.info.slaveId other.info.slaveId := by
    intro other member
    rcases List.mem_append.mp member with first | second
    · exact (earlier other first node List.mem_cons_self).symm
    · exact later other second
  have missed : ∀ copy ∈ before.filterMap (SlaveNode.outputCopy m.ctx.slavelist) ++
      after.filterMap (SlaveNode.outputCopy m.ctx.slavelist), a ∉ copy.region.addresses := by
    intro copy made covers
    rw [← List.filterMap_append] at made
    obtain ⟨other, among, copied⟩ := List.mem_filterMap.mp made
    have listed : other ∈ before ++ node :: after := by
      rw [List.mem_append] at among
      rcases among with first | second
      · exact List.mem_append_left _ first
      · exact List.mem_append_right _ (List.mem_cons_of_mem _ second)
    obtain ⟨foreign, theirs, covered⟩ := inside other listed copy copied
    exact Set.disjoint_left.mp (others other among window own foreign theirs) within
      (covered covers)
  have image : sentImage (before ++ node :: after) m = applyAll
      ((before ++ node :: after).filterMap (SlaveNode.outputCopy m.ctx.slavelist))
      m.ctx.image := by
    rw [sentImage, (updateAllOutputs_spec _ m).2]
  rw [image, List.filterMap_append]
  cases copy : node.outputCopy m.ctx.slavelist with
  | none =>
    rw [List.filterMap_cons_none copy]
    exact applyAll_outside missed m.ctx.image
  | some made =>
    rw [List.filterMap_cons_some copy]
    exact applyAll_own missed m.ctx.image

end SlaveNodeManager

/-! ## A cycle -/

namespace EcatController

open SlaveNodeManager (sentImage updateAllOutputs updateAllOutputs_spec)

/-- The events that a cycle records. -/
def cycleEvents (c : EcatController β) : List Event :=
  (ProcessDataEngine.runOnce.after c).master.trace.drop c.master.trace.length

/-- The same node, unless it belongs to another slave: then its axis is acted on. -/
def steerOthers (slave : Nat) (act : SlaveNode → ServoAxis → ServoAxis) (node : SlaveNode) :
    SlaveNode :=
  if node.info.slaveId = slave then node else node.onServoAxis (act node)

/-- A cycle keeps the slaves apart: every copy stays in the window of the slave it is
made for, and the bytes sent to a slave stay the same whatever is done to the axes of the
other slaves and in whatever order the nodes are updated. -/
structure Isolated (c : EcatController β) : Prop where
  confined : ∀ event ∈ c.cycleEvents, event.InOwnWindow c.master.ctx.layout
  independent : ∀ node ∈ c.nodes, ∀ window ∈ c.master.ctx.layout.output node.info.slaveId,
    ∀ (act : SlaveNode → ServoAxis → ServoAxis) (order : List SlaveNode),
      order.Perm (c.nodes.map (steerOthers node.info.slaveId act)) →
      ∀ a ∈ window.addresses, sentImage order c.master a = sentImage c.nodes c.master a

/-- Every buffer is at most as long as the window that it is copied to or from. -/
def Fits (c : EcatController β) : Prop := ∀ node ∈ c.nodes, node.Fits c.master.ctx.layout

omit [Platform β] in
/-- The nodes can be gone through. -/
instance (c : EcatController β) : Decidable (Fits c) :=
  inferInstanceAs (Decidable (∀ node ∈ c.nodes, _))

/-- Whatever the state, preparing a run leads to windows that do not overlap. -/
theorem MapsTo.of_disjointly (disjoint : MapsDisjointly β) (c : EcatController β) :
    MapsTo ImageLayout.Apart c := by
  intro maintained succeeded
  rw [mappedLayout_eq (prepareRun_succeeds c maintained succeeded).1]
  exact disjoint 0 c.master.ctx c.master.platform

/-- Acting on the axes leaves what is known of a slave. -/
theorem info_steerOthers (slave : Nat) (act : SlaveNode → ServoAxis → ServoAxis)
    (node : SlaveNode) : (steerOthers slave act node).info = node.info := by
  unfold steerOthers
  split
  · rfl
  · exact SlaveNode.info_onServoAxis _ node

/-- Acting on the axes leaves the default configuration. -/
theorem isDefault_steerOthers (slave : Nat) (act : SlaveNode → ServoAxis → ServoAxis)
    {node : SlaveNode} (configured : node.configured = true) (default : node.IsDefault) :
    (steerOthers slave act node).IsDefault := by
  unfold steerOthers
  split
  · exact default
  · exact SlaveNode.isDefault_onServoAxis _ (fun _ => default)
      ((SlaveNode.configured_onServoAxis _ node).trans configured)

/-- A cycle records the copies of all outputs, the two calls of the exchange, and the
copies of all inputs, the latter with windows that the exchange left in place. -/
theorem cycleEvents_eq (keeps : KeepsLayout β) {c : EcatController β}
    (operational : c.state = .operational) :
    ∃ (ctx : EcContext) (sent received : Int), ctx.layout = c.master.ctx.layout ∧
      c.cycleEvents = c.nodes.flatMap (SlaveNode.outputEvents c.master.ctx.slavelist) ++
        ([.soem .sendProcessData sent, .soem (.receiveProcessData ecTimeoutRet) received] ++
          (c.nodes.map SlaveNode.sent).flatMap (SlaveNode.inputEvents ctx.slavelist)) := by
  have cycled := congrArg (fun d => d.master.trace) (ProcessDataEngine.runOnce_spec c operational)
  have written := congrArg EcMaster.trace (updateAllOutputs_spec c.nodes c.master).2
  obtain ⟨sent, received, exchanged⟩ :=
    ProcessDataEngine.runOneCycle_trace ((updateAllOutputs c.nodes).after c.master)
  have touches := (SlaveNodeManager.updateAllOutputs_touches c.nodes c.master).1.trans
    (EcMaster.runOneCycle_touches ((updateAllOutputs c.nodes).after c.master))
  refine ⟨_, sent, received, touches.layout_eq keeps, ?_⟩
  simp only at cycled written
  rw [cycleEvents, cycled, exchanged, written, List.append_assoc, List.append_assoc,
    List.drop_left]

/-- All copies of a cycle stay in their windows exactly when every buffer fits. -/
theorem confined_iff_fits (keeps : KeepsLayout β) {c : EcatController β}
    (operational : c.state = .operational)
    (defaults : ∀ node ∈ c.nodes, node.configured = true ∧ node.IsDefault) :
    (∀ event ∈ c.cycleEvents, event.InOwnWindow c.master.ctx.layout) ↔ Fits c := by
  obtain ⟨ctx, sent, received, layout, events⟩ := cycleEvents_eq keeps operational
  have exchange : ∀ event ∈
      [Event.soem .sendProcessData sent, .soem (.receiveProcessData ecTimeoutRet) received],
      event.InOwnWindow c.master.ctx.layout := by simp [Event.InOwnWindow]
  have output : ∀ node ∈ c.nodes,
      ((∀ event ∈ node.outputEvents c.master.ctx.slavelist,
        event.InOwnWindow c.master.ctx.layout) ↔ _) := fun node member =>
    SlaveNode.outputEvents_inside_iff c.master.ctx (defaults node member).1 (defaults node member).2
  have input : ∀ node ∈ c.nodes,
      ((∀ event ∈ node.sent.inputEvents ctx.slavelist,
        event.InOwnWindow c.master.ctx.layout) ↔
          ∀ window ∈ c.master.ctx.layout.input node.info.slaveId,
            defaultInputSize node.info ≤ window.length) := by
    intro node member
    obtain ⟨configured, default⟩ := defaults node member
    have sized := SlaveNode.inputEvents_inside_iff ctx
      ((SlaveNode.configured_sent node).trans configured)
      (SlaveNode.isDefault_sent (fun _ => default)
        ((SlaveNode.configured_sent node).trans configured))
    rw [layout, SlaveNode.info_sent] at sized
    exact sized
  rw [events, List.forall_mem_append, List.forall_mem_append]
  simp only [List.forall_mem_flatMap, List.forall_mem_map]
  constructor
  · rintro ⟨outputs, -, inputs⟩ node member
    exact ⟨(output node member).mp (outputs node member),
      (input node member).mp (inputs node member)⟩
  · intro fits
    exact ⟨fun node member => (output node member).mpr (fits node member).1, exchange,
      fun node member => (input node member).mpr (fits node member).2⟩

omit [Platform β] in
/-- Where every buffer fits, a slave's bytes are those of its own node. -/
theorem independent_of_fits {c : EcatController β}
    (apart : (c.nodes.map fun node => node.info.slaveId).Pairwise c.master.ctx.layout.OutputsApart)
    (defaults : ∀ node ∈ c.nodes, node.configured = true ∧ node.IsDefault) (fits : Fits c)
    {node : SlaveNode} (member : node ∈ c.nodes) {window : Region}
    (own : window ∈ c.master.ctx.layout.output node.info.slaveId)
    (act : SlaveNode → ServoAxis → ServoAxis) {order : List SlaveNode}
    (same : order.Perm (c.nodes.map (steerOthers node.info.slaveId act)))
    {a : Nat} (within : a ∈ window.addresses) :
    sentImage order c.master a = sentImage c.nodes c.master a := by
  have inside : ∀ other ∈ c.nodes, ∀ copy ∈ other.outputCopy c.master.ctx.slavelist,
      ∃ window ∈ c.master.ctx.layout.output other.info.slaveId,
        copy.region.addresses ⊆ window.addresses := fun other among =>
    SlaveNode.outputCopy_inside c.master.ctx (defaults other among).2 (fits other among).1
  have insideSteered : ∀ other ∈ order, ∀ copy ∈ other.outputCopy c.master.ctx.slavelist,
      ∃ window ∈ c.master.ctx.layout.output other.info.slaveId,
        copy.region.addresses ⊆ window.addresses := by
    intro other among
    obtain ⟨before, listed, rfl⟩ := List.mem_map.mp (same.mem_iff.mp among)
    obtain ⟨configured, default⟩ := defaults before listed
    refine SlaveNode.outputCopy_inside c.master.ctx
      (isDefault_steerOthers _ act configured default) ?_
    rw [info_steerOthers]
    exact (fits before listed).1
  have apartSteered : (order.map fun node => node.info.slaveId).Pairwise
      c.master.ctx.layout.OutputsApart := by
    have ids := same.map fun node => node.info.slaveId
    rw [List.map_map] at ids
    have unchanged : (c.nodes.map fun other =>
        (steerOthers node.info.slaveId act other).info.slaveId) =
          c.nodes.map fun other => other.info.slaveId :=
      List.map_congr_left fun other _ => congrArg SlaveInfo.slaveId (info_steerOthers _ act other)
    refine (ids.pairwise_iff fun {i j} apart => apart.symm).mpr ?_
    exact unchanged.symm ▸ apart
  have kept : steerOthers node.info.slaveId act node = node := if_pos rfl
  have listed : node ∈ order :=
    same.mem_iff.mpr (List.mem_map.mpr ⟨node, member, kept⟩)
  rw [SlaveNodeManager.sentImage_own c.master insideSteered apartSteered listed own within,
    SlaveNodeManager.sentImage_own c.master inside apart member own within]

end EcatController

/-! ## Runs -/

namespace Impl

open EcatController (Isolated Fits)

/-- After every run, with any slaves and any use of the axes, a cycle in Operational is
isolated exactly when every buffer fits its window. -/
theorem isolated_iff (keeps : KeepsLayout β) (disjoint : MapsDisjointly β) (platform : β)
    (onStateChanged onRuntimeStateChanged : Bool) (interactions : List Interaction) :
    let start := constructed platform onStateChanged onRuntimeStateChanged
    let c := (Runs.final interact start interactions).controller
    c.state = .operational → (Isolated c ↔ Fits c) := by
  intro start c operational
  have imaged := imaged_final keeps platform onStateChanged onRuntimeStateChanged interactions
    fun entry _ _ => EcatController.MapsTo.of_disjointly disjoint entry.before.controller
  have defaults : ∀ node ∈ c.nodes, node.configured = true ∧ node.IsDefault := by
    intro node member
    have configured := imaged.configured (by rw [operational]; rfl) node member
    exact ⟨configured, imaged.defaults node member configured⟩
  have apart : (c.nodes.map fun node => node.info.slaveId).Pairwise
      c.master.ctx.layout.OutputsApart := by
    rw [imaged.numbered (by rw [operational]; rfl)]
    exact (imaged.laidOut (by rw [operational]; rfl)).outputs
  have confined := EcatController.confined_iff_fits keeps operational defaults
  exact ⟨fun isolated => confined.mp isolated.confined, fun fits =>
    ⟨confined.mpr fits, fun _ member _ own act _ same _ within =>
      EcatController.independent_of_fits apart defaults fits member own act same within⟩⟩

/-- Two drives whose windows are as long as their buffers, one of them driven, and a
digital input and output unit. -/
theorem isolated_bench :
    let bench : Bench :=
      { slaves :=
          [{ eepMan := 0x766, eepId := 0x2000, obytes := 10, ibytes := 10 },
            { name := "DIO 8", obytes := 1, ibytes := 1 },
            { name := "Servo drive", obytes := 12, ibytes := 16 }] }
    let start := constructed bench false false
    Isolated (Runs.final interact start (intoOperation ++
      [.steer fun _ axis => axis.setTargetPosition 2, .call (.operation .service)])).controller :=
  (isolated_iff Bench.keepsLayout Bench.mapsConsecutively.disjointly _ false false _
    (by decide +kernel)).mpr (by decide +kernel)

/-- A drive of the known make that maps two output bytes only: its ten bytes run over the
window of the drive behind it. -/
theorem not_isolated :
    let bench : Bench :=
      { slaves :=
          [{ eepMan := 0x766, eepId := 0x2000, obytes := 2, ibytes := 10 },
            { eepMan := 0x766, eepId := 0x2000, obytes := 10, ibytes := 10 }] }
    let start := constructed bench false false
    let c := (Runs.final interact start intoOperation).controller
    KeepsLayout Bench ∧ MapsDisjointly Bench ∧ c.state = .operational ∧ ¬Isolated c := by
  refine ⟨Bench.keepsLayout, Bench.mapsConsecutively.disjointly, by decide +kernel,
    fun isolated => ?_⟩
  obtain ⟨window, own, inside⟩ := isolated.confined (.wroteImage 1 0 10) (by decide +kernel)
  obtain rfl : window = ⟨0, 2⟩ := Option.some.inj (own.symm.trans (by decide +kernel))
  exact absurd (Region.addresses_subset_iff.mp inside) (by decide)

end Impl

end MoEcat
