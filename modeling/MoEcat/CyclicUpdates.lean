import MoEcat.MasterRefinement
import MoEcat.Regions

/-!
# What a cycle does to the nodes, the process image and the record

A cycle is computed here without the program that performs it: each node contributes a
copy of its encoded targets into the process image and a copy out of it, the copies are
made in node order, and each node keeps the configuration that its detected type gave
it, with buffers of the sizes that belong to that configuration.
-/

namespace MoEcat

/-! ## Buffers keep their size -/

/-- A resized buffer has the new size. -/
theorem length_resize (buffer : List UInt8) (size : Nat) : (resize buffer size).length = size := by
  simp only [resize, List.length_append, List.length_take, List.length_replicate]
  omega

/-- Writing within a buffer leaves its size. -/
theorem length_overwrite {buffer : List UInt8} {offset : Nat} {value : List UInt8}
    (within : offset + value.length ≤ buffer.length) :
    (overwrite buffer offset value).length = buffer.length := by
  simp only [overwrite, List.length_append, List.length_take, List.length_drop]
  omega

/-- An entry that lies inside the buffer is written in place. -/
theorem length_writeRaw {buffer : List UInt8} {entry : Option PdoEntry} {value : List UInt8}
    (within : ∀ e, entry = some e → e.offset.toNat + e.size.toNat ≤ buffer.length) :
    (writeRaw buffer entry value).2.length = buffer.length := by
  cases entry with
  | none => rfl
  | some e =>
    by_cases sized : e.size = value.length
    · have room := within e rfl
      simp only [sized, Int.toNat_natCast] at room
      simp [writeRaw, sized, length_overwrite room]
    · simp [writeRaw, sized]

/-- A profile encodes its targets in place when all entries lie inside the buffer. -/
theorem length_encodePdoOutput (profile : DeviceProfile) (mapping : PdoMapping)
    (buffer : List UInt8)
    (within : ∀ e ∈ mapping.outputs, e.offset.toNat + e.size.toNat ≤ buffer.length) :
    (profile.encodePdoOutput mapping buffer).length = buffer.length := by
  have inPlace : ∀ (other : List UInt8) (name : String) (value : List UInt8),
      other.length = buffer.length →
      (writeRaw other (findEntry mapping.outputs name) value).2.length = buffer.length := by
    intro other name value same
    rw [← same]
    apply length_writeRaw
    intro e found
    rw [same]
    exact within e (List.mem_of_find?_eq_some found)
  cases profile with
  | servo axis => exact inPlace _ _ _ (inPlace _ _ _ (inPlace _ _ _ rfl))
  | digitalIo => rfl
  | analogIo => rfl
  | unknown => rfl

/-! ## Default configurations -/

/-- The configuration that a node is given when it is configured. -/
def defaultConfig (info : SlaveInfo) : SlaveConfig :=
  SlaveConfigFactory.createConfig {} info (SlaveTypeDetector.detect {} info)

/-- The mapping depends on the type alone, since the name only labels the axis. -/
theorem mapping_defaultConfig (info : SlaveInfo) :
    (defaultConfig info).mapping =
      (SlaveConfigFactory.createConfig {} {} (SlaveTypeDetector.detect {} info)).mapping := by
  unfold defaultConfig
  cases SlaveTypeDetector.detect {} info <;> rfl

/-- The sizes of the buffers that belong to it. -/
def defaultOutputSize (info : SlaveInfo) : Nat :=
  SlaveNode.computeOutputSize (defaultConfig info).mapping

/-- The input size that the default mapping of a slave comes to. -/
def defaultInputSize (info : SlaveInfo) : Nat :=
  SlaveNode.computeInputSize (defaultConfig info).mapping

/-- All entries of a default mapping lie inside the buffer sized from it. -/
theorem defaultConfig_within (info : SlaveInfo) :
    ∀ e ∈ (defaultConfig info).mapping.outputs,
      e.offset.toNat + e.size.toNat ≤ defaultOutputSize info := by
  rw [defaultOutputSize, mapping_defaultConfig]
  cases SlaveTypeDetector.detect {} info <;> decide

namespace SlaveNode

/-- A node that has been configured and used since: it has the default configuration of
its slave and buffers of the sizes that belong to it. -/
structure IsDefault (node : SlaveNode) : Prop where
  config : node.config = some (defaultConfig node.info)
  outputs : node.outputBuffer.length = defaultOutputSize node.info
  inputs : node.inputBuffer.length = defaultInputSize node.info

/-- Encoding keeps the size of the buffer. -/
theorem IsDefault.length_encoded {node : SlaveNode} (default : node.IsDefault) :
    node.encoded.length = defaultOutputSize node.info := by
  unfold encoded
  cases node.profile with
  | none => exact default.outputs
  | some profile =>
    have sized := length_encodePdoOutput profile node.getConfig.mapping node.outputBuffer (by
      rw [getConfig, default.config, default.outputs]
      exact defaultConfig_within node.info)
    exact sized.trans default.outputs

/-- Configuring a node gives it its default configuration, or leaves the one that it has. -/
theorem isDefault_configureNode (node : SlaveNode)
    (default : node.configured = true → node.IsDefault) :
    (SlaveNodeManager.configureNode node).2.IsDefault := by
  unfold SlaveNodeManager.configureNode configure
  by_cases done : node.configured = true
  · simpa [done] using default done
  · simp only [done]
    exact ⟨rfl, length_resize _ _, length_resize _ _⟩

/-! ## One node's part in a cycle -/

/-- The copy that a node makes into the process image. -/
def outputCopy (slaves : Nat → EcSlave) (node : SlaveNode) : Option (Regions.Copy UInt8) :=
  if node.configured = true ∧ node.encoded ≠ [] then
    (slaves node.info.slaveId).outputs.map fun base => ⟨base, node.encoded⟩
  else none

/-- What its output update records. -/
def outputEvents (slaves : Nat → EcSlave) (node : SlaveNode) : List Event :=
  if node.configured = true then
    .updateOutput node.info.slaveId :: (node.outputCopy slaves).toList.map fun copy =>
      .wroteImage node.info.slaveId copy.address copy.data.length
  else []

/-- The node after its output update. -/
def sent (node : SlaveNode) : SlaveNode :=
  if node.configured = true then { node with outputBuffer := node.encoded } else node

/-- The region of the process image that a node copies out of it. -/
def inputRegion (slaves : Nat → EcSlave) (node : SlaveNode) : Option Regions.Region :=
  if node.configured = true ∧ node.inputBuffer ≠ [] then
    (slaves node.info.slaveId).inputs.map fun base => ⟨base, node.inputBuffer.length⟩
  else none

/-- What its input update records. -/
def inputEvents (slaves : Nat → EcSlave) (node : SlaveNode) : List Event :=
  if node.configured = true then
    .updateInput node.info.slaveId :: (node.inputRegion slaves).toList.map fun region =>
      .readImage node.info.slaveId region.base region.length
  else []

/-- The input buffer after the copy. -/
def copied (ctx : EcContext) (node : SlaveNode) : List UInt8 :=
  match node.inputRegion ctx.slavelist with
  | none => node.inputBuffer
  | some region => ctx.load region.base region.length

/-- The node after its input update. -/
def received (ctx : EcContext) (node : SlaveNode) : SlaveNode :=
  if node.configured = true then
    { node with inputBuffer := node.copied ctx, profile := node.decoded (node.copied ctx) }
  else node

/-- Sending keeps what is known of the slave. -/
theorem info_sent (node : SlaveNode) : node.sent.info = node.info := by
  unfold sent
  split <;> rfl

/-- Sending keeps whether the node is configured. -/
theorem configured_sent (node : SlaveNode) : node.sent.configured = node.configured := by
  unfold sent
  split <;> rfl

/-- Receiving keeps what is known of the slave. -/
theorem info_received (ctx : EcContext) (node : SlaveNode) :
    (node.received ctx).info = node.info := by
  unfold received
  split <;> rfl

/-- Receiving keeps whether the node is configured. -/
theorem configured_received (ctx : EcContext) (node : SlaveNode) :
    (node.received ctx).configured = node.configured := by
  unfold received
  split <;> rfl

/-- Sending keeps the default configuration. -/
theorem isDefault_sent {node : SlaveNode} (default : node.configured = true → node.IsDefault)
    (done : node.sent.configured = true) : node.sent.IsDefault := by
  by_cases configured : node.configured = true
  · have kept := default configured
    simp only [sent, configured, if_true]
    exact ⟨kept.config, kept.length_encoded, kept.inputs⟩
  · simp [sent, configured] at done

/-- What is copied from the image has the size of the buffer. -/
theorem length_copied (ctx : EcContext) (node : SlaveNode) :
    (node.copied ctx).length = node.inputBuffer.length := by
  unfold copied
  cases region : node.inputRegion ctx.slavelist with
  | none => rfl
  | some r =>
    simp only [inputRegion] at region
    split at region
    · obtain ⟨base, -, rfl⟩ := Option.map_eq_some_iff.mp region
      simp [EcContext.load]
    · cases region

/-- Receiving keeps the default configuration. -/
theorem isDefault_received (ctx : EcContext) {node : SlaveNode}
    (default : node.configured = true → node.IsDefault)
    (done : (node.received ctx).configured = true) : (node.received ctx).IsDefault := by
  by_cases configured : node.configured = true
  · have kept := default configured
    simp only [received, configured, if_true]
    exact ⟨kept.config, kept.outputs, (length_copied ctx node).trans kept.inputs⟩
  · simp [received, configured] at done

/-! ## Access to the axis -/

/-- What is done to the axis leaves what is known of the slave. -/
theorem info_onServoAxis (act : ServoAxis → ServoAxis) (node : SlaveNode) :
    (node.onServoAxis act).info = node.info := by
  unfold onServoAxis
  split <;> rfl

/-- What is done to the axis leaves whether the node is configured. -/
theorem configured_onServoAxis (act : ServoAxis → ServoAxis) (node : SlaveNode) :
    (node.onServoAxis act).configured = node.configured := by
  unfold onServoAxis
  split <;> rfl

/-- Acting on an axis changes neither the configuration nor the buffers. -/
theorem isDefault_onServoAxis (act : ServoAxis → ServoAxis) {node : SlaveNode}
    (default : node.configured = true → node.IsDefault)
    (done : (node.onServoAxis act).configured = true) : (node.onServoAxis act).IsDefault := by
  rw [configured_onServoAxis] at done
  obtain ⟨config, outputs, inputs⟩ := default done
  unfold onServoAxis
  split
  · exact ⟨config, outputs, inputs⟩
  · exact ⟨config, outputs, inputs⟩

end SlaveNode

variable {β : Type}

namespace SlaveNodeManager

open Regions

/-- The step that the output traversal performs on one node. -/
theorem updateOutput_spec (node : SlaveNode) (m : EcMaster β) :
    let step : Program (EcMaster β) SlaveNode :=
      if node.configured then node.updatePdoOutput else pure node
    step.result m = node.sent ∧
      step.after m =
        { m with
          trace := m.trace ++ node.outputEvents m.ctx.slavelist
          ctx := { m.ctx with
            image := applyAll (node.outputCopy m.ctx.slavelist).toList m.ctx.image } } := by
  intro step
  by_cases configured : node.configured = true
  · have chosen : step = node.updatePdoOutput := if_pos configured
    rw [chosen]
    refine ⟨by simp [SlaveNode.updatePdoOutput, SlaveNode.sent, configured], ?_⟩
    by_cases vacant : node.encoded = []
    · simp [SlaveNode.updatePdoOutput, SlaveNode.outputEvents, SlaveNode.outputCopy, configured,
        vacant, EcMaster.note, applyAll]
    · cases window : (m.ctx.slavelist node.info.slaveId).outputs with
      | none =>
        simp [SlaveNode.updatePdoOutput, SlaveNode.outputEvents, SlaveNode.outputCopy, configured,
          vacant, EcMaster.note, EcMaster.writeOutput, window, applyAll]
      | some base =>
        simp [SlaveNode.updatePdoOutput, SlaveNode.outputEvents, SlaveNode.outputCopy, configured,
          vacant, EcMaster.note, EcMaster.writeOutput, window, applyAll, EcContext.store]
        rfl
  · have chosen : step = pure node := if_neg configured
    rw [chosen]
    simp [SlaveNode.sent, SlaveNode.outputEvents, SlaveNode.outputCopy, configured, applyAll]

/-- The step that the input traversal performs on one node. -/
theorem updateInput_spec (node : SlaveNode) (m : EcMaster β) :
    let step : Program (EcMaster β) SlaveNode :=
      if node.configured then node.updatePdoInput else pure node
    step.result m = node.received m.ctx ∧
      step.after m = { m with trace := m.trace ++ node.inputEvents m.ctx.slavelist } := by
  intro step
  by_cases configured : node.configured = true
  · have chosen : step = node.updatePdoInput := if_pos configured
    rw [chosen]
    by_cases vacant : node.inputBuffer = []
    · simp [SlaveNode.updatePdoInput, SlaveNode.received, SlaveNode.copied,
        SlaveNode.inputEvents, SlaveNode.inputRegion, configured, vacant, EcMaster.note]
    · cases window : (m.ctx.slavelist node.info.slaveId).inputs with
      | none =>
        simp [SlaveNode.updatePdoInput, SlaveNode.received, SlaveNode.copied,
          SlaveNode.inputEvents, SlaveNode.inputRegion, configured, vacant, window,
          EcMaster.note, EcMaster.readInput]
      | some base =>
        simp [SlaveNode.updatePdoInput, SlaveNode.received, SlaveNode.copied,
          SlaveNode.inputEvents, SlaveNode.inputRegion, configured, vacant, window,
          EcMaster.note, EcMaster.readInput]
  · have chosen : step = pure node := if_neg configured
    rw [chosen]
    simp [SlaveNode.received, SlaveNode.inputEvents, configured]

/-- All outputs are encoded, recorded and copied in node order. The copies do not move
the windows, so those of the start serve for all nodes. -/
theorem updateAllOutputs_spec (nodes : List SlaveNode) (m : EcMaster β) :
    (updateAllOutputs nodes).result m = nodes.map SlaveNode.sent ∧
      (updateAllOutputs nodes).after m =
        { m with
          trace := m.trace ++ nodes.flatMap (SlaveNode.outputEvents m.ctx.slavelist)
          ctx := { m.ctx with
            image := applyAll (nodes.filterMap (SlaveNode.outputCopy m.ctx.slavelist))
              m.ctx.image } } := by
  unfold updateAllOutputs
  induction nodes generalizing m with
  | nil => exact ⟨rfl, by simp [applyAll]⟩
  | cons node rest inductionHypothesis =>
    obtain ⟨encoded, written⟩ := updateOutput_spec node m
    obtain ⟨others, copied⟩ := inductionHypothesis
      (Program.after (if node.configured then node.updatePdoOutput else pure node) m)
    simp only [List.mapM_cons, Program.result_bind, Program.after_bind, Program.result_pure,
      Program.after_pure, encoded, others, copied]
    refine ⟨rfl, ?_⟩
    simp only [written, List.flatMap_cons, List.append_assoc]
    cases copy : node.outputCopy m.ctx.slavelist with
    | none => simp [copy, applyAll]
    | some c => simp [copy, applyAll]

/-- All inputs are recorded and copied in node order, and change nothing on the bus. -/
theorem updateAllInputs_spec (nodes : List SlaveNode) (m : EcMaster β) :
    (updateAllInputs nodes).result m = nodes.map (SlaveNode.received m.ctx) ∧
      (updateAllInputs nodes).after m =
        { m with trace := m.trace ++ nodes.flatMap (SlaveNode.inputEvents m.ctx.slavelist) } := by
  unfold updateAllInputs
  induction nodes generalizing m with
  | nil => exact ⟨rfl, by simp⟩
  | cons node rest inductionHypothesis =>
    obtain ⟨decoded, read⟩ := updateInput_spec node m
    obtain ⟨others, copied⟩ := inductionHypothesis
      (Program.after (if node.configured then node.updatePdoInput else pure node) m)
    simp only [List.mapM_cons, Program.result_bind, Program.after_bind, Program.result_pure,
      Program.after_pure, decoded, others, copied]
    simp only [read, List.map_cons, List.flatMap_cons, List.append_assoc, and_self]

end SlaveNodeManager

namespace ProcessDataEngine

variable [Platform β]

/-- A cycle: the outputs, one exchange on the bus, and the inputs with the memory that
the exchange left. -/
theorem runOnce_spec (c : EcatController β) (operational : c.state = .operational) :
    let sent := (SlaveNodeManager.updateAllOutputs c.nodes).after c.master
    let exchanged := EcMaster.runOneCycle.after sent
    let inputs := (c.nodes.map SlaveNode.sent).flatMap
      (SlaveNode.inputEvents exchanged.ctx.slavelist)
    runOnce.after c =
      { c with
        master := { exchanged with trace := exchanged.trace ++ inputs }
        nodes := (c.nodes.map SlaveNode.sent).map (SlaveNode.received exchanged.ctx) } := by
  intro sent exchanged inputs
  have encoded := (SlaveNodeManager.updateAllOutputs_spec c.nodes c.master).1
  obtain ⟨decoded, read⟩ :=
    SlaveNodeManager.updateAllInputs_spec (c.nodes.map SlaveNode.sent) exchanged
  simp only [runOnce, Program.after_bind, Program.result_get, Program.after_get,
    operational, ne_eq, not_true, if_false, EcatController.result_onMaster,
    EcatController.after_onMaster, Program.after_modify, encoded]
  rw [decoded, read]

/-- The exchange records its two calls. -/
theorem runOneCycle_trace (m : EcMaster β) :
    ∃ sent received, (EcMaster.runOneCycle.after m).trace = m.trace ++
      [.soem .sendProcessData sent, .soem (.receiveProcessData ecTimeoutRet) received] :=
  ⟨_, _, List.append_assoc ..⟩

end ProcessDataEngine

end MoEcat
