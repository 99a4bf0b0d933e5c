import MoEcat.ImageIsolation
import MoEcat.ServoCodec

/-!
# What a cycle means for a drive

A caller sets targets on the axis of a drive and reads actual values from it, in
engineering units. Between the two lie the encoding of the targets, the copies of all
nodes into one image, the exchange on the bus, the copies out of the image and the
decoding of the feedback. Seen from the drive, a cycle is one exchange: the raw values
of its three targets, in its own output window, for the raw values of its three actual
values, in its own input window.
-/

namespace MoEcat

open Regions

namespace ServoField

/-- Where the default mapping of a drive has the field, in both directions. -/
def start : ServoField → Nat
  | .position => 0
  | .velocity => 4
  | .torque => 8

/-- Every field ends within the ten bytes of the layout. -/
theorem stop_le (field : ServoField) : field.start + field.size ≤ 10 := by
  cases field <;> decide

end ServoField

/-- One exchange between the axis of a drive and the bus: the image that is sent carries
the setpoints in the output window of the slave, the image that comes back carries the
actual values in its input window, and what was set on the axis stays. -/
structure DriveExchange (layout : ImageLayout) (slave : Nat) (sent received : Nat → UInt8)
    (before after : ServoAxis) : Prop where
  commanded : ∀ window ∈ layout.output slave, ∀ field : ServoField,
    block sent (window.base + field.start) field.size =
      littleEndian field.size (before.setpoint field).raw
  reported : ∀ window ∈ layout.input slave, ∀ field : ServoField,
    after.actual field =
      signedLittleEndian (block received (window.base + field.start) field.size) *
        before.config.scale field * before.config.direction
  config : after.config = before.config
  target : ∀ field, after.target field = before.target field

namespace SlaveNode

section Drives

variable {node : SlaveNode} {axis : ServoAxis}

/-- A node that hands out an axis stands for a drive. -/
theorem drive_of_axis (default : node.IsDefault) (held : node.getServoAxis = some axis) :
    node.profile = some (.servo axis) ∧ SlaveTypeDetector.detect {} node.info = .servo := by
  unfold getServoAxis at held
  split at held
  · rename_i config axis' configured profile
    obtain ⟨servo, same⟩ := Option.ite_none_right_eq_some.mp held
    obtain rfl : axis' = axis := Option.some.inj same
    refine ⟨profile, ?_⟩
    rw [default.config] at configured
    obtain rfl := Option.some.inj configured
    unfold defaultConfig at servo
    cases detected : SlaveTypeDetector.detect {} node.info <;> rw [detected] at servo <;>
      first | rfl | cases servo
  · cases held

/-- A drive with its default configuration and a servo profile has an axis. -/
theorem axis_of_drive (config : node.config = some (defaultConfig node.info))
    (drive : SlaveTypeDetector.detect {} node.info = .servo)
    (profile : node.profile = some (.servo axis)) : node.getServoAxis = some axis := by
  have servo : (defaultConfig node.info).type = .servo := by
    rw [defaultConfig, drive]
    rfl
  rw [getServoAxis, config, profile]
  exact if_pos servo

/-- The default mapping of a drive is the servo mapping. -/
theorem mapping_of_drive {info : SlaveInfo} (drive : SlaveTypeDetector.detect {} info = .servo) :
    (defaultConfig info).mapping = (SlaveConfigFactory.makeServoConfig {} "").mapping := by
  rw [mapping_defaultConfig, drive]
  rfl

/-- A drive has ten bytes each way. -/
theorem sizes_of_drive {info : SlaveInfo} (drive : SlaveTypeDetector.detect {} info = .servo) :
    defaultOutputSize info = 10 ∧ defaultInputSize info = 10 := by
  rw [defaultOutputSize, defaultInputSize, mapping_of_drive drive]
  decide

/-- The layout of every drive's default mapping. -/
def driveLayout : ServoLayout (SlaveConfigFactory.makeServoConfig {} "").mapping :=
  SlaveConfigFactory.servoLayout {} ""

/-- A field stands in a drive's window where it stands in the layout. -/
theorem start_driveLayout (field : ServoField) : driveLayout.start field = field.start := by
  cases field <;> rfl

/-- A drive's node in its default configuration is mapped as a servo. -/
theorem getConfig_mapping (default : node.IsDefault)
    (drive : SlaveTypeDetector.detect {} node.info = .servo) :
    node.getConfig.mapping = (SlaveConfigFactory.makeServoConfig {} "").mapping := by
  rw [getConfig, default.config, Option.getD_some, mapping_of_drive drive]

/-- The output buffer that is sent holds the setpoints. -/
theorem bytesAt_encoded (default : node.IsDefault) (held : node.getServoAxis = some axis)
    (field : ServoField) :
    bytesAt node.encoded field.start field.size =
      littleEndian field.size (axis.setpoint field).raw := by
  obtain ⟨profile, drive⟩ := drive_of_axis default held
  have inside : driveLayout.Inside node.outputBuffer := by
    intro field
    rw [start_driveLayout, default.outputs, (sizes_of_drive drive).1]
    exact field.stop_le
  have encoded : node.encoded = DeviceProfile.encodePdoOutput (.servo axis)
      (SlaveConfigFactory.makeServoConfig {} "").mapping node.outputBuffer := by
    rw [SlaveNode.encoded, profile, getConfig_mapping default drive]
  rw [encoded, ← start_driveLayout]
  exact driveLayout.bytes_encodePdoOutput axis inside field

/-- The axis of a drive is decoded from the block at the start of its input window. -/
theorem axis_received (configured : node.configured = true) (default : node.IsDefault)
    (held : node.getServoAxis = some axis) (ctx : EcContext) :
    ∃ after, (node.sent.received ctx).getServoAxis = some after ∧ after.config = axis.config ∧
      (∀ field, after.target field = axis.target field) ∧
      ∀ window ∈ ctx.layout.input node.info.slaveId, ∀ field : ServoField,
        after.actual field =
          signedLittleEndian (block ctx.image (window.base + field.start) field.size) *
            axis.config.scale field * axis.config.direction := by
  obtain ⟨profile, drive⟩ := drive_of_axis default held
  have sized : node.inputBuffer.length = 10 := by rw [default.inputs, (sizes_of_drive drive).2]
  have nonempty : node.inputBuffer ≠ [] := by
    intro empty
    simp [empty] at sized
  obtain ⟨after, decodes, config, actual⟩ :=
    driveLayout.actual_decodePdoInput axis (node.sent.copied ctx)
  have sentNode : node.sent = { node with outputBuffer := node.encoded } := if_pos configured
  have decoded : node.sent.decoded (node.sent.copied ctx) = some (.servo after) := by
    have kept : node.sent.profile = node.profile ∧ node.sent.getConfig = node.getConfig := by
      rw [sentNode]
      exact ⟨rfl, rfl⟩
    rw [SlaveNode.decoded, kept.1, kept.2, profile, getConfig_mapping default drive,
      Option.map_some, decodes]
  have same : node.sent.received ctx =
      { node.sent with inputBuffer := node.sent.copied ctx, profile := some (.servo after) } := by
    rw [received, if_pos (by rw [configured_sent]; exact configured), decoded]
  refine ⟨after, ?_, config, ?_, ?_⟩
  · rw [same]
    apply axis_of_drive
    · simp only [sentNode, default.config]
    · simp only [sentNode, drive]
    · rfl
  · intro field
    rw [← DeviceProfile.servo.inj decodes]
    cases field <;> rfl
  · intro window own field
    obtain ⟨base, address, rfl⟩ := Option.map_eq_some_iff.mp own
    have copied : node.sent.copied ctx = block ctx.image base 10 := by
      have region : node.sent.inputRegion ctx.slavelist = some ⟨base, 10⟩ := by
        simp [inputRegion, sentNode, configured, nonempty, address, sized]
      rw [SlaveNode.copied, region]
      rfl
    rw [actual, ServoLayout.bytes, start_driveLayout, copied, bytesAt,
      take_drop_block _ _ field.stop_le]

end Drives

end SlaveNode

variable {β : Type} [Platform β]

namespace EcatController

open SlaveNodeManager (sentImage updateAllOutputs updateAllOutputs_spec)

/-- The image that the exchange of a cycle leaves. -/
def receivedImage (c : EcatController β) : Nat → UInt8 :=
  (EcMaster.runOneCycle.after ((updateAllOutputs c.nodes).after c.master)).ctx.image

omit [Platform β] in
/-- Where the windows are apart and long enough, a drive's setpoints arrive in the image. -/
theorem block_sentImage {c : EcatController β}
    (apart : (c.nodes.map fun node => node.info.slaveId).Pairwise c.master.ctx.layout.OutputsApart)
    (defaults : ∀ node ∈ c.nodes, node.configured = true ∧ node.IsDefault) (fits : Fits c)
    {node : SlaveNode} (member : node ∈ c.nodes) {axis : ServoAxis}
    (held : node.getServoAxis = some axis) {window : Region}
    (own : window ∈ c.master.ctx.layout.output node.info.slaveId) (field : ServoField) :
    block (sentImage c.nodes c.master) (window.base + field.start) field.size =
      littleEndian field.size (axis.setpoint field).raw := by
  obtain ⟨configured, default⟩ := defaults node member
  obtain ⟨-, drive⟩ := SlaveNode.drive_of_axis default held
  have sized : node.encoded.length = 10 := by
    rw [default.length_encoded, (SlaveNode.sizes_of_drive drive).1]
  have long : 10 ≤ window.length := by
    rw [← (SlaveNode.sizes_of_drive drive).1]
    exact (fits node member).1 window own
  have room := field.stop_le
  have inside : ∀ node ∈ c.nodes, ∀ copy ∈ node.outputCopy c.master.ctx.slavelist,
      ∃ window ∈ c.master.ctx.layout.output node.info.slaveId,
        copy.region.addresses ⊆ window.addresses := fun node member =>
    SlaveNode.outputCopy_inside _ (defaults node member).2 (fits node member).1
  have copy : node.outputCopy c.master.ctx.slavelist = some ⟨window.base, node.encoded⟩ := by
    obtain ⟨base, address, rfl⟩ := Option.map_eq_some_iff.mp own
    have nonempty : node.encoded ≠ [] := by
      intro empty
      simp [empty] at sized
    simp [SlaveNode.outputCopy, configured, nonempty, address]
  rw [← SlaveNode.bytesAt_encoded default held field, bytesAt,
    ← block_apply ⟨window.base, node.encoded⟩ c.master.ctx.image (by rw [sized]; exact room)]
  apply block_congr
  intro k bound
  have within : window.base + field.start + k ∈ window.addresses := by
    rw [Region.mem_addresses]
    omega
  rw [SlaveNodeManager.sentImage_own c.master inside apart member own within, copy]
  rfl

/-- A cycle is an exchange for every drive. -/
theorem runOnce_exchanges (keeps : KeepsLayout β) {c : EcatController β}
    (operational : c.state = .operational)
    (apart : (c.nodes.map fun node => node.info.slaveId).Pairwise c.master.ctx.layout.OutputsApart)
    (defaults : ∀ node ∈ c.nodes, node.configured = true ∧ node.IsDefault) (fits : Fits c)
    {k : Nat} {node : SlaveNode} (found : c.nodes[k]? = some node) {before : ServoAxis}
    (held : node.getServoAxis = some before) :
    ∃ node' after, (ProcessDataEngine.runOnce.after c).nodes[k]? = some node' ∧
      node'.getServoAxis = some after ∧
      DriveExchange c.master.ctx.layout node.info.slaveId (sentImage c.nodes c.master)
        (receivedImage c) before after := by
  have member := List.mem_of_getElem? found
  obtain ⟨configured, default⟩ := defaults node member
  let exchanged := EcMaster.runOneCycle.after ((updateAllOutputs c.nodes).after c.master)
  have layout : exchanged.ctx.layout = c.master.ctx.layout :=
    ((EcMaster.runOneCycle_touches _).layout_eq keeps).trans
      ((SlaveNodeManager.updateAllOutputs_touches c.nodes c.master).1.layout_eq keeps)
  obtain ⟨after, axis, config, target, reported⟩ :=
    SlaveNode.axis_received configured default held exchanged.ctx
  rw [layout] at reported
  refine ⟨node.sent.received exchanged.ctx, after, ?_, axis, ?_, reported, config, target⟩
  · rw [ProcessDataEngine.runOnce_spec c operational]
    simp [found, exchanged]
  · intro window own field
    exact block_sentImage apart defaults fits member held own field

end EcatController

namespace Impl

open EcatController (Fits receivedImage)
open SlaveNodeManager (sentImage)

/-- A check in Operational leaves the nodes. -/
theorem checkSlaveStates_nodes {i : Impl β} (operational : i.controller.state = .operational) :
    (checkSlaveStates.after i).controller.nodes = i.controller.nodes := by
  obtain ⟨world, last, skipped | checked⟩ := checkSlaveStates_after i
  · rw [skipped]
    rfl
  · have running : (i.controller.inWorld world).state = .operational := operational
    rw [checked]
    dsimp only
    rw [ProcessDataEngine.superviseSlaves_operational _ running]
    obtain ⟨m, marks, -, kept | faulted⟩ :=
      ProcessDataEngine.supervise_after EcState.operational (i.controller.inWorld world)
    · rw [kept]
      rfl
    · rw [faulted]
      rfl

/-- What a service does after its cycle leaves the nodes alone. -/
theorem service_nodes {i : Impl β} (settled : Settled i)
    (operational : i.controller.state = .operational) :
    ((perform .service).after i).controller.nodes =
      (ProcessDataEngine.runOnce.after i.controller).nodes := by
  obtain ⟨delivered, served⟩ := service_after i
  rw [perform_service, served]
  rcases serviceEngine_selects i settled with
    ⟨maintained, -⟩ | ⟨-, selected⟩ | ⟨⟨-, notOperational⟩, -⟩
  · rw [operational] at maintained
    cases maintained
  · obtain ⟨m, nodes, cycled, -, -⟩ := ProcessDataEngine.runOnce_after i.controller operational
    rw [selected]
    apply checkSlaveStates_nodes
    rw [cycled]
    exact operational
  · exact absurd operational notOperational

/-- Whatever the program and the outside do, the master has settled. -/
theorem settled_interactions (platform : β) (onStateChanged onRuntimeStateChanged : Bool)
    (interactions : List Interaction) :
    Settled (Runs.final interact
      (constructed platform onStateChanged onRuntimeStateChanged) interactions) := by
  refine Runs.final_invariant interact _ Settled (fun i interaction settled => ?_)
    (settled_constructed ..) interactions
  cases interaction with
  | call call => exact (handle_path i settled call).2
  | steer act => exact settled

end Impl

end MoEcat
