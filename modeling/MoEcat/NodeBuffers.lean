import MoEcat.CyclicUpdates
import MoEcat.Bench

/-!
# The buffers of a node

A node's buffers are sized from its mapping when it is configured and again whenever the
mapping is replaced, while its profile finds the fields by name at each update. Whatever
mappings and targets a node is given, the entries lie inside its buffers, the copies stay
inside them, and encoding touches only the fields it encodes.
-/

namespace MoEcat

/-! ## Mappings -/

/-- An entry with a range of non-negative `int`s. -/
structure PdoEntry.Regular (entry : PdoEntry) : Prop where
  offset : 0 ≤ entry.offset
  size : 0 ≤ entry.size
  stop : entry.offset + entry.size ≤ 2147483647

/-- The three bounds can be decided. -/
instance (entry : PdoEntry) : Decidable entry.Regular :=
  decidable_of_iff (0 ≤ entry.offset ∧ 0 ≤ entry.size ∧ entry.offset + entry.size ≤ 2147483647)
    ⟨fun ⟨offset, size, stop⟩ => ⟨offset, size, stop⟩,
      fun ⟨offset, size, stop⟩ => ⟨offset, size, stop⟩⟩

/-- A mapping of regular entries with sizes that are not negative. -/
structure PdoMapping.Regular (mapping : PdoMapping) : Prop where
  outputBytes : 0 ≤ mapping.outputBytes
  inputBytes : 0 ≤ mapping.inputBytes
  outputs : ∀ entry ∈ mapping.outputs, entry.Regular
  inputs : ∀ entry ∈ mapping.inputs, entry.Regular

/-- Every mapping that the factory makes is regular. -/
theorem regular_createConfig (factory : SlaveConfigFactory) (info : SlaveInfo)
    (type : SlaveType) : (factory.createConfig info type).mapping.Regular := by
  have same : (factory.createConfig info type).mapping =
      (SlaveConfigFactory.createConfig {} {} type).mapping := by
    cases type <;> rfl
  rw [same]
  cases type <;> exact ⟨by decide, by decide, by decide, by decide⟩

/-- Every entry ends inside the buffer. -/
def Within (entries : List PdoEntry) (buffer : List UInt8) : Prop :=
  ∀ entry ∈ entries, entry.offset + entry.size ≤ buffer.length

/-- The fold takes no less than its start, and no less than any entry asks for. The induction
is on the entries. -/
theorem foldl_max_bounds (stop : PdoEntry → Nat) (entries : List PdoEntry) (start : Nat) :
    start ≤ entries.foldl (fun size entry => max size (stop entry)) start ∧
      ∀ entry ∈ entries, stop entry ≤ entries.foldl (fun size entry => max size (stop entry)) start := by
  induction entries generalizing start with
  | nil => exact ⟨Nat.le_refl _, fun entry member => absurd member List.not_mem_nil⟩
  | cons first rest inductionHypothesis =>
    obtain ⟨above, bounds⟩ := inductionHypothesis (max start (stop first))
    rw [List.foldl_cons]
    refine ⟨Nat.le_trans (Nat.le_max_left ..) above, List.forall_mem_cons.mpr ⟨?_, bounds⟩⟩
    exact Nat.le_trans (Nat.le_max_right ..) above

/-- A buffer of the computed size holds every entry. -/
theorem within_computeSize {entries : List PdoEntry} {declared : Int} {buffer : List UInt8}
    (regular : ∀ entry ∈ entries, entry.Regular)
    (sized : buffer.length = computeSize entries declared) : Within entries buffer := by
  intro entry member
  obtain ⟨offset, size, stop⟩ := regular entry member
  have same : (toSize (entry.offset + entry.size) : Int) = entry.offset + entry.size := by
    rw [toSize]
    omega
  have bound := (foldl_max_bounds (fun entry => toSize (entry.offset + entry.size))
    entries 0).2 entry member
  rw [← same, sized, computeSize]
  split
  · rename_i none
    rw [none] at bound
    omega
  · exact_mod_cast bound

/-- In a buffer that holds the entries, they lie where lengths are counted. -/
theorem Within.toNat {entries : List PdoEntry} {buffer : List UInt8}
    (within : Within entries buffer) (regular : ∀ entry ∈ entries, entry.Regular) :
    ∀ entry ∈ entries, entry.offset.toNat + entry.size.toNat ≤ buffer.length := by
  intro entry member
  obtain ⟨offset, size, -⟩ := regular entry member
  have bound := within entry member
  omega

/-- It depends on the length of the buffer alone. -/
theorem Within.congr {entries : List PdoEntry} {buffer other : List UInt8}
    (within : Within entries buffer) (same : other.length = buffer.length) :
    Within entries other := by
  intro entry member
  rw [same]
  exact within entry member

/-! ## Copies -/

/-- The bytes that a field of this name occupies. -/
def Occupies (entries : List PdoEntry) (name : String) (i : Nat) : Prop :=
  ∃ entry, findEntry entries name = some entry ∧
    entry.offset ≤ i ∧ (i : Int) < entry.offset + entry.size

/-- Bytes outside what is written stay. -/
theorem getElem?_overwrite {buffer value : List UInt8} {offset i : Nat}
    (within : offset + value.length ≤ buffer.length)
    (outside : i < offset ∨ offset + value.length ≤ i) :
    (overwrite buffer offset value)[i]? = buffer[i]? := by
  have front : (buffer.take offset).length = offset := by
    rw [List.length_take]
    omega
  rw [overwrite, List.append_assoc]
  rcases outside with before | behind
  · rw [List.getElem?_append_left (by omega), List.getElem?_take_of_lt before]
  · rw [List.getElem?_append_right (by omega), List.getElem?_append_right (by omega),
      List.getElem?_drop]
    congr 1
    omega

variable {entries : List PdoEntry} {buffer : List UInt8}

/-- An entry of the right size has room for it. -/
theorem room_of_sized (regular : ∀ entry ∈ entries, entry.Regular) (within : Within entries buffer)
    {name : String} {entry : PdoEntry} (found : findEntry entries name = some entry) {width : Nat}
    (sized : entry.size = width) : 0 ≤ entry.offset ∧ entry.offset + width ≤ buffer.length := by
  have member := List.mem_of_find?_eq_some found
  have bound := within entry member
  rw [sized] at bound
  exact ⟨(regular entry member).offset, bound⟩

/-- A write that is made stays inside the buffer and keeps its length. -/
theorem writeRaw_inside (regular : ∀ entry ∈ entries, entry.Regular)
    (within : Within entries buffer) (name : String) (value : List UInt8) :
    (writeRaw buffer (findEntry entries name) value).2.length = buffer.length ∧
      ((writeRaw buffer (findEntry entries name) value).1 = true →
        ∃ entry, findEntry entries name = some entry ∧ 0 ≤ entry.offset ∧
          entry.offset + value.length ≤ buffer.length) := by
  constructor
  · apply length_writeRaw
    intro entry found
    exact within.toNat regular entry (List.mem_of_find?_eq_some found)
  · intro written
    cases found : findEntry entries name with
    | none =>
      rw [found] at written
      cases written
    | some entry =>
      rw [found, writeRaw] at written
      split at written
      · cases written
      · rename_i sized
        exact ⟨entry, rfl, room_of_sized regular within found (not_not.mp sized)⟩

/-- A write changes no byte that its field does not occupy. -/
theorem writeRaw_frame (regular : ∀ entry ∈ entries, entry.Regular)
    (within : Within entries buffer) (name : String) (value : List UInt8) {i : Nat}
    (outside : ¬Occupies entries name i) :
    (writeRaw buffer (findEntry entries name) value).2[i]? = buffer[i]? := by
  cases found : findEntry entries name with
  | none => rfl
  | some entry =>
    have member := List.mem_of_find?_eq_some found
    obtain ⟨offset, size, -⟩ := regular entry member
    have bound := within entry member
    have elsewhere : ¬(entry.offset ≤ i ∧ (i : Int) < entry.offset + entry.size) :=
      fun inside => outside ⟨entry, found, inside⟩
    rw [writeRaw]
    split
    · rfl
    · rename_i sized
      have same := not_not.mp sized
      apply getElem?_overwrite <;> omega

/-- A read that succeeds has found its entry, all of it inside the buffer. -/
theorem readRaw_inside (regular : ∀ entry ∈ entries, entry.Regular)
    (within : Within entries buffer) (name : String) (width : Nat) (initial : Int)
    (read : (readRaw buffer (findEntry entries name) width initial).1 = true) :
    ∃ entry, findEntry entries name = some entry ∧ 0 ≤ entry.offset ∧
      entry.offset + width ≤ buffer.length := by
  cases found : findEntry entries name with
  | none =>
    rw [found] at read
    cases read
  | some entry =>
    rw [found, readRaw] at read
    split at read
    · cases read
    · rename_i sized
      exact ⟨entry, rfl, room_of_sized regular within found (not_not.mp sized)⟩

/-- The fields that a servo encodes. -/
def targetFields : List String := ["target_position", "target_velocity", "target_torque"]

/-- Encoding changes no byte outside these fields. -/
theorem encodePdoOutput_frame (profile : DeviceProfile) {mapping : PdoMapping}
    (regular : mapping.Regular) (within : Within mapping.outputs buffer) {i : Nat}
    (outside : ∀ name ∈ targetFields, ¬Occupies mapping.outputs name i) :
    (profile.encodePdoOutput mapping buffer)[i]? = buffer[i]? := by
  have step : ∀ (before : List UInt8) (name : String) (value : List UInt8),
      name ∈ targetFields →
      Within mapping.outputs before ∧ before[i]? = buffer[i]? →
      Within mapping.outputs (writeRaw before (findEntry mapping.outputs name) value).2 ∧
        (writeRaw before (findEntry mapping.outputs name) value).2[i]? = buffer[i]? := by
    rintro before name value field ⟨within, same⟩
    constructor
    · exact within.congr (writeRaw_inside regular.outputs within name value).1
    · rw [writeRaw_frame regular.outputs within name value (outside name field), same]
  cases profile with
  | servo axis =>
    refine (step _ "target_torque" _ (by decide) ?_).2
    refine step _ "target_velocity" _ (by decide) ?_
    exact step _ "target_position" _ (by decide) ⟨within, rfl⟩
  | digitalIo => rfl
  | analogIo => rfl
  | unknown => rfl

/-! ## Operations on a node -/

/-- What can be done with a node. Between its own operations the bus may be left in any
state. -/
inductive NodeOperation (β : Type) where
  | configure (config : SlaveConfig)
  | setPdoMapping (mapping : PdoMapping)
  | setTargetPosition (rad : Rat)
  | setTargetVelocity (radPerS : Rat)
  | setTargetTorque (nm : Rat)
  | updatePdoOutput
  | updatePdoInput
  | elsewhere (master : EcMaster β)

/-- The mapping that comes with an operation is regular. -/
def NodeOperation.Regular {β : Type} : NodeOperation β → Prop
  | .configure config => config.mapping.Regular
  | .setPdoMapping mapping => mapping.Regular
  | _ => True

/-- A node and the bus master that it uses. -/
structure NodeOnBus (β : Type) where
  node : SlaveNode
  master : EcMaster β

namespace NodeOnBus

variable {β : Type} [Platform β]

/-- Run an update of the node on its bus. -/
def update (program : SlaveNode → Program (EcMaster β) SlaveNode) : Program (NodeOnBus β) Bool := do
  let s ← get
  let node ← Program.zoom NodeOnBus.master (fun master s => { s with master := master })
    (program s.node)
  modify fun s => { s with node := node }
  return true

/-- Act on the servo axis of the node, where it has one. -/
def onAxis (act : ServoAxis → ServoAxis) : Program (NodeOnBus β) Bool := do
  modify fun s => { s with node := s.node.onServoAxis act }
  return true

/-- What each operation does to the node and its bus. -/
def perform : NodeOperation β → Program (NodeOnBus β) Bool
  | .configure config => do
    let s ← get
    modify fun s => { s with node := (s.node.configure config).2 }
    return (s.node.configure config).1
  | .setPdoMapping mapping => do
    modify fun s => { s with node := s.node.setPdoMapping mapping }
    return true
  | .setTargetPosition rad => onAxis fun axis => axis.setTargetPosition rad
  | .setTargetVelocity radPerS => onAxis fun axis => axis.setTargetVelocity radPerS
  | .setTargetTorque nm => onAxis fun axis => axis.setTargetTorque nm
  | .updatePdoOutput => update SlaveNode.updatePdoOutput
  | .updatePdoInput => update SlaveNode.updatePdoInput
  | .elsewhere master => do
    modify fun s => { s with master := master }
    return true

end NodeOnBus

/-- The profile that is created is of the type asked for. -/
theorem getType_createDeviceProfile (type : SlaveType) (axisConfig : AxisConfig) :
    (createDeviceProfile type axisConfig).getType = type := by
  cases type <;> rfl

/-- Decoding leaves the type. -/
theorem getType_decodePdoInput (profile : DeviceProfile) (mapping : PdoMapping)
    (buffer : List UInt8) : (profile.decodePdoInput mapping buffer).getType = profile.getType := by
  cases profile <;> rfl

namespace SlaveNode

/-- A configured node: its profile is of the configured type, and its buffers hold every
entry of its mapping. -/
structure Equipped (node : SlaveNode) (config : SlaveConfig) (profile : DeviceProfile) : Prop where
  hasConfig : node.config = some config
  hasProfile : node.profile = some profile
  type : profile.getType = config.type
  regular : config.mapping.Regular
  outputs : Within config.mapping.outputs node.outputBuffer
  inputs : Within config.mapping.inputs node.inputBuffer

/-- A node is equipped once it is configured, and has no configuration before. -/
structure Sound (node : SlaveNode) : Prop where
  bare : node.configured = false → node.config = none
  equipped : node.configured = true → ∃ config profile, node.Equipped config profile

/-- A node that has not been configured is sound. -/
theorem sound_placeholder (info : SlaveInfo) : Sound { info := info } :=
  ⟨fun _ => rfl, fun configured => absurd configured Bool.false_ne_true⟩

variable {node : SlaveNode}

/-- A configured node that is equipped is sound. -/
theorem sound_of_equipped {config : SlaveConfig} {profile : DeviceProfile}
    (configured : node.configured = true) (equipped : node.Equipped config profile) :
    node.Sound :=
  ⟨fun bare => absurd (configured.symm.trans bare) Bool.noConfusion,
    fun _ => ⟨config, profile, equipped⟩⟩

/-- Configuring leaves a sound node, whether it succeeds or is refused. -/
theorem sound_configure (sound : node.Sound) {config : SlaveConfig}
    (regular : config.mapping.Regular) : (node.configure config).2.Sound := by
  unfold configure
  cases configured : node.configured with
  | true => exact sound
  | false =>
    refine sound_of_equipped rfl ⟨rfl, rfl, ?_, regular, ?_, ?_⟩
    · exact getType_createDeviceProfile config.type config.axisConfig
    · exact within_computeSize regular.outputs (length_resize _ _)
    · exact within_computeSize regular.inputs (length_resize _ _)

/-- A new mapping resizes both buffers, whether it needs more bytes or fewer. -/
theorem sound_setPdoMapping (sound : node.Sound) {mapping : PdoMapping}
    (regular : mapping.Regular) : (node.setPdoMapping mapping).Sound := by
  cases configured : node.configured with
  | false =>
    rw [setPdoMapping, sound.bare configured]
    exact sound
  | true =>
    obtain ⟨config, profile, equipped⟩ := sound.equipped configured
    rw [setPdoMapping, equipped.hasConfig]
    refine sound_of_equipped configured
      ⟨rfl, equipped.hasProfile, equipped.type, regular, ?_, ?_⟩
    · exact within_computeSize regular.outputs (length_resize _ _)
    · exact within_computeSize regular.inputs (length_resize _ _)

variable {config : SlaveConfig} {profile : DeviceProfile}

/-- Only a servo hands out its axis. -/
theorem Equipped.type_servo (equipped : node.Equipped config profile) {axis : ServoAxis}
    (found : node.getServoAxis = some axis) : config.type = .servo := by
  rw [getServoAxis, equipped.hasConfig, equipped.hasProfile] at found
  cases profile with
  | servo own => exact equipped.type.symm
  | digitalIo => cases found
  | analogIo => cases found
  | unknown => cases found

/-- So the profile that its targets leave is still of the configured type. -/
theorem sound_onServoAxis (sound : node.Sound) (act : ServoAxis → ServoAxis) :
    (node.onServoAxis act).Sound := by
  cases found : node.getServoAxis with
  | none =>
    rw [onServoAxis, found]
    exact sound
  | some axis =>
    rw [onServoAxis, found]
    cases configured : node.configured with
    | false =>
      rw [getServoAxis, sound.bare configured] at found
      cases found
    | true =>
      obtain ⟨config, profile, equipped⟩ := sound.equipped configured
      exact sound_of_equipped rfl { equipped with
        hasProfile := rfl
        type := (equipped.type_servo found).symm }

/-- An equipped node encodes with its own profile and mapping. -/
theorem Equipped.encoded_eq (equipped : node.Equipped config profile) :
    node.encoded = profile.encodePdoOutput config.mapping node.outputBuffer := by
  simp only [encoded, getConfig, equipped.hasConfig, equipped.hasProfile, Option.getD_some]

/-- Encoding leaves the size of the buffer. -/
theorem Equipped.length_encoded (equipped : node.Equipped config profile) :
    node.encoded.length = node.outputBuffer.length := by
  rw [equipped.encoded_eq]
  exact length_encodePdoOutput profile config.mapping node.outputBuffer
    (equipped.outputs.toNat equipped.regular.outputs)

/-- Sending leaves a sound node. -/
theorem sound_sent (sound : node.Sound) : node.sent.Sound := by
  cases configured : node.configured with
  | false => simpa [sent, configured] using sound
  | true =>
    obtain ⟨config, profile, equipped⟩ := sound.equipped configured
    rw [sent, if_pos configured]
    exact sound_of_equipped configured { equipped with
      outputs := equipped.outputs.congr equipped.length_encoded }

/-- Receiving leaves a sound node, whatever has been received. -/
theorem sound_received (sound : node.Sound) (ctx : EcContext) : (node.received ctx).Sound := by
  cases configured : node.configured with
  | false => simpa [received, configured] using sound
  | true =>
    obtain ⟨config, profile, equipped⟩ := sound.equipped configured
    rw [received, if_pos configured]
    have decoding : node.decoded (node.copied ctx) =
        some (profile.decodePdoInput node.getConfig.mapping (node.copied ctx)) := by
      rw [decoded, equipped.hasProfile]
      rfl
    exact sound_of_equipped configured { equipped with
      hasProfile := decoding
      type := (getType_decodePdoInput ..).trans equipped.type
      inputs := equipped.inputs.congr (length_copied ctx node) }

end SlaveNode

namespace NodeOnBus

variable {β : Type}

/-- The node that an update of the output leaves. -/
theorem node_updatePdoOutput (s : NodeOnBus β) :
    ((perform .updatePdoOutput).after s).node = s.node.sent := by
  have same := (SlaveNodeManager.updateOutput_spec s.node s.master).1
  cases configured : s.node.configured with
  | true =>
    simp only [configured, if_true] at same
    exact same
  | false =>
    simp [perform, update, SlaveNode.updatePdoOutput, SlaveNode.sent, configured]

/-- The node that an update of the input leaves. -/
theorem node_updatePdoInput (s : NodeOnBus β) :
    ((perform .updatePdoInput).after s).node = s.node.received s.master.ctx := by
  have same := (SlaveNodeManager.updateInput_spec s.node s.master).1
  cases configured : s.node.configured with
  | true =>
    simp only [configured, if_true] at same
    exact same
  | false =>
    simp [perform, update, SlaveNode.updatePdoInput, SlaveNode.received, configured]

/-- No operation with a regular mapping leaves a node that is not sound. -/
theorem sound_perform (s : NodeOnBus β) (operation : NodeOperation β) (sound : s.node.Sound)
    (regular : operation.Regular) : ((perform operation).after s).node.Sound := by
  cases operation with
  | configure config => exact SlaveNode.sound_configure sound regular
  | setPdoMapping mapping => exact SlaveNode.sound_setPdoMapping sound regular
  | setTargetPosition rad => exact SlaveNode.sound_onServoAxis sound _
  | setTargetVelocity radPerS => exact SlaveNode.sound_onServoAxis sound _
  | setTargetTorque nm => exact SlaveNode.sound_onServoAxis sound _
  | updatePdoOutput =>
    rw [node_updatePdoOutput]
    exact SlaveNode.sound_sent sound
  | updatePdoInput =>
    rw [node_updatePdoInput]
    exact SlaveNode.sound_received sound _
  | elsewhere master => exact sound

end NodeOnBus

/-- For every slave, bus and sequence of operations with regular mappings: a configured node
has a configuration, a profile of the configured type and buffers that reach to the end of
every entry. Every field that is written or read by name lies inside its buffer, and
encoding changes only bytes of the first entries with the names of its three fields. -/
theorem node_buffers_safe {β : Type} [Platform β] (info : SlaveInfo) (master : EcMaster β)
    (operations : List (NodeOperation β))
    (regular : ∀ operation ∈ operations, operation.Regular) :
    let s := Runs.final NodeOnBus.perform ⟨{ info := info }, master⟩ operations
    let node := s.node
    node.configured = true → ∃ config profile,
      node.config = some config ∧ node.profile = some profile ∧
      profile.getType = config.type ∧
      (∀ entry ∈ config.mapping.outputs,
        entry.offset + entry.size ≤ node.outputBuffer.length) ∧
      (∀ entry ∈ config.mapping.inputs,
        entry.offset + entry.size ≤ node.inputBuffer.length) ∧
      (∀ (buffer : List UInt8) (name : String) (value : List UInt8),
        buffer.length = node.outputBuffer.length →
        let written := writeRaw buffer (findEntry config.mapping.outputs name) value
        written.2.length = buffer.length ∧
        (written.1 = true → ∃ entry, findEntry config.mapping.outputs name = some entry ∧
          0 ≤ entry.offset ∧ entry.offset + value.length ≤ buffer.length)) ∧
      (∀ (buffer : List UInt8) (name : String) (width : Nat) (initial : Int),
        buffer.length = node.inputBuffer.length →
        (readRaw buffer (findEntry config.mapping.inputs name) width initial).1 = true →
        ∃ entry, findEntry config.mapping.inputs name = some entry ∧
          0 ≤ entry.offset ∧ entry.offset + width ≤ buffer.length) ∧
      ((NodeOnBus.perform .updatePdoOutput).after s).node.outputBuffer =
        profile.encodePdoOutput config.mapping node.outputBuffer ∧
      (profile.encodePdoOutput config.mapping node.outputBuffer).length =
        node.outputBuffer.length ∧
      (∀ i : Nat, (profile.encodePdoOutput config.mapping node.outputBuffer)[i]? ≠
          node.outputBuffer[i]? →
        ∃ name ∈ targetFields, Occupies config.mapping.outputs name i) ∧
      ((NodeOnBus.perform .updatePdoInput).after s).node.inputBuffer.length =
        node.inputBuffer.length := by
  intro s node configured
  have sound : node.Sound := by
    apply Runs.final_invariant_of NodeOnBus.perform _ (fun _ operation => operation.Regular)
      (fun s => s.node.Sound) NodeOnBus.sound_perform (SlaveNode.sound_placeholder info)
    intro entry member
    exact regular entry.operation (Runs.operation_mem_of_mem_history _ _ member)
  obtain ⟨config, profile, equipped⟩ := sound.equipped configured
  refine ⟨config, profile, equipped.hasConfig, equipped.hasProfile, equipped.type,
    equipped.outputs, equipped.inputs, ?_, ?_, ?_, ?_, ?_, ?_⟩
  · intro buffer name value same
    exact writeRaw_inside equipped.regular.outputs (equipped.outputs.congr same) name value
  · intro buffer name width initial same
    exact readRaw_inside equipped.regular.inputs (equipped.inputs.congr same) name width initial
  · rw [NodeOnBus.node_updatePdoOutput, SlaveNode.sent, if_pos configured]
    exact equipped.encoded_eq
  · rw [← equipped.encoded_eq]
    exact equipped.length_encoded
  · intro i changed
    by_contra outside
    refine changed (encodePdoOutput_frame profile equipped.regular equipped.outputs ?_)
    intro name field occupied
    exact outside ⟨name, field, occupied⟩
  · rw [NodeOnBus.node_updatePdoInput, SlaveNode.received, if_pos configured]
    exact SlaveNode.length_copied _ node

/-- A drive that is given a mapping with nothing but its torque keeps two bytes of its
buffer, and 32 Nm fill them. -/
theorem node_buffers_safe_bench :
    let operations : List (NodeOperation Bench) :=
      [.configure (SlaveConfigFactory.createConfig {} {} .servo),
        .setPdoMapping { outputs := [⟨"target_torque", 0, 2⟩] },
        .setTargetTorque 32, .updatePdoOutput]
    let node := (Runs.final NodeOnBus.perform ⟨{ info := {} }, { platform := {} }⟩ operations).node
    node.outputBuffer = [0x00, 0x7d] ∧ ∃ config profile,
      node.config = some config ∧ node.profile = some profile ∧
      profile.getType = config.type ∧
      ∀ entry ∈ config.mapping.outputs,
        entry.offset + entry.size ≤ node.outputBuffer.length := by
  intro operations node
  have regular : ∀ operation ∈ operations, operation.Regular := by
    intro operation member
    simp only [operations, List.mem_cons, List.not_mem_nil, or_false] at member
    rcases member with rfl | rfl | rfl | rfl
    · exact regular_createConfig {} {} .servo
    · exact ⟨by decide, by decide, by decide, by decide⟩
    · trivial
    · trivial
  have encoded : node.configured = true ∧ node.outputBuffer = [0x00, 0x7d] := by
    decide +kernel
  have safe := node_buffers_safe {} { platform := {} } operations regular
  refine ⟨encoded.2, ?_⟩
  obtain ⟨config, profile, hasConfig, hasProfile, type, outputs, -⟩ := safe encoded.1
  exact ⟨config, profile, hasConfig, hasProfile, type, outputs⟩

end MoEcat
