import MoEcat.NodeBuffers
import MoEcat.RawFields
import MoEcat.Setpoints

/-!
# The codec of a servo

A servo's targets are encoded into the output image by one function, and its feedback is
decoded from the input image by another. Where the mapping gives a target and the
feedback that belongs to it the same window, the two are inverse as far as a raw field
can tell: feedback that is commanded again is encoded to the bytes it was decoded from,
and a target that is read back has lost less than one raw unit, toward zero.
-/

namespace MoEcat

/-! ## Windows -/

/-- The bytes of a window. -/
def bytesAt (buffer : List UInt8) (start size : Nat) : List UInt8 := (buffer.drop start).take size

/-- What was written is there. -/
theorem bytesAt_overwrite {buffer value : List UInt8} {start : Nat}
    (within : start + value.length ≤ buffer.length) :
    bytesAt (overwrite buffer start value) start value.length = value := by
  have front : (buffer.take start).length = start := List.length_take_of_le (by omega)
  rw [bytesAt, overwrite, List.append_assoc, List.drop_left' front, List.take_left]

/-- A window apart from what is overwritten keeps its bytes. -/
theorem bytesAt_overwrite_of_apart {buffer value : List UInt8} {start other size : Nat}
    (within : start + value.length ≤ buffer.length)
    (apart : other + size ≤ start ∨ start + value.length ≤ other) :
    bytesAt (overwrite buffer start value) other size = bytesAt buffer other size := by
  apply List.ext_getElem?
  intro i
  rcases Nat.lt_or_ge i size with inside | outside
  · rw [bytesAt, bytesAt, List.getElem?_take_of_lt inside, List.getElem?_take_of_lt inside,
      List.getElem?_drop, List.getElem?_drop]
    apply getElem?_overwrite within
    omega
  · rw [bytesAt, bytesAt, List.getElem?_take_eq_none outside, List.getElem?_take_eq_none outside]

/-! ## Fields -/

/-- What is commanded and fed back. -/
inductive ServoField where
  | position
  | velocity
  | torque
deriving DecidableEq, Repr

namespace ServoField

/-- The entry of the target. -/
def target : ServoField → String
  | .position => "target_position"
  | .velocity => "target_velocity"
  | .torque => "target_torque"

/-- The entry of the feedback. -/
def actual : ServoField → String
  | .position => "position_actual_value"
  | .velocity => "velocity_actual_value"
  | .torque => "torque_actual_value"

/-- The size of the raw field. -/
def size : ServoField → Nat
  | .position | .velocity => 4
  | .torque => 2

/-- No field is empty. -/
theorem size_pos (field : ServoField) : 0 < field.size := by cases field <;> decide

end ServoField

/-- The scale of the axis for a field. -/
def AxisConfig.scale (config : AxisConfig) : ServoField → Rat
  | .position => config.positionScale
  | .velocity => config.velocityScale
  | .torque => config.torqueScale

namespace ServoAxis

/-- The target of the axis for a field. -/
def target (axis : ServoAxis) : ServoField → Rat
  | .position => axis.targetPosition
  | .velocity => axis.targetVelocity
  | .torque => axis.targetTorque

/-- What the axis was last told of a field. -/
def actual (axis : ServoAxis) : ServoField → Rat
  | .position => axis.actualPosition
  | .velocity => axis.actualVelocity
  | .torque => axis.actualTorque

/-- What the axis is to send for a field. -/
def setpoint (axis : ServoAxis) (field : ServoField) : Setpoint where
  entry := field.target
  size := field.size
  target := axis.target field
  scale := axis.config.scale field
  direction := axis.config.direction

end ServoAxis

/-- Where a mapping has the fields of an axis: each target and its feedback in one window,
no two windows overlapping. -/
structure ServoLayout (mapping : PdoMapping) where
  start : ServoField → Nat
  outputs : ∀ field, ∃ entry, findEntry mapping.outputs field.target = some entry ∧
    entry.offset = start field ∧ entry.size = field.size
  inputs : ∀ field, ∃ entry, findEntry mapping.inputs field.actual = some entry ∧
    entry.offset = start field ∧ entry.size = field.size
  disjoint : ∀ a b, a ≠ b → start a + a.size ≤ start b ∨ start b + b.size ≤ start a

namespace ServoLayout

variable {mapping : PdoMapping} (layout : ServoLayout mapping)

/-- The windows end inside the buffer. -/
def Inside (buffer : List UInt8) : Prop :=
  ∀ field, layout.start field + field.size ≤ buffer.length

/-- The bytes of a field. -/
def bytes (buffer : List UInt8) (field : ServoField) : List UInt8 :=
  bytesAt buffer (layout.start field) field.size

/-- Buffers that hold the entries hold the windows. -/
theorem inside_of_within {buffer : List UInt8} (within : Within mapping.outputs buffer) :
    layout.Inside buffer := by
  intro field
  obtain ⟨entry, found, offset, size⟩ := layout.outputs field
  have bound := within entry (List.mem_of_find?_eq_some found)
  rw [offset, size] at bound
  exact_mod_cast bound

/-- Writing a field leaves the other two as they are. -/
theorem writeRaw_field {buffer value : List UInt8} (inside : layout.Inside buffer) {field : ServoField}
    (sized : value.length = field.size) :
    let written := (writeRaw buffer (findEntry mapping.outputs field.target) value).2
    layout.Inside written ∧ layout.bytes written field = value ∧
      ∀ other, other ≠ field → layout.bytes written other = layout.bytes buffer other := by
  intro written
  obtain ⟨entry, found, offset, size⟩ := layout.outputs field
  have within : layout.start field + value.length ≤ buffer.length := by
    rw [sized]
    exact inside field
  have replaced : written = overwrite buffer (layout.start field) value := by
    simp [written, found, writeRaw, size, sized, offset]
  rw [replaced]
  refine ⟨?_, ?_, ?_⟩
  · intro other
    rw [length_overwrite within]
    exact inside other
  · have found := bytesAt_overwrite within
    rwa [sized] at found
  · intro other distinct
    apply bytesAt_overwrite_of_apart within
    rw [sized]
    exact layout.disjoint other field distinct

/-- A field is read from its own bytes, with a sign. -/
theorem readRaw_field (buffer : List UInt8) (field : ServoField) :
    (readRaw buffer (findEntry mapping.inputs field.actual) field.size 0).2 =
      signedLittleEndian (layout.bytes buffer field) := by
  obtain ⟨entry, found, offset, size⟩ := layout.inputs field
  simp [found, readRaw, size, offset, bytes, bytesAt]

/-- A field has as many bytes as its size. -/
theorem length_bytes {buffer : List UInt8} (inside : layout.Inside buffer) (field : ServoField) :
    (layout.bytes buffer field).length = field.size := by
  have bound := inside field
  rw [bytes, bytesAt, List.length_take, List.length_drop]
  omega

/-- Encoding leaves the raw value of each target in its window. -/
theorem bytes_encodePdoOutput (axis : ServoAxis) {buffer : List UInt8}
    (inside : layout.Inside buffer) (field : ServoField) :
    layout.bytes (DeviceProfile.encodePdoOutput (.servo axis) mapping buffer) field =
      littleEndian field.size (axis.setpoint field).raw := by
  have sized : ∀ field : ServoField,
      (littleEndian field.size (axis.setpoint field).raw).length = field.size := fun field =>
    length_littleEndian ..
  obtain ⟨positionInside, position, -⟩ := layout.writeRaw_field inside (sized .position)
  obtain ⟨velocityInside, velocity, keepsPosition⟩ :=
    layout.writeRaw_field positionInside (sized .velocity)
  obtain ⟨-, torque, keeps⟩ := layout.writeRaw_field velocityInside (sized .torque)
  cases field with
  | position =>
    exact (keeps .position (by decide)).trans ((keepsPosition .position (by decide)).trans position)
  | velocity => exact (keeps .velocity (by decide)).trans velocity
  | torque => exact torque

/-- Decoding takes the feedback from the same windows. -/
theorem actual_decodePdoInput (axis : ServoAxis) (buffer : List UInt8) :
    ∃ decoded : ServoAxis,
      DeviceProfile.decodePdoInput (.servo axis) mapping buffer = .servo decoded ∧
      decoded.config = axis.config ∧
      ∀ field, decoded.actual field = signedLittleEndian (layout.bytes buffer field) *
        axis.config.scale field * axis.config.direction := by
  refine ⟨_, rfl, rfl, fun field => ?_⟩
  rw [← layout.readRaw_field buffer field]
  cases field <;> rfl

end ServoLayout

/-! ## Raw units -/

namespace Setpoint

variable {setpoint : Setpoint}

/-- A direction is its own inverse. -/
theorem direction_mul_self {direction : Int} (oriented : direction = 1 ∨ direction = -1) :
    (direction : Rat) * direction = 1 := by
  rcases oriented with rfl | rfl <;> norm_num

/-- A target of whole raw units is written as their number. -/
theorem raw_bytes_of_units (scaled : setpoint.scale ≠ 0)
    (oriented : setpoint.direction = 1 ∨ setpoint.direction = -1) {units : Int}
    (whole : setpoint.target = units * setpoint.scale * setpoint.direction) :
    littleEndian setpoint.size setpoint.raw = littleEndian setpoint.size units := by
  have quotient : setpoint.quotient = units := by
    rw [Setpoint.quotient, whole, mul_right_comm, mul_div_cancel_right₀ _ scaled, mul_assoc,
      direction_mul_self oriented, mul_one]
  have truncated : truncate (units : Rat) = units := by simp [truncate]
  rw [raw_eq, quotient, castSigned, truncated]
  exact littleEndian_bmod setpoint.size units

/-- What is read back of a target that fits is the target without a part of a raw unit. -/
theorem readBack_close (scaled : setpoint.scale ≠ 0)
    (oriented : setpoint.direction = 1 ∨ setpoint.direction = -1)
    (nonempty : 0 < setpoint.size) (fits : setpoint.Fits) :
    let value : Rat := signedLittleEndian (littleEndian setpoint.size setpoint.raw) *
      setpoint.scale * setpoint.direction
    |value| ≤ |setpoint.target| ∧ |value - setpoint.target| < |setpoint.scale| := by
  intro value
  have kept : signedLittleEndian (littleEndian setpoint.size setpoint.raw) =
      truncate setpoint.quotient := by
    rw [signedLittleEndian_littleEndian, ← (raw_eq_truncate_iff nonempty).mpr fits, raw_eq,
      castSigned]
    exact Int.bmod_bmod
  have target : setpoint.target =
      setpoint.quotient * (setpoint.scale * setpoint.direction) := by
    rw [Setpoint.quotient, mul_mul_mul_comm, div_mul_cancel₀ _ scaled,
      direction_mul_self oriented, mul_one]
  have unit : |setpoint.scale * (setpoint.direction : Rat)| = |setpoint.scale| := by
    rcases oriented with direction | direction <;> simp [direction]
  have positive : 0 < |setpoint.scale| := abs_pos.mpr scaled
  obtain ⟨smaller, close⟩ := abs_truncate_le setpoint.quotient
  have unfolded : value = truncate setpoint.quotient *
      (setpoint.scale * setpoint.direction) := by
    rw [← kept, ← mul_assoc]
  rw [unfolded, target, ← sub_mul, abs_mul (truncate setpoint.quotient : Rat),
    abs_mul setpoint.quotient, abs_mul (_ - _), unit]
  exact ⟨mul_le_mul_of_nonneg_right smaller positive.le,
    mul_lt_of_lt_one_left positive close⟩

end Setpoint

/-- Feedback that is commanded again is encoded to the bytes that it was decoded from. -/
theorem ServoLayout.bytes_recommanded (axis : ServoAxis) {mapping : PdoMapping}
    (layout : ServoLayout mapping) (scaled : ∀ field, axis.config.scale field ≠ 0)
    (oriented : axis.config.direction = 1 ∨ axis.config.direction = -1)
    {inputBuffer outputBuffer : List UInt8} (inputs : layout.Inside inputBuffer)
    (outputs : layout.Inside outputBuffer) :
    ∃ decoded : ServoAxis,
      DeviceProfile.decodePdoInput (.servo axis) mapping inputBuffer = .servo decoded ∧
      let commanded := decoded.command decoded.actualPosition decoded.actualVelocity
        decoded.actualTorque
      ∀ field, layout.bytes (DeviceProfile.encodePdoOutput (.servo commanded) mapping
        outputBuffer) field = layout.bytes inputBuffer field := by
  obtain ⟨decoded, run, config, actual⟩ := layout.actual_decodePdoInput axis inputBuffer
  refine ⟨decoded, run, ?_⟩
  intro commanded field
  have target : commanded.target field = decoded.actual field := by cases field <;> rfl
  have sameConfig : commanded.config = axis.config := config
  have scale : (commanded.setpoint field).scale = axis.config.scale field :=
    congrArg (fun config => config.scale field) sameConfig
  have direction : (commanded.setpoint field).direction = axis.config.direction :=
    congrArg AxisConfig.direction sameConfig
  have units : (commanded.setpoint field).target =
      signedLittleEndian (layout.bytes inputBuffer field) *
        (commanded.setpoint field).scale * (commanded.setpoint field).direction := by
    rw [scale, direction, ← actual]
    exact target
  have again := Setpoint.raw_bytes_of_units (by rw [scale]; exact scaled field)
    (by rwa [direction]) units
  have length := layout.length_bytes inputs field
  rw [layout.bytes_encodePdoOutput commanded outputs field]
  calc littleEndian field.size (commanded.setpoint field).raw
      = littleEndian field.size (signedLittleEndian (layout.bytes inputBuffer field)) := again
    _ = layout.bytes inputBuffer field := by rw [← length, littleEndian_signedLittleEndian]

/-- The bytes of a raw triple. -/
def rawBytes (position velocity : Int32) (torque : Int16) : ServoField → List UInt8
  | .position => littleEndian 4 position.toInt
  | .velocity => littleEndian 4 velocity.toInt
  | .torque => littleEndian 2 torque.toInt

/-- The codec round-trips where the scales are not zero, the direction is 1 or -1 and the
buffers hold the windows. Raw bytes that are decoded, commanded as they were decoded and
encoded again come out as they were; targets that fit, encoded and decoded again, come back
no larger, and by less than one raw unit off. -/
theorem servo_codec_round_trips (axis : ServoAxis) {mapping : PdoMapping}
    (layout : ServoLayout mapping) (scaled : ∀ field, axis.config.scale field ≠ 0)
    (oriented : axis.config.direction = 1 ∨ axis.config.direction = -1)
    {inputBuffer outputBuffer : List UInt8} (inputs : layout.Inside inputBuffer)
    (outputs : layout.Inside outputBuffer) :
    (∀ (position velocity : Int32) (torque : Int16),
      (∀ field, layout.bytes inputBuffer field = rawBytes position velocity torque field) →
      ∃ decoded : ServoAxis,
        DeviceProfile.decodePdoInput (.servo axis) mapping inputBuffer = .servo decoded ∧
        let commanded := decoded.command decoded.actualPosition decoded.actualVelocity
          decoded.actualTorque
        ∀ field, layout.bytes (DeviceProfile.encodePdoOutput (.servo commanded) mapping
          outputBuffer) field = rawBytes position velocity torque field) ∧
    (∀ position velocity torque : Rat,
      let commanded := axis.command position velocity torque
      let encoded := DeviceProfile.encodePdoOutput (.servo commanded) mapping outputBuffer
      (∀ field, (commanded.setpoint field).Fits) →
      (∀ field, layout.bytes inputBuffer field = layout.bytes encoded field) →
      ∃ decoded : ServoAxis,
        DeviceProfile.decodePdoInput (.servo commanded) mapping inputBuffer = .servo decoded ∧
        ∀ field, |decoded.actual field| ≤ |commanded.target field| ∧
          |decoded.actual field - commanded.target field| < |axis.config.scale field|) := by
  constructor
  · intro position velocity torque received
    obtain ⟨decoded, run, again⟩ := layout.bytes_recommanded axis scaled oriented inputs outputs
    refine ⟨decoded, run, ?_⟩
    intro commanded field
    exact (again field).trans (received field)
  · intro position velocity torque commanded encoded fits received
    obtain ⟨decoded, run, -, actual⟩ := layout.actual_decodePdoInput commanded inputBuffer
    refine ⟨decoded, run, fun field => ?_⟩
    have close := Setpoint.readBack_close (scaled field) oriented field.size_pos (fits field)
    rw [actual, received, layout.bytes_encodePdoOutput commanded outputs]
    exact close

/-- The windows of every mapping that the factory makes for a servo. -/
def SlaveConfigFactory.servoLayout (factory : SlaveConfigFactory) (name : String) :
    ServoLayout (factory.makeServoConfig name).mapping where
  start
    | .position => 0
    | .velocity => 4
    | .torque => 8
  outputs field := by cases field <;> exact ⟨_, rfl, rfl, rfl⟩
  inputs field := by cases field <;> exact ⟨_, rfl, rfl, rfl⟩
  disjoint a b := by cases a <;> cases b <;> decide

/-- An axis that runs the other way, with a buffer as a configured node has it. -/
theorem servo_codec_round_trips_bench :
    let config := SlaveConfigFactory.makeServoConfig {} "drive"
    let axis : ServoAxis := { config := { config.axisConfig with direction := -1 } }
    let layout := SlaveConfigFactory.servoLayout {} "drive"
    let buffer := resize [] (SlaveNode.computeOutputSize config.mapping)
    let received := littleEndian 4 (-5) ++ littleEndian 4 2147483647 ++ littleEndian 2 (-32768)
    let commanded := axis.command (12345 / 10000) (-1 / 2) (129 / 10000)
    let encoded := DeviceProfile.encodePdoOutput (.servo commanded) config.mapping buffer
    (∃ decoded : ServoAxis,
      DeviceProfile.decodePdoInput (.servo axis) config.mapping received = .servo decoded ∧
      let again := decoded.command decoded.actualPosition decoded.actualVelocity
        decoded.actualTorque
      ∀ field, layout.bytes (DeviceProfile.encodePdoOutput (.servo again) config.mapping buffer)
        field = rawBytes (-5) 2147483647 (-32768) field) ∧
    ∃ decoded : ServoAxis,
      DeviceProfile.decodePdoInput (.servo commanded) config.mapping encoded = .servo decoded ∧
      ∀ field, |decoded.actual field| ≤ |commanded.target field| ∧
        |decoded.actual field - commanded.target field| < |axis.config.scale field| := by
  intro config axis layout buffer received commanded encoded
  have held : layout.Inside buffer := layout.inside_of_within
    (within_computeSize (regular_createConfig {} { name := "drive" } .servo).outputs
      (length_resize _ _))
  have scaled : ∀ field, axis.config.scale field ≠ 0 := by
    intro field
    cases field <;> decide +kernel
  have inside : layout.Inside received := by
    intro field
    cases field <;> decide
  have insideEncoded : layout.Inside encoded := by
    intro field
    cases field <;> decide +kernel
  constructor
  · refine (servo_codec_round_trips axis layout scaled (.inr rfl) inside held).1 (-5) 2147483647
      (-32768) fun field => ?_
    cases field <;> decide
  · refine (servo_codec_round_trips axis layout scaled (.inr rfl) insideEncoded held).2 _ _ _
      (fun field => ?_) fun field => rfl
    cases field <;> decide +kernel

end MoEcat
