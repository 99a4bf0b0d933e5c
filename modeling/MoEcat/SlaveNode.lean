import MoEcat.EcMaster

/-!
# Slave nodes, their device profiles and their default configuration

A node stands for one scanned slave. It begins as a placeholder; configuring it
stores a mapping, sizes two byte buffers from that mapping and creates the profile
of the detected device type. In every cycle the profile encodes its targets into the
output buffer, which is copied to the process image, and decodes the input buffer
after it has been copied from there.

Floating-point quantities are rational numbers here. The conversion of a quotient to
a raw field truncates toward zero; a quotient outside the field wraps, where the
language leaves the result undefined. Bytes are in little-endian order.
-/

namespace MoEcat

/-- The types of slaves. -/
inductive SlaveType where
  | unknown
  | servo
  | digitalIo
  | analogIo
deriving DecidableEq, Repr

/-- A named entry of a mapping, with its place and its size. -/
structure PdoEntry where
  name : String
  offset : Int := 0
  size : Int := 0
deriving DecidableEq, Repr

/-- A mapping: the declared sizes and the entries of both directions. -/
structure PdoMapping where
  outputBytes : Int := 0
  inputBytes : Int := 0
  outputs : List PdoEntry := []
  inputs : List PdoEntry := []
deriving DecidableEq, Repr

/-- Parameters of a servo axis: raw units to engineering units, and a direction. -/
structure AxisConfig where
  name : String := ""
  positionScale : Rat := 1 / 1000
  velocityScale : Rat := 1 / 1000
  torqueScale : Rat := 1 / 1000
  direction : Int := 1
deriving DecidableEq, Repr

/-- What a node is configured with. -/
structure SlaveConfig where
  type : SlaveType := .unknown
  axisConfig : AxisConfig := {}
  mapping : PdoMapping := {}
deriving DecidableEq, Repr

/-- Commands and feedback of one servo axis. -/
structure ServoAxis where
  config : AxisConfig
  targetPosition : Rat := 0
  targetVelocity : Rat := 0
  targetTorque : Rat := 0
  actualPosition : Rat := 0
  actualVelocity : Rat := 0
  actualTorque : Rat := 0
  enabled : Bool := false
  hasFault : Bool := false
deriving DecidableEq, Repr

namespace ServoAxis

/-- Set the position that is sent. -/
def setTargetPosition (axis : ServoAxis) (rad : Rat) : ServoAxis :=
  { axis with targetPosition := rad }

/-- Set the velocity that is sent. -/
def setTargetVelocity (axis : ServoAxis) (radPerS : Rat) : ServoAxis :=
  { axis with targetVelocity := radPerS }

/-- Set the torque that is sent. -/
def setTargetTorque (axis : ServoAxis) (nm : Rat) : ServoAxis :=
  { axis with targetTorque := nm }

/-- Keep what was received. -/
def updateCommandReadback (axis : ServoAxis) (position velocity torque : Rat)
    (enabled hasFault : Bool) : ServoAxis :=
  { axis with
    actualPosition := position, actualVelocity := velocity, actualTorque := torque
    enabled := enabled, hasFault := hasFault }

end ServoAxis

/-! ## Raw fields -/

/-- Truncation toward zero, as a conversion from floating point performs it. -/
def truncate (q : Rat) : Int := q.num.tdiv q.den

/-- The value of a signed field of the given width after a conversion into it. -/
def castSigned (bits : Nat) (q : Rat) : Int := Int.bmod (truncate q) (2 ^ bits)

/-- The bytes of a value, least significant first. -/
def littleEndian (width : Nat) (value : Int) : List UInt8 :=
  (List.range width).map fun i =>
    UInt8.ofNat ((value % (2 ^ (8 * width) : Nat)).toNat / 2 ^ (8 * i))

/-- The signed value of a little-endian byte list. -/
def signedLittleEndian (bytes : List UInt8) : Int :=
  Int.bmod (bytes.foldr (fun byte high => byte.toNat + 256 * high) 0 : Nat)
    (2 ^ (8 * bytes.length))

/-- Overwrite part of a byte list in place. -/
def overwrite (buffer : List UInt8) (offset : Nat) (value : List UInt8) : List UInt8 :=
  buffer.take offset ++ value ++ buffer.drop (offset + value.length)

/-- The first entry of this name. -/
def findEntry (entries : List PdoEntry) (name : String) : Option PdoEntry :=
  entries.find? (fun entry => entry.name == name)

/-- Write a raw field. A missing entry, or one of another size, is refused. -/
def writeRaw (buffer : List UInt8) (entry : Option PdoEntry) (value : List UInt8) :
    Bool × List UInt8 :=
  match entry with
  | none => (false, buffer)
  | some entry =>
    if entry.size ≠ value.length then (false, buffer)
    else (true, overwrite buffer entry.offset.toNat value)

/-- Read a raw field over an initial value. A missing entry, or one of another size,
is refused and leaves the initial value. -/
def readRaw (buffer : List UInt8) (entry : Option PdoEntry) (width : Nat) (initial : Int) :
    Bool × Int :=
  match entry with
  | none => (false, initial)
  | some entry =>
    if entry.size ≠ width then (false, initial)
    else (true, signedLittleEndian ((buffer.drop entry.offset.toNat).take width))

/-! ## Device profiles -/

/-- The profile of a slave; only a servo has an axis. -/
inductive DeviceProfile where
  | servo (axis : ServoAxis)
  | digitalIo
  | analogIo
  | unknown
deriving DecidableEq, Repr

/-- A fresh profile of a type. -/
def createDeviceProfile (type : SlaveType) (axisConfig : AxisConfig) : DeviceProfile :=
  match type with
  | .servo => .servo { config := axisConfig }
  | .digitalIo => .digitalIo
  | .analogIo => .analogIo
  | .unknown => .unknown

namespace DeviceProfile

/-- The type of a profile. -/
def getType : DeviceProfile → SlaveType
  | .servo _ => .servo
  | .digitalIo => .digitalIo
  | .analogIo => .analogIo
  | .unknown => .unknown

/-- The raw value of a target; a zero scale leaves it zero. -/
def rawTarget (bits : Nat) (target scale : Rat) (direction : Int) : Int :=
  if scale ≠ 0 then castSigned bits (target / scale * direction) else 0

/-- Only the servo profile encodes anything. -/
def encodePdoOutput (profile : DeviceProfile) (mapping : PdoMapping) (buffer : List UInt8) :
    List UInt8 :=
  match profile with
  | .servo axis =>
    let cfg := axis.config
    let position := rawTarget 32 axis.targetPosition cfg.positionScale cfg.direction
    let velocity := rawTarget 32 axis.targetVelocity cfg.velocityScale cfg.direction
    let torque := rawTarget 16 axis.targetTorque cfg.torqueScale cfg.direction
    let positioned :=
      (writeRaw buffer (findEntry mapping.outputs "target_position") (littleEndian 4 position)).2
    let moved :=
      (writeRaw positioned (findEntry mapping.outputs "target_velocity")
        (littleEndian 4 velocity)).2
    (writeRaw moved (findEntry mapping.outputs "target_torque") (littleEndian 2 torque)).2
  | .digitalIo | .analogIo | .unknown => buffer

/-- Only the servo profile decodes anything; enable and fault bits are not parsed. -/
def decodePdoInput (profile : DeviceProfile) (mapping : PdoMapping) (buffer : List UInt8) :
    DeviceProfile :=
  match profile with
  | .servo axis =>
    let cfg := axis.config
    let position := (readRaw buffer (findEntry mapping.inputs "position_actual_value") 4 0).2
    let velocity := (readRaw buffer (findEntry mapping.inputs "velocity_actual_value") 4 0).2
    let torque := (readRaw buffer (findEntry mapping.inputs "torque_actual_value") 2 0).2
    .servo (axis.updateCommandReadback
      (position * cfg.positionScale * cfg.direction)
      (velocity * cfg.velocityScale * cfg.direction)
      (torque * cfg.torqueScale * cfg.direction) false false)
  | .digitalIo => .digitalIo
  | .analogIo => .analogIo
  | .unknown => .unknown

end DeviceProfile

/-! ## Type detection and default configuration -/

/-- The characters of a text in lower case. -/
def toLower (s : String) : List Char := s.toList.map Char.toLower

/-- Whether a text occurs somewhere in a name. -/
def occursIn (text : List Char) : List Char → Bool
  | [] => text.isEmpty
  | c :: rest => text.isPrefixOf (c :: rest) || occursIn text rest

/-- A rule that gives slaves of a vendor and a product their type. -/
structure DetectionRule where
  vendorId : UInt32
  productId : UInt32
  type : SlaveType
deriving DecidableEq, Repr

/-- Exact rules are tried in order; a zero identifier in a rule is a wildcard. -/
structure SlaveTypeDetector where
  rules : List DetectionRule := [⟨0x00000766, 0x00002000, .servo⟩]

namespace SlaveTypeDetector

/-- Zero in a rule stands for all values. -/
def ruleMatches (info : SlaveInfo) (rule : DetectionRule) : Bool :=
  (rule.vendorId == 0 || rule.vendorId == info.vendorId) &&
    (rule.productId == 0 || rule.productId == info.productId)

/-- The first rule that matches decides; without one the name does, and the words for servos
are looked for first. -/
def detect (detector : SlaveTypeDetector) (info : SlaveInfo) : SlaveType :=
  match detector.rules.find? (ruleMatches info) with
  | some rule => rule.type
  | none =>
    let name := toLower info.name
    if occursIn "servo".toList name || occursIn "motor".toList name ||
        occursIn "drive".toList name then .servo
    else if occursIn "digital".toList name || occursIn "dio".toList name then .digitalIo
    else if occursIn "analog".toList name || occursIn "aio".toList name then .analogIo
    else .unknown

end SlaveTypeDetector

/-- The factory of default configurations, with the scales for servos. -/
structure SlaveConfigFactory where
  servoPositionScale : Rat := 1 / 1000
  servoVelocityScale : Rat := 1 / 1000
  servoTorqueScale : Rat := 1 / 1000

namespace SlaveConfigFactory

/-- The default configuration of a servo: three targets and three actual values. -/
def makeServoConfig (factory : SlaveConfigFactory) (name : String) : SlaveConfig where
  type := .servo
  axisConfig :=
    { name := name
      positionScale := factory.servoPositionScale
      velocityScale := factory.servoVelocityScale
      torqueScale := factory.servoTorqueScale }
  mapping :=
    { outputBytes := 10
      outputs := [⟨"target_position", 0, 4⟩, ⟨"target_velocity", 4, 4⟩, ⟨"target_torque", 8, 2⟩]
      inputBytes := 10
      inputs := [⟨"position_actual_value", 0, 4⟩, ⟨"velocity_actual_value", 4, 4⟩,
        ⟨"torque_actual_value", 8, 2⟩] }

/-- The default configuration of a digital slave. -/
def makeDigitalIoConfig (name : String) : SlaveConfig where
  type := .digitalIo
  axisConfig := { name := name }
  mapping := { outputBytes := 1, inputBytes := 1 }

/-- The default configuration of an analog slave. -/
def makeAnalogIoConfig (name : String) : SlaveConfig where
  type := .analogIo
  axisConfig := { name := name }
  mapping := { outputBytes := 4, inputBytes := 4 }

/-- The default configuration of any other slave: no process data. -/
def makeUnknownConfig (name : String) : SlaveConfig where
  type := .unknown
  axisConfig := { name := name }
  mapping := { outputBytes := 0, inputBytes := 0 }

/-- The default configuration of a type. A slave without a name goes by its number. -/
def createConfig (factory : SlaveConfigFactory) (info : SlaveInfo) (type : SlaveType) :
    SlaveConfig :=
  let name := if info.name.isEmpty then "slave_" ++ toString info.slaveId else info.name
  match type with
  | .servo => factory.makeServoConfig name
  | .digitalIo => makeDigitalIoConfig name
  | .analogIo => makeAnalogIoConfig name
  | .unknown => makeUnknownConfig name

end SlaveConfigFactory

/-! ## Slave nodes -/

/-- Conversion of an `int` to a C++ size, modulo 2^64. -/
def toSize (n : Int) : Nat := (n % (2 ^ 64 : Nat)).toNat

/-- The largest end of an entry, or the declared byte count when every end is zero. -/
def computeSize (entries : List PdoEntry) (declared : Int) : Nat :=
  let size := entries.foldl (fun size entry => max size (toSize (entry.offset + entry.size))) 0
  if size = 0 then toSize declared else size

/-- A buffer of another size: cut off, or filled up with zeros. -/
def resize (buffer : List UInt8) (size : Nat) : List UInt8 :=
  buffer.take size ++ List.replicate (size - buffer.length) 0

/-- A node: what is known of its slave, its configuration and profile once it has them, and
its two buffers. -/
structure SlaveNode where
  info : SlaveInfo
  config : Option SlaveConfig := none
  profile : Option DeviceProfile := none
  outputBuffer : List UInt8 := []
  inputBuffer : List UInt8 := []
  configured : Bool := false
  currentState : UInt16 := 0
deriving DecidableEq, Repr

namespace SlaveNode

/-- The size of the output buffer for a mapping. -/
def computeOutputSize (mapping : PdoMapping) : Nat :=
  computeSize mapping.outputs mapping.outputBytes

/-- The size of the input buffer for a mapping. -/
def computeInputSize (mapping : PdoMapping) : Nat :=
  computeSize mapping.inputs mapping.inputBytes

/-- The node's configuration, or an empty one. -/
def getConfig (node : SlaveNode) : SlaveConfig := node.config.getD {}

/-- A node is configured once; a second attempt is refused. -/
def configure (node : SlaveNode) (config : SlaveConfig) : Bool × SlaveNode :=
  if node.configured then (false, node)
  else
    (true, { node with
      config := some config
      outputBuffer := resize node.outputBuffer (computeOutputSize config.mapping)
      inputBuffer := resize node.inputBuffer (computeInputSize config.mapping)
      profile := some (createDeviceProfile config.type config.axisConfig)
      configured := true })

/-- Another mapping, for which the buffers are resized. Without a configuration there is
nothing to change. -/
def setPdoMapping (node : SlaveNode) (mapping : PdoMapping) : SlaveNode :=
  match node.config with
  | none => node
  | some config =>
    { node with
      config := some { config with mapping := mapping }
      outputBuffer := resize node.outputBuffer (computeOutputSize mapping)
      inputBuffer := resize node.inputBuffer (computeInputSize mapping) }

/-- The axis of a node that is configured as a servo. -/
def getServoAxis (node : SlaveNode) : Option ServoAxis :=
  match node.config, node.profile with
  | some config, some (.servo axis) => if config.type = .servo then some axis else none
  | _, _ => none

/-- Act on that axis through the pointer that the node hands out. -/
def onServoAxis (act : ServoAxis → ServoAxis) (node : SlaveNode) : SlaveNode :=
  match node.getServoAxis with
  | some axis => { node with profile := some (.servo (act axis)) }
  | none => node

variable {β : Type} [Platform β]

/-- The output buffer after the profile has encoded its targets into it. -/
def encoded (node : SlaveNode) : List UInt8 :=
  match node.profile with
  | none => node.outputBuffer
  | some profile => profile.encodePdoOutput node.getConfig.mapping node.outputBuffer

/-- The profile after decoding an input buffer. -/
def decoded (node : SlaveNode) (buffer : List UInt8) : Option DeviceProfile :=
  node.profile.map (fun profile => profile.decodePdoInput node.getConfig.mapping buffer)

/-- Encode, then copy the whole buffer to the start of the slave's output window. -/
def updatePdoOutput (node : SlaveNode) : Program (EcMaster β) SlaveNode := do
  EcMaster.note (.updateOutput node.info.slaveId)
  if node.configured = false then return node
  else do
    Program.when (node.encoded ≠ []) (EcMaster.writeOutput node.info.slaveId 0 node.encoded)
    return { node with outputBuffer := node.encoded }

/-- Copy the start of the slave's input window over the whole buffer, then decode. -/
def updatePdoInput (node : SlaveNode) : Program (EcMaster β) SlaveNode := do
  EcMaster.note (.updateInput node.info.slaveId)
  if node.configured = false then return node
  else do
    let buffer ←
      if node.inputBuffer ≠ [] then EcMaster.readInput node.info.slaveId 0 node.inputBuffer
      else pure node.inputBuffer
    return { node with inputBuffer := buffer, profile := node.decoded buffer }

/-- The cached state follows a request that succeeds. -/
def requestState (node : SlaveNode) (state : UInt16) :
    Program (EcMaster β) (Bool × SlaveNode) := do
  let reached ← EcMaster.requestStateWithRetry node.info.slaveId state
  if reached = false then return (false, node)
  else return (true, { node with currentState := state })

/-- Read the state of the node's slave, and keep it. -/
def refreshActualState (node : SlaveNode) : Program (EcMaster β) (UInt16 × SlaveNode) := do
  let actual ← EcMaster.readActualState node.info.slaveId
  return (actual, { node with currentState := actual })

/-- Service data of the node's own slave. -/
def sdoRead (node : SlaveNode) (index : UInt16) (subindex : UInt8) (data : List UInt8)
    (len : Nat) (timeoutUs : Int) : Program (EcMaster β) (Bool × List UInt8) :=
  EcMaster.sdoRead (UInt16.ofInt node.info.slaveId) index subindex data (narrowInt len) timeoutUs

/-- A download to the node's slave. -/
def sdoWrite (node : SlaveNode) (index : UInt16) (subindex : UInt8) (data : List UInt8)
    (len : Nat) (timeoutUs : Int) : Program (EcMaster β) Bool :=
  EcMaster.sdoWrite (UInt16.ofInt node.info.slaveId) index subindex data (narrowInt len) timeoutUs

end SlaveNode

/-! ## The node manager -/

namespace SlaveNodeManager

/-- One placeholder for each scanned slave, in scan order; this cannot fail. -/
def initializeNodes (infos : List SlaveInfo) : Bool × List SlaveNode :=
  (true, infos.map fun info => { info := info })

/-- Configure one node with the default configuration of its detected type; a node
that is configured already is skipped. -/
def configureNode (node : SlaveNode) : Bool × SlaveNode :=
  if node.configured then (true, node)
  else
    let detector : SlaveTypeDetector := {}
    let factory : SlaveConfigFactory := {}
    node.configure (factory.createConfig node.info (detector.detect node.info))

/-- Configure all nodes, also after one has failed. -/
def configureAll (nodes : List SlaveNode) : Bool × List SlaveNode :=
  (nodes.all (fun node => (configureNode node).1), nodes.map (fun node => (configureNode node).2))

variable {β : Type} [Platform β]

/-- Send the outputs of the configured nodes, in their order. -/
def updateAllOutputs (nodes : List SlaveNode) : Program (EcMaster β) (List SlaveNode) :=
  nodes.mapM fun node => if node.configured then node.updatePdoOutput else pure node

/-- Receive the inputs of the configured nodes, in their order. -/
def updateAllInputs (nodes : List SlaveNode) : Program (EcMaster β) (List SlaveNode) :=
  nodes.mapM fun node => if node.configured then node.updatePdoInput else pure node

end SlaveNodeManager

end MoEcat
