import MoEcat.Programs
import MoEcat.Soem
import Mathlib.Algebra.GroupWithZero.Nat

/-!
# The bus master

The operations of `EcMaster` as the source writes them: opening and closing the
adapter, the scan, the process-data configuration, state requests with and without
retry, the check of all slaves, one process-data cycle with its statistics, the
copies to and from the process image, and the service data transfers.

The master's mutex is not represented: every operation here is one call, and no
operation calls another while it holds the lock. What the mutex does to calls from
several threads is the subject of `MasterCalls`.
-/

namespace MoEcat

/-- Statistics of the process-data cycles. All counters are 32 bits wide and wrap. -/
structure CyclicStats where
  cycleCount : UInt32 := 0
  wkcMismatchCount : UInt32 := 0
  consecutiveWkcMismatch : UInt32 := 0
  minCycleUs : UInt32 := 0
  maxCycleUs : UInt32 := 0
  avgCycleUs : UInt32 := 0
  lastDcTime : Int := 0
deriving DecidableEq, Repr

/-- Fold one measured interval into the cycle times. A zero minimum means that none
has been recorded; the average is weighted by the number of cycles. -/
def CyclicStats.recordInterval (stats : CyclicStats) (elapsedUs : UInt32) : CyclicStats :=
  { stats with
    minCycleUs := if stats.minCycleUs = 0 ∨ elapsedUs < stats.minCycleUs then elapsedUs
      else stats.minCycleUs
    maxCycleUs := if elapsedUs > stats.maxCycleUs then elapsedUs else stats.maxCycleUs
    avgCycleUs := (stats.avgCycleUs * stats.cycleCount + elapsedUs) / (stats.cycleCount + 1) }

/-- Count one cycle and compare its working counter with the expected one. -/
def CyclicStats.recordWkc (stats : CyclicStats) (wkc expected dcTime : Int) : CyclicStats :=
  { stats with
    cycleCount := stats.cycleCount + 1
    wkcMismatchCount := if wkc ≠ expected then stats.wkcMismatchCount + 1
      else stats.wkcMismatchCount
    consecutiveWkcMismatch := if wkc ≠ expected then stats.consecutiveWkcMismatch + 1 else 0
    lastDcTime := dcTime }

/-- The bus master. The platform's hidden state and the event record travel with it:
the first stands for the world behind the SOEM calls, the second only for statements. -/
structure EcMaster (β : Type) where
  ctx : EcContext := {}
  config : EcMasterConfig := {}
  expectedWkc : Int := 0
  stats : CyclicStats := {}
  closed : Bool := true
  lastCycleTime : Int := 0
  platform : β
  trace : List Event := []

/-- Conversion of a C++ size to `int`, modulo 2^32. -/
def narrowInt (n : Int) : Int := Int.bmod n (2 ^ 32)

namespace EcMaster

variable {β : Type}

/-- Append an event to the record. -/
def note (event : Event) : Program (EcMaster β) Unit :=
  modify fun m => { m with trace := m.trace ++ [event] }

/-- Information about one slave, empty when the number names no scanned slave. -/
def getSlaveInfo (m : EcMaster β) (slaveId : Nat) : SlaveInfo :=
  if slaveId = 0 ∨ m.ctx.slavecount < slaveId then {}
  else
    let slave := m.ctx.slavelist slaveId
    { slaveId := slaveId
      configAddress := slave.configAdr
      aliasAddress := slave.aliasAdr
      vendorId := slave.eepMan
      productId := slave.eepId
      revisionId := slave.eepRev
      serialId := slave.eepSer
      name := slave.name
      supportsDc := slave.hasDc
      mbxL := slave.mbxL
      mbxWo := slave.mbxWo
      mbxRo := slave.mbxRo
      mbxProto := slave.mbxProto
      mbxCnt := slave.mbxCnt
      state := slave.state
      alStatusCode := slave.alStatusCode
      coeDetails := slave.coeDetails
      outputBytes := slave.obytes
      inputBytes := slave.ibytes }

/-- The number of slaves that the context has. -/
def getSlaveCount (m : EcMaster β) : Nat := m.ctx.slavecount

/-- The states that the slave list holds for slaves 1 to `slavecount`. -/
def slaveStates (m : EcMaster β) : List UInt16 :=
  (List.range m.ctx.slavecount).map fun i => (m.ctx.slavelist (i + 1)).state

/-- The list of states is that of slaves 1 to the number of slaves. -/
theorem mem_slaveStates {m : EcMaster β} {state : UInt16} :
    state ∈ m.slaveStates ↔
      ∃ slave, 1 ≤ slave ∧ slave ≤ m.ctx.slavecount ∧ (m.ctx.slavelist slave).state = state := by
  simp only [slaveStates, List.mem_map, List.mem_range]
  constructor
  · rintro ⟨i, listed, rfl⟩
    exact ⟨i + 1, Nat.le_add_left 1 i, listed, rfl⟩
  · rintro ⟨slave, positive, listed, rfl⟩
    obtain ⟨i, rfl⟩ := Nat.exists_eq_add_of_le' positive
    exact ⟨i, listed, rfl⟩

section Calls

variable [Platform β]

/-- Perform one SOEM call and record it. -/
def soem (call : SoemCall) : Program (EcMaster β) SoemReply := fun m =>
  let (reply, ctx, platform) := Platform.soem call m.ctx m.platform
  (reply, { m with
    ctx := ctx, platform := platform, trace := m.trace ++ [.soem call reply.result] })

/-- Read the steady clock. -/
def steadyNow : Program (EcMaster β) Int := fun m =>
  let (now, platform) := Platform.steadyClock m.platform
  (now, { m with platform := platform })

/-- Keep the configuration and open the adapter. It counts as open only where SOEM has opened
it. -/
def initializeMaster (config : EcMasterConfig) : Program (EcMaster β) Bool := do
  modify fun m => { m with config := config }
  let reply ← soem (.init config.ifname)
  if reply.result = 0 then return false
  else do
    modify fun m => { m with closed := false }
    return true

/-- Closing twice, or before a successful opening, does nothing. -/
def close : Program (EcMaster β) Unit := do
  let m ← get
  if m.closed then return ()
  else do
    modify fun m => { m with closed := true }
    let _ ← soem .close
    return ()

/-- Ask SOEM for the slaves and collect what the context then says about each. Without an
answer there are none. -/
def scanSlaves : Program (EcMaster β) (List SlaveInfo) := do
  let reply ← soem .configInit
  if reply.result ≤ 0 then return []
  else do
    let m ← get
    return (List.range reply.result.toNat).map fun i => m.getSlaveInfo (i + 1)

/-- The size that the mapping returns is only logged. -/
def configureProcessData : Program (EcMaster β) Bool := do
  let m ← get
  if m.ctx.slavecount = 0 then return false
  else do
    let _ ← soem (.configMapGroup 0)
    modify fun m =>
      { m with expectedWkc := m.ctx.group.outputsWkc * 2 + m.ctx.group.inputsWkc }
    return true

/-- Configure the distributed clocks, where the configuration wants them. The answer is not
looked at. -/
def configureDc : Program (EcMaster β) Bool := do
  let m ← get
  if m.config.useDc = false then return true
  else do
    let _ ← soem .configDc
    return true

/-- Store the wanted state, write it to the bus, wait, and compare what came back. -/
def transmitState (slave : Nat) (written awaited : UInt16) : Program (EcMaster β) UInt16 := do
  modify fun m => { m with ctx := m.ctx.setState slave written }
  let _ ← soem (.writeState slave written)
  let _ ← soem (.stateCheck slave awaited ecTimeoutState)
  let m ← get
  return (m.ctx.slavelist slave).state

/-- Slave 0 addresses all slaves at once. -/
def requestState (slave : Nat) (state : UInt16) : Program (EcMaster β) Bool := do
  note (.request slave state)
  let reached ← transmitState slave state state
  return reached == state

/-- Ask all slaves for OP. -/
def requestOperationalState : Program (EcMaster β) Bool := requestState 0 EcState.operational

/-- Ask all slaves for SAFE_OP. -/
def requestSafeOpState : Program (EcMaster β) Bool := requestState 0 EcState.safeOp

/-- Ask all slaves for INIT. -/
def requestInitState : Program (EcMaster β) Bool := requestState 0 EcState.init

/-- The remaining iterations of the retry loop. An error flag in the fresh reading is
acknowledged with the state it came with, which uses up the iteration. -/
def retryState (slave : Nat) (state : UInt16) : Nat → Program (EcMaster β) Bool
  | 0 => return false
  | remaining + 1 => do
    let _ ← soem .readState
    let m ← get
    let actual := (m.ctx.slavelist slave).state
    if actual = state then return true
    else if actual &&& EcState.error ≠ 0 then do
      let _ ← transmitState slave ((actual &&& 0x0f) ||| EcState.ack) (actual &&& 0x0f)
      retryState slave state remaining
    else do
      let reached ← transmitState slave state state
      if reached = state then return true
      else retryState slave state remaining

/-- One attempt and up to `maxRetries` more. -/
def requestStateWithRetry (slave : Nat) (state : UInt16) (maxRetries : Int := 3) :
    Program (EcMaster β) Bool := do
  note (.request slave state)
  retryState slave state (maxRetries + 1).toNat

/-- Ask all slaves for PRE_OP, several times if need be. -/
def requestPreOpState : Program (EcMaster β) Bool := requestStateWithRetry 0 EcState.preOp

/-- The comparison is exact: a slave with an error flag is not in the state. -/
def checkAllSlavesInState (state : UInt16) : Program (EcMaster β) Bool := do
  let _ ← soem .readState
  let m ← get
  note (.checked state m.slaveStates)
  return m.slaveStates.all (· == state)

/-- Read the states of all slaves and answer that of one. -/
def readActualState (slave : Nat) : Program (EcMaster β) UInt16 := do
  let _ ← soem .readState
  let m ← get
  return (m.ctx.slavelist slave).state

/-- The state that was read last, without asking the bus. -/
def getCurrentState (slave : Nat) : Program (EcMaster β) UInt16 := do
  let m ← get
  return (m.ctx.slavelist slave).state

/-- Refresh the slave list. -/
def checkSlaveStates : Program (EcMaster β) Unit := do
  let _ ← soem .readState
  return ()

/-- Read the states of all slaves and answer the status code of one. -/
def readAlStatusCode (slave : Nat) : Program (EcMaster β) UInt16 := do
  let _ ← soem .readState
  let m ← get
  return (m.ctx.slavelist slave).alStatusCode

/-- One exchange of process data. The first cycle after construction measures no
interval, since no earlier time stamp exists. -/
def runOneCycle : Program (EcMaster β) Unit := do
  let _ ← soem .sendProcessData
  let received ← soem (.receiveProcessData ecTimeoutRet)
  let now ← steadyNow
  modify fun m =>
    let measured :=
      if m.lastCycleTime ≠ 0 then
        m.stats.recordInterval (UInt32.ofInt ((now - m.lastCycleTime).tdiv 1000))
      else m.stats
    { m with
      lastCycleTime := now
      stats := measured.recordWkc received.result m.expectedWkc m.ctx.dcTime }

/-- Copy a buffer to a slave's output window. Only a missing window is refused. -/
def writeOutput (slave offset : Nat) (data : List UInt8) : Program (EcMaster β) Unit := do
  let m ← get
  match (m.ctx.slavelist slave).outputs with
  | none => return ()
  | some address => do
    note (.wroteImage slave (address + offset) data.length)
    modify fun m => { m with ctx := m.ctx.store (address + offset) data }

/-- Copy from a slave's input window over a buffer. Only a missing window is refused. -/
def readInput (slave offset : Nat) (data : List UInt8) : Program (EcMaster β) (List UInt8) := do
  let m ← get
  match (m.ctx.slavelist slave).inputs with
  | none => return data
  | some address => do
    note (.readImage slave (address + offset) data.length)
    return m.ctx.load (address + offset) data.length

/-- Read a service data object into a buffer. The stored bytes replace the start of
the buffer; the stored size is not looked at. -/
def sdoRead (slave index : UInt16) (subindex : UInt8) (data : List UInt8) (len timeoutUs : Int) :
    Program (EcMaster β) (Bool × List UInt8) := do
  let reply ← soem (.sdoRead slave index subindex false len timeoutUs)
  return (decide (0 < reply.result),
    reply.data.take data.length ++ data.drop reply.data.length)

/-- A download of service data. It succeeds if the working counter is positive. -/
def sdoWrite (slave index : UInt16) (subindex : UInt8) (data : List UInt8) (len timeoutUs : Int) :
    Program (EcMaster β) Bool := do
  let reply ← soem (.sdoWrite slave index subindex false len data timeoutUs)
  return decide (0 < reply.result)

end Calls

end EcMaster

end MoEcat
