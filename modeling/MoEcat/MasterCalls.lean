import MoEcat.Bench
import MoEcat.CycleTimes
import MoEcat.CyclicUpdates
import MoEcat.Monitors

/-!
# Calls of the bus master from several threads

The bus master is shared: a thread that runs cycles, one that diagnoses and one that closes
the adapter may all be in it. Its mutex makes a monitor of it. The bodies below are the
operations of the bus master as the source writes them, cut into the steps between which
another thread may come: every SOEM call, every reading of a member and every writing of one.
In particular a cycle reads the statistics in one step and writes them in a later one, twice
in a cycle that closes an interval. The statistics count as one member here.

The operations that are not in the list take no lock: opening the adapter, the scan, the
configuration of the process data, and the copies to and from the process image. They are
the changes from outside, each of them a single step.
-/

namespace MoEcat

open Body

/-- The calls that take the mutex. -/
inductive MasterCall where
  | close
  | requestState (slave : Nat) (state : UInt16)
  | readActualState (slave : Nat)
  | requestStateWithRetry (slave : Nat) (state : UInt16) (maxRetries : Int)
  | checkAllSlavesInState (state : UInt16)
  | getCurrentState (slave : Nat)
  | readAlStatusCode (slave : Nat)
  | runOneCycle
  | checkSlaveStates
  | sdoRead (slave index : UInt16) (subindex : UInt8) (data : List UInt8) (len timeoutUs : Int)
  | sdoWrite (slave index : UInt16) (subindex : UInt8) (data : List UInt8) (len timeoutUs : Int)
deriving DecidableEq, Repr

/-- What a call answers: nothing, whether it succeeded, a word, or a filled buffer. -/
inductive MasterAnswer where
  | nothing
  | flag (ok : Bool)
  | word (value : UInt16)
  | buffer (ok : Bool) (data : List UInt8)
deriving DecidableEq, Repr

/-- The calls that take no lock. -/
inductive UnlockedCall where
  | initializeMaster (config : EcMasterConfig)
  | scanSlaves
  | configureProcessData
  | configureDc
  | writeOutput (slave offset : Nat) (data : List UInt8)
  | readInput (slave offset : Nat) (data : List UInt8)

namespace EcMaster

variable {β : Type} [Platform β]

/-- A call as a whole. -/
def perform : MasterCall → Program (EcMaster β) MasterAnswer
  | .close => do close; return .nothing
  | .requestState slave state => do return .flag (← requestState slave state)
  | .readActualState slave => do return .word (← readActualState slave)
  | .requestStateWithRetry slave state maxRetries => do
    return .flag (← requestStateWithRetry slave state maxRetries)
  | .checkAllSlavesInState state => do return .flag (← checkAllSlavesInState state)
  | .getCurrentState slave => do return .word (← getCurrentState slave)
  | .readAlStatusCode slave => do return .word (← readAlStatusCode slave)
  | .runOneCycle => do runOneCycle; return .nothing
  | .checkSlaveStates => do checkSlaveStates; return .nothing
  | .sdoRead slave index subindex data len timeoutUs => do
    let read ← sdoRead slave index subindex data len timeoutUs
    return .buffer read.1 read.2
  | .sdoWrite slave index subindex data len timeoutUs => do
    return .flag (← sdoWrite slave index subindex data len timeoutUs)

end EcMaster

/-- A call that takes no lock changes the master. -/
def UnlockedCall.changes {β : Type} [Platform β] : UnlockedCall → EcMaster β → EcMaster β
  | .initializeMaster config => (EcMaster.initializeMaster config).after
  | .scanSlaves => EcMaster.scanSlaves.after
  | .configureProcessData => EcMaster.configureProcessData.after
  | .configureDc => EcMaster.configureDc.after
  | .writeOutput slave offset data => (EcMaster.writeOutput slave offset data).after
  | .readInput slave offset data => (EcMaster.readInput slave offset data).after

/-! ## The calls in steps -/

namespace MasterCalls

open EcMaster (note soem steadyNow)

variable {β : Type} [Platform β]

/-- Closing the adapter, step by step. -/
def close : Body (EcMaster β) Unit := do
  let m ← once get
  if m.closed then return ()
  else do
    once (modify fun m => { m with closed := true })
    let _ ← once (soem .close)
    return ()

/-- Storing, writing and awaiting a state, step by step. -/
def transmitState (slave : Nat) (written awaited : UInt16) : Body (EcMaster β) UInt16 := do
  once (modify fun m => { m with ctx := m.ctx.setState slave written })
  let _ ← once (soem (.writeState slave written))
  let _ ← once (soem (.stateCheck slave awaited ecTimeoutState))
  let m ← once get
  return (m.ctx.slavelist slave).state

/-- A request without retries, step by step. -/
def requestState (slave : Nat) (state : UInt16) : Body (EcMaster β) Bool := do
  once (note (.request slave state))
  let reached ← transmitState slave state state
  return reached == state

/-- The loop of retries, step by step. -/
def retryState (slave : Nat) (state : UInt16) : Nat → Body (EcMaster β) Bool
  | 0 => return false
  | remaining + 1 => do
    let _ ← once (soem .readState)
    let m ← once get
    let actual := (m.ctx.slavelist slave).state
    if actual = state then return true
    else if actual &&& EcState.error ≠ 0 then do
      let _ ← transmitState slave ((actual &&& 0x0f) ||| EcState.ack) (actual &&& 0x0f)
      retryState slave state remaining
    else do
      let reached ← transmitState slave state state
      if reached = state then return true
      else retryState slave state remaining

/-- A request with retries, step by step. -/
def requestStateWithRetry (slave : Nat) (state : UInt16) (maxRetries : Int) :
    Body (EcMaster β) Bool := do
  once (note (.request slave state))
  retryState slave state (maxRetries + 1).toNat

/-- A check of all slaves, step by step. -/
def checkAllSlavesInState (state : UInt16) : Body (EcMaster β) Bool := do
  let _ ← once (soem .readState)
  let m ← once get
  once (note (.checked state m.slaveStates))
  return m.slaveStates.all (· == state)

/-- What a read of the slave list shows of one slave. -/
def readSlave {α : Type} (slave : Nat) (field : EcSlave → α) : Body (EcMaster β) α := do
  let _ ← once (soem .readState)
  let m ← once get
  return field (m.ctx.slavelist slave)

/-- A look at the state of a slave that the bus is not asked for. -/
def getCurrentState (slave : Nat) : Body (EcMaster β) UInt16 := do
  let m ← once get
  return (m.ctx.slavelist slave).state

/-- Reading the states, and nothing else. -/
def checkSlaveStates : Body (EcMaster β) Unit := do
  let _ ← once (soem .readState)
  return ()

/-- The interval since the cycle before, where there has been one: the statistics are read in
one step and written in the next. -/
def recordInterval (now : Int) : Body (EcMaster β) Unit := do
  let m ← once get
  if m.lastCycleTime ≠ 0 then do
    let found ← once get
    once (modify fun written => { written with
      stats := found.stats.recordInterval (UInt32.ofInt ((now - m.lastCycleTime).tdiv 1000)) })
  else return ()

/-- The time stamp is written between the two parts of the statistics, as in the source. A
second cycle between a reading and the writing after it would be lost. -/
def runOneCycle : Body (EcMaster β) Unit := do
  let _ ← once (soem .sendProcessData)
  let received ← once (soem (.receiveProcessData ecTimeoutRet))
  let now ← once steadyNow
  recordInterval now
  once (modify fun m => { m with lastCycleTime := now })
  let m ← once get
  once (modify fun written => { written with
    stats := m.stats.recordWkc received.result m.expectedWkc m.ctx.dcTime })

/-- An upload, step by step. What the answer does not fill of the buffer stays. -/
def sdoRead (slave index : UInt16) (subindex : UInt8) (data : List UInt8) (len timeoutUs : Int) :
    Body (EcMaster β) (Bool × List UInt8) := do
  let reply ← once (soem (.sdoRead slave index subindex false len timeoutUs))
  return (decide (0 < reply.result),
    reply.data.take data.length ++ data.drop reply.data.length)

/-- A download, step by step. -/
def sdoWrite (slave index : UInt16) (subindex : UInt8) (data : List UInt8) (len timeoutUs : Int) :
    Body (EcMaster β) Bool := do
  let reply ← once (soem (.sdoWrite slave index subindex false len data timeoutUs))
  return decide (0 < reply.result)

/-- What a call does while it has the lock. -/
def body : MasterCall → Body (EcMaster β) MasterAnswer
  | .close => do close; return .nothing
  | .requestState slave state => do return .flag (← requestState slave state)
  | .readActualState slave => do return .word (← readSlave slave EcSlave.state)
  | .requestStateWithRetry slave state maxRetries => do
    return .flag (← requestStateWithRetry slave state maxRetries)
  | .checkAllSlavesInState state => do return .flag (← checkAllSlavesInState state)
  | .getCurrentState slave => do return .word (← getCurrentState slave)
  | .readAlStatusCode slave => do return .word (← readSlave slave EcSlave.alStatusCode)
  | .runOneCycle => do runOneCycle; return .nothing
  | .checkSlaveStates => do checkSlaveStates; return .nothing
  | .sdoRead slave index subindex data len timeoutUs => do
    let read ← sdoRead slave index subindex data len timeoutUs
    return .buffer read.1 read.2
  | .sdoWrite slave index subindex data len timeoutUs => do
    return .flag (← sdoWrite slave index subindex data len timeoutUs)

/-! ## The steps make up the calls -/

/-- Without a pause these are the steps of the sequential program. -/
theorem whole_transmitState (slave : Nat) (written awaited : UInt16) :
    (transmitState (β := β) slave written awaited).whole =
      EcMaster.transmitState slave written awaited := by
  simp only [transmitState, EcMaster.transmitState, whole_bind, whole_once, whole_pure]

/-- The induction follows the iterations of the retry loop. -/
theorem whole_retryState (slave : Nat) (state : UInt16) (remaining : Nat) :
    (retryState (β := β) slave state remaining).whole =
      EcMaster.retryState slave state remaining := by
  induction remaining with
  | zero => rfl
  | succ remaining inductionHypothesis =>
    simp only [retryState, EcMaster.retryState, whole_bind, whole_once, whole_ite, whole_pure,
      whole_transmitState, inductionHypothesis]

omit [Platform β] in
/-- The cases are whether there has been a cycle before. -/
theorem whole_recordInterval (now : Int) :
    (recordInterval (β := β) now).whole = modify fun m => { m with
      stats := if m.lastCycleTime ≠ 0 then
          m.stats.recordInterval (UInt32.ofInt ((now - m.lastCycleTime).tdiv 1000))
        else m.stats } := by
  simp only [recordInterval, whole_bind, whole_once, whole_ite, whole_pure]
  funext m
  change Prod.mk () (Program.after (if m.lastCycleTime ≠ 0 then _ else _) m) = Prod.mk () _
  rw [Program.after_ite]
  by_cases stamped : m.lastCycleTime ≠ 0
  · simp only [if_pos stamped]
    rfl
  · simp only [if_neg stamped]
    rfl

/-- Without a pause the members are written as the sequential cycle writes them. -/
theorem whole_runOneCycle : (runOneCycle (β := β)).whole = EcMaster.runOneCycle := by
  simp only [runOneCycle, whole_bind, whole_once, whole_recordInterval]
  rfl

/-- Without a pause the steps of a call are the call. -/
theorem whole_body (call : MasterCall) : (body (β := β) call).whole = EcMaster.perform call := by
  cases call with
  | runOneCycle =>
    simp only [body, EcMaster.perform, whole_bind, whole_pure, whole_runOneCycle]
  | _ =>
    simp only [body, EcMaster.perform, whole_bind, whole_once, whole_ite, whole_pure, close,
      EcMaster.close, requestState, EcMaster.requestState, readSlave, EcMaster.readActualState,
      requestStateWithRetry, EcMaster.requestStateWithRetry, whole_transmitState,
      whole_retryState, checkAllSlavesInState, EcMaster.checkAllSlavesInState, getCurrentState,
      EcMaster.getCurrentState, EcMaster.readAlStatusCode, checkSlaveStates,
      EcMaster.checkSlaveStates, sdoRead, EcMaster.sdoRead, sdoWrite, EcMaster.sdoWrite]

/-! ## What the steps do to the record and the statistics -/

end MasterCalls

/-- The call puts a frame of process data on the bus. -/
def SoemCall.isSend : SoemCall → Bool
  | .sendProcessData => true
  | _ => false

/-- The event is the sending of a frame of process data. -/
def Event.isSend : Event → Bool
  | .soem call _ => call.isSend
  | _ => false

namespace MasterCalls

open EcMaster (note soem steadyNow)

variable {β : Type}

/-- The record only grows, no frame of process data is sent, and the statistics stay. -/
structure Quiet (m m' : EcMaster β) : Prop where
  grows : ∃ added, m'.trace = m.trace ++ added ∧ ∀ event ∈ added, event.isSend = false
  stats : m'.stats = m.stats

/-- Doing nothing is quiet. -/
theorem Quiet.refl (m : EcMaster β) : Quiet m m :=
  ⟨⟨[], (List.append_nil _).symm, List.forall_mem_nil _⟩, rfl⟩

/-- Two quiet parts are quiet together. -/
theorem Quiet.trans (m m' m'' : EcMaster β) (earlier : Quiet m m') (later : Quiet m' m'') :
    Quiet m m'' := by
  obtain ⟨⟨first, grown, silent⟩, kept⟩ := earlier
  obtain ⟨⟨second, grown', silent'⟩, kept'⟩ := later
  refine ⟨⟨first ++ second, ?_, List.forall_mem_append.mpr ⟨silent, silent'⟩⟩, kept'.trans kept⟩
  rw [grown', grown, List.append_assoc]

/-- The record of a quiet part goes on from the one before. -/
theorem Quiet.starts (m m' : EcMaster β) (quiet : Quiet m m') : m.trace <+: m'.trace := by
  obtain ⟨added, grown, -⟩ := quiet.grows
  exact ⟨added, grown.symm⟩

/-- A step that leaves the record and the statistics alone. -/
theorem quiet_modify {change : EcMaster β → EcMaster β} (trace : ∀ m, (change m).trace = m.trace)
    (stats : ∀ m, (change m).stats = m.stats) :
    (modify change : Program (EcMaster β) PUnit).Relates Quiet := by
  intro m
  exact ⟨⟨[], by rw [List.append_nil]; exact trace m, List.forall_mem_nil _⟩, stats m⟩

/-- A look at the members is quiet. -/
theorem quiet_get : (get : Program (EcMaster β) (EcMaster β)).Relates Quiet := Quiet.refl

/-- Recording anything else than a frame is quiet. -/
theorem quiet_note {event : Event} (silent : event.isSend = false) :
    (note (β := β) event).Relates Quiet := by
  intro m
  exact ⟨⟨[event], rfl, List.forall_mem_singleton.mpr silent⟩, rfl⟩

variable [Platform β]

/-- A call of the library that sends no frame is quiet. -/
theorem quiet_soem {call : SoemCall} (silent : call.isSend = false) :
    (soem (β := β) call).Relates Quiet := by
  intro m
  exact ⟨⟨[_], rfl, List.forall_mem_singleton.mpr silent⟩, rfl⟩

/-- Writing a state is quiet. -/
theorem quiet_transmitState (slave : Nat) (written awaited : UInt16) :
    (transmitState (β := β) slave written awaited).Relates Quiet :=
  .bind (relates_once (quiet_modify (fun _ => rfl) fun _ => rfl)) fun _ =>
    .bind (relates_once (quiet_soem rfl)) fun _ => .bind (relates_once (quiet_soem rfl)) fun _ =>
      .bind (relates_once quiet_get) fun _ => relates_pure _

/-- The loop of retries is quiet. The induction is on the attempts that remain. -/
theorem quiet_retryState (slave : Nat) (state : UInt16) (remaining : Nat) :
    (retryState (β := β) slave state remaining).Relates Quiet := by
  induction remaining with
  | zero => exact relates_pure _
  | succ remaining inductionHypothesis =>
    refine .bind (relates_once (quiet_soem rfl)) fun _ => .bind (relates_once quiet_get) fun _ => ?_
    refine .ite (relates_pure _) (.ite ?_ ?_)
    · exact .bind (quiet_transmitState _ _ _) fun _ => inductionHypothesis
    · exact .bind (quiet_transmitState _ _ _) fun _ => .ite (relates_pure _) inductionHypothesis

/-- A look at a slave is quiet. -/
theorem quiet_readSlave {α : Type} (slave : Nat) (field : EcSlave → α) :
    (readSlave (β := β) slave field).Relates Quiet :=
  .bind (relates_once (quiet_soem rfl)) fun _ => .bind (relates_once quiet_get) fun _ =>
    relates_pure _

/-- Every step of a call other than a cycle is quiet. -/
theorem quiet_body {call : MasterCall} (other : call ≠ .runOneCycle) :
    (body (β := β) call).Relates Quiet := by
  cases call with
  | runOneCycle => exact absurd rfl other
  | close =>
    refine .bind (.bind (relates_once quiet_get) fun m => ?_) fun _ => relates_pure _
    exact .ite (relates_pure _)
      (.bind (relates_once (quiet_modify (fun _ => rfl) fun _ => rfl)) fun _ =>
        .bind (relates_once (quiet_soem rfl)) fun _ => relates_pure _)
  | requestState slave state =>
    refine .bind (.bind (relates_once (quiet_note rfl)) fun _ => ?_) fun _ => relates_pure _
    exact .bind (quiet_transmitState _ _ _) fun _ => relates_pure _
  | readActualState slave => exact .bind (quiet_readSlave _ _) fun _ => relates_pure _
  | requestStateWithRetry slave state maxRetries =>
    refine .bind (.bind (relates_once (quiet_note rfl)) fun _ => ?_) fun _ => relates_pure _
    exact quiet_retryState _ _ _
  | checkAllSlavesInState state =>
    refine .bind (.bind (relates_once (quiet_soem rfl)) fun _ => ?_) fun _ => relates_pure _
    exact .bind (relates_once quiet_get) fun _ => .bind (relates_once (quiet_note rfl)) fun _ =>
      relates_pure _
  | getCurrentState slave =>
    exact .bind (.bind (relates_once quiet_get) fun _ => relates_pure _) fun _ => relates_pure _
  | readAlStatusCode slave => exact .bind (quiet_readSlave _ _) fun _ => relates_pure _
  | checkSlaveStates =>
    refine .bind (.bind (relates_once (quiet_soem rfl)) fun _ => ?_) fun _ => relates_pure _
    exact relates_pure _
  | sdoRead slave index subindex data len timeoutUs =>
    refine .bind (.bind (relates_once (quiet_soem rfl)) fun _ => ?_) fun _ => relates_pure _
    exact relates_pure _
  | sdoWrite slave index subindex data len timeoutUs =>
    refine .bind (.bind (relates_once (quiet_soem rfl)) fun _ => ?_) fun _ => relates_pure _
    exact relates_pure _

/-- No step of a call takes anything off the record. -/
theorem appends_body (call : MasterCall) :
    (body (β := β) call).Relates fun m m' => m.trace <+: m'.trace := by
  have appends (sent : SoemCall) :
      (soem (β := β) sent).Relates fun m m' => m.trace <+: m'.trace :=
    fun m => List.prefix_append ..
  cases call with
  | runOneCycle =>
    refine .bind ?_ fun _ => relates_pure _
    refine .bind (relates_once (appends _)) fun _ => .bind (relates_once (appends _)) fun _ => ?_
    refine .bind (relates_once fun m => List.prefix_rfl) fun now => ?_
    refine .bind (.bind (relates_once fun m => List.prefix_rfl) fun m => ?_) fun _ => ?_
    · exact .ite (.bind (relates_once fun m => List.prefix_rfl) fun _ =>
        relates_once fun m => List.prefix_rfl) (relates_pure _)
    · exact .bind (relates_once fun m => List.prefix_rfl) fun _ =>
        .bind (relates_once fun m => List.prefix_rfl) fun _ =>
          relates_once fun m => List.prefix_rfl
  | _ => exact (quiet_body (by simp)).mono Quiet.starts

/-- The calls that take no lock are quiet. -/
theorem quiet_unlocked (call : UnlockedCall) (m : EcMaster β) : Quiet m (call.changes m) := by
  revert m
  cases call with
  | initializeMaster config =>
    change (EcMaster.initializeMaster (β := β) config).Relates Quiet
    refine .bind Quiet.trans (quiet_modify (fun _ => rfl) fun _ => rfl) fun _ => ?_
    refine .bind Quiet.trans (quiet_soem rfl) fun _ => .ite (Quiet.refl ·) ?_
    exact .bind Quiet.trans (quiet_modify (fun _ => rfl) fun _ => rfl) fun _ => (Quiet.refl ·)
  | scanSlaves =>
    change (EcMaster.scanSlaves (β := β)).Relates Quiet
    refine .bind Quiet.trans (quiet_soem rfl) fun _ => .ite (Quiet.refl ·) ?_
    exact .bind Quiet.trans quiet_get fun _ => (Quiet.refl ·)
  | configureProcessData =>
    change (EcMaster.configureProcessData (β := β)).Relates Quiet
    refine .bind Quiet.trans quiet_get fun _ => .ite (Quiet.refl ·) ?_
    refine .bind Quiet.trans (quiet_soem rfl) fun _ => ?_
    exact .bind Quiet.trans (quiet_modify (fun _ => rfl) fun _ => rfl) fun _ => (Quiet.refl ·)
  | configureDc =>
    change (EcMaster.configureDc (β := β)).Relates Quiet
    refine .bind Quiet.trans quiet_get fun _ => .ite (Quiet.refl ·) ?_
    exact .bind Quiet.trans (quiet_soem rfl) fun _ => (Quiet.refl ·)
  | writeOutput slave offset data =>
    change (EcMaster.writeOutput (β := β) slave offset data).Relates Quiet
    refine .bind Quiet.trans quiet_get fun m => ?_
    cases (m.ctx.slavelist slave).outputs with
    | none => exact (Quiet.refl ·)
    | some address =>
      exact .bind Quiet.trans (quiet_note rfl) fun _ => quiet_modify (fun _ => rfl) fun _ => rfl
  | readInput slave offset data =>
    change (EcMaster.readInput (β := β) slave offset data).Relates Quiet
    refine .bind Quiet.trans quiet_get fun m => ?_
    cases (m.ctx.slavelist slave).inputs with
    | none => exact (Quiet.refl ·)
    | some address => exact .bind Quiet.trans (quiet_note rfl) fun _ => (Quiet.refl ·)

/-- A whole call other than a cycle is quiet. -/
theorem quiet_perform {call : MasterCall} (other : call ≠ .runOneCycle) (m : EcMaster β) :
    Quiet m ((EcMaster.perform call).after m) := by
  rw [← whole_body]
  exact (quiet_body other).whole Quiet.refl Quiet.trans m

/-! ## Frames and their answers -/

/-- Every frame of process data is followed at once by the receipt of its answer. -/
def Exchanges (trace : List Event) : Prop :=
  ∀ before sent later, trace = before ++ .soem .sendProcessData sent :: later →
    ∃ received rest, later = .soem (.receiveProcessData ecTimeoutRet) received :: rest

/-- Where no frame is sent there is nothing to follow. -/
theorem exchanges_of_silent {added : List Event}
    (silent : ∀ event ∈ added, event.isSend = false) : Exchanges added := by
  rintro before sent later rfl
  have sends := silent _ (List.mem_append_right before List.mem_cons_self)
  cases sends

/-- The record of one cycle is a frame and the receipt of its answer. -/
theorem exchanges_cycle (sent received : Int) :
    Exchanges [.soem .sendProcessData sent, .soem (.receiveProcessData ecTimeoutRet) received] := by
  intro before result later split
  cases before with
  | nil =>
    obtain ⟨-, rest⟩ := List.cons.inj split
    exact ⟨received, [], rest.symm⟩
  | cons first before =>
    obtain ⟨-, rest⟩ := List.cons.inj split
    cases before with
    | nil =>
      obtain ⟨receipt, -⟩ := List.cons.inj rest
      cases receipt
    | cons second before => simp at rest

/-- Records in which every frame is answered are so together. -/
theorem Exchanges.append {first second : List Event} (earlier : Exchanges first)
    (later : Exchanges second) : Exchanges (first ++ second) := by
  intro before sent after split
  rcases List.append_eq_append_iff.mp split with ⟨inner, rfl, rest⟩ | ⟨inner, rfl, rest⟩
  · exact later inner sent after rest
  · cases inner with
    | nil => exact later [] sent after rest.symm
    | cons event inner =>
      obtain ⟨rfl, rfl⟩ := List.cons.inj rest
      obtain ⟨received, tail, rfl⟩ := earlier before sent inner rfl
      exact ⟨received, tail ++ second, rfl⟩

/-- In a part of such a record only the last frame may be without its answer. -/
theorem Exchanges.part {trace whole : List Event} (exchanges : Exchanges whole)
    (starts : trace <+: whole) {before : List Event} {sent : Int} {later : List Event}
    (split : trace = before ++ .soem .sendProcessData sent :: later) :
    later = [] ∨
      ∃ received rest, later = .soem (.receiveProcessData ecTimeoutRet) received :: rest := by
  obtain ⟨suffix, rfl⟩ := starts
  obtain ⟨received, rest, follows⟩ := exchanges before sent (later ++ suffix) (by simp [split])
  cases later with
  | nil => exact .inl rfl
  | cons receipt later =>
    obtain ⟨rfl, -⟩ := List.cons.inj follows
    exact .inr ⟨received, later, rfl⟩

/-! ## Runs -/

section Runs

variable {ι : Type} [DecidableEq ι]

/-- The changes that the calls without the lock make. -/
def Unlocked (change : EcMaster β → EcMaster β) : Prop :=
  ∃ call : UnlockedCall, change = call.changes

/-- A bus with two slaves that has not been opened yet. -/
def unopened : EcMaster Bench := { platform := { slaves := [{}, {}] } }

/-- A scan, then a thread that runs cycles and one that asks for a state, step by step. -/
def together : List (MonitorAction Bool MasterCall (EcMaster Bench)) :=
  [.outside UnlockedCall.scanSlaves.changes, .call true .runOneCycle,
    .call false (.requestState 0 EcState.preOp), .advance true, .advance true, .advance false,
    .advance true, .advance true, .advance true, .advance false, .advance true, .advance true,
    .advance true, .advance true, .advance false, .advance false, .call true .runOneCycle,
    .advance true, .advance false]

/-- The scan of this run is an operation without the lock. -/
theorem together_unlocked : ∀ change, .outside change ∈ together → Unlocked change := by
  intro change member
  refine ⟨.scanSlaves, ?_⟩
  simpa [together] using member

/-- Nobody is in a call when the scan is made. -/
theorem together_undisturbed :
    let monitor : Monitor Bool MasterCall (EcMaster Bench) MasterAnswer := { shared := unopened }
    ∀ entry ∈ Runs.history (Monitor.happen body) monitor together, Monitor.Undisturbed entry := by
  intro monitor entry member
  have free : ∀ entry ∈ Runs.history (Monitor.happen body) monitor together,
      Monitor.fromOutside entry = true → entry.before.locked = false := by
    decide
  exact Monitor.undisturbed_of_free (free entry member)

/-- In every run in which the calls without the lock leave the master alone while a call has
the lock, however the steps of the threads interleave: the master is where a sequence of
whole calls leads, but for what the call inside has done, and the calls of the sequence are
those that have returned, in this order and with these answers. -/
theorem calls_serial (start : EcMaster β)
    (actions : List (MonitorAction ι MasterCall (EcMaster β)))
    (possible : ∀ change, .outside change ∈ actions → Unlocked change) :
    let monitor : Monitor ι MasterCall (EcMaster β) MasterAnswer := { shared := start }
    let history := Runs.history (Monitor.happen body) monitor actions
    let reached := Runs.final (Monitor.happen body) monitor actions
    (∀ entry ∈ history, Monitor.Undisturbed entry) →
    (∀ one other, (reached.threads one).holds = true → (reached.threads other).holds = true →
      one = other) ∧
    ∃ past m, Runs.Path (Monitor.Whole EcMaster.perform Unlocked) start past m ∧
      past.filterMap Prod.fst = history.filterMap Monitor.returning ∧
      Monitor.InProgress EcMaster.perform m reached := by
  intro monitor history reached undisturbed
  have exclusive : reached.Exclusive :=
    Monitor.exclusive_final (Monitor.exclusive_start start) actions
  refine ⟨fun one other inside inside' => exclusive.unique inside' inside, ?_⟩
  exact Monitor.serial whole_body start actions possible undisturbed

/-- On the bench the calls of this run are serial. -/
theorem calls_serial_bench :
    let monitor : Monitor Bool MasterCall (EcMaster Bench) MasterAnswer := { shared := unopened }
    let history := Runs.history (Monitor.happen body) monitor together
    let reached := Runs.final (Monitor.happen body) monitor together
    (∀ one other, (reached.threads one).holds = true → (reached.threads other).holds = true →
      one = other) ∧
    ∃ past m, Runs.Path (Monitor.Whole EcMaster.perform Unlocked) unopened past m ∧
      past.filterMap Prod.fst = history.filterMap Monitor.returning ∧
      Monitor.InProgress EcMaster.perform m reached := by
  exact calls_serial unopened together together_unlocked together_undisturbed

/-- The run ends with the second thread inside and the first one waiting. -/
example :
    let monitor : Monitor Bool MasterCall (EcMaster Bench) MasterAnswer := { shared := unopened }
    (Runs.final (Monitor.happen body) monitor together).locked = true := by
  decide +kernel

/-- The calls of a list that are cycles. -/
def cycles (calls : List (Return ι MasterCall MasterAnswer)) : Nat :=
  calls.countP fun call => call.method == .runOneCycle

omit [DecidableEq ι] in
/-- A sequence of whole calls answers every frame and counts every cycle. -/
theorem path_cycles {start m : EcMaster β}
    {past : List (Option (Return ι MasterCall MasterAnswer) × EcMaster β)}
    (exchanges : Exchanges start.trace)
    (path : Runs.Path (Monitor.Whole EcMaster.perform Unlocked) start past m) :
    Exchanges m.trace ∧
      m.stats.cycleCount =
        start.stats.cycleCount + UInt32.ofNat (cycles (past.filterMap Prod.fst)) := by
  have quiet {m m' : EcMaster β} (quiet : Quiet m m') (known : Exchanges m.trace) :
      Exchanges m'.trace ∧ m'.stats.cycleCount = m.stats.cycleCount := by
    obtain ⟨added, grown, silent⟩ := quiet.grows
    rw [grown, quiet.stats]
    exact ⟨known.append (exchanges_of_silent silent), rfl⟩
  refine Runs.Path.invariant (fun past m => Exchanges m.trace ∧ m.stats.cycleCount =
    start.stats.cycleCount + UInt32.ofNat (cycles (past.filterMap Prod.fst))) ?_ ?_ path
  · exact ⟨exchanges, by simp [cycles]⟩
  · rintro past m label m' ⟨known, counted⟩ moved
    rw [List.filterMap_append]
    cases moved with
    | outside s possible =>
      obtain ⟨call, rfl⟩ := possible
      obtain ⟨still, same⟩ := quiet (quiet_unlocked call m) known
      refine ⟨still, ?_⟩
      rw [same, counted]
      simp
    | method thread call s =>
      by_cases cycle : call = .runOneCycle
      · subst cycle
        obtain ⟨sent, received, grown⟩ := ProcessDataEngine.runOneCycle_trace m
        have whole : (EcMaster.perform .runOneCycle).after m = EcMaster.runOneCycle.after m := rfl
        rw [whole, grown, (runOneCycle_average m).1, counted]
        refine ⟨known.append (exchanges_cycle sent received), ?_⟩
        simp [cycles, UInt32.ofNat_add, UInt32.add_assoc]
      · obtain ⟨still, same⟩ := quiet (quiet_perform cycle m) known
        refine ⟨still, ?_⟩
        rw [same, counted]
        simp [cycles, cycle]

/-- In every such run the bus has seen, at every moment, the beginning of what a sequence of
whole calls puts there: the calls that have returned, in this order, and then the one that
is inside. So a frame of process data is answered before anything else is on the bus, or it
is the last thing there while a call has the lock; and where the lock is free, every cycle
that has returned is counted. -/
theorem cycles_undivided (start : EcMaster β) (exchanges : Exchanges start.trace)
    (actions : List (MonitorAction ι MasterCall (EcMaster β)))
    (possible : ∀ change, .outside change ∈ actions → Unlocked change) :
    let monitor : Monitor ι MasterCall (EcMaster β) MasterAnswer := { shared := start }
    let history := Runs.history (Monitor.happen body) monitor actions
    let reached := Runs.final (Monitor.happen body) monitor actions
    (∀ entry ∈ history, Monitor.Undisturbed entry) →
    (∃ past m pending, Runs.Path (Monitor.Whole EcMaster.perform Unlocked) start past m ∧
      past.filterMap Prod.fst = history.filterMap Monitor.returning ++ Option.toList pending ∧
      (∀ call ∈ pending, ∃ rest, reached.threads call.thread = .inside call.method rest) ∧
      reached.shared.trace <+: m.trace) ∧
    (∀ before sent later, reached.shared.trace = before ++ .soem .sendProcessData sent :: later →
      later = [] ∧ reached.locked = true ∨
        ∃ received rest, later = .soem (.receiveProcessData ecTimeoutRet) received :: rest) ∧
    (reached.locked = false → reached.shared.stats.cycleCount =
      start.stats.cycleCount + UInt32.ofNat (cycles (history.filterMap Monitor.returning))) := by
  intro monitor history reached undisturbed
  obtain ⟨past, m, path, returned, progress⟩ :=
    Monitor.serial whole_body start actions possible undisturbed
  obtain ⟨answered, counted⟩ := path_cycles exchanges path
  have within := Monitor.serial_within (R := fun m m' : EcMaster β => m.trace <+: m'.trace)
    whole_body (fun _ => List.prefix_rfl) (fun _ _ _ earlier later => earlier.trans later)
    appends_body start actions possible undisturbed
  refine ⟨within, ?_, ?_⟩
  · intro before sent later split
    cases free : reached.locked with
    | false =>
      right
      have same : reached.shared = m := progress.free free
      rw [same] at split
      exact answered before sent later split
    | true =>
      obtain ⟨whole, m', -, path', -, -, starts⟩ := within
      rcases (path_cycles exchanges path').1.part starts split with last | receipt
      · exact .inl ⟨last, rfl⟩
      · exact .inr receipt
  · intro free
    have same : reached.shared = m := progress.free free
    rw [same, counted, returned]

/-- On the bench the cycles of this run are undivided. -/
theorem cycles_undivided_bench :
    let monitor : Monitor Bool MasterCall (EcMaster Bench) MasterAnswer := { shared := unopened }
    let history := Runs.history (Monitor.happen body) monitor together
    let reached := Runs.final (Monitor.happen body) monitor together
    (∃ past m pending, Runs.Path (Monitor.Whole EcMaster.perform Unlocked) unopened past m ∧
      past.filterMap Prod.fst = history.filterMap Monitor.returning ++ Option.toList pending ∧
      (∀ call ∈ pending, ∃ rest, reached.threads call.thread = .inside call.method rest) ∧
      reached.shared.trace <+: m.trace) ∧
    (∀ before sent later, reached.shared.trace = before ++ .soem .sendProcessData sent :: later →
      later = [] ∧ reached.locked = true ∨
        ∃ received rest, later = .soem (.receiveProcessData ecTimeoutRet) received :: rest) ∧
    (reached.locked = false → reached.shared.stats.cycleCount =
      unopened.stats.cycleCount + UInt32.ofNat (cycles (history.filterMap Monitor.returning))) := by
  exact cycles_undivided unopened (exchanges_of_silent (List.forall_mem_nil _)) together
    together_unlocked together_undisturbed

/-! ## Giving the lock back -/

/-- How many steps a call takes at most while it has the lock. -/
def limit : MasterCall → Nat
  | .close => 3
  | .requestState _ _ => 5
  | .readActualState _ => 2
  | .requestStateWithRetry _ _ maxRetries => 1 + 6 * (maxRetries + 1).toNat
  | .checkAllSlavesInState _ => 3
  | .getCurrentState _ => 1
  | .readAlStatusCode _ => 2
  | .runOneCycle => 9
  | .checkSlaveStates => 1
  | .sdoRead _ _ _ _ _ _ => 1
  | .sdoWrite _ _ _ _ _ _ => 1

/-- Writing a state takes four steps. -/
theorem atMost_transmitState (slave : Nat) (written awaited : UInt16) :
    (transmitState (β := β) slave written awaited).AtMost 4 :=
  AtMost.bind (atMost_once _) fun _ => AtMost.bind (atMost_once _) fun _ =>
    AtMost.bind (atMost_once _) fun _ => AtMost.bind (atMost_once _) fun _ => atMost_pure 0 _

/-- An iteration reads, looks and transmits at most once. -/
theorem atMost_retryState (slave : Nat) (state : UInt16) (remaining : Nat) :
    (retryState (β := β) slave state remaining).AtMost (6 * remaining) := by
  induction remaining with
  | zero => exact atMost_pure _ _
  | succ remaining inductionHypothesis =>
    have steps : 6 * (remaining + 1) = 1 + (1 + (4 + 6 * remaining)) := by omega
    rw [steps]
    refine .bind (atMost_once _) fun _ => .bind (atMost_once _) fun _ => ?_
    refine .ite (atMost_pure _ _) (.ite ?_ ?_)
    · exact .bind (atMost_transmitState _ _ _) fun _ => inductionHypothesis
    · exact .bind (atMost_transmitState _ _ _) fun _ => .ite (atMost_pure _ _) inductionHypothesis

omit [Platform β] in
/-- Without a cycle before, one look at the time stamp is all. -/
theorem atMost_recordInterval (now : Int) : (recordInterval (β := β) now).AtMost 3 :=
  AtMost.bind (atMost_once _) fun _ =>
    .ite (.bind (atMost_once _) fun _ => atMost_once _) (atMost_pure 2 _)

/-- No call takes more steps than its limit. -/
theorem atMost_body (call : MasterCall) : (body (β := β) call).AtMost (limit call) := by
  have answered {α : Type} {steps : Nat} {body : Body (EcMaster β) α}
      (bounded : body.AtMost steps) (answer : α → MasterAnswer) :
      (do return answer (← body)).AtMost steps := by
    exact AtMost.bind bounded fun _ => atMost_pure 0 _
  cases call with
  | close =>
    refine answered ?_ _
    exact .bind (atMost_once _) fun _ => .ite (atMost_pure 2 _)
      (.bind (atMost_once _) fun _ => .bind (atMost_once _) fun _ => atMost_pure 0 _)
  | requestState slave state =>
    refine answered ?_ _
    exact .bind (atMost_once _) fun _ => .bind (atMost_transmitState _ _ _) fun _ => atMost_pure 0 _
  | readActualState slave =>
    refine answered ?_ _
    exact .bind (atMost_once _) fun _ => .bind (atMost_once _) fun _ => atMost_pure 0 _
  | requestStateWithRetry slave state maxRetries =>
    refine answered ?_ _
    exact .bind (atMost_once _) fun _ => atMost_retryState _ _ _
  | checkAllSlavesInState state =>
    refine answered ?_ _
    exact .bind (atMost_once _) fun _ => .bind (atMost_once _) fun _ =>
      .bind (atMost_once _) fun _ => atMost_pure 0 _
  | getCurrentState slave =>
    refine answered ?_ _
    exact .bind (atMost_once _) fun _ => atMost_pure 0 _
  | readAlStatusCode slave =>
    refine answered ?_ _
    exact .bind (atMost_once _) fun _ => .bind (atMost_once _) fun _ => atMost_pure 0 _
  | runOneCycle =>
    refine answered ?_ _
    exact .bind (atMost_once _) fun _ => .bind (atMost_once _) fun _ =>
      .bind (atMost_once _) fun now => .bind (atMost_recordInterval now) fun _ =>
        .bind (atMost_once _) fun _ => .bind (atMost_once _) fun _ => atMost_once _
  | checkSlaveStates =>
    refine answered ?_ _
    exact .bind (atMost_once _) fun _ => atMost_pure 0 _
  | sdoRead slave index subindex data len timeoutUs =>
    refine answered ?_ fun read : Bool × List UInt8 => .buffer read.1 read.2
    exact .bind (atMost_once _) fun _ => atMost_pure 0 _
  | sdoWrite slave index subindex data len timeoutUs =>
    refine answered ?_ _
    exact .bind (atMost_once _) fun _ => atMost_pure 0 _

/-- The mutex is never held for ever. Whatever has happened, either it is free, and the next
step of any thread that waits takes it; or some thread is inside, and, whatever happens from
then on, its call returns before that thread has taken more steps than the limit of the
call. -/
theorem lock_given_back (start : EcMaster β)
    (earlier later : List (MonitorAction ι MasterCall (EcMaster β))) :
    let monitor : Monitor ι MasterCall (EcMaster β) MasterAnswer := { shared := start }
    let reached := Runs.final (Monitor.happen body) monitor earlier
    let history := Runs.history (Monitor.happen body) reached later
    (reached.locked = false ∧ ∀ thread call, reached.threads thread = .waiting call →
      ((Monitor.happen body (.advance thread)).after reached).threads thread =
        .inside call (body call)) ∨
    ∃ thread call rest, reached.threads thread = .inside call rest ∧
      ((∃ entry ∈ history, ∃ answer, Monitor.returning entry = some ⟨thread, call, answer⟩) ∨
        history.countP (Monitor.advances thread) ≤ limit call) := by
  intro monitor reached history
  have exclusive : reached.Exclusive :=
    Monitor.exclusive_final (Monitor.exclusive_start start) earlier
  cases taken : reached.locked with
  | false =>
    refine .inl ⟨rfl, ?_⟩
    intro thread call waits
    have enters : (Monitor.happen body (.advance thread)).after reached =
        { reached.put thread (.inside call (body call)) with locked := true } :=
      congrArg Prod.snd (Monitor.advance_enters waits taken)
    rw [enters]
    exact Monitor.put_self ..
  | true =>
    obtain ⟨thread, call, rest, inside⟩ := exclusive.holder taken
    have bounded : rest.AtMost (limit call) :=
      Monitor.rests_final (Q := fun call rest => rest.AtMost (limit call)) atMost_body
        (fun _ _ _ s bounded => bounded.later s) start earlier thread call rest inside
    exact .inr ⟨thread, call, rest, inside, Monitor.holder_returns exclusive inside bounded later⟩

end Runs

end MasterCalls

end MoEcat
