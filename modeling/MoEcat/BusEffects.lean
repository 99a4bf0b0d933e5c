import MoEcat.MoEcatMaster
import MoEcat.Traces
import Mathlib.Logic.Relation

/-!
# Effects of the bus operations

What each operation of the bus master does to the adapter, to the record of events
and to the memory it shares with SOEM. An event is reduced to a mark, which keeps
what the lifecycle is about: opening and releasing the adapter, broadcast requests,
broadcast state writes, checks of all slaves, process-data frames and cyclic updates.
Every other SOEM call is an access.

An operation *emits* marks when it keeps the open flag and the configuration and adds
exactly those marks to the record. It *touches* the bus when, in addition, it changes
the shared memory only through calls that neither rescan the bus nor lay out the
process image. Both compose, so the effect of a program is read off its parts.
-/

namespace MoEcat

/-- What the lifecycle sees of an event. -/
inductive Mark where
  | opened
  | released
  | requested (state : UInt16)
  | wrote (state : UInt16)
  | checked (state : UInt16) (found : List UInt16)
  | frame
  | output (slave : Nat)
  | input (slave : Nat)
  | access
deriving DecidableEq, Repr

/-- The mark of a SOEM call that needs an open adapter. -/
def SoemCall.mark : SoemCall → Mark
  | .close => .released
  | .sendProcessData => .frame
  | .writeState slave state => if slave = 0 then .wrote state else .access
  | _ => .access

/-- The mark of an event. A failed opening leaves none, like the copies to and from the
process image and requests to a single slave. -/
def Event.mark : Event → Option Mark
  | .soem (.init _) result => if result = 0 then none else some .opened
  | .soem call _ => some call.mark
  | .request slave state => if slave = 0 then some (.requested state) else none
  | .checked state found => some (.checked state found)
  | .updateOutput slave => some (.output slave)
  | .updateInput slave => some (.input slave)
  | .wroteImage .. | .readImage .. => none

/-- The expected state of a check of all slaves, with the states it found. -/
def Event.comparison : Event → Option (UInt16 × List UInt16)
  | .checked state found => some (state, found)
  | _ => none

/-- Marks of plain bus traffic: neither a request nor a confirmation. -/
def Mark.isTraffic : Mark → Bool
  | .wrote _ | .access => true
  | .opened | .released | .requested _ | .checked .. | .frame | .output _ | .input _ => false

/-- Calls that neither open, close or rescan the bus nor lay out the process image. -/
def SoemCall.isOrdinary : SoemCall → Bool
  | .init _ | .close | .configInit | .configMapGroup _ => false
  | _ => true

namespace EcMaster

variable {β : Type}

/-- The marks recorded so far. -/
def log (m : EcMaster β) : List Mark := m.trace.filterMap Event.mark

/-- The record grows by exactly these marks; the adapter and the configuration stay. -/
structure Emits (m m' : EcMaster β) (marks : List Mark) : Prop where
  closed : m'.closed = m.closed
  config : m'.config = m.config
  grows : Traces.Grows Event.mark m.trace m'.trace marks

/-- Doing nothing emits nothing. -/
theorem Emits.refl (m : EcMaster β) : Emits m m [] :=
  ⟨rfl, rfl, .refl _ _⟩

/-- One effect after another emits the marks of both, in order. -/
theorem Emits.trans {m m' m'' : EcMaster β} {first second : List Mark}
    (earlier : Emits m m' first) (later : Emits m' m'' second) :
    Emits m m'' (first ++ second) :=
  ⟨later.closed.trans earlier.closed, later.config.trans earlier.config,
    earlier.grows.trans later.grows⟩

/-- The log after an effect is the log before it and the marks that it emits. -/
theorem Emits.log_eq {m m' : EcMaster β} {marks : List Mark} (emits : Emits m m' marks) :
    m'.log = m.log ++ marks :=
  emits.grows.filterMap_eq

variable [Platform β]

/-- One change of the shared memory by an ordinary call, by the master's own stores, or
of the hidden state alone. -/
inductive ContextStep : EcContext × β → EcContext × β → Prop
  | call (call : SoemCall) (ordinary : call.isOrdinary) (ctx : EcContext) (platform : β) :
      ContextStep (ctx, platform) (Platform.soem call ctx platform).2
  | setState (slave : Nat) (state : UInt16) (ctx : EcContext) (platform : β) :
      ContextStep (ctx, platform) (ctx.setState slave state, platform)
  | store (address : Nat) (data : List UInt8) (ctx : EcContext) (platform : β) :
      ContextStep (ctx, platform) (ctx.store address data, platform)
  | world (ctx : EcContext) (platform platform' : β) :
      ContextStep (ctx, platform) (ctx, platform')

/-- The operation emits these marks and makes ordinary changes of the shared memory. -/
structure Touches (m m' : EcMaster β) (marks : List Mark) : Prop extends Emits m m' marks where
  context : Relation.ReflTransGen ContextStep (m.ctx, m.platform) (m'.ctx, m'.platform)

/-- Doing nothing touches nothing. -/
theorem Touches.refl (m : EcMaster β) : Touches m m [] :=
  ⟨.refl m, .refl⟩

/-- One effect after another touches the bus with the marks of both. -/
theorem Touches.trans {m m' m'' : EcMaster β} {first second : List Mark}
    (earlier : Touches m m' first) (later : Touches m' m'' second) :
    Touches m m'' (first ++ second) :=
  ⟨earlier.toEmits.trans later.toEmits, earlier.context.trans later.context⟩

/-- A property of the shared memory that ordinary changes preserve is preserved by
every operation that touches the bus. -/
theorem Touches.preserves {m m' : EcMaster β} {marks : List Mark} (touches : Touches m m' marks)
    (property : EcContext → Prop)
    (preserved : ∀ first last : EcContext × β, ContextStep first last →
      property first.1 → property last.1)
    (initial : property m.ctx) : property m'.ctx := by
  have steps : ∀ first last : EcContext × β, Relation.ReflTransGen ContextStep first last →
      property first.1 → property last.1 := by
    intro first last path holds
    induction path with
    | refl => exact holds
    | tail _ step inductionHypothesis => exact preserved _ _ step inductionHypothesis
  exact steps _ _ touches.context initial

/-! ## Single steps -/

/-- Recording an event only adds its mark. -/
theorem note_touches (event : Event) (m : EcMaster β) :
    Touches m ((note event).after m) event.mark.toList := by
  refine ⟨⟨rfl, rfl, [event], rfl, ?_⟩, .refl⟩
  cases shown : event.mark <;> simp [shown]

/-- A SOEM call leaves its mark, whatever it answers. -/
theorem soem_emits (call : SoemCall) (m : EcMaster β) :
    Emits m ((soem call).after m)
      (Event.mark (.soem call ((soem call).result m).result)).toList := by
  refine ⟨rfl, rfl, [.soem call ((soem call).result m).result], rfl, ?_⟩
  cases shown : Event.mark (.soem call ((soem call).result m).result) <;> simp [shown]

/-- An ordinary call touches the bus with its mark. -/
theorem soem_touches (call : SoemCall) (ordinary : call.isOrdinary) (m : EcMaster β) :
    Touches m ((soem call).after m) [call.mark] := by
  refine ⟨?_, .single (.call call ordinary m.ctx m.platform)⟩
  have emits := soem_emits call m
  cases call with
  | init ifname => cases ordinary
  | _ => exact emits

/-- Storing a wanted state leaves no mark. -/
theorem setState_touches (slave : Nat) (state : UInt16) (m : EcMaster β) :
    Touches m { m with ctx := m.ctx.setState slave state } [] :=
  ⟨⟨rfl, rfl, .refl _ _⟩, .single (.setState slave state m.ctx m.platform)⟩

/-- A write to the process image leaves no mark. -/
theorem store_touches (address : Nat) (data : List UInt8) (m : EcMaster β) :
    Touches m { m with ctx := m.ctx.store address data } [] :=
  ⟨⟨rfl, rfl, .refl _ _⟩, .single (.store address data m.ctx m.platform)⟩

/-- Reading the clock leaves no mark. -/
theorem steadyNow_touches (m : EcMaster β) : Touches m (steadyNow.after m) [] :=
  ⟨⟨rfl, rfl, .refl _ _⟩, .single (.world m.ctx m.platform _)⟩

/-! ## State requests and checks -/

/-- A transmission to all slaves is one broadcast write and one wait. -/
theorem transmitState_touches (written awaited : UInt16) (m : EcMaster β) :
    Touches m ((transmitState 0 written awaited).after m) [.wrote written, .access] :=
  ((setState_touches 0 written m).trans
    (soem_touches (.writeState 0 written) rfl _)).trans
    (soem_touches (.stateCheck 0 awaited ecTimeoutState) rfl _)

/-- A request to all slaves is recorded, written once and awaited. -/
theorem requestState_touches (state : UInt16) (m : EcMaster β) :
    Touches m ((requestState 0 state).after m) [.requested state, .wrote state, .access] :=
  (note_touches (.request 0 state) m).trans (transmitState_touches state state _)

/-- The retry loop produces traffic only. The induction follows the iterations. -/
theorem retryState_touches (state : UInt16) (remaining : Nat) (m : EcMaster β) :
    ∃ marks, Touches m ((retryState 0 state remaining).after m) marks ∧
      ∀ mark ∈ marks, mark.isTraffic := by
  induction remaining generalizing m with
  | zero => exact ⟨[], .refl m, by simp⟩
  | succ remaining inductionHypothesis =>
    have fresh := soem_touches (β := β) .readState rfl m
    simp only [retryState, Program.after_bind, Program.result_get, Program.after_get,
      Program.after_ite, Program.after_pure]
    split
    · exact ⟨_, fresh, by simp [SoemCall.mark, Mark.isTraffic]⟩
    split
    · obtain ⟨marks, touches, traffic⟩ := inductionHypothesis _
      refine ⟨_, (fresh.trans (transmitState_touches _ _ _)).trans touches, ?_⟩
      simpa [SoemCall.mark, Mark.isTraffic] using traffic
    split
    · exact ⟨_, fresh.trans (transmitState_touches _ _ _), by simp [SoemCall.mark, Mark.isTraffic]⟩
    · obtain ⟨marks, touches, traffic⟩ := inductionHypothesis _
      refine ⟨_, (fresh.trans (transmitState_touches _ _ _)).trans touches, ?_⟩
      simpa [SoemCall.mark, Mark.isTraffic] using traffic

/-- A request with retries is recorded once and then produces traffic only. -/
theorem requestPreOpState_touches (m : EcMaster β) :
    ∃ traffic, Touches m (requestPreOpState.after m) (.requested EcState.preOp :: traffic) ∧
      ∀ mark ∈ traffic, mark.isTraffic := by
  obtain ⟨marks, touches, traffic⟩ :=
    retryState_touches EcState.preOp 4 ((note (.request 0 EcState.preOp)).after m)
  exact ⟨marks, (note_touches (.request 0 EcState.preOp) m).trans touches, traffic⟩

/-- A check of all slaves reads their states once, records them, and succeeds exactly
when each of them is the expected one. -/
theorem checkAllSlavesInState_touches (state : UInt16) (m : EcMaster β) :
    ∃ found, Touches m ((checkAllSlavesInState state).after m) [.access, .checked state found] ∧
      (checkAllSlavesInState state).result m = found.all (· == state) ∧
      found = ((checkAllSlavesInState state).after m).slaveStates := by
  have fresh := soem_touches (β := β) .readState rfl m
  exact ⟨_, fresh.trans (note_touches _ _), rfl, rfl⟩

/-! ## The remaining operations -/

/-- Reading the state of a slave is one access. -/
theorem readActualState_touches (slave : Nat) (m : EcMaster β) :
    Touches m ((readActualState slave).after m) [.access] :=
  soem_touches .readState rfl m

/-- Reading the status code of a slave is one access. -/
theorem readAlStatusCode_touches (slave : Nat) (m : EcMaster β) :
    Touches m ((readAlStatusCode slave).after m) [.access] :=
  soem_touches .readState rfl m

/-- A cycle is one frame and its answer. -/
theorem runOneCycle_touches (m : EcMaster β) :
    Touches m (runOneCycle.after m) [.frame, .access] := by
  have exchange := ((soem_touches .sendProcessData rfl m).trans
    (soem_touches (.receiveProcessData ecTimeoutRet) rfl _)).trans (steadyNow_touches _)
  exact ⟨⟨exchange.closed, exchange.config, exchange.grows⟩, exchange.context⟩

/-- Copying to the process image leaves no mark. -/
theorem writeOutput_touches (slave offset : Nat) (data : List UInt8) (m : EcMaster β) :
    Touches m ((writeOutput slave offset data).after m) [] := by
  unfold writeOutput
  simp only [Program.after_bind, Program.result_get, Program.after_get]
  cases (m.ctx.slavelist slave).outputs with
  | none => exact .refl m
  | some address =>
    exact (note_touches _ m).trans (store_touches (address + offset) data _)

/-- Copying from the process image leaves no mark. -/
theorem readInput_touches (slave offset : Nat) (data : List UInt8) (m : EcMaster β) :
    Touches m ((readInput slave offset data).after m) [] := by
  unfold readInput
  simp only [Program.after_bind, Program.result_get, Program.after_get]
  cases (m.ctx.slavelist slave).inputs with
  | none => exact .refl m
  | some address => exact note_touches _ m

/-- A service read is one access. -/
theorem sdoRead_touches (slave index : UInt16) (subindex : UInt8) (data : List UInt8)
    (len timeoutUs : Int) (m : EcMaster β) :
    Touches m ((sdoRead slave index subindex data len timeoutUs).after m) [.access] :=
  soem_touches _ rfl m

/-- A service write is one access. -/
theorem sdoWrite_touches (slave index : UInt16) (subindex : UInt8) (data : List UInt8)
    (len timeoutUs : Int) (m : EcMaster β) :
    Touches m ((sdoWrite slave index subindex data len timeoutUs).after m) [.access] :=
  soem_touches _ rfl m

/-- Distributed clocks always report success. -/
theorem configureDc_touches (m : EcMaster β) :
    (∃ marks, Touches m (configureDc.after m) marks ∧ ∀ mark ∈ marks, mark.isTraffic) ∧
      configureDc.result m = true := by
  unfold configureDc
  simp only [Program.after_bind, Program.result_bind, Program.result_get, Program.after_get,
    Program.after_ite, Program.result_ite, Program.after_pure, Program.result_pure]
  refine ⟨?_, ite_self true⟩
  by_cases skipped : m.config.useDc = false
  · exact ⟨[], by simpa [skipped] using Touches.refl m, by simp⟩
  · refine ⟨[.access], ?_, by simp [Mark.isTraffic]⟩
    rw [if_neg skipped]
    exact soem_touches .configDc rfl m

/-- The mapping is refused only on an empty bus, and then no call is made. -/
theorem configureProcessData_emits (m : EcMaster β) :
    (m.ctx.slavecount = 0 ∧ configureProcessData.result m = false ∧
      configureProcessData.after m = m) ∨
    (m.ctx.slavecount ≠ 0 ∧ configureProcessData.result m = true ∧
      Emits m (configureProcessData.after m) [.access]) := by
  unfold configureProcessData
  simp only [Program.after_bind, Program.result_bind, Program.result_get, Program.after_get,
    Program.after_ite, Program.result_ite, Program.after_pure, Program.result_pure,
    Program.after_modify]
  by_cases vacant : m.ctx.slavecount = 0
  · exact Or.inl ⟨vacant, by simp [vacant], by simp [vacant]⟩
  · refine Or.inr ⟨vacant, by simp [vacant], ?_⟩
    have mapped := soem_emits (.configMapGroup 0) m
    simp only [vacant, if_false]
    exact ⟨mapped.closed, mapped.config, mapped.grows⟩

/-- A scan is one call; an answer of zero or less finds no slave. -/
theorem scanSlaves_emits (m : EcMaster β) : Emits m (scanSlaves.after m) [.access] := by
  have scanned := soem_emits .configInit m
  unfold scanSlaves
  simp only [Program.after_bind, Program.after_get, Program.after_ite, Program.after_pure,
    ite_self]
  exact scanned

/-! ## Opening and closing -/

/-- An opening takes the configuration; it opens the adapter exactly when it succeeds. -/
theorem initializeMaster_log (config : EcMasterConfig) (m : EcMaster β) :
    ((initializeMaster config).result m = true ∧
      ((initializeMaster config).after m).closed = false ∧
      ((initializeMaster config).after m).config = config ∧
      ((initializeMaster config).after m).log = m.log ++ [.opened]) ∨
    ((initializeMaster config).result m = false ∧
      ((initializeMaster config).after m).closed = m.closed ∧
      ((initializeMaster config).after m).config = config ∧
      ((initializeMaster config).after m).log = m.log) := by
  have opening := soem_emits (.init config.ifname) { m with config := config }
  unfold initializeMaster
  simp only [Program.after_bind, Program.result_bind, Program.after_modify, Program.after_ite,
    Program.result_ite, Program.after_pure, Program.result_pure]
  have logged := opening.log_eq
  by_cases refused : ((soem (.init config.ifname)).result { m with config := config }).result = 0
  · refine Or.inr ⟨by simp [refused], by simp [refused, opening.closed],
      by simp [refused, opening.config], ?_⟩
    simp only [refused, if_true]
    simpa [Event.mark, refused, log] using logged
  · refine Or.inl ⟨by simp [refused], by simp [refused], by simp [refused, opening.config], ?_⟩
    simp only [refused, if_false]
    simpa [Event.mark, refused, log] using logged

/-- Closing an open adapter releases it once; closing a closed one does nothing. -/
theorem close_log (m : EcMaster β) :
    (close.after m).closed = true ∧ (close.after m).config = m.config ∧
      (close.after m).log = m.log ++ (if m.closed then [] else [.released]) := by
  have releasing := soem_emits .close { m with closed := true }
  unfold close
  simp only [Program.after_bind, Program.result_get, Program.after_get, Program.after_ite,
    Program.after_pure, Program.after_modify]
  by_cases already : m.closed = true
  · simp [already]
  · rw [if_neg already, if_neg already]
    exact ⟨releasing.closed, releasing.config, releasing.log_eq⟩

end EcMaster

end MoEcat
