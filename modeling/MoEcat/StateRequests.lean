import MoEcat.LifecycleRefinement

/-!
# State requests with retry

A request reads the state afresh before every attempt, acknowledges an error flag that
it finds, and otherwise writes the wanted state and reads it back. What comes of it is
stated for every bus. For slaves that cooperate it is stated when the wanted state is
reached: for a single slave always, from the second attempt on at the latest; for the
broadcast to all slaves only from some mixtures of states, since the list's entry for
all slaves holds the lowest state after a reading and all states joined after a check.
-/

namespace MoEcat

/-! ## Statuses -/

/-- A status with an error flag. -/
def Flagged (status : UInt16) : Prop := status &&& EcState.error ≠ 0

/-- The flag is one bit. -/
instance (status : UInt16) : Decidable (Flagged status) := inferInstanceAs (Decidable (_ ≠ _))

/-- A cooperative slave adopts what is requested. With an error flag it waits for an
acknowledge first, which clears the flag. -/
def react (status written : UInt16) : UInt16 :=
  if Flagged status then
    if written &&& EcState.ack ≠ 0 then status &&& ~~~EcState.error else status
  else written

/-- The acknowledge of a status. -/
def acknowledge (status : UInt16) : UInt16 := (status &&& 0x0f) ||| EcState.ack

/-- Masking goes into both parts of a join. -/
theorem and_or_distrib (a b c : UInt16) : (a ||| b) &&& c = (a &&& c) ||| (b &&& c) :=
  UInt16.toBitVec_inj.mp BitVec.and_or_distrib_right

/-- An acknowledge has the bit for it. -/
theorem acknowledge_flagged (status : UInt16) : acknowledge status &&& EcState.ack ≠ 0 := by
  rw [acknowledge, and_or_distrib, UInt16.and_self]
  intro zero
  exact absurd (UInt16.or_eq_zero_iff.mp zero).2 (by decide)

/-- A flagged slave that is acknowledged is not flagged any more. -/
theorem react_acknowledge {status : UInt16} (flagged : Flagged status) :
    ¬Flagged (react status (acknowledge status)) := by
  have cleared : react status (acknowledge status) = status &&& ~~~EcState.error := by
    rw [react, if_pos flagged, if_pos (acknowledge_flagged status)]
  rw [cleared, Flagged, UInt16.and_assoc, show ~~~EcState.error &&& EcState.error = 0 by decide,
    UInt16.and_zero]
  simp

/-- An acknowledge is not a plain state. -/
theorem acknowledge_ne {status state : UInt16} (plain : ¬Flagged state) :
    acknowledge status ≠ state := by
  rintro rfl
  exact plain (acknowledge_flagged status)

/-- The lowest state, without error flags. -/
def lowest (statuses : List UInt16) : UInt16 :=
  (statuses.map (· &&& 0x0f)).foldr min 0x0f

/-- All statuses joined. -/
def joined (statuses : List UInt16) : UInt16 := statuses.foldr (· ||| ·) 0

/-- The lowest state has no flag: flags are left out of it. -/
theorem lowest_plain (statuses : List UInt16) : ¬Flagged (lowest statuses) := by
  have nibble : ∀ status : UInt16, ¬Flagged (status &&& 0x0f) := by
    intro status
    rw [Flagged, UInt16.and_assoc, show (0x0f : UInt16) &&& EcState.error = 0 by decide,
      UInt16.and_zero]
    simp
  rw [lowest]
  induction statuses with
  | nil => decide
  | cons status rest inductionHypothesis =>
    rw [List.map_cons, List.foldr_cons]
    change ¬Flagged (if status &&& 0x0f ≤ _ then status &&& 0x0f else _)
    split
    · exact nibble status
    · exact inductionHypothesis

/-- Where one slave is flagged, so are all joined. -/
theorem joined_flagged {statuses : List UInt16} {status : UInt16} (member : status ∈ statuses)
    (flagged : Flagged status) : Flagged (joined statuses) := by
  rw [joined]
  induction statuses with
  | nil => cases member
  | cons first rest inductionHypothesis =>
    rw [List.foldr_cons, Flagged, and_or_distrib, ne_eq, UInt16.or_eq_zero_iff, not_and_or]
    rcases List.mem_cons.mp member with rfl | later
    · exact .inl flagged
    · exact .inr (inductionHypothesis later)

/-- Slaves that all have one status have it joined. -/
theorem joined_replicate (status : UInt16) (n : Nat) :
    joined (List.replicate (n + 1) status) = status := by
  induction n with
  | zero => simp [joined]
  | succ n inductionHypothesis =>
    rw [joined, List.replicate_succ, List.foldr_cons]
    rw [joined] at inductionHypothesis
    rw [inductionHypothesis, UInt16.or_self]

/-! ## A line of slaves -/

/-- At least one slave, and nothing but cooperative ones. -/
structure Line where
  first : UInt16
  rest : List UInt16 := []

namespace Line

/-- The statuses of the slaves, in their order. -/
def statuses (line : Line) : List UInt16 := line.first :: line.rest

/-- All slaves react to a broadcast, and a single one to what is written to it. -/
def write (line : Line) (slave : Nat) (written : UInt16) : Line :=
  match slave with
  | 0 => ⟨react line.first written, line.rest.map fun status => react status written⟩
  | 1 => { line with first := react line.first written }
  | k + 2 => { line with rest := line.rest.modify k fun status => react status written }

/-- The states that a reading stores. -/
def shown (line : Line) (ctx : EcContext) : EcContext :=
  { ctx with
    slavelist := fun i =>
      { ctx.slavelist i with
        state := if i = 0 then lowest line.statuses else line.statuses.getD (i - 1) 0 } }

/-- The state that a check stores. -/
def checked (line : Line) (slave : Nat) : UInt16 :=
  if slave = 0 then joined line.statuses else line.statuses.getD (slave - 1) 0

/-- What the line answers a call: a reading and a check store what they see, and a write is
reacted to. -/
def answer (line : Line) (call : SoemCall) (ctx : EcContext) : EcContext × Line :=
  match call with
  | .readState => (line.shown ctx, line)
  | .writeState slave written => (ctx, line.write slave written)
  | .stateCheck slave _ _ => (ctx.setState slave (line.checked slave), line)
  | _ => (ctx, line)

/-- The line is a world of its own, in which all calls succeed and the clock stands still. -/
instance : Platform Line where
  soem call ctx line := ({ result := 1 }, line.answer call ctx)
  steadyClock line := (0, line)
  openLogFile _ line := (.opened, line)

end Line

/-! ## Attempts -/

/-- The event is the writing of a state. -/
def Event.isStateWrite : Event → Bool
  | .soem (.writeState ..) _ => true
  | _ => false

namespace EcMaster

variable {β : Type} [Platform β]

/-- The state that the slave list holds. -/
def listed (m : EcMaster β) (slave : Nat) : UInt16 := (m.ctx.slavelist slave).state

/-- The master after reading the states of all slaves. -/
def afterRead (m : EcMaster β) : EcMaster β := (soem .readState).after m

/-- The master after acknowledging the flag of a fresh reading. -/
def afterAcknowledge (slave : Nat) (m : EcMaster β) : EcMaster β :=
  let fresh := m.afterRead.listed slave
  (transmitState slave (acknowledge fresh) (fresh &&& 0x0f)).after m.afterRead

/-- The master after a fresh reading and a write of the wanted state. -/
def afterWrite (slave : Nat) (state : UInt16) (m : EcMaster β) : EcMaster β :=
  (transmitState slave state state).after m.afterRead

/-- An attempt: the fresh reading is the wanted state; or it has an error flag, which is
acknowledged; or the state is written, and reached or not. -/
theorem retryState_succ (slave : Nat) (state : UInt16) (remaining : Nat) (m : EcMaster β) :
    (retryState slave state (remaining + 1)).run m =
      if m.afterRead.listed slave = state then (true, m.afterRead)
      else if Flagged (m.afterRead.listed slave) then
        (retryState slave state remaining).run (m.afterAcknowledge slave)
      else if (m.afterWrite slave state).listed slave = state then (true, m.afterWrite slave state)
      else (retryState slave state remaining).run (m.afterWrite slave state) := by
  have body : (retryState slave state (remaining + 1)).run m =
      (if m.afterRead.listed slave = state then (pure true : Program (EcMaster β) Bool)
      else if Flagged (m.afterRead.listed slave) then do
        let _ ← transmitState slave (acknowledge (m.afterRead.listed slave))
          (m.afterRead.listed slave &&& 0x0f)
        retryState slave state remaining
      else do
        let reached ← transmitState slave state state
        if reached = state then return true
        else retryState slave state remaining).run m.afterRead := rfl
  have written : (transmitState slave state state >>= fun reached =>
        if reached = state then (pure true : Program (EcMaster β) Bool)
        else retryState slave state remaining).run m.afterRead =
      (if (m.afterWrite slave state).listed slave = state then
          (pure true : Program (EcMaster β) Bool)
        else retryState slave state remaining).run (m.afterWrite slave state) := rfl
  rw [body]
  split
  · rfl
  · split
    · rfl
    · rw [written]
      split <;> rfl

/-- What the ways through an attempt preserve holds of every request. -/
theorem retryState_induction {slave : Nat} {state : UInt16}
    {motive : Nat → EcMaster β → Bool × EcMaster β → Prop}
    (spent : ∀ m, motive 0 m (false, m))
    (found : ∀ remaining m, m.afterRead.listed slave = state →
      motive (remaining + 1) m (true, m.afterRead))
    (acknowledged : ∀ remaining m ended, Flagged (m.afterRead.listed slave) →
      motive remaining (m.afterAcknowledge slave) ended → motive (remaining + 1) m ended)
    (arrived : ∀ remaining m, (m.afterWrite slave state).listed slave = state →
      motive (remaining + 1) m (true, m.afterWrite slave state))
    (missed : ∀ remaining m ended, ¬Flagged (m.afterRead.listed slave) →
      motive remaining (m.afterWrite slave state) ended → motive (remaining + 1) m ended)
    (remaining : Nat) (m : EcMaster β) :
    motive remaining m ((retryState slave state remaining).run m) := by
  induction remaining generalizing m with
  | zero => exact spent m
  | succ remaining inductionHypothesis =>
    rw [retryState_succ]
    split
    · rename_i reached
      exact found remaining m reached
    · split
      · rename_i flagged
        exact acknowledged remaining m _ flagged (inductionHypothesis _)
      · rename_i plain
        split
        · rename_i reached
          exact arrived remaining m reached
        · exact missed remaining m _ plain (inductionHypothesis _)

/-! ## What holds on every bus -/

/-- The calls that store what they see of a slave's state. -/
def Observes (slave : Nat) (state : UInt16) (call : SoemCall) : Prop :=
  call = .readState ∨ call = .stateCheck slave state ecTimeoutState

/-- A request is only reported as successful when the last call stored the wanted state. -/
theorem retryState_sound (slave : Nat) (state : UInt16) (remaining : Nat) (m : EcMaster β)
    (reached : (retryState slave state remaining).result m = true) :
    ((retryState slave state remaining).after m).listed slave = state ∧
      ∃ before call, Observes slave state call ∧
        (retryState slave state remaining).after m = (soem call).after before := by
  revert reached
  refine retryState_induction (motive := fun _ _ ended => ended.1 = true →
    ended.2.listed slave = state ∧
      ∃ before call, Observes slave state call ∧ ended.2 = (soem call).after before)
    ?_ ?_ ?_ ?_ ?_ remaining m
  · exact fun _ contradiction => nomatch contradiction
  · exact fun _ m found _ => ⟨found, m, .readState, .inl rfl, rfl⟩
  · exact fun _ _ _ _ later => later
  · exact fun _ _ arrived _ =>
      ⟨arrived, _, .stateCheck slave state ecTimeoutState, .inr rfl, rfl⟩
  · exact fun _ _ _ _ later => later

/-- How often a state has been written so far. -/
def stateWrites (m : EcMaster β) : Nat := m.trace.countP Event.isStateWrite

omit [Platform β] in
/-- What the record has grown by is counted in addition. -/
theorem stateWrites_append {m m' : EcMaster β} {events : List Event}
    (grown : m'.trace = m.trace ++ events) :
    m'.stateWrites = m.stateWrites + events.countP Event.isStateWrite := by
  rw [stateWrites, grown, List.countP_append]
  rfl

/-- Writing a state is two calls: the write, and the check that awaits it. -/
theorem trace_transmitState (slave : Nat) (written awaited : UInt16) (m : EcMaster β) :
    ∃ wrote checked, ((transmitState slave written awaited).after m).trace = m.trace ++
      [.soem (.writeState slave written) wrote,
        .soem (.stateCheck slave awaited ecTimeoutState) checked] := by
  let marked : EcMaster β := { m with ctx := m.ctx.setState slave written }
  let sent := (soem (.writeState slave written)).after marked
  refine ⟨((soem (.writeState slave written)).result marked).result,
    ((soem (.stateCheck slave awaited ecTimeoutState)).result sent).result, ?_⟩
  exact List.append_assoc m.trace [_] [_]

/-- It is one write. -/
theorem stateWrites_transmitState (slave : Nat) (written awaited : UInt16) (m : EcMaster β) :
    ((transmitState slave written awaited).after m).stateWrites = m.stateWrites + 1 := by
  obtain ⟨wrote, checked, grown⟩ := trace_transmitState slave written awaited m
  exact stateWrites_append grown

/-- A reading writes nothing. -/
theorem stateWrites_afterRead (m : EcMaster β) : m.afterRead.stateWrites = m.stateWrites := by
  have grown : m.afterRead.trace = m.trace ++ [_] := rfl
  exact stateWrites_append grown

/-- There is at most one write in every attempt. -/
theorem retryState_writes (slave : Nat) (state : UInt16) (remaining : Nat) (m : EcMaster β) :
    ((retryState slave state remaining).after m).stateWrites ≤ m.stateWrites + remaining := by
  refine retryState_induction (motive := fun remaining m ended =>
    ended.2.stateWrites ≤ m.stateWrites + remaining) ?_ ?_ ?_ ?_ ?_ remaining m
  · exact fun _ => Nat.le_refl _
  · intro remaining m _
    rw [stateWrites_afterRead]
    omega
  · intro remaining m ended _ later
    rw [afterAcknowledge, stateWrites_transmitState, stateWrites_afterRead] at later
    omega
  · intro remaining m _
    rw [afterWrite, stateWrites_transmitState, stateWrites_afterRead]
    omega
  · intro remaining m ended _ later
    rw [afterWrite, stateWrites_transmitState, stateWrites_afterRead] at later
    omega

/-- An attempt that finds an error flag writes the acknowledge of what it read, and
nothing else. -/
theorem trace_afterAcknowledge (slave : Nat) (m : EcMaster β) :
    let fresh := m.afterRead.listed slave
    ∃ read wrote checked, (m.afterAcknowledge slave).trace = m.trace ++
      [.soem .readState read, .soem (.writeState slave (acknowledge fresh)) wrote,
        .soem (.stateCheck slave (fresh &&& 0x0f) ecTimeoutState) checked] := by
  intro fresh
  obtain ⟨wrote, checked, grown⟩ :=
    trace_transmitState slave (acknowledge fresh) (fresh &&& 0x0f) m.afterRead
  refine ⟨((soem .readState).result m).result, wrote, checked, ?_⟩
  rw [afterAcknowledge, grown]
  exact List.append_assoc m.trace [_] [_, _]

end EcMaster

/-! ## A slave that obeys -/

/-- The slave of this number reacts to what is written to it, where that is an acknowledge
or finds no error flag, and is not otherwise changed by the calls of a request, which show
its status. -/
structure Obeys (β : Type) [Platform β] (slave : Nat) (status : β → UInt16) : Prop where
  readState : ∀ ctx (bus : β), let answer := Platform.soem .readState ctx bus
    (answer.2.1.slavelist slave).state = status bus ∧ status answer.2.2 = status bus
  writeState : ∀ written ctx (bus : β), (Flagged (status bus) → written &&& EcState.ack ≠ 0) →
    status (Platform.soem (.writeState slave written) ctx bus).2.2 = react (status bus) written
  stateCheck : ∀ awaited timeoutUs ctx (bus : β),
    let answer := Platform.soem (.stateCheck slave awaited timeoutUs) ctx bus
    (answer.2.1.slavelist slave).state = status bus ∧ status answer.2.2 = status bus

namespace Obeys

open EcMaster

variable {β : Type} [Platform β] {slave : Nat} {status : β → UInt16}

/-- A reading lists the status of the slave, and leaves it. -/
theorem afterRead (obeys : Obeys β slave status) (m : EcMaster β) :
    m.afterRead.listed slave = status m.platform ∧
      status m.afterRead.platform = status m.platform :=
  obeys.readState m.ctx m.platform

/-- A written state is reacted to and then listed, if a flagged slave is only written an
acknowledge. -/
theorem transmitState (obeys : Obeys β slave status) (written awaited : UInt16) {m : EcMaster β}
    (heeded : Flagged (status m.platform) → written &&& EcState.ack ≠ 0) :
    let m' := (EcMaster.transmitState slave written awaited).after m
    m'.listed slave = react (status m.platform) written ∧
      status m'.platform = react (status m.platform) written := by
  intro m'
  let marked : EcContext := m.ctx.setState slave written
  let answer := Platform.soem (.writeState slave written) marked m.platform
  obtain ⟨shown, kept⟩ := obeys.stateCheck awaited ecTimeoutState answer.2.1 answer.2.2
  have reacted := obeys.writeState written marked m.platform heeded
  exact ⟨shown.trans reacted, kept.trans reacted⟩

/-- Without an error flag, a slave is in the wanted state after one attempt. -/
theorem retry_plain (obeys : Obeys β slave status) {state : UInt16} (remaining : Nat)
    {m : EcMaster β} (plain : ¬Flagged (status m.platform)) :
    (retryState slave state (remaining + 1)).result m = true := by
  obtain ⟨shown, kept⟩ := obeys.afterRead m
  have heeded : Flagged (status m.afterRead.platform) → state &&& EcState.ack ≠ 0 := by
    rw [kept]
    exact fun flagged => absurd flagged plain
  have reached : (m.afterWrite slave state).listed slave = state := by
    rw [afterWrite, (obeys.transmitState state state heeded).1, kept, react, if_neg plain]
  rw [Program.result, retryState_succ, shown, if_neg plain, if_pos reached]
  split <;> rfl

/-- An error flag costs one attempt. -/
theorem retry_reaches (obeys : Obeys β slave status) (state : UInt16) (remaining : Nat)
    (m : EcMaster β) : (retryState slave state (remaining + 2)).result m = true := by
  by_cases flagged : Flagged (status m.platform)
  · obtain ⟨shown, kept⟩ := obeys.afterRead m
    have cleared : ¬Flagged (status (m.afterAcknowledge slave).platform) := by
      rw [afterAcknowledge, (obeys.transmitState _ _ fun _ => acknowledge_flagged _).2, kept, shown]
      exact react_acknowledge flagged
    rw [Program.result, retryState_succ, shown, if_pos flagged]
    split
    · rfl
    · exact obeys.retry_plain remaining cleared
  · exact obeys.retry_plain (remaining + 1) flagged

end Obeys

/-- Requests for one slave, on any bus: success means that the last call stored exactly the
wanted state, there is at most one write in every attempt, and an attempt that finds an
error flag writes its acknowledge only. A slave that obeys reaches the state from every
status when one more attempt is allowed. A node's cached state follows success alone. -/
theorem requests_with_retry {β : Type} [Platform β] (slave : Nat) (state : UInt16)
    (maxRetries : Int) (m : EcMaster β) (node : SlaveNode) :
    let call := EcMaster.requestStateWithRetry slave state maxRetries
    (call.result m = true → (call.after m).listed slave = state ∧
      ∃ before last, EcMaster.Observes slave state last ∧
        call.after m = (EcMaster.soem last).after before) ∧
    (call.after m).stateWrites ≤ m.stateWrites + (maxRetries + 1).toNat ∧
    (∀ remaining (m : EcMaster β), let fresh := m.afterRead.listed slave
      fresh ≠ state → Flagged fresh →
        (EcMaster.retryState slave state (remaining + 1)).run m =
          (EcMaster.retryState slave state remaining).run (m.afterAcknowledge slave) ∧
        (∃ read wrote checked, (m.afterAcknowledge slave).trace = m.trace ++
          [.soem .readState read, .soem (.writeState slave (acknowledge fresh)) wrote,
            .soem (.stateCheck slave (fresh &&& 0x0f) ecTimeoutState) checked]) ∧
        (¬Flagged state → acknowledge fresh ≠ state)) ∧
    (∀ status, Obeys β slave status → 1 ≤ maxRetries → call.result m = true) ∧
    let request := (node.requestState state).result m
    let reached := (EcMaster.requestStateWithRetry node.info.slaveId state).result m
    request = (reached, if reached then { node with currentState := state } else node) := by
  intro call
  refine ⟨?_, ?_, ?_, ?_, ?_⟩
  · exact EcMaster.retryState_sound slave state (maxRetries + 1).toNat _
  · have bounded := EcMaster.retryState_writes slave state (maxRetries + 1).toNat
      ((EcMaster.note (.request slave state)).after m)
    have noted : ((EcMaster.note (.request slave state)).after m).stateWrites = m.stateWrites := by
      have grown : ((EcMaster.note (.request slave state)).after m).trace = m.trace ++ [_] := rfl
      exact EcMaster.stateWrites_append grown
    rw [noted] at bounded
    exact bounded
  · intro remaining m fresh other flagged
    refine ⟨?_, EcMaster.trace_afterAcknowledge slave m, acknowledge_ne⟩
    rw [EcMaster.retryState_succ, if_neg other, if_pos flagged]
  · intro status obeys again
    obtain ⟨more, attempts⟩ : ∃ more, (maxRetries + 1).toNat = more + 2 :=
      ⟨(maxRetries - 1).toNat, by omega⟩
    have reaches := obeys.retry_reaches state more ((EcMaster.note (.request slave state)).after m)
    rw [← attempts] at reaches
    exact reaches
  · intro request reached
    have body : request = (if reached = false then (pure (false, node) : Program (EcMaster β) _)
        else pure (true, { node with currentState := state })).result
          ((EcMaster.requestStateWithRetry node.info.slaveId state).after m) := rfl
    rw [body]
    cases reached <;> rfl

/-- The first slave of a line obeys. -/
theorem Line.obeys : Obeys Line 1 Line.first where
  readState _ _ := ⟨rfl, rfl⟩
  writeState _ _ _ _ := rfl
  stateCheck _ _ _ _ := ⟨rfl, rfl⟩

/-- A slave with an error flag in SAFE_OP is taken to PRE_OP in two attempts. -/
theorem requests_with_retry_line :
    let m : EcMaster Line := { platform := { first := EcState.safeOp ||| EcState.error } }
    (EcMaster.requestStateWithRetry 1 EcState.preOp 1).result m = true := by
  intro m
  exact (requests_with_retry 1 EcState.preOp 1 m { info := {} }).2.2.2.1 Line.first Line.obeys
    (by decide)

/-! ## Slaves that cooperate -/

/-- The bus calls of a broadcast request on slaves that react to what is written. A reading
shows the status of each slave, and in entry 0 the lowest state; a check joins them there. -/
structure Cooperates (β : Type) [Platform β] (statuses : β → List UInt16) : Prop where
  readState : ∀ ctx (bus : β), ctx.slavecount = (statuses bus).length →
    let answer := Platform.soem .readState ctx bus
    answer.2.1.slavecount = ctx.slavecount ∧ statuses answer.2.2 = statuses bus ∧
      (answer.2.1.slavelist 0).state = lowest (statuses bus) ∧
      ∀ i (inside : i < (statuses bus).length),
        (answer.2.1.slavelist (i + 1)).state = (statuses bus)[i]
  writeState : ∀ written ctx (bus : β), ctx.slavecount = (statuses bus).length →
    let answer := Platform.soem (.writeState 0 written) ctx bus
    answer.2.1.slavecount = ctx.slavecount ∧
      statuses answer.2.2 = (statuses bus).map fun status => react status written
  stateCheck : ∀ awaited timeoutUs ctx (bus : β), ctx.slavecount = (statuses bus).length →
    let answer := Platform.soem (.stateCheck 0 awaited timeoutUs) ctx bus
    answer.2.1.slavecount = ctx.slavecount ∧ statuses answer.2.2 = statuses bus ∧
      (answer.2.1.slavelist 0).state = joined (statuses bus)

namespace Cooperates

open EcMaster

variable {β : Type} [Platform β] {statuses : β → List UInt16}

/-- The master knows how many slaves there are, and these have these statuses. -/
structure Meets (statuses : β → List UInt16) (m : EcMaster β) (present : List UInt16) : Prop where
  counted : m.ctx.slavecount = present.length
  statuses : statuses m.platform = present

/-- A reading lists the statuses, with the lowest in entry 0, and leaves them. -/
theorem afterRead (bus : Cooperates β statuses) {m : EcMaster β} {present : List UInt16}
    (meets : Meets statuses m present) :
    Meets statuses m.afterRead present ∧ m.afterRead.listed 0 = lowest present ∧
      m.afterRead.slaveStates = present := by
  obtain ⟨counted, rfl⟩ := meets
  obtain ⟨kept, same, low, shown⟩ := bus.readState m.ctx m.platform counted
  refine ⟨⟨kept.trans counted, same⟩, low, ?_⟩
  have length : m.afterRead.ctx.slavecount = (statuses m.platform).length := kept.trans counted
  rw [slaveStates, length]
  apply List.ext_getElem
  · rw [List.length_map, List.length_range]
  · intro i _ inside
    rw [List.getElem_map, List.getElem_range]
    exact shown i inside

/-- A broadcast is reacted to by all slaves, and all statuses joined are then listed in entry
0. -/
theorem transmitState (bus : Cooperates β statuses) (written awaited : UInt16) {m : EcMaster β}
    {present : List UInt16} (meets : Meets statuses m present) :
    let m' := (EcMaster.transmitState 0 written awaited).after m
    let reacted := present.map fun status => react status written
    Meets statuses m' reacted ∧ m'.listed 0 = joined reacted := by
  obtain ⟨counted, rfl⟩ := meets
  let marked : EcContext := m.ctx.setState 0 written
  let answer := Platform.soem (.writeState 0 written) marked m.platform
  obtain ⟨kept, reacted⟩ := bus.writeState written marked m.platform counted
  have length : answer.2.1.slavecount = (statuses answer.2.2).length := by
    rw [reacted, List.length_map]
    exact kept.trans counted
  obtain ⟨still, same, shown⟩ :=
    bus.stateCheck awaited ecTimeoutState answer.2.1 answer.2.2 length
  rw [reacted] at same shown length
  exact ⟨⟨still.trans length, same⟩, shown⟩

/-- A check succeeds if and only if all slaves are in the state. -/
theorem checkAllSlavesInState_eq (bus : Cooperates β statuses) (state : UInt16) {m : EcMaster β}
    {present : List UInt16} (meets : Meets statuses m present) :
    (checkAllSlavesInState state).result m = present.all (· == state) := by
  have body : (checkAllSlavesInState state).result m =
      m.afterRead.slaveStates.all (· == state) := rfl
  rw [body, (bus.afterRead meets).2.2]

/-- A flagged slave stays as it is, so the request or the check after it fails. -/
theorem preOp_missed (bus : Cooperates β statuses) {status : UInt16} (flagged : Flagged status)
    (remaining : Nat) {m : EcMaster β} {present : List UInt16} (meets : Meets statuses m present)
    (member : status ∈ present) :
    Program.result (retryState 0 EcState.preOp remaining <&&>
      checkAllSlavesInState EcState.preOp) m = false := by
  have other : status ≠ EcState.preOp := by
    rintro rfl
    exact absurd flagged (by decide)
  have remains : react status EcState.preOp = status := by
    rw [react, if_pos flagged, if_neg (by decide)]
  have listed : ∀ {present : List UInt16}, status ∈ present →
      status ∈ present.map fun status => react status EcState.preOp :=
    fun member => List.mem_map.mpr ⟨status, member, remains⟩
  rw [Program.result_and]
  refine retryState_induction (motive := fun _ m ended => ∀ present, Meets statuses m present →
    status ∈ present → (if ended.1 then (checkAllSlavesInState EcState.preOp).result ended.2
      else false) = false) ?_ ?_ ?_ ?_ ?_ remaining m present meets member
  · exact fun _ _ _ _ => rfl
  · intro _ m _ present meets member
    rw [if_pos rfl, bus.checkAllSlavesInState_eq _ (bus.afterRead meets).1]
    exact List.all_eq_false.mpr ⟨status, member, by simpa using other⟩
  · intro _ m _ flag _ present meets _
    rw [(bus.afterRead meets).2.1] at flag
    exact absurd flag (lowest_plain present)
  · intro _ m arrived present meets member
    obtain ⟨-, shown⟩ := bus.transmitState EcState.preOp EcState.preOp (bus.afterRead meets).1
    rw [afterWrite, shown] at arrived
    have still := joined_flagged (listed member) flagged
    rw [arrived] at still
    exact absurd still (by decide)
  · intro _ m _ _ later present meets member
    obtain ⟨next, -⟩ := bus.transmitState EcState.preOp EcState.preOp (bus.afterRead meets).1
    exact later _ next (listed member)

/-- Without flags, the slaves are all in PRE_OP after the first attempt, unless the lowest
state is PRE_OP already: then nothing is written. -/
theorem preOp_plain (bus : Cooperates β statuses) (remaining : Nat) {m : EcMaster β}
    {present : List UInt16} (meets : Meets statuses m present) (nonempty : present ≠ [])
    (plain : ∀ status ∈ present, ¬Flagged status) :
    Program.result (retryState 0 EcState.preOp (remaining + 1) <&&>
        checkAllSlavesInState EcState.preOp) m = true ↔
      lowest present = EcState.preOp → ∀ status ∈ present, status = EcState.preOp := by
  obtain ⟨same, low, -⟩ := bus.afterRead meets
  rw [Program.result_and, Program.result, Program.after, retryState_succ, low,
    if_neg (lowest_plain present)]
  by_cases already : lowest present = EcState.preOp
  · rw [if_pos already, if_pos rfl, bus.checkAllSlavesInState_eq _ same]
    simp [already]
  · rw [if_neg already]
    obtain ⟨next, shown⟩ := bus.transmitState EcState.preOp EcState.preOp same
    have moved : present.map (fun status => react status EcState.preOp) =
        List.replicate (present.length - 1 + 1) EcState.preOp := by
      rw [List.eq_replicate_iff, List.length_map]
      refine ⟨(Nat.sub_add_cancel (List.length_pos_iff.mpr nonempty)).symm, fun reacted member => ?_⟩
      obtain ⟨status, present, rfl⟩ := List.mem_map.mp member
      rw [react, if_neg (plain status present)]
    rw [moved] at next shown
    rw [joined_replicate] at shown
    have arrived : (m.afterWrite 0 EcState.preOp).listed 0 = EcState.preOp := shown
    have passed := bus.checkAllSlavesInState_eq EcState.preOp next
    rw [if_pos arrived, if_pos rfl, afterWrite, passed]
    simp [already]

/-- The request for PRE_OP and the check after it, from any statuses: they work exactly
when no slave has an error flag and the lowest state is not PRE_OP, or that of all. -/
theorem requestPreOpState_iff (bus : Cooperates β statuses) {m : EcMaster β}
    {present : List UInt16} (meets : Meets statuses m present) (nonempty : present ≠ []) :
    Program.result (requestPreOpState <&&> checkAllSlavesInState EcState.preOp) m = true ↔
      (∀ status ∈ present, ¬Flagged status) ∧
        (lowest present = EcState.preOp → ∀ status ∈ present, status = EcState.preOp) := by
  have noted : Meets statuses ((note (.request 0 EcState.preOp)).after m) present :=
    ⟨meets.counted, meets.statuses⟩
  have body : Program.result (requestPreOpState <&&> checkAllSlavesInState EcState.preOp) m =
      Program.result (retryState 0 EcState.preOp 4 <&&> checkAllSlavesInState EcState.preOp)
        ((note (.request 0 EcState.preOp)).after m) := by
    rw [Program.result_and, Program.result_and]
    rfl
  rw [body]
  by_cases plain : ∀ status ∈ present, ¬Flagged status
  · rw [bus.preOp_plain 3 noted nonempty plain]
    exact (and_iff_right plain).symm
  · obtain ⟨status, member, flagged⟩ : ∃ status ∈ present, Flagged status := by
      simpa using plain
    rw [bus.preOp_missed flagged 4 noted member]
    simp [plain]

end Cooperates

namespace EcatController

variable {β : Type} [Platform β] {c : EcatController β}

/-- The request and the check decide whether a scanned bus is taken to maintenance. -/
theorem doEnterMaintenance_result (scanned : c.state = .scanned) :
    doEnterMaintenance.result c = Program.result (EcMaster.requestPreOpState <&&>
      EcMaster.checkAllSlavesInState EcState.preOp) c.master := by
  rw [doEnterMaintenance, Program.result_bind, Program.result_get, Program.after_get,
    if_neg (by simp [scanned]), Program.result_bind, result_onMaster, after_onMaster,
    Program.result_and]
  cases requested : EcMaster.requestPreOpState.result c.master with
  | false => rfl
  | true =>
    rw [if_neg (by decide), if_pos rfl, Program.result_bind, result_onMaster]
    cases (EcMaster.checkAllSlavesInState EcState.preOp).result
        (EcMaster.requestPreOpState.after c.master) <;> rfl

/-- They also decide whether a bus that is ready to run is taken back. -/
theorem doBackToMaintenance_result (ready : c.state = .readyToRun) :
    doBackToMaintenance.result c = Program.result (EcMaster.requestPreOpState <&&>
      EcMaster.checkAllSlavesInState EcState.preOp) c.master := by
  have idle : (Program.when (c.state = .operational) (do
      let _ ← onMaster EcMaster.requestSafeOpState)).after c = c := by
    rw [Program.after_when, if_neg (by simp [ready])]
  rw [doBackToMaintenance, Program.result_bind, Program.result_get, Program.after_get,
    if_pos (.inl ready), Program.result_bind, idle, Program.result_bind, result_onMaster]
  cases Program.result (EcMaster.requestPreOpState <&&>
    EcMaster.checkAllSlavesInState EcState.preOp) c.master <;> rfl

end EcatController

/-- On slaves that cooperate, from every mixture of statuses: the broadcast request for
PRE_OP with the check after it succeeds exactly when no slave has an error flag and the
lowest state is not PRE_OP, or is the state of all slaves. The ways into maintenance
succeed in the same cases. -/
theorem broadcast_preOp_iff {β : Type} [Platform β] {statuses : β → List UInt16}
    (bus : Cooperates β statuses) (m : EcMaster β)
    (counted : m.ctx.slavecount = (statuses m.platform).length) (populated : 1 ≤ m.ctx.slavecount) :
    let works := (∀ status ∈ statuses m.platform, ¬Flagged status) ∧
      (lowest (statuses m.platform) = EcState.preOp →
        ∀ status ∈ statuses m.platform, status = EcState.preOp)
    (Program.result (EcMaster.requestPreOpState <&&>
      EcMaster.checkAllSlavesInState EcState.preOp) m = true ↔ works) ∧
    ∀ c : EcatController β, c.master = m →
      (c.state = .scanned → (EcatController.doEnterMaintenance.result c = true ↔ works)) ∧
      (c.state = .readyToRun → (EcatController.doBackToMaintenance.result c = true ↔ works)) := by
  intro works
  have nonempty : statuses m.platform ≠ [] := by
    intro empty
    rw [counted, empty] at populated
    cases populated
  have reached := bus.requestPreOpState_iff ⟨counted, rfl⟩ nonempty
  refine ⟨reached, ?_⟩
  rintro c rfl
  refine ⟨fun scanned => ?_, fun ready => ?_⟩
  · rw [EcatController.doEnterMaintenance_result scanned]
    exact reached
  · rw [EcatController.doBackToMaintenance_result ready]
    exact reached

/-- All slaves of a line cooperate. -/
theorem Line.cooperates : Cooperates Line Line.statuses where
  readState ctx line _ := by
    refine ⟨rfl, rfl, rfl, fun i inside => ?_⟩
    have present : line.statuses.getD i 0 = line.statuses[i] := by
      rw [List.getD_eq_getElem?_getD, List.getElem?_eq_getElem inside, Option.getD_some]
    exact present
  writeState _ _ _ _ := ⟨rfl, rfl⟩
  stateCheck _ _ _ _ _ := ⟨rfl, rfl, rfl⟩

/-- From SAFE_OP and OP, PRE_OP is reached. -/
theorem broadcast_preOp_line :
    let m : EcMaster Line :=
      { ctx := { slavecount := 2 }, platform := ⟨EcState.safeOp, [EcState.operational]⟩ }
    Program.result (EcMaster.requestPreOpState <&&>
      EcMaster.checkAllSlavesInState EcState.preOp) m = true := by
  intro m
  have clean : ∀ status ∈ Line.statuses m.platform, ¬Flagged status :=
    List.forall_mem_cons.mpr ⟨by decide, List.forall_mem_singleton.mpr (by decide)⟩
  refine (broadcast_preOp_iff Line.cooperates m rfl (by decide)).1.mpr ⟨clean, fun preOp => ?_⟩
  exact absurd preOp (by decide)

/-- From PRE_OP and SAFE_OP it is not, and neither from PRE_OP with an error flag. -/
theorem broadcast_preOp_fails :
    Cooperates Line Line.statuses ∧
      ∀ line ∈ [⟨EcState.preOp, [EcState.safeOp]⟩, ⟨EcState.preOp ||| EcState.error, []⟩],
        let m : EcMaster Line := { ctx := { slavecount := line.statuses.length }, platform := line }
        Program.result (EcMaster.requestPreOpState <&&>
          EcMaster.checkAllSlavesInState EcState.preOp) m = false := by
  refine ⟨Line.cooperates, ?_⟩
  simp only [List.forall_mem_cons]
  refine ⟨?_, ?_, by simp⟩
  · decide
  · decide

end MoEcat
