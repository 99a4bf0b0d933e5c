import MoEcat.NodeMirror
import MoEcat.StateRequests

/-!
# Runs on a bus that cooperates

What the master never does has its counterpart in what it always achieves. On a bus whose
adapter opens, whose scan finds slaves and leaves them together in a plain state, and
whose slaves follow every broadcast request, no lifecycle call fails that the table
admits, and no service reports a slave as lost. What happened before does not matter: the
state before the first call can be any.
-/

namespace MoEcat

open Cooperates (Meets)

/-! ## A bus that obliges -/

/-- A state without an error flag or any other bit above the four state bits. -/
def Plain (status : UInt16) : Prop := status &&& 0x0f = status

/-- A word is compared with its lowest four bits. -/
instance (status : UInt16) : Decidable (Plain status) := inferInstanceAs (Decidable (_ = _))

/-- Calls that have nothing to do with the states of slaves. -/
def SoemCall.leavesStates : SoemCall → Bool
  | .configDc | .sendProcessData | .receiveProcessData _ | .sdoRead .. | .sdoWrite .. => true
  | _ => false

/-- A cooperative bus whose adapter opens, whose scan finds slaves and leaves them together
in a plain state, and whose mapping raises no error flags. -/
structure Obliges (β : Type) [Platform β] (statuses : β → List UInt16) : Prop extends
    Cooperates β statuses where
  opens : ∀ ifname ctx (bus : β), (Platform.soem (.init ifname) ctx bus).1.result ≠ 0
  scans : ∀ ctx (bus : β), let answer := Platform.soem .configInit ctx bus
    ∃ n status, answer.1.result = (n + 1 : Nat) ∧ answer.2.1.slavecount = n + 1 ∧
      Plain status ∧ statuses answer.2.2 = List.replicate (n + 1) status
  maps : ∀ group ctx (bus : β), let answer := Platform.soem (.configMapGroup group) ctx bus
    answer.2.1.slavecount = ctx.slavecount ∧
      (statuses answer.2.2).length = (statuses bus).length ∧
      ((∀ status ∈ statuses bus, ¬Flagged status) →
        ∀ status ∈ statuses answer.2.2, ¬Flagged status)
  leaves : ∀ call, call.leavesStates = true → ∀ ctx (bus : β),
    let answer := Platform.soem call ctx bus
    answer.2.1.slavecount = ctx.slavecount ∧ statuses answer.2.2 = statuses bus
  clock : ∀ bus : β, statuses (Platform.steadyClock bus).2 = statuses bus
  logs : ∀ path (bus : β), statuses (Platform.openLogFile path bus).2 = statuses bus

/-- A plain state carries no error flag: the flag is the fifth bit. -/
theorem Plain.not_flagged {status : UInt16} (plain : Plain status) : ¬Flagged status := by
  rw [Flagged, ← plain, UInt16.and_assoc, show (0x0f : UInt16) &&& EcState.error = 0 by decide,
    UInt16.and_zero]
  simp

/-- The lowest state of slaves that are together in a plain one. -/
theorem lowest_replicate {status : UInt16} (plain : Plain status) (n : Nat) :
    lowest (List.replicate (n + 1) status) = status := by
  have bounded : status ≤ 0x0f := by
    rw [← plain, UInt16.le_iff_toNat_le, UInt16.toNat_and]
    exact Nat.and_le_right
  rw [lowest, List.map_replicate, plain]
  induction n with
  | zero => exact if_pos bounded
  | succ n inductionHypothesis =>
    rw [List.replicate_succ, List.foldr_cons, inductionHypothesis]
    exact ite_self status

namespace Obliges

open EcMaster

variable {β : Type} [Platform β] {statuses : β → List UInt16}

/-! ## Programs that leave the states -/

/-- Whatever the slaves are in, they are still in. -/
def Stays (statuses : β → List UInt16) (m m' : EcMaster β) : Prop :=
  ∀ present, Meets statuses m present → Meets statuses m' present

omit [Platform β] in
/-- Doing nothing leaves the states. -/
theorem Stays.refl (m : EcMaster β) : Stays statuses m m := fun _ meets => meets

omit [Platform β] in
/-- Two programs that leave the states leave them together. -/
theorem Stays.trans (m m' m'' : EcMaster β) (earlier : Stays statuses m m')
    (later : Stays statuses m' m'') : Stays statuses m m'' :=
  fun present meets => later present (earlier present meets)

/-- A call that has nothing to do with the states leaves them, as the bus promises. -/
theorem soem_stays (bus : Obliges β statuses) {call : SoemCall} (leaves : call.leavesStates = true) :
    Program.Relates (Stays statuses) (soem (β := β) call) := by
  intro m present meets
  obtain ⟨counted, same⟩ := bus.leaves call leaves m.ctx m.platform
  exact ⟨counted.trans meets.counted, same.trans meets.statuses⟩

/-- Looking at the clock leaves the states. -/
theorem steadyNow_stays (bus : Obliges β statuses) :
    Program.Relates (Stays statuses) (steadyNow (β := β)) :=
  fun m _ meets => ⟨meets.counted, (bus.clock m.platform).trans meets.statuses⟩

/-- An upload leaves the states. -/
theorem sdoRead_stays (bus : Obliges β statuses) (slave index : UInt16) (subindex : UInt8)
    (data : List UInt8) (len timeoutUs : Int) :
    Program.Relates (Stays statuses)
      (sdoRead (β := β) slave index subindex data len timeoutUs) :=
  fun m => bus.soem_stays rfl m

/-- A download leaves the states. -/
theorem sdoWrite_stays (bus : Obliges β statuses) (slave index : UInt16) (subindex : UInt8)
    (data : List UInt8) (len timeoutUs : Int) :
    Program.Relates (Stays statuses)
      (sdoWrite (β := β) slave index subindex data len timeoutUs) :=
  fun m => bus.soem_stays rfl m

/-- Reading a mapping, which is a number of uploads, leaves the states. -/
theorem dumpDirections_stays (bus : Obliges β statuses) (fuel : Nat) (slaveId : UInt16) :
    Program.Relates (Stays statuses) (Impl.dumpDirections (β := β) fuel slaveId) :=
  (Impl.dumpDirections_starts slaveId Stays.refl Stays.trans
    (fun _ _ _ _ _ => bus.sdoRead_stays _ _ _ _ _ _) fuel).relates Stays.trans
      (bus.sdoRead_stays _ _ _ _ _ _)

/-- A cycle leaves the states: it exchanges a frame and looks at the clock. -/
theorem runOneCycle_stays (bus : Obliges β statuses) :
    Program.Relates (Stays statuses) (runOneCycle (β := β)) := by
  refine .bind Stays.trans (bus.soem_stays rfl) fun _ => ?_
  refine .bind Stays.trans (bus.soem_stays rfl) fun _ => ?_
  refine .bind Stays.trans bus.steadyNow_stays fun _ => ?_
  exact fun m present meets => ⟨meets.counted, meets.statuses⟩

/-- The clock configuration leaves the states. -/
theorem configureDc_stays (bus : Obliges β statuses) :
    Program.Relates (Stays statuses) (configureDc (β := β)) := by
  intro m
  unfold configureDc
  simp only [Program.after_bind, Program.after_get, Program.result_get, Program.after_ite]
  split
  · exact .refl m
  · exact bus.soem_stays rfl m

/-! ## Requests that are confirmed -/

/-- A check reads the states and leaves them. -/
theorem check_meets (bus : Obliges β statuses) {state : UInt16} {m : EcMaster β}
    {present : List UInt16} (meets : Meets statuses m present) :
    Meets statuses ((checkAllSlavesInState state).after m) present :=
  let ⟨counted, same⟩ := (bus.afterRead meets).1
  ⟨counted, same⟩

/-- A check that passes has found every slave in the state. -/
theorem check_passed (bus : Obliges β statuses) {state : UInt16} {m : EcMaster β}
    {present : List UInt16} (meets : Meets statuses m present)
    (passed : (checkAllSlavesInState state).result m = true) :
    present = List.replicate present.length state := by
  rw [bus.checkAllSlavesInState_eq state meets, List.all_eq_true] at passed
  exact List.eq_replicate_of_mem fun status member => by simpa using passed status member

/-- A broadcast takes slaves without error flags to the state that is requested. -/
theorem requestState_meets (bus : Obliges β statuses) (state : UInt16) {m : EcMaster β} {n : Nat}
    {present : List UInt16} (meets : Meets statuses m present) (counted : present.length = n + 1)
    (clean : ∀ status ∈ present, ¬Flagged status) :
    (requestState 0 state).result m = true ∧
      Meets statuses ((requestState 0 state).after m) (List.replicate (n + 1) state) := by
  have noted : Meets statuses ((note (.request 0 state)).after m) present :=
    ⟨meets.counted, meets.statuses⟩
  obtain ⟨moved, listed⟩ := bus.transmitState state state noted
  have reacted : (present.map fun status => react status state) = List.replicate (n + 1) state := by
    rw [← counted]
    refine List.eq_replicate_iff.mpr ⟨by simp, fun reached member => ?_⟩
    obtain ⟨status, original, rfl⟩ := List.mem_map.mp member
    exact if_neg (clean status original)
  rw [reacted] at moved listed
  rw [joined_replicate] at listed
  refine ⟨?_, moved⟩
  have compared : (requestState 0 state).result m =
      (((EcMaster.transmitState 0 state state).after ((note (.request 0 state)).after m)).listed 0
        == state) := rfl
  rw [compared, listed]
  exact beq_self_eq_true state

/-- A broadcast that is checked afterwards succeeds. -/
theorem confirm_meets (bus : Obliges β statuses) (state : UInt16) {m : EcMaster β} {n : Nat}
    {present : List UInt16} (meets : Meets statuses m present) (counted : present.length = n + 1)
    (clean : ∀ status ∈ present, ¬Flagged status) :
    Program.result (requestState 0 state <&&> checkAllSlavesInState state) m = true ∧
      Meets statuses (Program.after (requestState 0 state <&&> checkAllSlavesInState state) m)
        (List.replicate (n + 1) state) := by
  obtain ⟨requested, moved⟩ := bus.requestState_meets state meets counted clean
  rw [Program.result_and, Program.after_and, if_pos requested, if_pos requested]
  refine ⟨?_, bus.check_meets moved⟩
  rw [bus.checkAllSlavesInState_eq state moved]
  simp

/-- Retrying keeps the number of slaves. -/
theorem retryState_meets (bus : Obliges β statuses) (state : UInt16) (remaining : Nat)
    (m : EcMaster β) (present : List UInt16) (meets : Meets statuses m present) :
    ∃ reached : List UInt16, reached.length = present.length ∧
      Meets statuses ((retryState 0 state remaining).after m) reached := by
  refine retryState_induction (motive := fun _ m ended =>
    ∀ present, Meets statuses m present → ∃ reached : List UInt16, reached.length = present.length ∧
      Meets statuses ended.2 reached) ?_ ?_ ?_ ?_ ?_ remaining m present meets
  · exact fun _ present meets => ⟨present, rfl, meets⟩
  · exact fun _ _ _ present meets => ⟨present, rfl, (bus.afterRead meets).1⟩
  · intro _ m _ _ inductionHypothesis present meets
    obtain ⟨reached, length, later⟩ := inductionHypothesis _
      (bus.transmitState _ _ (bus.afterRead meets).1).1
    exact ⟨reached, length.trans (List.length_map _), later⟩
  · intro _ m _ present meets
    exact ⟨_, List.length_map _, (bus.transmitState _ _ (bus.afterRead meets).1).1⟩
  · intro _ m _ _ inductionHypothesis present meets
    obtain ⟨reached, length, later⟩ := inductionHypothesis _
      (bus.transmitState _ _ (bus.afterRead meets).1).1
    exact ⟨reached, length.trans (List.length_map _), later⟩

/-- Slaves that are together in a plain state are taken to PRE_OP. -/
theorem confirmPreOp_meets (bus : Obliges β statuses) {m : EcMaster β} {n : Nat} {status : UInt16}
    (plain : Plain status) (meets : Meets statuses m (List.replicate (n + 1) status)) :
    EcatController.confirmPreOp.result m = true ∧
      Meets statuses (EcatController.confirmPreOp.after m)
        (List.replicate (n + 1) EcState.preOp) := by
  have reached : EcatController.confirmPreOp.result m = true := by
    refine (bus.requestPreOpState_iff meets (by simp)).mpr ⟨?_, ?_⟩
    · intro other member
      rw [List.eq_of_mem_replicate member]
      exact plain.not_flagged
    · intro low other member
      rw [lowest_replicate plain] at low
      rw [List.eq_of_mem_replicate member, low]
  have both := reached
  rw [EcatController.confirmPreOp, Program.result_and] at both
  split at both
  · rename_i requested
    obtain ⟨moved, length, later⟩ := bus.retryState_meets EcState.preOp 4
      ((note (.request 0 EcState.preOp)).after m) _ ⟨meets.counted, meets.statuses⟩
    have together := bus.check_passed later both
    rw [length, List.length_replicate] at together
    refine ⟨reached, ?_⟩
    rw [EcatController.confirmPreOp, Program.after_and, if_pos requested, ← together]
    exact bus.check_meets later
  · cases both

end Obliges

/-! ## The controller -/

variable {β : Type} {statuses : β → List UInt16}

/-- There are slaves, the master knows how many, and they are all in one state. -/
def EcMaster.Together (statuses : β → List UInt16) (status : UInt16) (m : EcMaster β) : Prop :=
  ∃ n, Meets statuses m (List.replicate (n + 1) status)

/-- Slaves that are together stay together. -/
theorem Obliges.Stays.together {m m' : EcMaster β} (stays : Obliges.Stays statuses m m')
    {status : UInt16} (together : m.Together statuses status) : m'.Together statuses status :=
  let ⟨n, meets⟩ := together
  ⟨n, stays _ meets⟩

variable [Platform β]

namespace EcatController

open EcMaster (Together)

/-- The configuration accepts whatever a scan finds. -/
def Expects (β : Type) [Platform β] (config : EcMasterConfig) : Prop :=
  ∀ m : EcMaster β, Accepts config (EcMaster.scanSlaves.result m)

/-- The slaves are where a stable state says, and the next scan will be accepted. -/
def Stands (statuses : β → List UInt16) (config : EcMasterConfig) (m : EcMaster β) :
    ControllerState → Prop
  | .uninitialized | .fault | .emergencyStop => True
  | .adapterReady => Expects β config
  | .scanned => ∃ status, Plain status ∧ m.Together statuses status
  | .maintenance => m.Together statuses EcState.preOp
  | .readyToRun => m.Together statuses EcState.safeOp
  | .operational => m.Together statuses EcState.operational

/-- The controller's own state is such a state. -/
def Healthy (statuses : β → List UInt16) (c : EcatController β) : Prop :=
  Stands statuses c.config c.master c.state

/-- What leaves the slaves alone leaves them where they are. -/
theorem Stands.stays {config : EcMasterConfig} {m m' : EcMaster β} {state : ControllerState}
    (stands : Stands statuses config m state) (stays : Obliges.Stays statuses m m') :
    Stands statuses config m' state := by
  cases state with
  | uninitialized => trivial
  | adapterReady => exact stands
  | scanned =>
    obtain ⟨status, plain, together⟩ := stands
    exact ⟨status, plain, stays.together together⟩
  | maintenance => exact stays.together stands
  | readyToRun => exact stays.together stands
  | operational => exact stays.together stands
  | fault => trivial
  | emergencyStop => trivial

variable {c : EcatController β}

/-- The adapter opens where it may be opened. -/
theorem Healthy.initializeAdapter (bus : Obliges β statuses) (healthy : Healthy statuses c)
    {config : EcMasterConfig} (expects : Expects β config) :
    Healthy statuses ((EcatController.initializeAdapter config).after c) ∧
      (c.state = .uninitialized → (EcatController.initializeAdapter config).result c = true) := by
  rcases initializeAdapter_spec config c with
    ⟨busy, -, same⟩ | ⟨-, closed, -⟩ | ⟨-, -, opened, same⟩
  · rw [same]
    exact ⟨healthy, fun idle => absurd idle busy⟩
  · exact absurd closed (bus.opens _ _ _)
  · rw [same]
    exact ⟨expects, fun _ => opened⟩

/-- The scan succeeds where it is admitted, and leaves the slaves together in a plain state.
-/
theorem Healthy.scan (bus : Obliges β statuses) (healthy : Healthy statuses c) :
    Healthy statuses (EcatController.scan.after c) ∧
      (c.state = .adapterReady → EcatController.scan.result c = true) := by
  by_cases ready : c.state = .adapterReady
  · have expects : Expects β c.config := by rwa [Healthy, ready] at healthy
    rcases scan_spec c ready with ⟨-, scanned, same⟩ | ⟨refused, -⟩
    · obtain ⟨n, status, found, counted, plain, together⟩ :=
        bus.scans c.master.ctx c.master.platform
      have after : EcMaster.scanSlaves.after c.master =
          (EcMaster.soem .configInit).after c.master := by
        simp only [EcMaster.scanSlaves, Program.after_bind, Program.after_ite, Program.after_get,
          Program.after_pure, ite_self]
      rw [same]
      refine ⟨⟨status, plain, n, ?_⟩, fun _ => scanned⟩
      rw [after]
      exact ⟨by rw [List.length_replicate]; exact counted, together⟩
    · exact absurd (expects c.master) refused
  · have refused : EcatController.scan.after c = c := by simp [EcatController.scan, ready]
    rw [refused]
    exact ⟨healthy, fun other => absurd other ready⟩

/-- Maintenance is entered where it may be: the slaves follow the request for PRE_OP. -/
theorem Healthy.enterMaintenance (bus : Obliges β statuses) (healthy : Healthy statuses c) :
    Healthy statuses (EcatController.enterMaintenance.after c) ∧
      (c.state = .scanned → EcatController.enterMaintenance.result c = true) := by
  by_cases known : c.state = .scanned
  · obtain ⟨status, plain, n, meets⟩ : Stands statuses c.config c.master .scanned := by
      rwa [Healthy, known] at healthy
    obtain ⟨reached, together⟩ := bus.confirmPreOp_meets plain meets
    rcases enterMaintenance_spec c known with ⟨-, entered, same⟩ | ⟨missed, -⟩
    · rw [same]
      exact ⟨⟨n, together⟩, fun _ => entered⟩
    · simp [reached] at missed
  · have refused : EcatController.enterMaintenance.after c = c := by
      simp [EcatController.enterMaintenance, known]
    rw [refused]
    exact ⟨healthy, fun other => absurd other known⟩

/-- The mapping leaves slaves that can be asked for SAFE_OP. -/
theorem configureProcessData_meets (bus : Obliges β statuses) {m : EcMaster β} {n : Nat}
    (meets : Meets statuses m (List.replicate (n + 1) EcState.preOp)) :
    ∃ present : List UInt16, present.length = n + 1 ∧ (∀ status ∈ present, ¬Flagged status) ∧
      Meets statuses (EcMaster.configureProcessData.after m) present := by
  have populated : m.ctx.slavecount ≠ 0 := by simp [meets.counted]
  obtain ⟨counted, length, clean⟩ := bus.maps 0 m.ctx m.platform
  rw [meets.statuses] at length clean
  refine ⟨_, length.trans (List.length_replicate ..), clean fun status member => ?_, ?_, ?_⟩
  · rw [List.eq_of_mem_replicate member]
    decide
  · rw [length, ← meets.counted, EcMaster.configureProcessData, Program.after_bind,
      Program.result_get, Program.after_get, if_neg populated]
    exact counted
  · rw [EcMaster.configureProcessData, Program.after_bind, Program.result_get, Program.after_get,
      if_neg populated]
    rfl

/-- The preparation succeeds where it is admitted: the nodes are mapped, and the slaves
follow the request for SAFE_OP. -/
theorem Healthy.prepareRun (bus : Obliges β statuses) (healthy : Healthy statuses c) :
    Healthy statuses (EcatController.prepareRun.after c) ∧
      (c.state = .maintenance → EcatController.prepareRun.result c = true) := by
  by_cases maintained : c.state = .maintenance
  · obtain ⟨n, meets⟩ : Stands statuses c.config c.master .maintenance := by
      rwa [Healthy, maintained] at healthy
    obtain ⟨present, counted, clean, mapped⟩ := configureProcessData_meets bus meets
    obtain ⟨reached, together⟩ := bus.confirm_meets EcState.safeOp mapped counted clean
    rcases prepareRun_spec c maintained with ⟨vacant, -⟩ | ⟨-, missed, -⟩ | ⟨-, -, prepared, same⟩
    · simp [meets.counted] at vacant
    · exact absurd (missed.symm.trans reached) (by decide)
    · rw [same]
      exact ⟨⟨n, bus.configureDc_stays _ _ together⟩, fun _ => prepared⟩
  · have refused : EcatController.prepareRun.after c = c := by
      simp [EcatController.prepareRun, maintained]
    rw [refused]
    exact ⟨healthy, fun other => absurd other maintained⟩

/-- Operational is entered where it may be: the slaves follow the request for OP. -/
theorem Healthy.startOperation (bus : Obliges β statuses) (healthy : Healthy statuses c) :
    Healthy statuses (EcatController.startOperation.after c) ∧
      (c.state = .readyToRun → EcatController.startOperation.result c = true) := by
  by_cases ready : c.state = .readyToRun
  · obtain ⟨n, meets⟩ : Stands statuses c.config c.master .readyToRun := by
      rwa [Healthy, ready] at healthy
    obtain ⟨reached, together⟩ := bus.confirm_meets EcState.operational meets
      (List.length_replicate ..) (fun status member => by
        rw [List.eq_of_mem_replicate member]
        decide)
    rcases startOperation_spec c ready with ⟨-, started, same⟩ | ⟨missed, -⟩
    · rw [same]
      exact ⟨⟨n, together⟩, fun _ => started⟩
    · exact absurd (missed.symm.trans reached) (by decide)
  · have refused : EcatController.startOperation.after c = c := by
      simp [EcatController.startOperation, ready]
    rw [refused]
    exact ⟨healthy, fun other => absurd other ready⟩

/-- On the way back the slaves are in SAFE_OP first, from whichever of the two states they
come. -/
theorem stepDown_together (bus : Obliges β statuses) (healthy : Healthy statuses c)
    (ready : c.state = .readyToRun ∨ c.state = .operational) :
    (stepDown c).Together statuses EcState.safeOp := by
  rcases ready with ready | running
  · have stays : stepDown c = c.master := if_neg (by rw [ready]; decide)
    rw [stays]
    rwa [Healthy, ready] at healthy
  · have steps : stepDown c = EcMaster.requestSafeOpState.after c.master := if_pos running
    obtain ⟨n, meets⟩ : Stands statuses c.config c.master .operational := by
      rwa [Healthy, running] at healthy
    rw [steps]
    exact ⟨n, (bus.requestState_meets EcState.safeOp meets (List.length_replicate ..)
      fun status member => by
        rw [List.eq_of_mem_replicate member]
        decide).2⟩

/-- The way back to Maintenance succeeds from both states that have it. -/
theorem Healthy.backToMaintenance (bus : Obliges β statuses) (healthy : Healthy statuses c) :
    Healthy statuses (EcatController.backToMaintenance.after c) ∧
      (c.state = .readyToRun ∨ c.state = .operational →
        EcatController.backToMaintenance.result c = true) := by
  by_cases ready : c.state = .readyToRun ∨ c.state = .operational
  · obtain ⟨n, meets⟩ := stepDown_together bus healthy ready
    obtain ⟨reached, together⟩ :=
      bus.confirmPreOp_meets (show Plain EcState.safeOp by decide) meets
    rcases backToMaintenance_spec c ready with ⟨-, returned, same⟩ | ⟨missed, -⟩
    · rw [same]
      exact ⟨⟨n, together⟩, fun _ => returned⟩
    · exact absurd (missed.symm.trans reached) (by decide)
  · have refused : EcatController.backToMaintenance.after c = c := by
      have neither := not_or.mp ready
      simp [EcatController.backToMaintenance, neither.1, neither.2]
    rw [refused]
    exact ⟨healthy, fun other => absurd other ready⟩

/-! ## The service -/

/-- A supervision of slaves that are together in the expected state finds them there. -/
theorem supervise_together (bus : Obliges β statuses) {expected : UInt16}
    (together : c.master.Together statuses expected) :
    (ProcessDataEngine.supervise expected).after c =
      { c with master := (EcMaster.checkAllSlavesInState expected).after c.master } := by
  obtain ⟨n, meets⟩ := together
  have present : (EcMaster.checkAllSlavesInState expected).result c.master = true := by
    rw [bus.checkAllSlavesInState_eq expected meets]
    simp
  simp [ProcessDataEngine.supervise, present]

/-- Whatever is supervised, nothing is lost. -/
theorem Healthy.superviseSlaves (bus : Obliges β statuses) (healthy : Healthy statuses c) :
    Healthy statuses (ProcessDataEngine.superviseSlaves.after c) ∧
      (ProcessDataEngine.superviseSlaves.after c).state = c.state := by
  have checked : ∀ expected, c.master.Together statuses expected →
      Healthy statuses ((ProcessDataEngine.supervise expected).after c) ∧
        ((ProcessDataEngine.supervise expected).after c).state = c.state := by
    intro expected together
    rw [supervise_together bus together]
    exact ⟨Stands.stays healthy fun _ meets => bus.check_meets meets, rfl⟩
  by_cases maintained : c.state = .maintenance
  · rw [ProcessDataEngine.superviseSlaves_maintenance c maintained]
    exact checked _ (by rwa [Healthy, maintained] at healthy)
  by_cases operational : c.state = .operational
  · rw [ProcessDataEngine.superviseSlaves_operational c operational]
    exact checked _ (by rwa [Healthy, operational] at healthy)
  · have idle : ProcessDataEngine.superviseSlaves.after c = c := by
      cases state : c.state <;> simp_all [ProcessDataEngine.superviseSlaves]
    rw [idle]
    exact ⟨healthy, rfl⟩

/-- A cycle in Operational ends in Operational, with the slaves as they were. -/
theorem Healthy.runOnce (bus : Obliges β statuses) (healthy : Healthy statuses c)
    (operational : c.state = .operational) :
    Healthy statuses (ProcessDataEngine.runOnce.after c) ∧
      (ProcessDataEngine.runOnce.after c).state = c.state := by
  rw [ProcessDataEngine.runOnce_spec c operational]
  refine ⟨Stands.stays healthy fun present meets => ?_, rfl⟩
  have copied : Meets statuses ((SlaveNodeManager.updateAllOutputs c.nodes).after c.master)
      present := by
    rw [(SlaveNodeManager.updateAllOutputs_spec c.nodes c.master).2]
    exact ⟨meets.counted, meets.statuses⟩
  obtain ⟨counted, same⟩ := bus.runOneCycle_stays _ _ copied
  exact ⟨counted, same⟩

/-- Whatever else the world does, as long as the slaves stay in their states. -/
theorem Healthy.inWorld (healthy : Healthy statuses c) {platform : β}
    (same : statuses platform = statuses c.master.platform) :
    Healthy statuses (c.inWorld platform) :=
  Stands.stays healthy fun _ meets => ⟨meets.counted, same.trans meets.statuses⟩

end EcatController

/-! ## The master -/

namespace Impl

open EcatController (Healthy Expects)

variable {i : Impl β}

/-- The periodic check finds every slave where it should be, and so leaves the state. -/
theorem healthy_checkSlaveStates (bus : Obliges β statuses)
    (healthy : Healthy statuses i.controller) :
    Healthy statuses (checkSlaveStates.after i).controller ∧
      (checkSlaveStates.after i).controller.state = i.controller.state := by
  have read := healthy.inWorld (bus.clock i.controller.master.platform)
  rw [checkSlaveStates_spec]
  split
  · exact ⟨read, rfl⟩
  · exact read.superviseSlaves bus

/-- A service is a cycle and perhaps a check, and neither leaves the state. -/
theorem healthy_service (bus : Obliges β statuses) (settled : Settled i)
    (healthy : Healthy statuses i.controller) :
    Healthy statuses ((perform .service).after i).controller ∧
      ((perform .service).after i).controller.state = i.controller.state := by
  obtain ⟨delivered, served⟩ := service_after i
  rw [perform_service, served]
  rcases serviceEngine_selects i settled with
    ⟨-, selected⟩ | ⟨operational, selected⟩ | ⟨-, selected⟩
  · rw [selected]
    exact healthy_checkSlaveStates bus healthy
  · obtain ⟨cycled, running⟩ := healthy.runOnce bus operational
    obtain ⟨checked, same⟩ := healthy_checkSlaveStates
      (i := { i with controller := ProcessDataEngine.runOnce.after i.controller }) bus cycled
    rw [selected]
    exact ⟨checked, same.trans running⟩
  · rw [selected]
    exact ⟨healthy, rfl⟩

/-- A transfer that leaves the slaves alone, or none at all. -/
theorem healthy_access {α : Type} {p : Program (EcMaster β) α} (refused : Prop)
    [Decidable refused] (answer : α) (stays : Program.Relates (Obliges.Stays statuses) p)
    (healthy : Healthy statuses i.controller) :
    let call : Program (Impl β) α := if refused then pure answer else onMaster p
    Healthy statuses (call.after i).controller ∧
      (call.after i).controller.state = i.controller.state := by
  intro call
  rw [Program.after_ite]
  split
  · exact ⟨healthy, rfl⟩
  · exact ⟨EcatController.Stands.stays healthy (stays _), rfl⟩

/-- Opening a log file leaves the states of the slaves. -/
theorem setLogFile_statuses (bus : Obliges β statuses) (path : String) :
    Program.Keeps (fun i : Impl β => statuses i.controller.master.platform) (setLogFile path) := by
  intro i
  unfold setLogFile
  rw [Program.after_ite]
  split
  · rfl
  · rw [Program.after_bind]
    split
    · exact bus.logs path i.controller.master.platform
    · exact bus.logs path i.controller.master.platform
    · exact bus.logs path i.controller.master.platform

/-- Setting the sinks leaves the slaves and the state of the master. -/
theorem healthy_configureLogSink (bus : Obliges β statuses) (config : EcMasterConfig)
    (healthy : Healthy statuses i.controller) :
    Healthy statuses ((configureLogSink config).after i).controller ∧
      ((configureLogSink config).after i).controller.state = i.controller.state := by
  have kept : Program.Keeps (fun i : Impl β => statuses i.controller.master.platform)
      (configureLogSink config) := by
    unfold configureLogSink
    refine .bind (Program.keeps_modify fun _ => rfl) fun _ => ?_
    cases config.logSink with
    | none => exact .bind (setLogFile_statuses bus _) fun _ => Program.keeps_modify fun _ => rfl
    | file => exact .bind (setLogFile_statuses bus _) fun _ => Program.keeps_modify fun _ => rfl
    | callback => exact .bind (setLogFile_statuses bus _) fun _ => Program.keeps_modify fun _ => rfl
    | fileAndCallback =>
      exact .bind (setLogFile_statuses bus _) fun _ => Program.keeps_modify fun _ => rfl
  have same := kept i
  obtain ⟨platform, logger, after⟩ := configureLogSink_after config i
  rw [after] at same ⊢
  exact ⟨healthy.inWorld same, rfl⟩

/-- Whether the table admits an action in a state can be decided. -/
instance (state : ControllerState) (action : MasterAction) :
    Decidable (Lifecycle.Accepted state action) :=
  inferInstanceAs (Decidable (_ ∨ _))

/-- What is not a request to halt is accepted by the table alone. -/
theorem admitted_of_accepted {state : ControllerState} {action : MasterAction}
    (ordered : Lifecycle.isTransition action = true) (accepted : Lifecycle.Accepted state action) :
    action ∈ EcatController.allowedActions state := by
  rcases accepted with rfl | rfl | admitted
  · cases ordered
  · cases ordered
  · exact admitted

/-- What one operation keeps and achieves: the slaves are where the state says, an action that
is accepted succeeds, and what is no action keeps the stable state. -/
structure Obeyed (statuses : β → List UInt16) (i : Impl β) (operation : MasterOperation) : Prop
    where
  healthy : Healthy statuses ((perform operation).after i).controller
  succeeds : ∀ action, operation.request = .action action →
    Lifecycle.Accepted i.controller.state action → (perform operation).result i = true
  keeps : (∀ action, operation.request ≠ .action action) →
    ((perform operation).after i).controller.state = i.controller.state

namespace Obeyed

variable {operation : MasterOperation} {action : MasterAction}

/-- An action that succeeds where it is accepted. -/
theorem of_action (asked : operation.request = .action action)
    (healthy : Healthy statuses ((perform operation).after i).controller)
    (succeeds : Lifecycle.Accepted i.controller.state action →
      (perform operation).result i = true) : Obeyed statuses i operation where
  healthy := healthy
  succeeds other same accepted := by
    rw [asked] at same
    cases same
    exact succeeds accepted
  keeps other := absurd asked (other action)

/-- An action that is a program of the controller and succeeds in the states of the table. -/
theorem of_transition (asked : operation.request = .action action)
    (ordered : Lifecycle.isTransition action = true) {p : Program (EcatController β) Bool}
    (same : ((perform operation).after i).controller = p.after i.controller)
    (answer : (perform operation).result i = p.result i.controller)
    (healthy : Healthy statuses (p.after i.controller))
    (succeeds : action ∈ EcatController.allowedActions i.controller.state →
      p.result i.controller = true) : Obeyed statuses i operation :=
  .of_action asked (same ▸ healthy) fun accepted =>
    answer.trans (succeeds (admitted_of_accepted ordered accepted))

/-- An action that ends in a state of which nothing is asked. -/
theorem of_unstable (asked : operation.request = .action action)
    (ended : ((perform operation).after i).controller.state = .uninitialized ∨
      ((perform operation).after i).controller.state = .fault ∨
      ((perform operation).after i).controller.state = .emergencyStop)
    (succeeds : (perform operation).result i = true) : Obeyed statuses i operation := by
  refine .of_action asked ?_ fun _ => succeeds
  rw [Healthy]
  rcases ended with ended | ended | ended <;> rw [ended] <;> trivial

/-- What is no action and keeps the state. -/
theorem of_quiet (quiet : ∀ action, operation.request ≠ .action action)
    (kept : Healthy statuses ((perform operation).after i).controller ∧
      ((perform operation).after i).controller.state = i.controller.state) :
    Obeyed statuses i operation where
  healthy := kept.1
  succeeds action asked := absurd asked (quiet action)
  keeps _ := kept.2

end Obeyed

/-- The adapter opens, whatever the log sinks were switched to before. -/
theorem obeyed_initializeAdapter (bus : Obliges β statuses)
    (healthy : Healthy statuses i.controller) {config : EcMasterConfig}
    (expects : Expects β config) : Obeyed statuses i (.initializeAdapter config) := by
  obtain ⟨ready, same⟩ := healthy_configureLogSink bus config healthy
  obtain ⟨kept, opens⟩ := ready.initializeAdapter bus expects
  refine .of_action rfl ?_ fun accepted => ?_
  · simpa only [perform, initializeAdapter, Program.after_bind, controller_transition] using kept
  · have idle : i.controller.state = .uninitialized :=
      (EcatController.allowed_initializeAdapter _).mp (admitted_of_accepted rfl accepted)
    have opened := opens (same.trans idle)
    simpa [perform, initializeAdapter, transition_after] using opened

/-- A fault or an emergency stop that is asked for leaves nothing to ask of the slaves. -/
theorem obeyed_halt (statuses : β → List UInt16) (i : Impl β) {operation : MasterOperation}
    (halts : operation = .requestFault ∨ operation = .requestEmergencyStop) :
    Obeyed statuses i operation := by
  rcases halts with rfl | rfl
  · obtain ⟨m, faulted, -⟩ := EcatController.enterFault_after i.controller
    refine .of_unstable rfl (.inr (.inl ?_)) rfl
    rw [show ((perform .requestFault).after i).controller = _ from controller_transition _ _ i,
      EcatController.requestFault, faulted]
  · obtain ⟨m, halted, -⟩ := EcatController.enterEmergencyStop_after i.controller
    refine .of_unstable rfl (.inr (.inr ?_)) rfl
    rw [show ((perform .requestEmergencyStop).after i).controller = _ from
      controller_transition _ _ i, EcatController.requestEmergencyStop, halted]

/-- A stop ends where nothing is asked of the slaves. -/
theorem obeyed_stop (statuses : β → List UInt16) (i : Impl β) : Obeyed statuses i .stop := by
  have stopped : (EcatController.stop.after i.controller).state = .uninitialized :=
    (EcatController.stop_move i.controller).stop_state
  exact .of_unstable rfl (.inl ((congrArg EcatController.state (controller_stop i)).trans stopped))
    rfl

/-- Transfers of service data leave the slaves where they are. -/
theorem obeyed_readSdo (bus : Obliges β statuses) (healthy : Healthy statuses i.controller)
    (slaveId : Int) (index : UInt16) (subindex : UInt8) (data : List UInt8) (timeoutMs : Int) :
    Obeyed statuses i (.readSdo slaveId index subindex data timeoutMs) :=
  .of_quiet (by rintro _ ⟨⟩) (healthy_access (slaveId ≤ 0 ∨ data = []) (false, data)
    (bus.sdoRead_stays (UInt16.ofInt slaveId) index subindex data (narrowInt data.length)
      (narrowInt (timeoutMs * 1000))) healthy)

/-- A download obeys: it is transferred, and the slaves and the state stay. -/
theorem obeyed_writeSdo (bus : Obliges β statuses) (healthy : Healthy statuses i.controller)
    (slaveId : Int) (index : UInt16) (subindex : UInt8) (data : List UInt8) (timeoutMs : Int) :
    Obeyed statuses i (.writeSdo slaveId index subindex data timeoutMs) :=
  .of_quiet (by rintro _ ⟨⟩) (healthy_access (slaveId ≤ 0 ∨ data = []) false
    (bus.sdoWrite_stays (UInt16.ofInt slaveId) index subindex data (narrowInt data.length)
      (narrowInt (timeoutMs * 1000))) healthy)

/-- So does the reading of a mapping. -/
theorem obeyed_dumpPdoMapping (bus : Obliges β statuses)
    (healthy : Healthy statuses i.controller) (fuel : Nat) (slaveId : Int) :
    Obeyed statuses i (.dumpPdoMapping fuel slaveId) :=
  .of_quiet (by rintro _ ⟨⟩) (healthy_access (slaveId ≤ 0) (some "")
    (bus.dumpDirections_stays fuel (UInt16.ofInt slaveId)) healthy)

/-- Every operation keeps and achieves this on a bus that obliges. -/
theorem obeyed_perform (bus : Obliges β statuses) (settled : Settled i)
    (healthy : Healthy statuses i.controller) (operation : MasterOperation)
    (expects : ∀ config, operation = .initializeAdapter config → Expects β config) :
    Obeyed statuses i operation := by
  cases operation with
  | initializeAdapter config => exact obeyed_initializeAdapter bus healthy (expects config rfl)
  | scan =>
    obtain ⟨kept, scans⟩ := healthy.scan bus
    exact .of_transition rfl rfl (controller_transition _ _ i) (transition_after ..).1 kept
      fun admitted => scans ((EcatController.allowed_scanSlaves _).mp admitted)
  | enterMaintenance =>
    obtain ⟨kept, enters⟩ := healthy.enterMaintenance bus
    exact .of_transition rfl rfl (controller_transition _ _ i) (transition_after ..).1 kept
      fun admitted => enters ((EcatController.allowed_enterMaintenance _).mp admitted)
  | prepareRun =>
    obtain ⟨kept, prepares⟩ := healthy.prepareRun bus
    exact .of_transition rfl rfl (controller_transition _ _ i) (transition_after ..).1 kept
      fun admitted => prepares ((EcatController.allowed_prepareRun _).mp admitted)
  | startOperation =>
    obtain ⟨kept, starts⟩ := healthy.startOperation bus
    exact .of_transition rfl rfl (controller_transition _ _ i) (transition_after ..).1 kept
      fun admitted => starts ((EcatController.allowed_startOperation _).mp admitted)
  | backToMaintenance =>
    obtain ⟨kept, returns⟩ := healthy.backToMaintenance bus
    exact .of_transition rfl rfl (controller_backToMaintenance i) (transition_after ..).1 kept
      fun admitted => returns ((EcatController.allowed_backToMaintenance _).mp admitted)
  | stop => exact obeyed_stop statuses i
  | requestFault => exact obeyed_halt statuses i (.inl rfl)
  | requestEmergencyStop => exact obeyed_halt statuses i (.inr rfl)
  | service => exact .of_quiet (by rintro _ ⟨⟩) (healthy_service bus settled healthy)
  | readSdo slaveId index subindex data timeoutMs =>
    exact obeyed_readSdo bus healthy slaveId index subindex data timeoutMs
  | writeSdo slaveId index subindex data timeoutMs =>
    exact obeyed_writeSdo bus healthy slaveId index subindex data timeoutMs
  | dumpPdoMapping fuel slaveId => exact obeyed_dumpPdoMapping bus healthy fuel slaveId

/-- A lifecycle action that succeeds leads to its target. -/
theorem target_of_success {a b : Lifecycle.State} {action : MasterAction}
    (accepted : Lifecycle.Accepted a.state action)
    (move : Lifecycle.Move a ⟨.action action, true⟩ b) : b.state = Lifecycle.target action := by
  cases move <;> first | rfl | assumption

/-- An action that is not accepted leaves the stable state as it is. The cases are those of the
transition system; only a refusal and a stop of nothing are possible. -/
theorem unmoved_of_refused {a b : Lifecycle.State} {action : MasterAction} {success : Bool}
    (refused : ¬Lifecycle.Accepted a.state action)
    (move : Lifecycle.Move a ⟨.action action, success⟩ b) : b.state = a.state := by
  have outside {state : ControllerState} (here : a.state = state)
      (admitted : action ∈ EcatController.allowedActions state) : b.state = a.state :=
    absurd (.inr (.inr (here ▸ admitted))) refused
  cases move with
  | refused ordered forbidden => rfl
  | adapterFailed idle => exact outside idle (by decide)
  | adapterReady idle => exact outside idle (by decide)
  | scanFailed ready infos => exact outside ready (by decide)
  | scanned ready infos => exact outside ready (by decide)
  | enterFailed known attempt negotiation => exact outside known (by decide)
  | entered known infos marks confirmed => exact outside known (by decide)
  | prepareFailed maintained attempt negotiation => exact outside maintained (by decide)
  | prepared maintained marks clocks confirmed traffic => exact outside maintained (by decide)
  | startFailed ready attempt negotiation => exact outside ready (by decide)
  | started ready marks confirmed => exact outside ready (by decide)
  | backFailed ready attempt negotiation =>
    rcases ready with ready | ready
    · exact outside ready (by decide)
    · exact outside ready (by decide)
  | backed ready down marks negotiation confirmed =>
    rcases ready with ready | ready
    · exact outside ready (by decide)
    · exact outside ready (by decide)
  | idle vacant => rfl
  | stopped active marks rollback =>
    refine outside rfl ?_
    generalize a.state = state at active
    cases state with
    | uninitialized => exact absurd rfl active
    | adapterReady | scanned | maintenance | readyToRun | operational | fault | emergencyStop =>
      decide
  | faulted snapshot accesses => exact absurd (.inl rfl) refused
  | emergencyStopped snapshot accesses => exact absurd (.inr (.inl rfl)) refused

/-- An accepted lifecycle call succeeds and leads to its target. -/
theorem achieves (bus : Obliges β statuses) (known : Healthy statuses i.controller ∧ Settled i)
    (operation : MasterOperation) {action : MasterAction}
    (asked : operation.request = .action action)
    (accepted : Lifecycle.Accepted i.controller.state action)
    (expects : ∀ config, operation = .initializeAdapter config → Expects β config) :
    let next := (perform operation).after i
    (perform operation).result i = true ∧ next.controller.state = Lifecycle.target action ∧
      Healthy statuses next.controller ∧ Settled next := by
  intro next
  have obeyed := obeyed_perform bus known.2 known.1 operation expects
  obtain ⟨move, settled⟩ := perform_move i known.2 operation
  have success := obeyed.succeeds action asked accepted
  rw [asked] at move
  exact ⟨success, target_of_success accepted (success ▸ move), obeyed.healthy, settled⟩

/-- Neither Fault nor EmergencyStop. -/
def Calm (i : Impl β) : Prop :=
  i.controller.state ≠ .fault ∧ i.controller.state ≠ .emergencyStop

/-- Only the two requests to halt lead out of calm: an accepted call leads to its target, and
everything else leaves the stable state alone. -/
theorem calm_perform (bus : Obliges β statuses)
    (known : Healthy statuses i.controller ∧ Settled i) (calm : Calm i)
    (operation : MasterOperation)
    (ordinary : operation ≠ .requestFault ∧ operation ≠ .requestEmergencyStop)
    (expects : ∀ config, operation = .initializeAdapter config → Expects β config) :
    Calm ((perform operation).after i) := by
  have kept (same : ((perform operation).after i).controller.state = i.controller.state) :
      Calm ((perform operation).after i) := by
    rwa [Calm, same]
  by_cases isAction : ∃ action, operation.request = .action action
  · obtain ⟨action, asked⟩ := isAction
    by_cases accepted : Lifecycle.Accepted i.controller.state action
    · obtain ⟨-, reached, -⟩ := achieves bus known operation asked accepted expects
      rw [Calm, reached]
      cases operation <;> cases asked <;> simp_all [Lifecycle.target]
    · have move := (perform_move i known.2 operation).1
      rw [asked] at move
      exact kept (unmoved_of_refused accepted move)
  · have quiet : ∀ action, operation.request ≠ .action action :=
      fun action asked => isAction ⟨action, asked⟩
    exact kept ((obeyed_perform bus known.2 known.1 operation expects).keeps quiet)

/-- The configurations that are used in a run are those of its calls. -/
theorem expects_entry (start : Impl β) {operations : List MasterOperation}
    (expects : ∀ config, .initializeAdapter config ∈ operations → Expects β config) :
    ∀ entry ∈ Runs.history perform start operations, ∀ config,
      entry.operation = .initializeAdapter config → Expects β config := by
  intro entry member config same
  exact expects config (same ▸ Runs.operation_mem_of_mem_history perform start member)

section Runs

variable (bus : Obliges β statuses) (start : Impl β) (settled : Settled start)
  (idle : start.controller.state = .uninitialized) (operations : List MasterOperation)
  (expects : ∀ config, .initializeAdapter config ∈ operations → Expects β config)

include bus settled idle expects

/-- Every state of such a run is healthy. -/
theorem healthy_runs :
    ∀ entry ∈ Runs.history perform start operations,
      Healthy statuses entry.before.controller ∧ Settled entry.before := by
  have initial : Healthy statuses start.controller ∧ Settled start := by
    refine ⟨?_, settled⟩
    rw [Healthy, idle]
    trivial
  refine Runs.invariant_before perform start
    (fun _ operation => ∀ config, operation = .initializeAdapter config → Expects β config)
    (fun i => Healthy statuses i.controller ∧ Settled i) ?_ initial operations
    (expects_entry start expects)
  intro i operation kept expected
  exact ⟨(obeyed_perform bus kept.2 kept.1 operation expected).healthy,
    (perform_move i kept.2 operation).2⟩

/-- Every state of such a run is calm where no call asks for a fault or an emergency stop. -/
theorem calm_runs (ordinary : ∀ operation ∈ operations,
      operation ≠ .requestFault ∧ operation ≠ .requestEmergencyStop) :
    ∀ entry ∈ Runs.history perform start operations, Calm entry.after := by
  have healthy := healthy_runs bus start settled idle operations expects
  have expected := expects_entry start expects
  have listed : ∀ entry ∈ Runs.history perform start operations,
      entry.operation ≠ .requestFault ∧ entry.operation ≠ .requestEmergencyStop :=
    fun entry member => ordinary _ (Runs.operation_mem_of_mem_history perform start member)
  have initial : Calm start := by
    rw [Calm, idle]
    decide
  have before := Runs.invariant_before perform start
    (fun i operation => (Healthy statuses i.controller ∧ Settled i) ∧
      (operation ≠ .requestFault ∧ operation ≠ .requestEmergencyStop) ∧
      ∀ config, operation = .initializeAdapter config → Expects β config) Calm
    (fun i operation calm met => calm_perform bus met.1 calm operation met.2.1 met.2.2) initial
    operations fun entry member =>
      ⟨healthy entry member, listed entry member, expected entry member⟩
  intro entry member
  have calm := before entry member
  have known := healthy entry member
  have ordinary := listed entry member
  have expected := expected entry member
  obtain ⟨first, operation, rfl⟩ := Runs.turn_of_mem_history perform start member
  exact calm_perform bus known calm operation ordinary expected

/-- On a bus that obliges, every lifecycle call that the table admits succeeds and leads to its
target, in every run from a state before any adapter is opened. A call that it does not admit
leaves the stable state as it is, and so does what is no lifecycle call. So in a run without
requests to halt, the master is never in Fault or EmergencyStop. -/
theorem nothing_fails :
    ∀ entry ∈ Runs.history perform start operations,
      (∀ action, entry.operation.request = .action action →
        (Lifecycle.Accepted entry.before.controller.state action →
          entry.outcome = true ∧ entry.after.controller.state = Lifecycle.target action) ∧
        (¬Lifecycle.Accepted entry.before.controller.state action →
          entry.after.controller.state = entry.before.controller.state)) ∧
      ((∀ action, entry.operation.request ≠ .action action) →
        entry.after.controller.state = entry.before.controller.state) ∧
      ((∀ operation ∈ operations,
          operation ≠ .requestFault ∧ operation ≠ .requestEmergencyStop) →
        entry.after.controller.state ≠ .fault ∧
          entry.after.controller.state ≠ .emergencyStop) := by
  intro entry member
  have known := healthy_runs bus start settled idle operations expects entry member
  have expected := expects_entry start expects entry member
  have calm (ordinary : ∀ operation ∈ operations,
      operation ≠ .requestFault ∧ operation ≠ .requestEmergencyStop) : Calm entry.after :=
    calm_runs bus start settled idle operations expects ordinary entry member
  obtain ⟨first, operation, rfl⟩ := Runs.turn_of_mem_history perform start member
  refine ⟨fun action asked => ⟨fun accepted => ?_, fun refused => ?_⟩, ?_, calm⟩
  · obtain ⟨success, reached, -⟩ := achieves bus known operation asked accepted expected
    exact ⟨success, reached⟩
  · have move := (perform_move (Runs.final perform start first) known.2 operation).1
    have same : operation.request = .action action := asked
    rw [same] at move
    exact unmoved_of_refused refused move
  · exact (obeyed_perform bus known.2 known.1 operation expected).keeps

end Runs

/-- The way from any state to running drives. -/
def restart (config : EcMasterConfig) : List MasterOperation :=
  [.stop, .initializeAdapter config, .scan, .enterMaintenance, .prepareRun, .startOperation]

/-- On a bus that obliges, the drives can be set running from every state whatsoever, Fault
and EmergencyStop included: no call of the restart fails, and it ends with every slave in
OPERATIONAL. -/
theorem restarts (bus : Obliges β statuses) (i : Impl β) (settled : Settled i)
    {config : EcMasterConfig} (expects : Expects β config) :
    let ended := Runs.final perform i (restart config)
    (∀ entry ∈ Runs.history perform i (restart config), entry.outcome = true) ∧
      ended.controller.state = .operational ∧
      ended.controller.master.Together statuses EcState.operational := by
  intro ended
  have stopped := perform_move i settled .stop
  have vacant : ((perform .stop).after i).controller.state = .uninitialized := stopped.1.stop_state
  have known : Healthy statuses ((perform .stop).after i).controller ∧
      Settled ((perform .stop).after i) := by
    refine ⟨?_, stopped.2⟩
    rw [Healthy, vacant]
    trivial
  obtain ⟨opens, ready, known⟩ := achieves bus known (.initializeAdapter config) rfl
    (by rw [vacant]; decide) fun _ same => MasterOperation.initializeAdapter.inj same ▸ expects
  obtain ⟨scans, scanned, known⟩ := achieves bus known .scan rfl
    (by rw [ready]; decide) nofun
  obtain ⟨enters, maintained, known⟩ := achieves bus known .enterMaintenance rfl
    (by rw [scanned]; decide) nofun
  obtain ⟨prepares, prepared, known⟩ := achieves bus known .prepareRun rfl
    (by rw [maintained]; decide) nofun
  obtain ⟨starts, running, known⟩ := achieves bus known .startOperation rfl
    (by rw [prepared]; decide) nofun
  refine ⟨?_, running, ?_⟩
  · have stops : (perform .stop).result i = true := rfl
    simp only [restart, Runs.history, Runs.turn, List.forall_mem_cons, stops, opens, scans, enters,
      prepares, starts, true_and]
    exact List.forall_mem_nil _
  · have healthy := known.1
    rwa [Healthy, running] at healthy

end Impl

/-! ## A plant -/

/-- A line of slaves that a scan finds, all in PRE_OP afterwards. -/
structure Plant where
  line : Line

namespace Plant

/-- The states of the slaves of the plant. -/
def present (plant : Plant) : List UInt16 := plant.line.statuses

/-- The line once it has been scanned. -/
def scanned (line : Line) : Line := ⟨EcState.preOp, line.rest.map fun _ => EcState.preOp⟩

/-- The plant answers as its line of slaves does. A scan is answered with the number of
slaves, the adapter and the log files open, and the clock stands still. -/
instance : Platform Plant where
  soem call ctx plant :=
    match call with
    | .configInit =>
      ({ result := plant.present.length }, { ctx with slavecount := plant.present.length },
        ⟨scanned plant.line⟩)
    | call => ({ result := 1 }, (plant.line.answer call ctx).1, ⟨(plant.line.answer call ctx).2⟩)
  steadyClock plant := (0, plant)
  openLogFile _ plant := (.opened, plant)

/-- The plant obliges. -/
theorem obliges : Obliges Plant present where
  readState ctx plant := Line.cooperates.readState ctx plant.line
  writeState written ctx plant := Line.cooperates.writeState written ctx plant.line
  stateCheck awaited timeoutUs ctx plant :=
    Line.cooperates.stateCheck awaited timeoutUs ctx plant.line
  opens ifname ctx plant := by
    have answered : (Platform.soem (.init ifname) ctx plant).1.result = 1 := rfl
    simp [answered]
  scans ctx plant := by
    refine ⟨plant.line.rest.length, EcState.preOp, rfl, rfl, by decide, ?_⟩
    have moved : present (Platform.soem .configInit ctx plant).2.2 =
        EcState.preOp :: plant.line.rest.map fun _ => EcState.preOp := rfl
    rw [moved, List.replicate_succ, List.map_const']
  maps group ctx plant := ⟨rfl, rfl, id⟩
  leaves call leaves ctx plant := by
    cases call <;> first | exact ⟨rfl, rfl⟩ | cases leaves
  clock _ := rfl
  logs _ _ := rfl

/-- A configuration without expectations accepts every scan of a plant. -/
theorem expects : EcatController.Expects Plant {} := by
  intro m
  refine ⟨fun empty => ?_, by simp, by simp⟩
  have found : (EcMaster.scanSlaves.result m).length = m.platform.present.length := by
    have answered : ((EcMaster.soem .configInit).result m).result = m.platform.present.length := rfl
    have populated : 0 < m.platform.present.length := Nat.succ_pos _
    have some : ¬((m.platform.present.length : Int) ≤ 0) := by omega
    simp only [EcMaster.scanSlaves, Program.result_bind, answered, if_neg some]
    simp
  rw [empty] at found
  exact absurd found (Nat.succ_ne_zero _).symm

end Plant

namespace Impl

/-- Two slaves, one of them with an error, from construction into Operational, with a call
that the table does not admit on the way. -/
theorem nothing_fails_plant :
    let plant : Plant := ⟨⟨EcState.safeOp ||| EcState.error, [EcState.init]⟩⟩
    let operations := [.initializeAdapter {}, .scan, .startOperation, .enterMaintenance, .prepareRun,
      .startOperation, .service]
    ∀ entry ∈ Runs.history perform (constructed plant false false) operations,
      (∀ action, entry.operation.request = .action action →
        (Lifecycle.Accepted entry.before.controller.state action →
          entry.outcome = true ∧ entry.after.controller.state = Lifecycle.target action) ∧
        (¬Lifecycle.Accepted entry.before.controller.state action →
          entry.after.controller.state = entry.before.controller.state)) ∧
      ((∀ action, entry.operation.request ≠ .action action) →
        entry.after.controller.state = entry.before.controller.state) ∧
      ((∀ operation ∈ operations,
          operation ≠ .requestFault ∧ operation ≠ .requestEmergencyStop) →
        entry.after.controller.state ≠ .fault ∧
          entry.after.controller.state ≠ .emergencyStop) :=
  nothing_fails Plant.obliges (constructed _ false false) (settled_constructed ..) rfl _
    fun config member => by
      obtain rfl : config = {} := by simpa using member
      exact Plant.expects

/-- The same two slaves set running again after an emergency stop. -/
theorem restarts_plant :
    let plant : Plant := ⟨⟨EcState.safeOp ||| EcState.error, [EcState.init]⟩⟩
    let halted := (perform .requestEmergencyStop).after (constructed plant false false)
    let ended := Runs.final perform halted (restart {})
    (∀ entry ∈ Runs.history perform halted (restart {}), entry.outcome = true) ∧
      ended.controller.state = .operational ∧
      ended.controller.master.Together Plant.present EcState.operational :=
  restarts Plant.obliges _ (perform_move _ (settled_constructed ..) _).2 Plant.expects

end Impl

end MoEcat
