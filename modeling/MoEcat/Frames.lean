import MoEcat.Notifications

/-!
# What the operations leave alone

Every operation of the program changes the bus master by a few kinds of moves: an entry in
its record, a check of all slaves, a call of the library, a store of its own. What a view of
the master admits of each kind, it admits of all operations, through all layers of the
program.

Some parts of the bus master are written in one place only: the number of slaves by a
scan, the statistics by a cycle. A view of the bus master that shows nothing else admits no
move at all outside this place, so every operation that does not come to it leaves the view
unchanged.
-/

namespace MoEcat

open Program

variable {β ν : Type} [Platform β]

/-- What the view shows of the bus master changes by these moves only: when the record gets
an entry, when all slaves are checked, when the library is called for anything but a scan,
when the hidden world moves on, and when the master writes to the shared memory or to its own
bookkeeping. What a scan and a cycle do to it is left open. -/
structure EcMaster.Admits (move : ν → ν → Prop) (view : EcMaster β → ν) : Prop where
  note : ∀ event, event.comparison = none → Moves move view (EcMaster.note event)
  check : ∀ state, Moves move view (EcMaster.checkAllSlavesInState state)
  soem : ∀ call, call ≠ .configInit → Moves move view (EcMaster.soem call)
  world : ∀ m platform, Relation.ReflTransGen move (view m) (view { m with platform := platform })
  setState : ∀ m slave state,
    Relation.ReflTransGen move (view m) (view { m with ctx := m.ctx.setState slave state })
  store : ∀ m address data,
    Relation.ReflTransGen move (view m) (view { m with ctx := m.ctx.store address data })
  config : ∀ m config, Relation.ReflTransGen move (view m) (view { m with config := config })
  closed : ∀ m closed, Relation.ReflTransGen move (view m) (view { m with closed := closed })
  expectedWkc : ∀ m wkc, Relation.ReflTransGen move (view m) (view { m with expectedWkc := wkc })

/-- The view shows nothing of the event record, of what the SOEM calls other than a scan
and the master's own stores write, of the hidden world, or of the adapter's and the
mapping's bookkeeping. What a scan and a cycle do to it is left open. -/
structure EcMaster.Ignores (view : EcMaster β → ν) : Prop where
  note : ∀ event, Keeps view (EcMaster.note event)
  soem : ∀ call, call ≠ .configInit → Keeps view (EcMaster.soem call)
  world : ∀ m platform, view { m with platform := platform } = view m
  setState : ∀ m slave state, view { m with ctx := m.ctx.setState slave state } = view m
  store : ∀ m address data, view { m with ctx := m.ctx.store address data } = view m
  config : ∀ m config, view { m with config := config } = view m
  closed : ∀ m closed, view { m with closed := closed } = view m
  expectedWkc : ∀ m wkc, view { m with expectedWkc := wkc } = view m

/-- A view that ignores all this admits no move. -/
theorem EcMaster.Ignores.admits {view : EcMaster β → ν} (ignores : Ignores view) :
    Admits (fun _ _ => False) view where
  note event _ := (ignores.note event).moves
  check _ := .bind (ignores.soem .readState nofun).moves fun _ => .bind moves_get fun _ =>
    .bind (ignores.note _).moves fun _ => moves_pure _
  soem call other := (ignores.soem call other).moves
  world m platform := by rw [ignores.world m platform]
  setState m slave state := by rw [ignores.setState m slave state]
  store m address data := by rw [ignores.store m address data]
  config m config := by rw [ignores.config m config]
  closed m closed := by rw [ignores.closed m closed]
  expectedWkc m wkc := by rw [ignores.expectedWkc m wkc]

/-! ## The bus master -/

namespace EcMaster

variable {move : ν → ν → Prop} {view : EcMaster β → ν} (admits : Admits move view)

include admits

/-- Opening the adapter keeps a configuration, calls the library and perhaps marks the
adapter as open. -/
theorem Admits.initializeMaster (config : EcMasterConfig) :
    Moves move view (EcMaster.initializeMaster config) :=
  .bind (moves_modify fun m => admits.config m config) fun _ =>
    .bind (admits.soem _ nofun) fun _ =>
      .ite (moves_pure _) (.bind (moves_modify fun m => admits.closed m false) fun _ =>
        moves_pure _)

/-- Closing the adapter marks it as closed and calls the library. -/
theorem Admits.close : Moves move view (EcMaster.close (β := β)) :=
  .bind moves_get fun _ => .ite (moves_pure _)
    (.bind (moves_modify fun m => admits.closed m true) fun _ =>
      .bind (admits.soem _ nofun) fun _ => moves_pure _)

/-- The mapping calls the library and keeps the expected working counter. -/
theorem Admits.configureProcessData : Moves move view (EcMaster.configureProcessData (β := β)) :=
  .bind moves_get fun _ => .ite (moves_pure _)
    (.bind (admits.soem _ nofun) fun _ =>
      .bind (moves_modify fun m => admits.expectedWkc m _) fun _ => moves_pure _)

/-- The clock configuration calls the library at most. -/
theorem Admits.configureDc : Moves move view (EcMaster.configureDc (β := β)) :=
  .bind moves_get fun _ => .ite (moves_pure _)
    (.bind (admits.soem _ nofun) fun _ => moves_pure _)

/-- Writing a state stores it and calls the library. -/
theorem Admits.transmitState (slave : Nat) (written awaited : UInt16) :
    Moves move view (EcMaster.transmitState (β := β) slave written awaited) :=
  .bind (moves_modify fun m => admits.setState m slave written) fun _ =>
    .bind (admits.soem _ nofun) fun _ => .bind (admits.soem _ nofun) fun _ =>
      .bind moves_get fun _ => moves_pure _

/-- A request is recorded and written. -/
theorem Admits.requestState (slave : Nat) (state : UInt16) :
    Moves move view (EcMaster.requestState (β := β) slave state) :=
  .bind (admits.note _ rfl) fun _ => .bind (admits.transmitState slave state state) fun _ =>
    moves_pure _

/-- The induction follows the iterations of the retry loop. -/
theorem Admits.retryState (slave : Nat) (state : UInt16) (remaining : Nat) :
    Moves move view (EcMaster.retryState (β := β) slave state remaining) := by
  induction remaining with
  | zero => exact moves_pure _
  | succ remaining inductionHypothesis =>
    refine .bind (admits.soem _ nofun) fun _ => .bind moves_get fun m => ?_
    refine .ite (moves_pure _) (.ite ?_ ?_)
    · exact .bind (admits.transmitState _ _ _) fun _ => inductionHypothesis
    · exact .bind (admits.transmitState _ _ _) fun _ => .ite (moves_pure _) inductionHypothesis

/-- A request with retries is recorded and then goes through its loop. -/
theorem Admits.requestPreOpState : Moves move view (EcMaster.requestPreOpState (β := β)) :=
  .bind (admits.note _ rfl) fun _ => admits.retryState _ _ _

/-- Reading a state calls the library. -/
theorem Admits.readActualState (slave : Nat) :
    Moves move view (EcMaster.readActualState (β := β) slave) :=
  .bind (admits.soem _ nofun) fun _ => .bind moves_get fun _ => moves_pure _

/-- Reading a status code calls the library. -/
theorem Admits.readAlStatusCode (slave : Nat) :
    Moves move view (EcMaster.readAlStatusCode (β := β) slave) :=
  .bind (admits.soem _ nofun) fun _ => .bind moves_get fun _ => moves_pure _

/-- Looking at the clock moves the hidden world on. -/
theorem Admits.steadyNow : Moves move view (EcMaster.steadyNow (β := β)) :=
  fun m => admits.world m _

/-- Writing an output stores bytes and records it. -/
theorem Admits.writeOutput (slave offset : Nat) (data : List UInt8) :
    Moves move view (EcMaster.writeOutput (β := β) slave offset data) := by
  refine .bind moves_get fun m => ?_
  split
  · exact moves_pure _
  · exact .bind (admits.note _ rfl) fun _ => moves_modify fun m => admits.store m _ _

/-- Reading an input records it. -/
theorem Admits.readInput (slave offset : Nat) (data : List UInt8) :
    Moves move view (EcMaster.readInput (β := β) slave offset data) := by
  refine .bind moves_get fun m => ?_
  split
  · exact moves_pure _
  · exact .bind (admits.note _ rfl) fun _ => moves_pure _

/-- An upload calls the library. -/
theorem Admits.sdoRead (slave index : UInt16) (subindex : UInt8) (data : List UInt8)
    (len timeoutUs : Int) :
    Moves move view (EcMaster.sdoRead (β := β) slave index subindex data len timeoutUs) :=
  .bind (admits.soem _ nofun) fun _ => moves_pure _

/-- A download calls the library. -/
theorem Admits.sdoWrite (slave index : UInt16) (subindex : UInt8) (data : List UInt8)
    (len timeoutUs : Int) :
    Moves move view (EcMaster.sdoWrite (β := β) slave index subindex data len timeoutUs) :=
  .bind (admits.soem _ nofun) fun _ => moves_pure _

omit admits in
/-- A scan makes the moves of its one call. -/
theorem moves_scanSlaves (scanned : Moves move view (EcMaster.soem (β := β) .configInit)) :
    Moves move view (EcMaster.scanSlaves (β := β)) :=
  .bind scanned fun _ => .ite (moves_pure _) (.bind moves_get fun _ => moves_pure _)

end EcMaster

/-! ## The nodes -/

section Nodes

variable {move : ν → ν → Prop} {view : EcMaster β → ν}
  (admits : EcMaster.Admits move view)

include admits

/-- An update of an output is recorded, and a configured node writes its buffer. -/
theorem EcMaster.Admits.updatePdoOutput (node : SlaveNode) :
    Moves move view (node.updatePdoOutput (β := β)) :=
  .bind (admits.note _ rfl) fun _ => .ite (moves_pure _)
    (.bind (.when (admits.writeOutput _ _ _)) fun _ => moves_pure _)

/-- An update of an input is recorded, and a configured node reads into its buffer. -/
theorem EcMaster.Admits.updatePdoInput (node : SlaveNode) :
    Moves move view (node.updatePdoInput (β := β)) :=
  .bind (admits.note _ rfl) fun _ => .ite (moves_pure _)
    (.ite (.bind (admits.readInput _ _ _) fun _ => moves_pure _)
      (.bind (moves_pure _) fun _ => moves_pure _))

/-- The outputs of all nodes are those of one node after the other. -/
theorem EcMaster.Admits.updateAllOutputs (nodes : List SlaveNode) :
    Moves move view (SlaveNodeManager.updateAllOutputs (β := β) nodes) :=
  moves_mapM fun node => .ite (admits.updatePdoOutput node) (moves_pure _)

/-- The inputs of all nodes are those of one node after the other. -/
theorem EcMaster.Admits.updateAllInputs (nodes : List SlaveNode) :
    Moves move view (SlaveNodeManager.updateAllInputs (β := β) nodes) :=
  moves_mapM fun node => .ite (admits.updatePdoInput node) (moves_pure _)

end Nodes

/-! ## The controller -/

/-- What the view shows of a controller. -/
def EcMaster.Shown (view : EcMaster β → ν) (c : EcatController β) : ν := view c.master

namespace EcatController

variable {α : Type} {move : ν → ν → Prop} {view : EcMaster β → ν}
  (admits : EcMaster.Admits move view)

omit [Platform β] in
/-- What a program moves of the bus master, it moves of the controller's. -/
theorem moves_onMaster {p : Program (EcMaster β) α} (moves : Moves move view p) :
    Moves move (EcMaster.Shown view) (onMaster p) :=
  .zoom (fun _ _ => rfl) moves

omit [Platform β] in
/-- Setting the state moves nothing of the bus master. -/
theorem moves_enter (state : ControllerState) :
    Moves move (EcMaster.Shown view) (enter (β := β) state) :=
  moves_unseen fun _ => rfl

include admits

/-- The snapshot reads the bus twice for every slave. -/
theorem moves_logSlaveSnapshot : Moves move (EcMaster.Shown view) (logSlaveSnapshot (β := β)) :=
  .bind moves_get fun _ => moves_forM fun _ =>
    .bind (moves_onMaster (admits.readActualState _)) fun _ =>
      .bind (moves_onMaster (admits.readAlStatusCode _)) fun _ => moves_pure _

/-- Entering Fault moves what its snapshot does. -/
theorem moves_enterFault : Moves move (EcMaster.Shown view) (enterFault (β := β)) :=
  .bind (moves_logSlaveSnapshot admits) fun _ => moves_enter _

/-- Entering EmergencyStop moves what its snapshot does. -/
theorem moves_enterEmergencyStop : Moves move (EcMaster.Shown view) (enterEmergencyStop (β := β)) :=
  .bind (moves_logSlaveSnapshot admits) fun _ => moves_enter _

/-- A shutdown asks for states and closes the adapter. -/
theorem moves_doShutdown : Moves move (EcMaster.Shown view) (doShutdown (β := β)) := by
  refine .bind moves_get fun c => .bind (.when ?_) fun _ => .bind (.when ?_) fun _ =>
    .bind (.when ?_) fun _ => .bind (moves_unseen fun _ => rfl) fun _ =>
      .bind (moves_onMaster admits.close) fun _ => .bind (moves_enter _) fun _ => moves_pure _
  · exact .bind (moves_onMaster (admits.requestState _ _)) fun _ => moves_pure _
  · exact .bind (moves_onMaster admits.requestPreOpState) fun _ => moves_pure _
  · exact .bind (moves_onMaster (admits.requestState _ _)) fun _ => moves_pure _

/-- Opening the adapter is that of the bus master. -/
theorem moves_doInit : Moves move (EcMaster.Shown view) (doInit (β := β)) :=
  .bind moves_get fun _ => .ite (moves_pure _)
    (.bind (moves_onMaster (admits.initializeMaster _)) fun _ =>
      .ite (moves_pure _) (.bind (moves_enter _) fun _ => moves_pure _))

/-- Maintenance is asked for and checked; where this fails, there is a shutdown. -/
theorem moves_doEnterMaintenance : Moves move (EcMaster.Shown view) (doEnterMaintenance (β := β)) := by
  have fails : Moves move (EcMaster.Shown view)
      (do let _ ← doShutdown; return false : Program (EcatController β) Bool) :=
    .bind (moves_doShutdown admits) fun _ => moves_pure _
  refine .bind moves_get fun _ => .ite (moves_pure _) ?_
  refine .bind (moves_onMaster admits.requestPreOpState) fun _ => .ite fails ?_
  refine .bind (moves_onMaster (admits.check _)) fun _ => .ite fails ?_
  exact .bind (moves_enter _) fun _ => .bind (moves_unseen fun _ => rfl) fun _ =>
    .bind moves_get fun _ => .bind (moves_unseen fun _ => rfl) fun _ => .ite fails (moves_pure _)

/-- The preparation maps, asks for SAFE_OP and configures the clocks, or ends in Fault. -/
theorem moves_doPrepareRun : Moves move (EcMaster.Shown view) (doPrepareRun (β := β)) := by
  have fails : Moves move (EcMaster.Shown view)
      (do requestFault; return false : Program (EcatController β) Bool) :=
    .bind (moves_enterFault admits) fun _ => moves_pure _
  have pdo : Moves move (EcMaster.Shown view) (doPdoConfigure (β := β)) :=
    .bind moves_get fun _ => .ite (moves_pure _)
      (.bind (moves_unseen fun _ => rfl) fun _ => .ite fails (moves_pure _))
  have safeOp : Moves move (EcMaster.Shown view) (doSafeOp (β := β)) :=
    .bind moves_get fun _ => .ite (moves_pure _)
      (.bind (moves_onMaster admits.configureProcessData) fun _ => .ite fails
        (.bind (moves_onMaster (.and (admits.requestState _ _)
          (admits.check _))) fun _ => .ite fails (moves_pure _)))
  have clocks : Moves move (EcMaster.Shown view) (doDcConfigure (β := β)) :=
    .bind moves_get fun _ => .ite (moves_pure _)
      (.bind (moves_onMaster admits.configureDc) fun _ => .ite fails (moves_pure _))
  exact .bind moves_get fun _ => .ite (moves_pure _)
    (.bind (.and pdo (.and safeOp clocks)) fun _ =>
      .ite (moves_pure _) (.bind (moves_enter _) fun _ => moves_pure _))

/-- Operational is asked for and checked, or Fault is entered. -/
theorem moves_doStartOperation : Moves move (EcMaster.Shown view) (doStartOperation (β := β)) := by
  have operational : Moves move (EcMaster.Shown view) (doOperational (β := β)) :=
    .bind moves_get fun _ => .ite (moves_pure _)
      (.bind (moves_onMaster (.and (admits.requestState _ _)
        (admits.check _))) fun _ =>
        .ite (.bind (moves_enterFault admits) fun _ => moves_pure _)
          (.bind (moves_enter _) fun _ => moves_pure _))
  exact .bind moves_get fun _ => .ite (moves_pure _) operational

/-- The way back asks for states and checks them, or Fault is entered. -/
theorem moves_doBackToMaintenance :
    Moves move (EcMaster.Shown view) (doBackToMaintenance (β := β)) := by
  refine .bind moves_get fun _ => .ite (.bind (.when ?_) fun _ => .bind (moves_onMaster
    (.and admits.requestPreOpState (admits.check _))) fun _ => .ite ?_ ?_)
    (moves_pure _)
  · exact .bind (moves_onMaster (admits.requestState _ _)) fun _ => moves_pure _
  · exact .bind (moves_enterFault admits) fun _ => moves_pure _
  · exact .bind (moves_enter _) fun _ => moves_pure _

/-- A scan moves what the library does in its scan, and what a shutdown does. -/
theorem moves_doScan (scanned : Moves move view (EcMaster.soem .configInit)) :
    Moves move (EcMaster.Shown view) (doScan (β := β)) := by
  have fails : Moves move (EcMaster.Shown view)
      (do let _ ← doShutdown; return false : Program (EcatController β) Bool) :=
    .bind (moves_doShutdown admits) fun _ => moves_pure _
  exact .bind moves_get fun _ => .ite (moves_pure _)
    (.bind (moves_onMaster (EcMaster.moves_scanSlaves scanned)) fun _ =>
      .bind (moves_unseen fun _ => rfl) fun _ => .ite fails (.ite fails (.ite fails
        (.bind (moves_enter _) fun _ => moves_pure _))))

/-- An action moves what it does where the table admits it. Only the scan needs the library's
scan. -/
theorem moves_dispatch (action : MasterAction)
    (scans : action = .scanSlaves → Moves move view (EcMaster.soem .configInit)) :
    Moves move (EcMaster.Shown view) (dispatch (β := β) action) := by
  have acts : Moves move (EcMaster.Shown view) (doAction (β := β) action) := by
    cases action with
    | initializeAdapter => exact moves_doInit admits
    | scanSlaves => exact moves_doScan admits (scans rfl)
    | enterMaintenance => exact moves_doEnterMaintenance admits
    | prepareRun => exact moves_doPrepareRun admits
    | startOperation => exact moves_doStartOperation admits
    | backToMaintenance => exact moves_doBackToMaintenance admits
    | stop => exact moves_doShutdown admits
    | requestFault | requestEmergencyStop => exact moves_pure _
  exact .ite (.bind (moves_enterEmergencyStop admits) fun _ => moves_pure _)
    (.ite (.bind (moves_enterFault admits) fun _ => moves_pure _)
      (.bind moves_get fun _ => .ite (moves_pure _) acts))

/-- A public operation of the controller moves the view only as admitted, given that a rescan
does. -/
theorem moves_perform (operation : ControllerOperation)
    (scans : operation = .scan ∨ (∃ config, operation = .initializeController config) →
      Moves move view (EcMaster.soem .configInit)) :
    Moves move (EcMaster.Shown view) (perform (β := β) operation) := by
  have opening : ∀ config, Moves move (EcMaster.Shown view) (initializeAdapter (β := β) config) :=
    fun config => .bind moves_get fun _ => .ite (moves_pure _)
      (.bind (moves_unseen fun _ => rfl) fun _ => moves_dispatch admits _ nofun)
  have entering : Moves move (EcMaster.Shown view) (enterMaintenance (β := β)) :=
    .bind moves_get fun _ => .ite (moves_pure _) (moves_dispatch admits _ nofun)
  have scanning : Moves move view (EcMaster.soem .configInit) →
      Moves move (EcMaster.Shown view) (scan (β := β)) :=
    fun scanned => .bind moves_get fun _ => .ite (moves_pure _)
      (moves_dispatch admits _ fun _ => scanned)
  cases operation with
  | initializeController config =>
    exact .bind moves_get fun _ => .ite (moves_pure _)
      (.and (opening config) (.and (scanning (scans (.inr ⟨config, rfl⟩))) entering))
  | initializeAdapter config => exact opening config
  | scan => exact scanning (scans (.inl rfl))
  | enterMaintenance => exact entering
  | prepareRun =>
    exact .bind moves_get fun _ => .ite (moves_pure _) (moves_dispatch admits _ nofun)
  | startOperation =>
    exact .bind moves_get fun _ => .ite (moves_pure _) (moves_dispatch admits _ nofun)
  | backToMaintenance =>
    exact .bind moves_get fun _ => .ite (moves_pure _) (moves_dispatch admits _ nofun)
  | stop =>
    exact .bind (.bind moves_get fun _ => .ite (moves_pure _)
      (.bind (moves_dispatch admits _ nofun) fun _ => moves_pure _)) fun _ => moves_pure _
  | requestFault => exact .bind (moves_enterFault admits) fun _ => moves_pure _
  | requestEmergencyStop =>
    exact .bind (moves_enterEmergencyStop admits) fun _ => moves_pure _

end EcatController

namespace ProcessDataEngine

variable {move : ν → ν → Prop} {view : EcMaster β → ν}
  (admits : EcMaster.Admits move view)

include admits

/-- A cycle of the engine makes admitted moves and those of the exchange of its frame. -/
theorem moves_runOnce (cycled : Moves move view (EcMaster.runOneCycle (β := β))) :
    Moves move (EcMaster.Shown view) (runOnce (β := β)) :=
  .bind moves_get fun _ => .ite (moves_pure _)
    (.bind (EcatController.moves_onMaster (admits.updateAllOutputs _)) fun _ =>
      .bind (EcatController.moves_onMaster cycled) fun _ =>
        .bind (EcatController.moves_onMaster (admits.updateAllInputs _)) fun _ =>
          moves_unseen fun _ => rfl)

/-- A supervision checks all slaves, and Fault may be entered. -/
theorem moves_superviseSlaves : Moves move (EcMaster.Shown view) (superviseSlaves (β := β)) := by
  have supervised : ∀ expected, Moves move (EcMaster.Shown view) (supervise (β := β) expected) :=
    fun expected => .bind (EcatController.moves_onMaster
      (admits.check expected)) fun _ =>
        .when (EcatController.moves_enterFault admits)
  refine .bind moves_get fun c => ?_
  split
  · exact supervised EcState.preOp
  · exact supervised EcState.operational
  · exact moves_pure _

end ProcessDataEngine

/-! ## The public master -/

/-- Whether a call may scan the bus. -/
def Call.Scans : Call → Prop
  | .operation request => request = .scan
  | .controller request => request = .scan ∨ ∃ config, request = .initializeController config
  | .activity .. => False

namespace Impl

/-- What the view shows of a master. -/
def Shown (view : EcMaster β → ν) (i : Impl β) : ν := view i.controller.master

variable {α : Type} {move : ν → ν → Prop} {view : EcMaster β → ν}
  (admits : EcMaster.Admits move view)

omit [Platform β] in
/-- What a program moves of the controller, it moves of the master's. -/
theorem moves_onController {p : Program (EcatController β) α}
    (moves : Moves move (EcMaster.Shown view) p) : Moves move (Shown view) (onController p) :=
  .zoom (fun _ _ => rfl) moves

omit [Platform β] in
/-- The announcements of a transition move nothing of the bus master. -/
theorem moves_transition (announced : MasterRuntimeState) {p : Program (EcatController β) α}
    (moves : Moves move (EcMaster.Shown view) p) :
    Moves move (Shown view) (transition announced p) := by
  intro i
  have acted : ((transition announced p).after i).controller = p.after i.controller :=
    controller_transition announced p i
  rw [Shown, Shown, acted]
  exact moves i.controller

include admits

/-- A periodic check looks at the clock and perhaps supervises. -/
theorem moves_checkSlaveStates : Moves move (Shown view) (checkSlaveStates (β := β)) :=
  .bind (moves_onController (EcatController.moves_onMaster admits.steadyNow)) fun _ =>
    .bind moves_get fun _ => .ite (moves_pure _) (.bind (moves_unseen fun _ => rfl) fun _ =>
      moves_onController (ProcessDataEngine.moves_superviseSlaves admits))

/-- A service moves what a cycle does, and what a check does. -/
theorem moves_serviceEngine (cycled : Moves move view (EcMaster.runOneCycle (β := β))) :
    Moves move (Shown view) (serviceEngine (β := β)) :=
  .bind moves_get fun _ => .ite (moves_checkSlaveStates admits)
    (.ite (.bind (moves_onController (ProcessDataEngine.moves_runOnce admits cycled)) fun _ =>
      moves_checkSlaveStates admits) (moves_pure _))

/-- An operation between two announcements moves what its action does. -/
theorem moves_framed {operation : MasterOperation} {inner : ControllerOperation}
    {action : MasterAction} (framed : operation.framed = some inner)
    (requested : operation.request = .action action)
    (scans : operation = .scan → Moves move view (EcMaster.soem .configInit)) :
    Moves move (Shown view) (perform (β := β) operation) := by
  intro i
  obtain ⟨platform, logger, same⟩ := prepared_after operation i
  have acts : Moves move (EcMaster.Shown view) (EcatController.perform (β := β) inner) := by
    refine EcatController.moves_perform admits inner fun scanning => scans ?_
    rcases scanning with rfl | ⟨config, rfl⟩ <;> cases operation <;>
      first | rfl | cases framed
  have switched : Relation.ReflTransGen move (Shown view i) (Shown view (prepared operation i)) := by
    rw [same]
    exact admits.world i.controller.master platform
  rw [(perform_framed framed requested i).2]
  exact switched.trans (moves_transition _ acts _)

/-- An operation on service data moves what its transfers do. -/
theorem moves_access {operation : MasterOperation} (requested : operation.request = .access) :
    Moves move (Shown view) (perform (β := β) operation) := by
  cases operation with
  | readSdo slaveId index subindex data timeoutMs =>
    exact .map _ (.ite (moves_pure _)
      (moves_onController (EcatController.moves_onMaster (admits.sdoRead _ _ _ _ _ _))))
  | writeSdo slaveId index subindex data timeoutMs =>
    exact .ite (moves_pure _)
      (moves_onController (EcatController.moves_onMaster (admits.sdoWrite _ _ _ _ _ _)))
  | dumpPdoMapping fuel slaveId =>
    have trans : ∀ m m' m'' : EcMaster β, Relation.ReflTransGen move (view m) (view m') →
        Relation.ReflTransGen move (view m') (view m'') →
        Relation.ReflTransGen move (view m) (view m'') := fun _ _ _ first second =>
      first.trans second
    have starts := dumpDirections_starts (UInt16.ofInt slaveId)
      (R := fun m m' : EcMaster β => Relation.ReflTransGen move (view m) (view m'))
      (fun _ => .refl) trans (admits.sdoRead (UInt16.ofInt slaveId)) fuel
    have read : Moves move view (dumpDirections (β := β) fuel (UInt16.ofInt slaveId)) :=
      starts.relates trans (admits.sdoRead _ _ _ _ _ _)
    exact .map _ (.ite (moves_pure _)
      (moves_onController (EcatController.moves_onMaster read)))
  | _ => cases requested

/-- A public operation moves the view only as admitted, given that a rescan and the exchange
of a frame do. -/
theorem moves_perform (operation : MasterOperation)
    (scans : operation = .scan → Moves move view (EcMaster.soem .configInit))
    (cycles : operation = .service → Moves move view (EcMaster.runOneCycle (β := β))) :
    Moves move (Shown view) (perform (β := β) operation) := by
  cases requested : operation.request with
  | action action =>
    obtain ⟨inner, framed⟩ := MasterOperation.framed_request requested
    exact moves_framed admits framed requested scans
  | service =>
    obtain rfl := MasterOperation.eq_service requested
    intro i
    obtain ⟨delivered, same⟩ := service_after i
    have served : Relation.ReflTransGen move (Shown view i) (Shown view (serviceEngine.after i)) :=
      moves_serviceEngine admits (cycles rfl) i
    rw [perform_service, same]
    exact served
  | access => exact moves_access admits requested

/-- A call of any kind moves the view only as admitted, given that a rescan and the exchange
of a frame do. -/
theorem moves_handle (call : Call)
    (scans : call.Scans → Moves move view (EcMaster.soem .configInit))
    (cycles : call = .operation .service → Moves move view (EcMaster.runOneCycle (β := β))) :
    Moves move (Shown view) (handle (β := β) call) := by
  cases call with
  | operation operation =>
    exact moves_perform admits operation scans fun served => cycles (by rw [served])
  | controller operation =>
    exact moves_onController (EcatController.moves_perform admits operation scans)
  | activity ok policy =>
    refine .bind (moves_onController (.when ?_)) fun _ => moves_pure _
    cases policy with
    | enterError => exact EcatController.moves_enterFault admits
    | shutdown => exact fun c => EcatController.moves_perform admits .stop nofun c
    | keepControllerState => exact moves_pure _

end Impl

/-! ## Views that nothing moves -/

namespace EcatController

variable {view : EcMaster β → ν} (ignores : EcMaster.Ignores view)

include ignores

/-- A shutdown keeps such a view. -/
theorem keeps_doShutdown : Keeps (EcMaster.Shown view) (doShutdown (β := β)) :=
  (moves_doShutdown ignores.admits).keeps

/-- Every operation of the controller keeps such a view, where the library's scan does or is
not called. -/
theorem keeps_perform (operation : ControllerOperation)
    (scans : operation = .scan ∨ (∃ config, operation = .initializeController config) →
      Keeps view (EcMaster.soem .configInit)) :
    Keeps (EcMaster.Shown view) (perform (β := β) operation) :=
  (moves_perform ignores.admits operation fun scanning => (scans scanning).moves).keeps

end EcatController

namespace Impl

variable {view : EcMaster β → ν} (ignores : EcMaster.Ignores view)

include ignores

/-- A periodic check keeps such a view. -/
theorem keeps_checkSlaveStates : Keeps (Shown view) (checkSlaveStates (β := β)) :=
  (moves_checkSlaveStates ignores.admits).keeps

/-- A public operation keeps the view unless it is a scan or a service, and even then if
a rescan or the exchange of a frame keeps it. -/
theorem keeps_perform (operation : MasterOperation)
    (scans : operation = .scan → Keeps view (EcMaster.soem .configInit))
    (cycles : operation = .service → Keeps view (EcMaster.runOneCycle (β := β))) :
    Keeps (Shown view) (perform (β := β) operation) :=
  (moves_perform ignores.admits operation (fun scanning => (scans scanning).moves)
    fun cycling => (cycles cycling).moves).keeps

/-- A call of any kind keeps the view unless it may scan, or is a service. -/
theorem keeps_handle (call : Call)
    (scans : call.Scans → Keeps view (EcMaster.soem .configInit))
    (cycles : call = .operation .service → Keeps view (EcMaster.runOneCycle (β := β))) :
    Keeps (Shown view) (handle (β := β) call) :=
  (moves_handle ignores.admits call (fun scanning => (scans scanning).moves)
    fun cycling => (cycles cycling).moves).keeps

end Impl

end MoEcat
