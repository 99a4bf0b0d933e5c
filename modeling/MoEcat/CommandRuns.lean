import MoEcat.AdapterSessions
import MoEcat.EcatApplication
import MoEcat.ProcessDataFlow

/-!
# What the command line does to the master

The application is a client of the master. It looks at the state of the master before it
acts, so that of all lifecycle calls it makes only those that are admitted, and it moves
service data in Maintenance only. It opens the adapter once, and whatever was typed, the
program has given the adapter back when it ends. While the drives run, each turn of the
loop is one cycle.
-/

namespace MoEcat

/-- The slave that a transfer of a single object names. -/
def MasterOperation.transferSlave : MasterOperation → Option Int
  | .readSdo slaveId .. | .writeSdo slaveId .. => some slaveId
  | _ => none

namespace EcatApplication

open Impl (perform Settled ServesData)

variable {β : Type}

/-- What a command may ask of the master in a state: a lifecycle call that the table admits
there, other than opening the adapter, a stop, and in Maintenance a transfer of service
data, single objects with the slaves that the master counts. -/
structure Orderly (i : Impl β) (operation : MasterOperation) : Prop where
  admitted : ∀ action, operation.request = .action action → action ≠ .stop →
    action ∈ EcatController.allowedActions i.controller.state ∧ action ≠ .initializeAdapter
  maintained : operation.request = .access → i.controller.state = .maintenance
  named : ∀ slaveId, operation.transferSlave = some slaveId →
    ∃ k : Nat, 1 ≤ k ∧ k ≤ i.getSlaveCount ∧ slaveId = narrowInt k
  commanded : operation.request ≠ .service

/-- A stop is in order in every state. -/
theorem orderly_stop (i : Impl β) : Orderly i .stop :=
  ⟨fun _ asked other => absurd (Lifecycle.Request.action.inj asked).symm other, by rintro ⟨⟩,
    by rintro _ ⟨⟩, by rintro ⟨⟩⟩

/-- A request that is an action of the lifecycle has nothing to do with transfers. -/
theorem orderly_action {i : Impl β} {operation : MasterOperation} {action : MasterAction}
    (requested : operation.request = .action action)
    (admitted : action ∈ EcatController.allowedActions i.controller.state)
    (later : action ≠ .initializeAdapter) : Orderly i operation := by
  refine ⟨fun other asked _ => ?_, fun access => ?_, fun slaveId transfer => ?_, fun service => ?_⟩
  · obtain rfl := Lifecycle.Request.action.inj (requested.symm.trans asked)
    exact ⟨admitted, later⟩
  · rw [requested] at access
    cases access
  · cases operation <;> cases requested <;> cases transfer
  · rw [requested] at service
    cases service

variable [Platform β]

/-- One state of the master is led to another by orderly operations only. -/
abbrev Driven (i i' : Impl β) : Prop := Runs.Drives perform Orderly i i'

/-! ## Transfers -/

/-- The master is in Maintenance and counts so many slaves. -/
def Maintains (count : Nat) (i : Impl β) : Prop :=
  i.controller.state = .maintenance ∧ i.getSlaveCount = count

omit [Platform β] in
/-- In Maintenance a transfer is in order that names one of the slaves, by the number that
the command line makes of it. -/
theorem Maintains.orderly {count : Nat} {i : Impl β} (maintains : Maintains count i)
    {operation : MasterOperation} (access : operation.request = .access)
    (named : ∀ slaveId, operation.transferSlave = some slaveId →
      ∃ k ∈ List.range' 1 count, slaveId = narrowInt k) : Orderly i operation := by
  obtain ⟨maintained, counted⟩ := maintains
  refine ⟨fun action asked => ?_, fun _ => maintained, fun slaveId transfer => ?_,
    fun service => ?_⟩
  · rw [access] at asked
    cases asked
  · obtain ⟨k, member, same⟩ := named slaveId transfer
    have bounds := List.mem_range'_1.mp member
    exact ⟨k, bounds.1, by omega, same⟩
  · rw [access] at service
    cases service

/-- A transfer of service data does not lead out of Maintenance, and leaves the number of
slaves. -/
theorem Maintains.served {count : Nat} {i i' : Impl β} {refused : Prop}
    (maintains : Maintains count i) (serves : ServesData refused i i') : Maintains count i' := by
  obtain ⟨m, rfl, -⟩ := serves
  exact maintains

/-- From Maintenance, a part of a command leads to Maintenance by orderly operations. -/
def Transfers (count : Nat) (i i' : Impl β) : Prop :=
  Maintains count i → Driven i i' ∧ Maintains count i'

namespace Transfers

variable (count : Nat)

/-- Doing nothing is such a part. -/
theorem refl (i : Impl β) : Transfers count i i := fun maintains => ⟨.refl i, maintains⟩

/-- Two such parts, one after the other, are one. -/
theorem trans (i i' i'' : Impl β) (earlier : Transfers count i i')
    (later : Transfers count i' i'') : Transfers count i i'' := by
  intro maintains
  obtain ⟨first, middle⟩ := earlier maintains
  obtain ⟨second, final⟩ := later middle
  exact ⟨first.trans second, final⟩

variable {count}

/-- An upload from one of the slaves is such a part. -/
theorem readSdo {slaveId : Int} (named : ∃ k ∈ List.range' 1 count, slaveId = narrowInt k)
    (index : UInt16) (subindex : UInt8) (data : List UInt8) (timeoutMs : Int) :
    Program.Relates (Transfers count)
      (Impl.readSdo (β := β) slaveId index subindex data timeoutMs) := by
  intro i maintains
  have orderly : Orderly i (.readSdo slaveId index subindex data timeoutMs) :=
    maintains.orderly rfl (by rintro _ ⟨⟩; exact named)
  exact ⟨.single orderly, maintains.served (Impl.readSdo_serves ..)⟩

/-- A download to one of the slaves is such a part. -/
theorem writeSdo {slaveId : Int} (named : ∃ k ∈ List.range' 1 count, slaveId = narrowInt k)
    (index : UInt16) (subindex : UInt8) (data : List UInt8) (timeoutMs : Int) :
    Program.Relates (Transfers count)
      (Impl.writeSdo (β := β) slaveId index subindex data timeoutMs) := by
  intro i maintains
  have orderly : Orderly i (.writeSdo slaveId index subindex data timeoutMs) :=
    maintains.orderly rfl (by rintro _ ⟨⟩; exact named)
  exact ⟨.single orderly, maintains.served (Impl.writeSdo_serves ..)⟩

/-- So is the reading of a mapping, for whatever slave: the operation itself looks at the
number. -/
theorem dumpPdoMapping (fuel : Nat) (slaveId : Int) :
    Program.Relates (Transfers count) (Impl.dumpPdoMapping (β := β) fuel slaveId) := by
  intro i maintains
  have orderly : Orderly i (.dumpPdoMapping fuel slaveId) :=
    maintains.orderly rfl (by rintro _ ⟨⟩)
  exact ⟨.single orderly, maintains.served (Impl.dumpPdoMapping_serves ..)⟩

end Transfers

section Commands

variable {count : Nat}

/-- The diagnosis of some of the slaves. The induction follows the list, one upload for each.
-/
theorem diagnoseSlaves_transfers (slaves : List Nat) (named : slaves ⊆ List.range' 1 count) :
    Program.Relates (Transfers count) (diagnoseSlaves (β := β) slaves) := by
  induction slaves with
  | nil => exact Program.relates_pure (Transfers.refl count) _
  | cons k rest inductionHypothesis =>
    obtain ⟨member, others⟩ := List.cons_subset.mp named
    refine .bind (Transfers.trans count) (Transfers.readSdo ⟨k, member, rfl⟩ _ _ _ _) fun _ => ?_
    exact .bind (Transfers.trans count) (inductionHypothesis others) fun _ =>
      Program.relates_pure (Transfers.refl count) _

/-- A parameter for some of the slaves. The induction follows the list, one download for
each. -/
theorem writeToSlaves_transfers (index : UInt16) (subindex : UInt8) (data : List UInt8)
    (slaves : List Nat) (named : slaves ⊆ List.range' 1 count) :
    Program.Relates (Transfers count) (writeToSlaves (β := β) index subindex data slaves) := by
  induction slaves with
  | nil => exact Program.relates_pure (Transfers.refl count) _
  | cons k rest inductionHypothesis =>
    obtain ⟨member, others⟩ := List.cons_subset.mp named
    refine .bind (Transfers.trans count) (Transfers.writeSdo ⟨k, member, rfl⟩ _ _ _ _) fun _ => ?_
    exact .bind (Transfers.trans count) (inductionHypothesis others) fun _ =>
      Program.relates_pure (Transfers.refl count) _

/-- The first mapping that is not shown ends the loop. -/
theorem dumpSlaves_transfers (fuel : Nat) (slaves : List Nat) :
    Program.Relates (Transfers count) (dumpSlaves (β := β) fuel slaves) := by
  induction slaves with
  | nil => exact Program.relates_pure (Transfers.refl count) _
  | cons k rest inductionHypothesis =>
    refine .bind (Transfers.trans count) (Transfers.dumpPdoMapping fuel _) fun mapping => ?_
    cases mapping with
    | none => exact Program.relates_pure (Transfers.refl count) _
    | some mapping =>
      exact .bind (Transfers.trans count) inductionHypothesis fun _ =>
        Program.relates_pure (Transfers.refl count) _

variable {i : Impl β}

/-- The diagnosis asks the master for uploads only, from every slave in turn. -/
theorem onDiagnose_driven (maintained : i.controller.state = .maintenance) :
    Driven i (onDiagnose.after i) := by
  simp only [onDiagnose, Program.after_bind, Program.result_get, Program.after_get,
    Program.after_ite, Program.after_pure]
  split
  · exact .refl i
  · exact (diagnoseSlaves_transfers _ (List.Subset.refl _) i ⟨maintained, rfl⟩).1

/-- Whatever words follow `param`, the master is asked for downloads to its slaves, or for
nothing. -/
theorem onParam_driven (maintained : i.controller.state = .maintenance) (args : List String) :
    Driven i ((onParam args).after i) := by
  unfold onParam
  split
  · split
    · exact .refl i
    · exact (writeToSlaves_transfers _ _ _ _ (List.Subset.refl _) i ⟨maintained, rfl⟩).1
  · exact .refl i

/-- Whatever words follow `pdo`, the master is asked for mappings, or for nothing. -/
theorem onPdo_driven (maintained : i.controller.state = .maintenance) (fuel : Nat)
    (args : List String) : Driven i ((onPdo fuel args).after i) := by
  unfold onPdo
  split
  · exact (dumpSlaves_transfers fuel _ i ⟨maintained, rfl⟩).1
  · split
    · exact .refl i
    · exact (Transfers.dumpPdoMapping fuel _ i ⟨maintained, rfl⟩).1
  · exact .refl i

end Commands

/-! ## Turns -/

section Turns

variable {i : Impl β}

/-- A command that stands for one operation asks the master for that operation, whatever
becomes of it. -/
theorem attempt_driven (name failure : String) (operation : MasterOperation)
    {call : Program (Impl β) Bool} (same : perform operation = call)
    (orderly : Orderly i operation) : Driven i ((attempt name failure call).after i) := by
  subst same
  exact .single orderly

/-- The command `stop` asks the master to stop. -/
theorem stopCommand_driven (i : Impl β) : Driven i (stopCommand.after i) :=
  .single (orderly_stop i)

/-- In AdapterReady a command asks for a scan or a stop, or for nothing. -/
theorem handleAdapterReadyState_driven (ready : i.controller.state = .adapterReady)
    (command : Option String) : Driven i ((handleAdapterReadyState command).after i) := by
  unfold handleAdapterReadyState
  cases command with
  | none => exact .refl i
  | some command =>
    simp only [Program.after_ite]
    split_ifs
    · exact attempt_driven _ _ .scan rfl
        (orderly_action rfl (by rw [ready]; decide) (by decide))
    · exact stopCommand_driven i
    · exact .refl i
    · exact .refl i

/-- In Scanned a command asks for Maintenance or a stop, or for nothing. -/
theorem handleScannedState_driven (scanned : i.controller.state = .scanned)
    (command : Option String) : Driven i ((handleScannedState command).after i) := by
  unfold handleScannedState
  cases command with
  | none => exact .refl i
  | some command =>
    simp only [Program.after_ite]
    split_ifs
    · exact attempt_driven _ _ .enterMaintenance rfl
        (orderly_action rfl (by rw [scanned]; decide) (by decide))
    · exact stopCommand_driven i
    · exact .refl i
    · exact .refl i

/-- In Maintenance a command asks for the preparation, a stop or transfers with the slaves.
The cases are the commands, in the order in which the source tests them. -/
theorem handleMaintenanceState_driven (maintained : i.controller.state = .maintenance)
    (fuel : Nat) (command : Option String) :
    Driven i ((handleMaintenanceState fuel command).after i) := by
  unfold handleMaintenanceState
  cases command with
  | none => exact .refl i
  | some command =>
    simp only [Program.after_ite, Program.after_map]
    split_ifs
    · exact onDiagnose_driven maintained
    · exact onParam_driven maintained _
    · exact .refl i
    · exact onPdo_driven maintained fuel _
    · exact attempt_driven _ _ .prepareRun rfl
        (orderly_action rfl (by rw [maintained]; decide) (by decide))
    · exact stopCommand_driven i
    · exact .refl i
    · exact .refl i

/-- In ReadyToRun a command asks for the start, for Maintenance or for a stop, or for
nothing. -/
theorem handleReadyToRunState_driven (ready : i.controller.state = .readyToRun)
    (command : Option String) : Driven i ((handleReadyToRunState command).after i) := by
  unfold handleReadyToRunState
  cases command with
  | none => exact .refl i
  | some command =>
    simp only [Program.after_ite]
    split_ifs
    · exact attempt_driven _ _ .startOperation rfl
        (orderly_action rfl (by rw [ready]; decide) (by decide))
    · exact attempt_driven _ _ .backToMaintenance rfl
        (orderly_action rfl (by rw [ready]; decide) (by decide))
    · exact stopCommand_driven i
    · exact .refl i
    · exact .refl i

/-- In Operational a command asks for a stop, or for nothing. -/
theorem handleOperationalState_driven (i : Impl β) (command : Option String) :
    Driven i ((handleOperationalState command).after i) := by
  unfold handleOperationalState
  simp only [Program.after_ite]
  split_ifs
  · exact stopCommand_driven i
  · exact .refl i

/-- In Fault and EmergencyStop a command asks for a stop, or for nothing. -/
theorem handleErrorState_driven (i : Impl β) (command : Option String) :
    Driven i ((handleErrorState command).after i) := by
  unfold handleErrorState
  cases command with
  | none => exact .refl i
  | some command =>
    simp only [Program.after_ite]
    split_ifs
    · exact stopCommand_driven i
    · exact .refl i

/-- The state that is looked at is the one in which the command is carried out. -/
theorem handleCommand_driven (fuel : Nat) (command : Option String) (i : Impl β) :
    Driven i ((handleCommand fuel command).after i) := by
  simp only [handleCommand, Program.after_bind, Program.result_get, Program.after_get, Impl.getState]
  cases state : i.controller.state with
  | uninitialized => exact .refl i
  | adapterReady => exact handleAdapterReadyState_driven state command
  | scanned => exact handleScannedState_driven state command
  | maintenance => exact handleMaintenanceState_driven state fuel command
  | readyToRun => exact handleReadyToRunState_driven state command
  | operational => exact handleOperationalState_driven i command
  | fault => exact handleErrorState_driven i command
  | emergencyStop => exact handleErrorState_driven i command

/-! ## The loop -/

/-- What a turn may ask of the master: the service, or what a command may ask. -/
def Asked (i : Impl β) (operation : MasterOperation) : Prop :=
  operation = .service ∨ Orderly i operation

omit [Platform β] in
/-- What a command may ask is among what a turn may ask. -/
theorem Orderly.asked {i : Impl β} {operation : MasterOperation} (orderly : Orderly i operation) :
    Asked i operation :=
  .inr orderly

/-- The turns that reach the master: the input goes on, and the line neither leaves the
program nor sets the log level. -/
def Reaches (result : ReadResult) (line : String) : Prop :=
  result ≠ .eof ∧
    (result = .ok → line ≠ "exit" ∧ line ≠ "quit" ∧ startsWith line "loglevel" = false)

/-- Whether a turn reaches the master can be decided from its input. -/
instance (result : ReadResult) (line : String) : Decidable (Reaches result line) :=
  inferInstanceAs (Decidable (_ ∧ _))

section Loop

variable (fuel : Nat) {result : ReadResult} {line : String} (i : Impl β)

/-- Such a turn serves the master and then carries out its command. -/
theorem run_after (reaches : Reaches result line) :
    (run fuel result line).after i =
      (handleCommand fuel (if result = .ok then some line else none)).after
        (Impl.service.after i) := by
  obtain ⟨more, stays⟩ := reaches
  by_cases read : result = .ok
  · obtain ⟨notExit, notQuit, notLevel⟩ := stays read
    simp [run, read, notExit, notQuit, notLevel]
  · simp [run, more, read]

/-- Any other turn leaves the master alone. -/
theorem run_after_of_not (passes : ¬Reaches result line) : (run fuel result line).after i = i := by
  by_cases ended : result = .eof
  · simp [run, ended]
  by_cases read : result = .ok
  · by_cases left : line = "exit" ∨ line = "quit"
    · simp [run, read, left]
    · have level : startsWith line "loglevel" = true := by
        by_contra other
        exact passes ⟨ended, fun _ => by simp_all⟩
      simp [run, read, left, level]
  · exact absurd ⟨ended, fun other => absurd other read⟩ passes

/-- A turn asks the master for what its input tells, and for the service. -/
theorem run_driven (result : ReadResult) (line : String) :
    Runs.Drives perform Asked i ((run fuel result line).after i) := by
  by_cases reaches : Reaches result line
  · rw [run_after fuel i reaches]
    have served : Runs.Drives perform Asked i ((perform .service).after i) := .single (.inl rfl)
    exact served.trans ((handleCommand_driven fuel _ _).mono fun _ _ => Orderly.asked)
  · rw [run_after_of_not fuel i reaches]
    exact .refl i

/-- So does a loop of turns. The induction is on the inputs that are still to come. -/
theorem loop_driven (inputs : List LoopInput) :
    Runs.Drives perform Asked i ((loop fuel inputs).after i) := by
  induction inputs generalizing i with
  | nil => exact .refl i
  | cons input rest inductionHypothesis =>
    cases input with
    | signalled => exact .refl i
    | reads result line =>
      have turn := run_driven fuel i result line
      rw [loop, Program.after_bind]
      rcases (run fuel result line).result i with - | ⟨goesOn, lines⟩
      · exact turn
      · cases goesOn with
        | false => exact turn
        | true => exact turn.trans (inductionHypothesis _)

end Loop

end Turns

/-! ## The program -/

section Main

variable (fuel : Nat) (program ifname : String) (rest : List String) (inputs : List LoopInput)

/-- A program that cannot open the adapter ends at once. -/
theorem main_of_failed {i : Impl β}
    (failed : (Impl.initializeAdapter (programConfig ifname)).result i = false) :
    let whole := main fuel program (ifname :: rest) inputs
    (whole.result i).1 = some 1 ∧
      whole.after i =
        Impl.destroy.after ((perform (.initializeAdapter (programConfig ifname))).after i) := by
  intro whole
  constructor <;> simp [whole, main, failed, perform]

/-- Otherwise it runs the loop, and stops and destroys the master once the loop is left. -/
theorem main_of_opened {i : Impl β}
    (opened : (Impl.initializeAdapter (programConfig ifname)).result i = true) :
    let whole := main fuel program (ifname :: rest) inputs
    let ready := (perform (.initializeAdapter (programConfig ifname))).after i
    let looped := (loop fuel inputs).after ready
    (whole.result i).1 = none ∧ whole.after i = looped ∨
      (whole.result i).1 = some 0 ∧
        whole.after i = Impl.destroy.after ((perform .stop).after looped) := by
  intro whole ready looped
  by_cases left : ((loop fuel inputs).result ready).1 = .left
  · refine .inr ?_
    constructor <;> simp [whole, main, opened, perform, ready, looped] <;> simp_all [ready, perform]
  · refine .inl ?_
    constructor <;> simp [whole, main, opened, perform, ready, looped] <;> simp_all [ready, perform]

variable (platform : β) (onStateChanged onRuntimeStateChanged : Bool)

/-- Whatever is typed, and whenever one of the two signals arrives that the program has
registered, it opens the adapter, serves the master and does to it only what is in order, and
gives it back when it has an exit status. -/
theorem main_orderly :
    let start := Impl.constructed platform onStateChanged onRuntimeStateChanged
    let ready := (perform (.initializeAdapter (programConfig ifname))).after start
    let whole := main fuel program (ifname :: rest) inputs
    ∃ i, Runs.Drives perform Asked ready i ∧
      ((whole.result start).1 = none ∧ whole.after start = i ∨
        (whole.result start).1 ≠ none ∧ whole.after start = Impl.destroy.after i) := by
  intro start ready whole
  cases outcome : (Impl.initializeAdapter (programConfig ifname)).result start with
  | false =>
    obtain ⟨status, ended⟩ := main_of_failed fuel program ifname rest inputs outcome
    exact ⟨ready, .refl ready, .inr ⟨by simp [whole, status], ended⟩⟩
  | true =>
    have looped := loop_driven fuel ready inputs
    rcases main_of_opened fuel program ifname rest inputs outcome with
      ⟨status, goesOn⟩ | ⟨status, ended⟩
    · exact ⟨_, looped, .inl ⟨status, goesOn⟩⟩
    · have stopped : Runs.Drives perform Asked ((loop fuel inputs).after ready)
          ((perform .stop).after ((loop fuel inputs).after ready)) :=
        .single (orderly_stop _).asked
      exact ⟨_, looped.trans stopped, .inr ⟨by simp [whole, status], ended⟩⟩

end Main

/-! ## The session -/

section Session

open Lifecycle (Move Resources SessionsKept sessions)

/-- The adapter was opened once, and is held until the master is back where it began. -/
structure OneSession (a : Lifecycle.State) : Prop where
  resources : Resources a
  kept : SessionsKept a
  once : sessions a.log = if a.state = .uninitialized then [.opened, .released] else [.opened]

/-- A stop or a service moves nothing where the lifecycle begins. -/
theorem move_vacant {a b : Lifecycle.State} {label : Lifecycle.Label}
    (vacant : a.state = .uninitialized)
    (quiet : label.request = .service ∨ label.request = .action .stop) (move : Move a label b) :
    b = a := by
  cases move <;> simp_all [Lifecycle.isTransition]

omit [Platform β] in
/-- Of what is in order, only these two are left there. -/
theorem asked_quiet {i : Impl β} (vacant : i.controller.state = .uninitialized)
    {operation : MasterOperation} (asked : Asked i operation) :
    operation.request = .service ∨ operation.request = .action .stop := by
  rcases asked with rfl | orderly
  · exact .inl rfl
  · cases requested : operation.request with
    | service => exact .inl rfl
    | access =>
      have maintained := orderly.maintained requested
      rw [vacant] at maintained
      cases maintained
    | action action =>
      by_cases stops : action = .stop
      · exact .inr (congrArg _ stops)
      · obtain ⟨admitted, later⟩ := orderly.admitted action requested stops
        rw [vacant, EcatController.allowedActions, List.mem_singleton] at admitted
        exact absurd admitted later

/-- What is in order within the session keeps the adapter, or gives it back. -/
theorem OneSession.moved {a b : Lifecycle.State} {label : Lifecycle.Label} (one : OneSession a)
    (active : a.state ≠ .uninitialized) (move : Move a label b) : OneSession b := by
  obtain ⟨resources, kept, once⟩ := one
  have after := move.resources resources
  refine ⟨after, move.sessionsKept resources kept, ?_⟩
  rw [if_neg active] at once
  have held : a.isOpen = true := by
    have last := kept.2
    rw [once] at last
    cases isOpen : a.isOpen with
    | true => rfl
    | false => simp [isOpen] at last
  cases move.adapterEffect with
  | opens vacant => exact absurd vacant active
  | releases rollback negotiation vacant given grown =>
    rw [if_pos vacant, grown, Lifecycle.sessions_append, Lifecycle.sessions_append, once,
      Lifecycle.sessions_negotiation negotiation, Lifecycle.sessions_releasing,
      Lifecycle.State.releasing, held]
    rfl
  | keeps marks inside same grown =>
    have open' : b.state ≠ .uninitialized := by
      intro vacant
      rw [Resources, vacant, same, held] at after
      simp at after
    rw [if_neg open', grown, Lifecycle.sessions_append, once, inside]
    rfl

/-- What is in order keeps the session the only one. -/
theorem OneSession.asked {i : Impl β} (settled : Settled i) (one : OneSession i.abstraction)
    {operation : MasterOperation} (asked : Asked i operation) :
    OneSession (Impl.abstraction ((perform operation).after i)) := by
  have move := (Impl.perform_move i settled operation).1
  by_cases vacant : i.controller.state = .uninitialized
  · rw [move_vacant vacant (asked_quiet vacant asked) move]
    exact one
  · exact one.moved vacant move

/-- Operations that are asked for in order keep to the one session. The induction follows the
operations. -/
theorem OneSession.driven {i i' : Impl β} (settled : Settled i) (one : OneSession i.abstraction)
    (driven : Runs.Drives perform Asked i i') : Settled i' ∧ OneSession i'.abstraction :=
  driven.preserves (fun i => Settled i ∧ OneSession i.abstraction)
    (fun i operation known asked =>
      ⟨(Impl.perform_move i known.1 operation).2, known.2.asked known.1 asked⟩) ⟨settled, one⟩

/-- The destruction of a master that is back where it began finds nothing to give up. -/
theorem destroy_vacant {i : Impl β} (kept : i.controller.Kept)
    (vacant : i.controller.state = .uninitialized) :
    let ended := (Impl.destroy.after i).controller
    (ended.state = .uninitialized ∧ ended.master.closed = true ∧ ended.nodes = []) ∧
      ended.abstraction = i.abstraction := by
  have destroyed : (Impl.destroy.after i).controller = EcatController.stop.after i.controller :=
    EcatController.destroy_after_kept i.controller kept
  obtain ⟨state, closed, nodes, -⟩ := EcatController.stop_after_kept i.controller kept
  rw [destroyed]
  exact ⟨⟨state, closed, nodes⟩,
    move_vacant vacant (.inr rfl) (EcatController.stop_move i.controller)⟩

variable (platform : β) (onStateChanged onRuntimeStateChanged : Bool)

/-- The adapter that is opened first is the one of the session, and what fails to open
leaves nothing behind. -/
theorem move_opening {b : Lifecycle.State} {success : Bool}
    (move : Move {} ⟨.action .initializeAdapter, success⟩ b) :
    success = true ∧ OneSession b ∨ success = false ∧ b = {} := by
  have resources := move.resources Lifecycle.kept_initial.1
  have kept := move.sessionsKept Lifecycle.kept_initial.1 Lifecycle.kept_initial.2
  cases move with
  | refused action ordered forbidden => exact .inr ⟨rfl, rfl⟩
  | adapterFailed idle => exact .inr ⟨rfl, rfl⟩
  | adapterReady idle => exact .inl ⟨rfl, resources, kept, rfl⟩

/-- The program opens the adapter at most once in its life, and when it has an exit status
the adapter and the nodes are given up. -/
theorem main_session (fuel : Nat) (program ifname : String) (rest : List String)
    (inputs : List LoopInput) :
    let start := Impl.constructed platform onStateChanged onRuntimeStateChanged
    let whole := main fuel program (ifname :: rest) inputs
    let ended := (whole.after start).controller
    match (whole.result start).1 with
    | none => sessions ended.abstraction.log =
        if ended.state = .uninitialized then [.opened, .released] else [.opened]
    | some status =>
      (ended.state = .uninitialized ∧ ended.master.closed = true ∧ ended.nodes = []) ∧
        (status = 0 ∧ sessions ended.abstraction.log = [.opened, .released] ∨
          status = 1 ∧ sessions ended.abstraction.log = []) := by
  intro start whole ended
  let ready := (perform (.initializeAdapter (programConfig ifname))).after start
  obtain ⟨moved, settled⟩ := Impl.perform_move start (Impl.settled_constructed ..)
    (.initializeAdapter (programConfig ifname))
  rcases move_opening moved with ⟨outcome, one⟩ | ⟨outcome, same⟩
  · have looped := one.driven settled (loop_driven fuel ready inputs)
    rcases main_of_opened fuel program ifname rest inputs outcome with
      ⟨status, goesOn⟩ | ⟨status, exited⟩
    · have reached : ended = ((loop fuel inputs).after ready).controller := by rw [← goesOn]
      rw [status, reached]
      exact looped.2.once
    · obtain ⟨stopping, -⟩ := Impl.perform_move _ looped.1 .stop
      have vacant := stopping.stop_state
      have stopped := looped.2.asked looped.1 (orderly_stop _).asked
      obtain ⟨givenUp, same⟩ := destroy_vacant ⟨stopped.resources, stopped.kept⟩ vacant
      have reached : ended = _ := congrArg Impl.controller exited
      rw [status, reached]
      refine ⟨givenUp, .inl ⟨rfl, ?_⟩⟩
      rw [same, stopped.once, if_pos vacant]
  · obtain ⟨status, exited⟩ := main_of_failed fuel program ifname rest inputs outcome
    have initial : ready.controller.abstraction = {} := same
    have vacant : ready.controller.state = .uninitialized := congrArg Lifecycle.State.state initial
    have kept : ready.controller.Kept := by
      rw [EcatController.Kept, initial]
      exact Lifecycle.kept_initial
    obtain ⟨givenUp, same⟩ := destroy_vacant kept vacant
    have reached : ended = _ := congrArg Impl.controller exited
    rw [status, reached]
    refine ⟨givenUp, .inr ⟨rfl, ?_⟩⟩
    rw [same.trans initial]
    rfl

end Session

/-! ## Turns while the drives run -/

section Cycles

open Lifecycle (Move Resources cyclicSteps)

/-- A service of running drives records one cycle before its supervision. -/
theorem move_cycles {a b : Lifecycle.State} {success : Bool} (operational : a.state = .operational)
    (move : Move a ⟨.service, success⟩ b) :
    cyclicSteps b.log = cyclicSteps a.log ++ cycleOf a.active := by
  cases move with
  | unserved quiet => exact absurd operational quiet.2
  | maintained maintained => simp [operational] at maintained
  | cycled _ supervision =>
    obtain ⟨-, marks, negotiation, grown⟩ := supervision.adapterEffect
    rw [grown, Lifecycle.cyclicSteps_append, Lifecycle.cyclicSteps_negotiation negotiation,
      Lifecycle.State.emit, Lifecycle.cyclicSteps_append, Lifecycle.cyclicSteps_cycleMarks,
      List.append_nil]

/-- The slaves of all nodes of a master. -/
def nodeSlaves (i : Impl β) : List Nat := i.controller.nodes.map fun node => node.info.slaveId

/-- A service is one cycle over all nodes where the drives run, and none elsewhere. -/
theorem service_exchanges {i : Impl β} (settled : Settled i) (resources : Resources i.abstraction) :
    (Impl.service.after i).cyclicRecord =
      i.cyclicRecord ++
        if i.controller.state = .operational then cycleOf (nodeSlaves i) else [] := by
  have effect : (Impl.service.after i).cyclicRecord = i.cyclicRecord ∨ _ :=
    Impl.perform_cyclic i settled resources .service
  by_cases operational : i.controller.state = .operational
  · rw [if_pos operational]
    rcases effect with same | cycle
    · have move := move_cycles operational (Impl.perform_move i settled .service).1
      rw [← Impl.cyclicRecord_eq, ← Impl.cyclicRecord_eq] at move
      have grown := same.symm.trans move
      simp [cycleOf] at grown
    · exact cycle.steps
  · rw [if_neg operational, List.append_nil]
    exact effect.resolve_right fun cycle => operational cycle.operational

/-- What a command asks exchanges nothing. -/
theorem driven_quiet {i i' : Impl β} (settled : Settled i) (resources : Resources i.abstraction)
    (driven : Driven i i') : i'.cyclicRecord = i.cyclicRecord := by
  refine (driven.preserves (fun j => (Settled j ∧ Resources j.abstraction) ∧
    j.cyclicRecord = i.cyclicRecord) ?_ ⟨⟨settled, resources⟩, rfl⟩).2
  rintro j operation ⟨⟨settled, resources⟩, same⟩ orderly
  obtain ⟨move, stays⟩ := Impl.perform_move j settled operation
  refine ⟨⟨stays, move.resources resources⟩, ?_⟩
  rcases Impl.perform_cyclic j settled resources operation with quiet | cycle
  · exact quiet.trans same
  · have service : operation.request = .service := congrArg MasterOperation.request cycle.service
    exact absurd service orderly.commanded

/-- In every state that public operations lead to, a turn of the application that reaches
the master is exactly one cycle over all nodes if it finds the drives running, whatever its
command does afterwards, and any other turn exchanges nothing. -/
theorem turn_exchanges (platform : β) (onStateChanged onRuntimeStateChanged : Bool)
    (operations : List MasterOperation) (fuel : Nat) (result : ReadResult) (line : String) :
    let i := Runs.final perform
      (Impl.constructed platform onStateChanged onRuntimeStateChanged) operations
    ((run fuel result line).after i).cyclicRecord =
      i.cyclicRecord ++
        if Reaches result line ∧ i.controller.state = .operational then cycleOf (nodeSlaves i)
        else [] := by
  intro i
  have settled : Settled i := Impl.settled_operations ..
  have resources : Resources i.abstraction := (Lifecycle.kept_of_path (Impl.path_of_operations ..)).1
  by_cases reaches : Reaches result line
  · have service := Impl.perform_move i settled .service
    have commanded := handleCommand_driven fuel (if result = .ok then some line else none)
      (Impl.service.after i)
    rw [run_after fuel i reaches, driven_quiet service.2 (service.1.resources resources) commanded,
      Impl.perform_service, service_exchanges settled resources]
    simp only [reaches, true_and]
  · rw [run_after_of_not fuel i reaches]
    simp [reaches]

end Cycles

end EcatApplication

end MoEcat
