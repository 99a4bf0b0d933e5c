import MoEcat.BusEffects

/-!
# The lifecycle as a transition system

What the controller is for, stated apart from how it does it: which stable states
follow each other, what is asked of the bus and confirmed by it on the way, when the
adapter is opened and released, and what the slave nodes are good for in each state.

A transition is one request by the caller with its outcome. Its effect on the record
of marks is given up to the traffic that carries no meaning: a confirmed step ends in
a check that found every slave in the requested state, while a failed step leaves
some *negotiation*, an arbitrary mixture of requests, writes, checks and accesses.
-/

namespace MoEcat

/-- Marks of asking the bus for something: requests, writes, checks and accesses. -/
def Mark.isNegotiation : Mark → Bool
  | .requested _ | .wrote _ | .checked .. | .access => true
  | .opened | .released | .frame | .output _ | .input _ => false

/-- Traffic is negotiation. -/
theorem Mark.isNegotiation_of_isTraffic {mark : Mark} (traffic : mark.isTraffic) :
    mark.isNegotiation := by
  cases mark <;> simp_all [Mark.isTraffic, Mark.isNegotiation]

namespace Lifecycle

/-- The lifecycle's view of a controller: the stable state, the adapter, the scanned
slaves, each node's slave with its configured flag, and the marks recorded so far. -/
structure State where
  state : ControllerState := .uninitialized
  isOpen : Bool := false
  scanned : List SlaveInfo := []
  nodes : List (SlaveInfo × Bool) := []
  log : List Mark := []

namespace State

/-- Another state, and nothing else. -/
def enter (a : State) (state : ControllerState) : State := { a with state := state }

/-- More marks in the record, and nothing else. -/
def emit (a : State) (marks : List Mark) : State := { a with log := a.log ++ marks }

/-- The marks of giving the adapter back, if it is held. -/
def releasing (a : State) : List Mark := if a.isOpen then [.released] else []

/-- Roll back with these marks, then give up the nodes and the adapter. -/
def shutDown (a : State) (rollback : List Mark) : State where
  state := .uninitialized
  isOpen := false
  scanned := a.scanned
  nodes := []
  log := a.log ++ rollback ++ a.releasing

/-- All nodes configured. -/
def configureAll (a : State) : State :=
  { a with nodes := a.nodes.map fun node => (node.1, true) }

/-- The slaves whose nodes take part in a cycle. -/
def active (a : State) : List Nat :=
  (a.nodes.filter Prod.snd).map fun node => node.1.slaveId

end State

/-- What a caller can ask for. An access is a transfer of service data. -/
inductive Request where
  | action (action : MasterAction)
  | service
  | access
deriving DecidableEq, Repr

/-- A request with its success. -/
structure Label where
  request : Request
  success : Bool
deriving DecidableEq, Repr

/-- The actions that lead to a next stable state, as opposed to leaving the order. -/
def isTransition : MasterAction → Bool
  | .stop | .requestFault | .requestEmergencyStop => false
  | _ => true

/-- All these marks are accesses and writes. -/
def Traffic (marks : List Mark) : Prop := ∀ mark ∈ marks, mark.isTraffic

/-- All these marks are of asking the bus for something. -/
def Negotiation (marks : List Mark) : Prop := ∀ mark ∈ marks, mark.isNegotiation

/-- All these marks are accesses. -/
def Accesses (marks : List Mark) : Prop := ∀ mark ∈ marks, mark = Mark.access

/-- The bus was asked for a state and then found to be in it. -/
def Confirms (target : UInt16) (marks : List Mark) : Prop :=
  ∃ traffic found, marks = .requested target :: (traffic ++ [.access, .checked target found]) ∧
    Traffic traffic ∧ ∀ state ∈ found, state = target

/-- The roll-back of a shutdown: nothing before Maintenance, otherwise some negotiation
that ends in the request for INIT. -/
def Rollback (state : ControllerState) (marks : List Mark) : Prop :=
  if state = .uninitialized ∨ state = .adapterReady ∨ state = .scanned then marks = []
  else ∃ before, Negotiation before ∧
    marks = before ++ [.requested EcState.init, .wrote EcState.init, .access]

/-- The periodic check: not due, passed, or failed and turned into a fault. -/
inductive Supervision (expected : UInt16) (a : State) : State → Prop
  | skipped : Supervision expected a a
  | present (found : List UInt16) (all : ∀ state ∈ found, state = expected) :
      Supervision expected a (a.emit [.access, .checked expected found])
  | absent (found : List UInt16) (snapshot : List Mark) (accesses : Accesses snapshot) :
      Supervision expected a
        ((a.emit ([.access, .checked expected found] ++ snapshot)).enter .fault)

/-- The marks of one process-data cycle. -/
def cycleMarks (a : State) : List Mark :=
  a.active.map Mark.output ++ [.frame, .access] ++ a.active.map Mark.input

/-- One request with its outcome. -/
inductive Move (a : State) : Label → State → Prop
  | refused (action : MasterAction) (ordered : isTransition action)
      (forbidden : action ∉ EcatController.allowedActions a.state) :
      Move a ⟨.action action, false⟩ a
  | adapterFailed (idle : a.state = .uninitialized) :
      Move a ⟨.action .initializeAdapter, false⟩ a
  | adapterReady (idle : a.state = .uninitialized) :
      Move a ⟨.action .initializeAdapter, true⟩
        { (a.emit [.opened]).enter .adapterReady with isOpen := true }
  | scanFailed (ready : a.state = .adapterReady) (infos : List SlaveInfo) :
      Move a ⟨.action .scanSlaves, false⟩ ({ a with scanned := infos }.shutDown [.access])
  | scanned (ready : a.state = .adapterReady) (infos : List SlaveInfo) :
      Move a ⟨.action .scanSlaves, true⟩
        { (a.emit [.access]).enter .scanned with scanned := infos }
  | enterFailed (known : a.state = .scanned) (attempt : List Mark)
      (negotiation : Negotiation attempt) :
      Move a ⟨.action .enterMaintenance, false⟩
        (a.shutDown (.requested EcState.preOp :: attempt))
  | entered (known : a.state = .scanned) (infos : List SlaveInfo) (marks : List Mark)
      (confirmed : Confirms EcState.preOp marks) :
      Move a ⟨.action .enterMaintenance, true⟩
        { (a.emit marks).enter .maintenance with
          scanned := infos, nodes := infos.map fun info => (info, false) }
  | prepareFailed (maintained : a.state = .maintenance) (attempt : List Mark)
      (negotiation : Negotiation attempt) :
      Move a ⟨.action .prepareRun, false⟩ ((a.configureAll.emit attempt).enter .fault)
  | prepared (maintained : a.state = .maintenance) (marks clocks : List Mark)
      (confirmed : Confirms EcState.safeOp marks) (traffic : Traffic clocks) :
      Move a ⟨.action .prepareRun, true⟩
        ((a.configureAll.emit (.access :: (marks ++ clocks))).enter .readyToRun)
  | startFailed (ready : a.state = .readyToRun) (attempt : List Mark)
      (negotiation : Negotiation attempt) :
      Move a ⟨.action .startOperation, false⟩ ((a.emit attempt).enter .fault)
  | started (ready : a.state = .readyToRun) (marks : List Mark)
      (confirmed : Confirms EcState.operational marks) :
      Move a ⟨.action .startOperation, true⟩ ((a.emit marks).enter .operational)
  | backFailed (ready : a.state = .readyToRun ∨ a.state = .operational) (attempt : List Mark)
      (negotiation : Negotiation attempt) :
      Move a ⟨.action .backToMaintenance, false⟩ ((a.emit attempt).enter .fault)
  | backed (ready : a.state = .readyToRun ∨ a.state = .operational) (down marks : List Mark)
      (negotiation : Negotiation down) (confirmed : Confirms EcState.preOp marks) :
      Move a ⟨.action .backToMaintenance, true⟩ ((a.emit (down ++ marks)).enter .maintenance)
  | idle (vacant : a.state = .uninitialized) : Move a ⟨.action .stop, true⟩ a
  | stopped (active : a.state ≠ .uninitialized) (marks : List Mark)
      (rollback : Rollback a.state marks) :
      Move a ⟨.action .stop, true⟩ (a.shutDown marks)
  | faulted (snapshot : List Mark) (accesses : Accesses snapshot) :
      Move a ⟨.action .requestFault, true⟩ ((a.emit snapshot).enter .fault)
  | emergencyStopped (snapshot : List Mark) (accesses : Accesses snapshot) :
      Move a ⟨.action .requestEmergencyStop, true⟩ ((a.emit snapshot).enter .emergencyStop)
  | unserved (quiet : a.state ≠ .maintenance ∧ a.state ≠ .operational) :
      Move a ⟨.service, true⟩ a
  | maintained {b : State} (maintained : a.state = .maintenance)
      (supervision : Supervision EcState.preOp a b) : Move a ⟨.service, true⟩ b
  | cycled {b : State} (operational : a.state = .operational)
      (supervision : Supervision EcState.operational (a.emit (cycleMarks a)) b) :
      Move a ⟨.service, true⟩ b
  | accessed (success : Bool) (marks : List Mark) (accesses : Accesses marks) :
      Move a ⟨.access, success⟩ (a.emit marks)

section Kinds

/-- Accesses are traffic. -/
theorem Accesses.traffic {marks : List Mark} (accesses : Accesses marks) : Traffic marks := by
  intro mark member
  rw [accesses mark member]
  rfl

/-- Traffic is negotiation. -/
theorem Traffic.negotiation {marks : List Mark} (traffic : Traffic marks) : Negotiation marks :=
  fun mark member => Mark.isNegotiation_of_isTraffic (traffic mark member)

/-- Traffic and more traffic is traffic. -/
theorem Traffic.append {first second : List Mark} (left : Traffic first)
    (right : Traffic second) : Traffic (first ++ second) :=
  List.forall_mem_append.mpr ⟨left, right⟩

/-- Negotiation and more negotiation is negotiation. -/
theorem Negotiation.append {first second : List Mark} (left : Negotiation first)
    (right : Negotiation second) : Negotiation (first ++ second) :=
  List.forall_mem_append.mpr ⟨left, right⟩

/-- One more mark of negotiation before the others. -/
theorem Negotiation.cons {mark : Mark} {marks : List Mark} (kind : mark.isNegotiation)
    (rest : Negotiation marks) : Negotiation (mark :: marks) :=
  List.forall_mem_cons.mpr ⟨kind, rest⟩

/-- A confirmation is negotiation. -/
theorem Confirms.negotiation {target : UInt16} {marks : List Mark}
    (confirmed : Confirms target marks) : Negotiation marks := by
  obtain ⟨traffic, found, rfl, plain, -⟩ := confirmed
  have settled := plain.negotiation
  intro mark member
  simp only [List.mem_cons, List.mem_append, List.not_mem_nil, or_false] at member
  rcases member with rfl | member | rfl | rfl
  · rfl
  · exact settled mark member
  · rfl
  · rfl

/-- A rollback is negotiation. -/
theorem Rollback.negotiation {state : ControllerState} {marks : List Mark}
    (rollback : Rollback state marks) : Negotiation marks := by
  unfold Rollback at rollback
  split at rollback
  · simp [rollback, Negotiation]
  · obtain ⟨before, negotiation, rfl⟩ := rollback
    exact negotiation.append (by simp [Negotiation, Mark.isNegotiation])

end Kinds

/-- What was emitted before a shutdown counts as part of its roll-back. -/
theorem State.shutDown_emit (a : State) (first second : List Mark) :
    (a.emit first).shutDown second = a.shutDown (first ++ second) := by
  have same : (a.emit first).releasing = a.releasing := rfl
  simp only [shutDown, same]
  simp [emit]

/-- The record does not say which nodes are configured. -/
@[simp] theorem State.active_emit (a : State) (marks : List Mark) :
    (a.emit marks).active = a.active := rfl

end Lifecycle

end MoEcat
