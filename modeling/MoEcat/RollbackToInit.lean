import MoEcat.AdapterSessions
import MoEcat.Bench

/-!
# Rolling the bus back before releasing it

Before the adapter is released, a session that has asked the bus for a state above INIT
should ask it for INIT again. A shutdown chooses its requests by the stable state, and
the stable states up to Scanned ask for nothing, although a failing entry into
Maintenance has already asked for PRE_OP from there.
-/

namespace MoEcat

/-- A broadcast request or write of a state above INIT. Flags do not count. -/
def Mark.isAboveInit : Mark → Bool
  | .requested state | .wrote state => decide (1 < state &&& 0x0f)
  | .opened | .released | .checked .. | .frame | .output _ | .input _ | .access => false

/-- What ends such a request: a broadcast of INIT, or a new session. -/
def Mark.isBackToInit : Mark → Bool
  | .wrote state => state == EcState.init
  | .opened => true
  | .released | .requested _ | .checked .. | .frame | .output _ | .input _ | .access => false

namespace Lifecycle

/-- Whether the bus has been asked above INIT and not been asked back since. -/
def pendingAfter (log : List Mark) : Bool :=
  Traces.latched Mark.isAboveInit Mark.isBackToInit log

/-- At every release nothing is pending. -/
def ReleasedAtInit (log : List Mark) : Prop :=
  Traces.Guarded (· = Mark.released) (fun before => pendingAfter before = false) log

/-- The same in terms of positions: between any request above INIT and a release in the
same session there is a broadcast of INIT. -/
def RollsBack (log : List Mark) : Prop :=
  ∀ before later, log = before ++ .released :: later →
    ∀ first mark rest, before = first ++ mark :: rest → mark.isAboveInit = true →
      Mark.opened ∉ rest → Mark.wrote EcState.init ∈ rest

/-- A record in which every release follows a request for INIT rolls back. -/
theorem rollsBack_of_releasedAtInit {log : List Mark} (released : ReleasedAtInit log) :
    RollsBack log := by
  rintro before later split first mark rest rfl above sameSession
  have clean := released _ _ _ split rfl
  have unlatched : ¬pendingAfter (first ++ mark :: rest) = true := by simp [clean]
  rw [pendingAfter, Traces.latched_iff] at unlatched
  by_contra unasked
  refine unlatched ⟨first, mark, rest, rfl, above, ?_⟩
  intro other member back
  cases other with
  | opened => exact absurd member sameSession
  | wrote state =>
    have init : state = EcState.init := by simpa [Mark.isBackToInit] using back
    exact absurd (init ▸ member) unasked
  | _ => cases back

/-- Accesses leave the question open as it was. -/
theorem pendingAfter_accesses {log marks : List Mark} (accesses : Accesses marks) :
    pendingAfter (log ++ marks) = pendingAfter log := by
  rw [pendingAfter, Traces.latched_append]
  apply Traces.foldl_latch_neutral _ _ _ marks
  intro mark member
  rw [accesses mark member]
  exact ⟨rfl, rfl⟩

/-- A request for INIT settles it. -/
theorem pendingAfter_init (log : List Mark) :
    pendingAfter (log ++ [.requested EcState.init, .wrote EcState.init, .access]) = false := by
  rw [pendingAfter, Traces.latched_append]
  rfl

/-- What shutdowns rely on: releases so far were clean, and nothing is pending in the
states from which a shutdown asks for nothing. -/
def RolledBack (a : State) : Prop :=
  ReleasedAtInit a.log ∧
    (a.state = .uninitialized ∨ a.state = .adapterReady ∨ a.state = .scanned →
      pendingAfter a.log = false)

/-- Marks that neither open nor release keep this. -/
theorem releasedAtInit_inside {log marks : List Mark} (released : ReleasedAtInit log)
    (inside : sessions marks = []) : ReleasedAtInit (log ++ marks) := by
  refine (Traces.guarded_append _ _ _ _).mpr ⟨released, ?_⟩
  refine Traces.guarded_of_quiet _ _ _ fun mark member => ?_
  rintro rfl
  exact absurd rfl (List.filter_eq_nil_iff.mp inside _ member)

/-- A shutdown after clean marks releases cleanly and leaves nothing pending. -/
theorem rolledBack_shutDown {a : State} {marks : List Mark} (released : ReleasedAtInit a.log)
    (inside : sessions marks = []) (clean : pendingAfter (a.log ++ marks) = false) :
    RolledBack (a.shutDown marks) := by
  have before := releasedAtInit_inside released inside
  have logged : (a.shutDown marks).log = a.log ++ marks ++ a.releasing := rfl
  rw [RolledBack, logged]
  cases held : a.isOpen with
  | true =>
    rw [State.releasing, held]
    refine ⟨(Traces.guarded_append _ _ _ _).mpr ⟨before, ?_⟩, fun _ => ?_⟩
    · exact (Traces.guarded_singleton _ _ _).mpr fun _ => by rwa [List.append_nil]
    · rw [if_pos rfl, pendingAfter, Traces.latched_append]
      have unlatched : Traces.latched Mark.isAboveInit Mark.isBackToInit (a.log ++ marks) = false :=
        clean
      rw [unlatched]
      rfl
  | false =>
    rw [State.releasing, held]
    simpa using ⟨before, fun _ => clean⟩

/-- A stop leaves nothing pending: either nothing was pending and nothing is asked, or
INIT is asked for last. -/
theorem rolledBack_stopped {a : State} {marks : List Mark} (kept : RolledBack a)
    (rollback : Rollback a.state marks) : RolledBack (a.shutDown marks) := by
  obtain ⟨released, clean⟩ := kept
  have inside := sessions_negotiation rollback.negotiation
  apply rolledBack_shutDown released inside
  unfold Rollback at rollback
  split at rollback
  case isTrue early =>
    rw [rollback, List.append_nil]
    exact clean early
  case isFalse =>
    obtain ⟨before, -, rfl⟩ := rollback
    rw [← List.append_assoc]
    exact pendingAfter_init _

/-- Marks of one session that lead to a later state. -/
theorem rolledBack_late {a b : State} {marks : List Mark} (released : ReleasedAtInit a.log)
    (inside : sessions marks = []) (grown : b.log = a.log ++ marks)
    (late : ¬(b.state = .uninitialized ∨ b.state = .adapterReady ∨ b.state = .scanned)) :
    RolledBack b := by
  refine ⟨?_, fun early => absurd early late⟩
  rw [grown]
  exact releasedAtInit_inside released inside

/-- A transition other than a failing entry into Maintenance. -/
def ConfirmedMove (a : State) (label : Label) (b : State) : Prop :=
  Move a label b ∧ ¬(a.state = .scanned ∧ label = ⟨.action .enterMaintenance, false⟩)

/-- A supervision keeps this: it only adds checks and accesses. -/
theorem Supervision.rolledBack {expected : UInt16} {a b : State}
    (supervision : Supervision expected a b) (released : ReleasedAtInit a.log)
    (late : ¬(a.state = .uninitialized ∨ a.state = .adapterReady ∨ a.state = .scanned)) :
    RolledBack b := by
  obtain ⟨-, marks, negotiation, grown⟩ := supervision.adapterEffect
  apply rolledBack_late released (sessions_negotiation negotiation) grown
  cases supervision with
  | skipped => exact late
  | present found all => exact late
  | absent found snapshot accesses => simp [State.enter]

/-- Every confirmed move keeps this. The cases are the moves; the shutdowns are those that
release. -/
theorem ConfirmedMove.rolledBack {a b : State} {label : Label} (kept : RolledBack a)
    (confirmed : ConfirmedMove a label b) : RolledBack b := by
  obtain ⟨released, clean⟩ := kept
  obtain ⟨move, entered⟩ := confirmed
  cases move with
  | refused action ordered forbidden => exact ⟨released, clean⟩
  | adapterFailed idle => exact ⟨released, clean⟩
  | adapterReady idle =>
    refine ⟨(Traces.guarded_append _ _ _ _).mpr ⟨released, ?_⟩, fun _ => ?_⟩
    · exact Traces.guarded_of_quiet _ _ _ (by simp)
    · simp only [State.enter, State.emit, pendingAfter, Traces.latched_append]
      rfl
  | scanFailed ready infos =>
    apply rolledBack_shutDown released rfl
    rw [pendingAfter_accesses (by simp [Accesses])]
    exact clean (.inr (.inl ready))
  | scanned ready infos =>
    refine ⟨releasedAtInit_inside released rfl, fun _ => ?_⟩
    simp only [State.enter, State.emit]
    rw [pendingAfter_accesses (by simp [Accesses])]
    exact clean (.inr (.inl ready))
  | enterFailed known attempt negotiation => exact absurd ⟨known, rfl⟩ entered
  | entered known infos marks confirmed =>
    exact rolledBack_late released (sessions_negotiation confirmed.negotiation) rfl
      (by simp [State.enter])
  | prepareFailed maintained attempt negotiation =>
    exact rolledBack_late released (sessions_negotiation negotiation) rfl (by simp [State.enter])
  | prepared maintained marks clocks confirmed traffic =>
    exact rolledBack_late released (sessions_negotiation
      ((confirmed.negotiation.append traffic.negotiation).cons rfl)) rfl (by simp [State.enter])
  | startFailed ready attempt negotiation =>
    exact rolledBack_late released (sessions_negotiation negotiation) rfl (by simp [State.enter])
  | started ready marks confirmed =>
    exact rolledBack_late released (sessions_negotiation confirmed.negotiation) rfl
      (by simp [State.enter])
  | backFailed ready attempt negotiation =>
    exact rolledBack_late released (sessions_negotiation negotiation) rfl (by simp [State.enter])
  | backed ready down marks negotiation confirmed =>
    exact rolledBack_late released
      (sessions_negotiation (negotiation.append confirmed.negotiation)) rfl (by simp [State.enter])
  | idle vacant => exact ⟨released, clean⟩
  | stopped active marks rollback => exact rolledBack_stopped ⟨released, clean⟩ rollback
  | faulted snapshot accesses =>
    exact rolledBack_late released (sessions_negotiation accesses.traffic.negotiation) rfl
      (by simp [State.enter])
  | emergencyStopped snapshot accesses =>
    exact rolledBack_late released (sessions_negotiation accesses.traffic.negotiation) rfl
      (by simp [State.enter])
  | unserved quiet => exact ⟨released, clean⟩
  | maintained maintained supervision =>
    exact supervision.rolledBack released (by simp [maintained])
  | cycled operational supervision =>
    refine supervision.rolledBack (a := a.emit (cycleMarks a)) ?_ (by simp [State.emit, operational])
    exact releasedAtInit_inside released (sessions_cycleMarks a)
  | accessed success marks accesses =>
    refine ⟨releasedAtInit_inside released (sessions_negotiation accesses.traffic.negotiation),
      fun early => ?_⟩
    simp only [State.emit]
    rw [pendingAfter_accesses accesses]
    exact clean early

end Lifecycle

/-! ## The controller -/

namespace EcatController

variable {β : Type} [Platform β]

/-- An operation that enters Maintenance finds the bus willing: the request for PRE_OP
and the check of all slaves succeed. Other operations are not restricted. -/
def EntersWillingBus (c : EcatController β) (operation : ControllerOperation) : Prop :=
  match operation with
  | .enterMaintenance => c.state = .scanned → confirmPreOp.result c.master = true
  | .initializeController config =>
    let found := scan.after ((initializeAdapter config).after c)
    c.state = .uninitialized → found.state = .scanned → confirmPreOp.result found.master = true
  | _ => True

/-- On a willing bus, entering Maintenance is not a failure. -/
theorem enterMaintenance_confirmed (c : EcatController β)
    (willing : c.state = .scanned → confirmPreOp.result c.master = true) :
    Lifecycle.ConfirmedMove (abstraction c) ⟨.action .enterMaintenance, enterMaintenance.result c⟩
      (abstraction (enterMaintenance.after c)) := by
  refine ⟨enterMaintenance_move c, ?_⟩
  rintro ⟨known, failed⟩
  have succeeded : enterMaintenance.result c = true := by
    rcases enterMaintenance_spec c known with ⟨-, entered, -⟩ | ⟨refused, -, -⟩
    · exact entered
    · simp [willing known] at refused
  simp [succeeded] at failed

/-- Other requests are no failing entries into Maintenance. -/
theorem confirmed_of_move {a b : Lifecycle.State} {action : MasterAction} {success : Bool}
    (other : action ≠ .enterMaintenance) (move : Lifecycle.Move a ⟨.action action, success⟩ b) :
    Lifecycle.ConfirmedMove a ⟨.action action, success⟩ b := by
  refine ⟨move, ?_⟩
  rintro ⟨-, same⟩
  cases same
  exact other rfl

/-- On a willing bus every operation is a path without failing entries. -/
theorem perform_confirmed (operation : ControllerOperation) (c : EcatController β)
    (willing : EntersWillingBus c operation) :
    ∃ past, Runs.Path Lifecycle.ConfirmedMove (abstraction c) past
      (abstraction ((perform operation).after c)) := by
  cases operation with
  | initializeController config =>
    have opening := Runs.Path.start.extend
      (confirmed_of_move (by decide) (initializeAdapter_move config c))
    have scanning := opening.extend
      (confirmed_of_move (by decide) (scan_move ((initializeAdapter config).after c)))
    have performed : (perform (.initializeController config)).after c =
        (initializeController config).after c := rfl
    rcases initializeController_spec config c with
      ⟨-, -, same⟩ | ⟨idle, ⟨-, -, same⟩ | ⟨-, -, -, same⟩ | ⟨-, -, -, same⟩⟩
    · exact ⟨[], by rw [performed, same]; exact .start⟩
    · exact ⟨_, by rw [performed, same]; exact opening⟩
    · exact ⟨_, by rw [performed, same]; exact scanning⟩
    · exact ⟨_, by
        rw [performed, same]
        exact scanning.extend (enterMaintenance_confirmed _ (willing idle))⟩
  | enterMaintenance => exact ⟨_, .extend .start (enterMaintenance_confirmed c willing)⟩
  | initializeAdapter config =>
    exact ⟨_, .extend .start (confirmed_of_move (by decide) (initializeAdapter_move config c))⟩
  | scan => exact ⟨_, .extend .start (confirmed_of_move (by decide) (scan_move c))⟩
  | prepareRun => exact ⟨_, .extend .start (confirmed_of_move (by decide) (prepareRun_move c))⟩
  | startOperation =>
    exact ⟨_, .extend .start (confirmed_of_move (by decide) (startOperation_move c))⟩
  | backToMaintenance =>
    exact ⟨_, .extend .start (confirmed_of_move (by decide) (backToMaintenance_move c))⟩
  | stop => exact ⟨_, .extend .start (confirmed_of_move (by decide) (stop_move c))⟩
  | requestFault => exact ⟨_, .extend .start (confirmed_of_move (by decide) (requestFault_move c))⟩
  | requestEmergencyStop =>
    exact ⟨_, .extend .start (confirmed_of_move (by decide) (requestEmergencyStop_move c))⟩

/-- The controller at the end of a run, destroyed or not. -/
def ended (destroyed : Bool) (c : EcatController β) : EcatController β :=
  if destroyed then destroy.after c else c

/-- In every run that enters Maintenance only on a willing bus, every release of the
adapter, by a failed scan, a stop or the destruction, comes after a broadcast of INIT
that follows every request above INIT of its session. -/
theorem rollsBack_of_willing (platform : β) (operations : List ControllerOperation)
    (destroyed : Bool)
    (willing : ∀ entry ∈ Runs.history perform (fresh platform) operations,
      EntersWillingBus entry.before entry.operation) :
    Lifecycle.RollsBack
      (ended destroyed (Runs.final perform (fresh platform) operations)).master.log := by
  obtain ⟨past, path⟩ := Runs.path_of_paths perform (fresh platform) Lifecycle.ConfirmedMove
    abstraction (fun _ => True) EntersWillingBus (fun _ _ _ => trivial)
    (fun c operation _ willing => perform_confirmed operation c willing) trivial operations willing
  have initial : Lifecycle.RolledBack (abstraction (fresh platform)) ∧
      Lifecycle.Resources (abstraction (fresh platform)) ∧
      Lifecycle.SessionsKept (abstraction (fresh platform)) :=
    ⟨⟨Traces.guarded_nil _ _, fun _ => rfl⟩, Lifecycle.kept_initial⟩
  obtain ⟨rolledBack, kept⟩ := path.preserves
    (fun a => Lifecycle.RolledBack a ∧ Lifecycle.Resources a ∧ Lifecycle.SessionsKept a) initial
    fun a label b ⟨rolled, resources, kept⟩ move =>
      ⟨move.rolledBack rolled, move.1.resources resources, move.1.sessionsKept resources kept⟩
  cases destroyed with
  | false => exact Lifecycle.rollsBack_of_releasedAtInit rolledBack.1
  | true =>
    have stopping := confirmed_of_move (by decide)
      (stop_move (Runs.final perform (fresh platform) operations))
    have stopped := stopping.rolledBack rolledBack
    rw [ended, if_pos rfl, destroy_after_kept _ kept]
    exact Lifecycle.rollsBack_of_releasedAtInit stopped.1

/-- A slave that opens, answers the scan and reaches Operation, then a stop. -/
theorem rollsBack_of_willing_bench :
    Lifecycle.RollsBack (ended false (Runs.final perform
      (fresh ({ slaves := [{ state := EcState.init }] } : Bench))
      [.initializeController {}, .prepareRun, .startOperation, .stop])).master.log := by
  apply rollsBack_of_willing _ _ false
  intro entry member
  simp only [Runs.history, List.mem_cons, List.not_mem_nil, or_false] at member
  rcases member with rfl | rfl | rfl | rfl
  · intro _ _
    decide
  · trivial
  · trivial
  · trivial

/-- A slave that refuses PRE_OP: entering Maintenance asks for it four times, fails, and
releases the adapter without asking for INIT. -/
theorem rollsBack_fails :
    ¬Lifecycle.RollsBack (Runs.final perform
      (fresh ({ slaves := [{ state := EcState.init }], refused := [EcState.preOp] } : Bench))
      [.initializeAdapter {}, .scan, .enterMaintenance]).master.log := by
  have logged : (Runs.final perform
      (fresh ({ slaves := [{ state := EcState.init }], refused := [EcState.preOp] } : Bench))
      [.initializeAdapter {}, .scan, .enterMaintenance]).master.log =
      [.opened, .access, .requested 2, .access, .wrote 2, .access, .access, .wrote 2, .access,
        .access, .wrote 2, .access, .access, .wrote 2, .access, .released] := by decide +kernel
  rw [logged]
  intro rollsBack
  have asked := rollsBack
    [.opened, .access, .requested 2, .access, .wrote 2, .access, .access, .wrote 2, .access,
      .access, .wrote 2, .access, .access, .wrote 2, .access] [] rfl
    [.opened, .access] (.requested 2)
    [.access, .wrote 2, .access, .access, .wrote 2, .access, .access, .wrote 2, .access,
      .access, .wrote 2, .access] rfl (by decide) (by decide)
  revert asked
  decide

end EcatController

end MoEcat
