import MoEcat.AdapterSessions
import MoEcat.Bench
import MoEcat.Frames

/-!
# The two lists of slaves

The count that a caller reads comes from the controller's copy of the scan, the list
from the bus master. Given that only a scan rewrites the number of slaves, the two agree
after every run. They should also be empty before a scan, but a roll-back leaves both
as they are, so that holds exactly as long as no session ends with slaves in its list.
-/

namespace MoEcat

open Program

variable {β : Type} [Platform β]

/-- Only a scan changes the number of slaves, and a positive answer of it is the new one. -/
structure KeepsCount (β : Type) [Platform β] : Prop where
  others : ∀ call ctx (platform : β), call ≠ .configInit →
    (Platform.soem call ctx platform).2.1.slavecount = ctx.slavecount
  found : ∀ ctx (platform : β), 0 < (Platform.soem .configInit ctx platform).1.result →
    (Platform.soem .configInit ctx platform).2.1.slavecount =
      (Platform.soem .configInit ctx platform).1.result.toNat

/-- In addition, a scan that finds nothing sets the number of slaves to zero. -/
structure RewritesCount (β : Type) [Platform β] : Prop extends KeepsCount β where
  vacant : ∀ ctx (platform : β), (Platform.soem .configInit ctx platform).1.result ≤ 0 →
    (Platform.soem .configInit ctx platform).2.1.slavecount = 0

namespace EcMaster

/-- Nothing but a scan is seen in the number of slaves. -/
theorem ignores_slavecount (keeps : KeepsCount β) :
    Ignores (fun m : EcMaster β => m.ctx.slavecount) where
  note _ _ := rfl
  soem call other m := keeps.others call m.ctx m.platform other
  world _ _ := rfl
  setState _ _ _ := rfl
  store _ _ _ := rfl
  config _ _ := rfl
  closed _ _ := rfl
  expectedWkc _ _ := rfl

/-- The exchange of a frame does not change the number of slaves. -/
theorem runOneCycle_slavecount (keeps : KeepsCount β) :
    Keeps (fun m : EcMaster β => m.ctx.slavecount) runOneCycle :=
  .bind ((ignores_slavecount keeps).soem _ nofun) fun _ =>
    .bind ((ignores_slavecount keeps).soem _ nofun) fun _ =>
      .bind (fun _ => rfl) fun _ => keeps_modify fun _ => rfl

/-- A scan lists as many slaves as its answer says. -/
theorem length_scanSlaves (m : EcMaster β) :
    (scanSlaves.result m).length = ((soem .configInit).result m).result.toNat := by
  simp only [scanSlaves, result_bind, result_ite, result_pure]
  split
  · have none : ((soem .configInit).result m).result.toNat = 0 := by omega
    rw [none, List.length_nil]
  · simp

/-- After a scan the context counts as many slaves as the answer lists. -/
theorem scanSlaves_slavecount (rewrites : RewritesCount β) (m : EcMaster β) :
    (scanSlaves.after m).ctx.slavecount = (scanSlaves.result m).length := by
  have same : (scanSlaves.after m).ctx.slavecount =
      ((soem .configInit).after m).ctx.slavecount := by
    simp only [scanSlaves, after_bind, after_ite, after_pure, after_get, ite_self]
  rw [same, length_scanSlaves]
  by_cases empty : ((soem .configInit).result m).result ≤ 0
  · have none : ((soem .configInit).result m).result.toNat = 0 := by omega
    rw [none]
    exact rewrites.vacant m.ctx m.platform empty
  · exact rewrites.found m.ctx m.platform (Int.not_le.mp empty)

end EcMaster

omit [Platform β] in
/-- A refreshed list has as many slaves as the context counts. -/
theorem EcatController.length_refreshSlaveInfos (m : EcMaster β) :
    (refreshSlaveInfos m).length = m.ctx.slavecount := by
  simp [refreshSlaveInfos, EcMaster.getSlaveCount]

/-! ## The lifecycle's view of the list -/

namespace Lifecycle

/-- The states in which no scan of the session has succeeded yet. -/
def isEarly : ControllerState → Bool
  | .uninitialized | .adapterReady => true
  | _ => false

/-- Only a scan and the entry into Maintenance renew the list of slaves. -/
theorem Move.scanned_kept {a b : State} {label : Label} (move : Move a label b)
    (scans : label.request ≠ .action .scanSlaves)
    (enters : label.request ≠ .action .enterMaintenance) : b.scanned = a.scanned := by
  cases move with
  | maintained held supervision => cases supervision <;> rfl
  | cycled held supervision => cases supervision <;> rfl
  | _ => simp_all [State.emit, State.enter, State.shutDown, State.configureAll]

/-- A transition that is neither a scan, an entry into Maintenance nor a stop leads to
an early state from an early state only, and to Scanned from Scanned only. -/
theorem Move.early_kept {a b : State} {label : Label} (move : Move a label b)
    (scans : label.request ≠ .action .scanSlaves)
    (enters : label.request ≠ .action .enterMaintenance)
    (stops : label.request ≠ .action .stop) :
    (isEarly b.state = true → isEarly a.state = true) ∧
      (b.state = .scanned → a.state = .scanned) := by
  cases move with
  | maintained held supervision =>
    cases supervision <;> simp [State.emit, State.enter, held, isEarly]
  | cycled held supervision =>
    cases supervision <;> simp [State.emit, State.enter, held, isEarly]
  | _ => simp_all [State.emit, State.enter, State.configureAll, isEarly]

end Lifecycle

/-! ## Runs -/

namespace Impl

/-- The count and the list agree, and both are empty before a scan, so that a snapshot
shows no slaves of another session. -/
def ListsCurrent (i : Impl β) : Prop :=
  i.getSlaveCount = i.getSlaveInfos.length ∧
    (i.getSnapshot.state = .uninitialized ∨ i.getSnapshot.state = .adapterReady →
      i.getSlaveCount = 0 ∧ i.getSnapshot.slaves = [])

/-- An operation that ends the session while slaves are listed: a stop with slaves, a
scan that finds slaves and does not accept them, or an entry into Maintenance that the
bus does not confirm. -/
def EndsWithSlaves (i : Impl β) : MasterOperation → Prop
  | .stop => i.controller.state ≠ .uninitialized ∧ i.getSlaveCount ≠ 0
  | .scan => i.controller.state = .adapterReady ∧
      EcMaster.scanSlaves.result i.controller.master ≠ [] ∧
      ¬EcatController.Accepts i.controller.config
        (EcMaster.scanSlaves.result i.controller.master)
  | .enterMaintenance => i.controller.state = .scanned ∧
      EcatController.confirmPreOp.result i.controller.master = false
  | _ => False

/-- The invariant behind current lists: the two copies have one length, which is zero in
the early states and positive once a scan has succeeded. -/
structure ListsKept (i : Impl β) : Prop where
  settled : Settled i
  counted : i.controller.slaveInfos.length = i.controller.master.ctx.slavecount
  vacant : Lifecycle.isEarly i.controller.state = true → i.controller.slaveInfos = []
  found : i.controller.state = .scanned → i.controller.slaveInfos ≠ []

omit [Platform β] in
/-- What the current lists are about, in terms of the controller. -/
theorem listsCurrent_iff {i : Impl β}
    (counted : i.controller.slaveInfos.length = i.controller.master.ctx.slavecount) :
    ListsCurrent i ↔
      (Lifecycle.isEarly i.controller.state = true → i.controller.slaveInfos = []) := by
  have length : i.getSlaveInfos.length = i.controller.slaveInfos.length := by
    rw [counted, getSlaveInfos, EcatController.length_refreshSlaveInfos]
  have empty : i.getSlaveInfos = [] ↔ i.controller.slaveInfos = [] := by
    rw [← List.length_eq_zero_iff, ← List.length_eq_zero_iff, length]
  have early : i.getSnapshot.state = .uninitialized ∨ i.getSnapshot.state = .adapterReady ↔
      Lifecycle.isEarly i.controller.state = true := by
    simp only [getSnapshot, getState]
    cases i.controller.state <;> simp [toMasterState, Lifecycle.isEarly]
  have count : i.getSlaveCount = 0 ↔ i.controller.slaveInfos = [] := List.length_eq_zero_iff
  have shown : i.getSnapshot.slaves = i.getSlaveInfos := rfl
  rw [ListsCurrent, early, count, shown, empty, and_self, length]
  exact ⟨fun current => current.2, fun vacant => ⟨rfl, vacant⟩⟩

/-- The list that an operation leaves, unless it renews it. -/
theorem slaveInfos_kept (i : Impl β) (settled : Settled i) {operation : MasterOperation}
    (scans : operation ≠ .scan) (enters : operation ≠ .enterMaintenance) :
    ((perform operation).after i).controller.slaveInfos = i.controller.slaveInfos := by
  refine (perform_move i settled operation).1.scanned_kept ?_ ?_ <;>
    cases operation <;> simp_all [MasterOperation.request]

/-- The number of slaves after an operation other than a scan. -/
theorem slavecount_kept (keeps : KeepsCount β) (i : Impl β) {operation : MasterOperation}
    (scans : operation ≠ .scan) :
    ((perform operation).after i).controller.master.ctx.slavecount =
      i.controller.master.ctx.slavecount :=
  keeps_perform (EcMaster.ignores_slavecount keeps) operation (fun scan => absurd scan scans)
    (fun _ => EcMaster.runOneCycle_slavecount keeps) i

/-- A scan stores a copy of the list that it leaves in the bus master, also when it
rolls back. -/
theorem scan_counted (rewrites : RewritesCount β) (c : EcatController β)
    (counted : c.slaveInfos.length = c.master.ctx.slavecount) :
    (EcatController.scan.after c).slaveInfos.length =
      (EcatController.scan.after c).master.ctx.slavecount := by
  have found := EcMaster.scanSlaves_slavecount rewrites c.master
  by_cases ready : c.state = .adapterReady
  · rcases EcatController.scan_spec c ready with ⟨-, -, same⟩ | ⟨-, -, same⟩
    · rw [same]
      exact found.symm
    · have rolled := EcatController.keeps_doShutdown
        (EcMaster.ignores_slavecount rewrites.toKeepsCount)
        { c with
          master := EcMaster.scanSlaves.after c.master
          slaveInfos := EcMaster.scanSlaves.result c.master }
      obtain ⟨m, marks, shut, -, -⟩ := EcatController.doShutdown_after
        { c with
          master := EcMaster.scanSlaves.after c.master
          slaveInfos := EcMaster.scanSlaves.result c.master }
      rw [shut] at rolled
      rw [same, shut]
      exact (rolled.trans found).symm
  · have refused : EcatController.scan.after c = c := by simp [EcatController.scan, ready]
    rw [refused]
    exact counted

/-- The entry into Maintenance copies the list anew, or keeps both copies. -/
theorem enterMaintenance_infos (c : EcatController β) :
    (EcatController.enterMaintenance.after c).slaveInfos =
        EcatController.refreshSlaveInfos (EcatController.enterMaintenance.after c).master ∨
      (EcatController.enterMaintenance.after c).slaveInfos = c.slaveInfos := by
  by_cases known : c.state = .scanned
  · rcases EcatController.enterMaintenance_spec c known with ⟨-, -, same⟩ | ⟨-, -, same⟩
    · exact .inl (by rw [same])
    · obtain ⟨m, marks, shut, -, -⟩ := EcatController.doShutdown_after
        { c with master := EcatController.confirmPreOp.after c.master }
      exact .inr (by rw [same, shut])
  · exact .inr (by simp [EcatController.enterMaintenance, known])

/-- No operation lets the two copies differ in length. -/
theorem perform_counted (rewrites : RewritesCount β) (i : Impl β) (settled : Settled i)
    (counted : i.controller.slaveInfos.length = i.controller.master.ctx.slavecount)
    (operation : MasterOperation) :
    ((perform operation).after i).controller.slaveInfos.length =
      ((perform operation).after i).controller.master.ctx.slavecount := by
  by_cases scans : operation = .scan
  · subst scans
    have performed : ((perform .scan).after i).controller =
        EcatController.scan.after i.controller := controller_transition ..
    rw [performed]
    exact scan_counted rewrites i.controller counted
  by_cases enters : operation = .enterMaintenance
  · subst enters
    have kept := slavecount_kept rewrites.toKeepsCount i scans
    have performed : ((perform .enterMaintenance).after i).controller =
        EcatController.enterMaintenance.after i.controller := controller_transition ..
    rw [performed] at kept ⊢
    rcases enterMaintenance_infos i.controller with renewed | same
    · rw [renewed, EcatController.length_refreshSlaveInfos]
    · rw [same, kept]
      exact counted
  · rw [slaveInfos_kept i settled scans enters, slavecount_kept rewrites.toKeepsCount i scans]
    exact counted

/-- A scan in AdapterReady ends the session with slaves, or leaves the lists kept. -/
theorem scan_lists (rewrites : RewritesCount β) (i : Impl β) (kept : ListsKept i) :
    (EndsWithSlaves i .scan → ¬ListsCurrent ((perform .scan).after i)) ∧
      (¬EndsWithSlaves i .scan → ListsKept ((perform .scan).after i)) := by
  have stays := (perform_move i kept.settled .scan).2
  have counted := perform_counted rewrites i kept.settled kept.counted .scan
  have performed : ((perform .scan).after i).controller = EcatController.scan.after i.controller :=
    controller_transition ..
  by_cases ready : i.controller.state = .adapterReady
  · rcases EcatController.scan_spec i.controller ready with
      ⟨accepted, -, same⟩ | ⟨refused, -, same⟩
    · refine ⟨fun ends => absurd accepted ends.2.2, fun _ => ⟨stays, counted, ?_, ?_⟩⟩ <;>
        rw [performed, same]
      · intro early
        cases early
      · exact fun _ => accepted.1
    · -- The roll-back keeps the list that the scan has stored.
      obtain ⟨m, marks, shut, -, -⟩ := EcatController.doShutdown_after
        { i.controller with
          master := EcMaster.scanSlaves.after i.controller.master
          slaveInfos := EcMaster.scanSlaves.result i.controller.master }
      have after := performed.trans (same.trans shut)
      constructor
      · rintro ⟨-, present, -⟩ current
        rw [listsCurrent_iff counted, after] at current
        exact present (current rfl)
      · intro harmless
        refine ⟨stays, counted, ?_, ?_⟩ <;> rw [after]
        · intro _
          by_contra present
          exact harmless ⟨ready, present, refused⟩
        · intro scanned
          cases scanned
  · have refused : EcatController.scan.after i.controller = i.controller := by
      simp [EcatController.scan, ready]
    refine ⟨fun ends => absurd ends.1 ready, fun _ => ⟨stays, counted, ?_, ?_⟩⟩ <;>
      rw [performed, refused]
    · exact kept.vacant
    · exact kept.found

/-- The same for the entry into Maintenance, which only a scan with slaves leads to. -/
theorem enterMaintenance_lists (rewrites : RewritesCount β) (i : Impl β) (kept : ListsKept i) :
    (EndsWithSlaves i .enterMaintenance →
        ¬ListsCurrent ((perform .enterMaintenance).after i)) ∧
      (¬EndsWithSlaves i .enterMaintenance → ListsKept ((perform .enterMaintenance).after i)) := by
  have stays := (perform_move i kept.settled .enterMaintenance).2
  have counted := perform_counted rewrites i kept.settled kept.counted .enterMaintenance
  have performed : ((perform .enterMaintenance).after i).controller =
      EcatController.enterMaintenance.after i.controller := controller_transition ..
  by_cases known : i.controller.state = .scanned
  · rcases EcatController.enterMaintenance_spec i.controller known with
      ⟨confirmed, -, same⟩ | ⟨refused, -, same⟩
    · refine ⟨fun ends => by simp [confirmed, EndsWithSlaves] at ends,
        fun _ => ⟨stays, counted, ?_, ?_⟩⟩ <;> rw [performed, same]
      · intro early
        cases early
      · intro scanned
        cases scanned
    · obtain ⟨m, marks, shut, -, -⟩ := EcatController.doShutdown_after
        { i.controller with
          master := EcatController.confirmPreOp.after i.controller.master }
      have after := performed.trans (same.trans shut)
      refine ⟨fun _ current => ?_, fun harmless => absurd ⟨known, refused⟩ harmless⟩
      rw [listsCurrent_iff counted, after] at current
      exact kept.found known (current rfl)
  · have refused : EcatController.enterMaintenance.after i.controller = i.controller := by
      simp [EcatController.enterMaintenance, known]
    refine ⟨fun ends => absurd ends.1 known, fun _ => ⟨stays, counted, ?_, ?_⟩⟩ <;>
      rw [performed, refused]
    · exact kept.vacant
    · exact kept.found

/-- A stop outside Uninitialized keeps the copy of the list in the state it leads to. -/
theorem stop_lists (rewrites : RewritesCount β) (i : Impl β) (kept : ListsKept i) :
    (EndsWithSlaves i .stop → ¬ListsCurrent ((perform .stop).after i)) ∧
      (¬EndsWithSlaves i .stop → ListsKept ((perform .stop).after i)) := by
  obtain ⟨move, stays⟩ := perform_move i kept.settled .stop
  have counted := perform_counted rewrites i kept.settled kept.counted .stop
  have stopped : ((perform .stop).after i).controller.state = .uninitialized := move.stop_state
  have infos : ((perform .stop).after i).controller.slaveInfos = i.controller.slaveInfos :=
    slaveInfos_kept i kept.settled (by simp) (by simp)
  constructor
  · rintro ⟨-, present⟩ current
    rw [listsCurrent_iff counted, infos, stopped] at current
    exact present (List.length_eq_zero_iff.mpr (current rfl))
  · intro harmless
    refine ⟨stays, counted, fun _ => ?_, fun scanned => ?_⟩
    · rw [infos]
      by_cases idle : i.controller.state = .uninitialized
      · exact kept.vacant (by rw [idle]; rfl)
      · by_contra present
        exact harmless ⟨idle, fun none => present (List.length_eq_zero_iff.mp none)⟩
    · rw [stopped] at scanned
      cases scanned

/-- Every other operation keeps the lists. -/
theorem perform_lists (rewrites : RewritesCount β) (i : Impl β) (kept : ListsKept i)
    {operation : MasterOperation} (scans : operation ≠ .scan)
    (enters : operation ≠ .enterMaintenance) (stops : operation ≠ .stop) :
    ListsKept ((perform operation).after i) := by
  obtain ⟨move, stays⟩ := perform_move i kept.settled operation
  have infos := slaveInfos_kept i kept.settled scans enters
  have asked : operation.request ≠ .action .scanSlaves ∧
      operation.request ≠ .action .enterMaintenance ∧ operation.request ≠ .action .stop := by
    cases operation <;> simp_all [MasterOperation.request]
  obtain ⟨early, scanned⟩ := move.early_kept asked.1 asked.2.1 asked.2.2
  refine ⟨stays, perform_counted rewrites i kept.settled kept.counted operation,
    fun late => ?_, fun held => ?_⟩
  · rw [infos]
    exact kept.vacant (early late)
  · rw [infos]
    exact kept.found (scanned held)

/-- An operation keeps the lists current exactly when it does not end a session with
slaves listed. -/
theorem perform_ends_iff (rewrites : RewritesCount β) (i : Impl β) (kept : ListsKept i)
    (operation : MasterOperation) :
    (EndsWithSlaves i operation → ¬ListsCurrent ((perform operation).after i)) ∧
      (¬EndsWithSlaves i operation → ListsKept ((perform operation).after i)) := by
  cases operation with
  | scan => exact scan_lists rewrites i kept
  | enterMaintenance => exact enterMaintenance_lists rewrites i kept
  | stop => exact stop_lists rewrites i kept
  | _ => exact ⟨False.elim, fun _ => perform_lists rewrites i kept (by simp) (by simp) (by simp)⟩

section Runs

variable (platform : β) (onStateChanged onRuntimeStateChanged : Bool)
  (operations : List MasterOperation)

/-- The count and the list agree after every run, whatever the operations. -/
theorem slaveCount_eq_length (rewrites : RewritesCount β) :
    let i := Runs.final perform (constructed platform onStateChanged onRuntimeStateChanged)
      operations
    i.getSlaveCount = i.getSlaveInfos.length := by
  intro i
  let Counted : Impl β → Prop := fun i =>
    Settled i ∧ i.controller.slaveInfos.length = i.controller.master.ctx.slavecount
  have initial : Counted (constructed platform onStateChanged onRuntimeStateChanged) :=
    ⟨rfl, rfl⟩
  have counted : Counted i := Runs.final_invariant perform _ Counted
    (fun i operation held => ⟨(perform_move i held.1 operation).2,
      perform_counted rewrites i held.1 held.2 operation⟩) initial operations
  rw [getSlaveInfos, EcatController.length_refreshSlaveInfos, ← counted.2]
  rfl

/-- Given that only a scan rewrites the number of slaves, the lists are current after
every operation of a run exactly when no operation ends a session with slaves listed. -/
theorem lists_current_iff (rewrites : RewritesCount β) :
    let start := constructed platform onStateChanged onRuntimeStateChanged
    (∀ first rest, operations = first ++ rest → ListsCurrent (Runs.final perform start first)) ↔
      ∀ entry ∈ Runs.history perform start operations,
        ¬EndsWithSlaves entry.before entry.operation := by
  intro start
  have initial : ListsKept start := ⟨rfl, rfl, fun _ => rfl, fun scanned => by cases scanned⟩
  refine Runs.holds_throughout_iff perform start ListsKept ListsCurrent
    (fun i operation => ¬EndsWithSlaves i operation) ?_ ?_ ?_ initial operations
  · exact fun i kept => (listsCurrent_iff kept.counted).mpr kept.vacant
  · exact fun i operation kept harmless => (perform_ends_iff rewrites i kept operation).2 harmless
  · exact fun i operation kept ends =>
      (perform_ends_iff rewrites i kept operation).1 (not_not.mp ends)

end Runs

end Impl

/-- The bench answers a scan with the number of its slaves. -/
theorem Bench.rewritesCount : RewritesCount Bench where
  others call ctx bench other := by
    cases call with
    | configInit => exact absurd rfl other
    | writeState slave requested =>
      cases slave with
      | zero =>
        have answered : (bench.answer (.writeState 0 requested) ctx).2 =
            if requested ∈ bench.refused then ctx else Bench.broadcast ctx := rfl
        change (bench.answer (.writeState 0 requested) ctx).2.slavecount = _
        rw [answered]
        split <;> rfl
      | succ slave => rfl
    | stateCheck slave requested timeoutUs => cases slave <;> rfl
    | _ => rfl
  found ctx bench answered := rfl
  vacant ctx bench answered := by
    have none : (bench.slaves.length : Int) ≤ 0 := answered
    have empty : bench.slaves.length = 0 := by omega
    exact empty

namespace Impl

/-- After a scan on the bench the lists are current. -/
theorem lists_current_bench :
    ListsCurrent (Runs.final perform
      (constructed ({ slaves := [{}] } : Bench) false false) [.initializeAdapter {}, .scan]) :=
  (lists_current_iff ({ slaves := [{}] } : Bench) false false [.initializeAdapter {}, .scan]
    Bench.rewritesCount).mpr (by
      rw [Runs.history, Runs.history, Runs.history_nil, List.forall_mem_cons,
        List.forall_mem_singleton]
      exact ⟨fun ends => ends, fun ends => ends.2.2 ⟨by decide, by decide, by decide⟩⟩)
    [.initializeAdapter {}, .scan] [] rfl

/-- After a stop the one slave of the session is still counted and listed. -/
theorem lists_not_current :
    RewritesCount Bench ∧
      ¬ListsCurrent (Runs.final perform
        (constructed ({ slaves := [{}] } : Bench) false false)
        [.initializeAdapter {}, .scan, .stop]) := by
  refine ⟨Bench.rewritesCount, fun current => ?_⟩
  have none := (current.2 (.inl (by decide))).1
  revert none
  decide

end Impl

end MoEcat
