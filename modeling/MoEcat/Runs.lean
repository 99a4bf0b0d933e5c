import MoEcat.Programs
import Mathlib.Algebra.Ring.Nat
import Mathlib.Data.List.Induction

/-!
# Runs of a system under lists of operations

A system answers every operation by a program over its state. A run applies a list
of operations in order; its history records the state before each operation, what
the operation returned and the state after it. An invariant of single operations
holds after every run, and a relation between the past and the present that every
operation extends holds of every history.

An abstract model is a transition relation. The code refines it when each operation
of the code, seen through an abstraction of its states, is one transition; then every
run of the code is a path of the model, and what holds along all paths holds of runs.
-/

namespace MoEcat.Runs

variable {σ ι ρ A L : Type}

/-- One operation of a run. -/
structure Turn (σ ι ρ : Type) where
  before : σ
  operation : ι
  outcome : ρ
  after : σ

/-- The record of performing an operation in a state. -/
def turn (step : ι → Program σ ρ) (s : σ) (operation : ι) : Turn σ ι ρ :=
  ⟨s, operation, (step operation).result s, (step operation).after s⟩

/-- The state after a list of operations. -/
def final (step : ι → Program σ ρ) (s : σ) (operations : List ι) : σ :=
  operations.foldl (fun current operation => (step operation).after current) s

/-- The operations of a run in order, each with its states and its outcome. -/
def history (step : ι → Program σ ρ) : σ → List ι → List (Turn σ ι ρ)
  | _, [] => []
  | s, operation :: rest => turn step s operation :: history step ((step operation).after s) rest

/-- A path of a transition relation, with the label and target of each transition. -/
inductive Path (move : A → L → A → Prop) (start : A) : List (L × A) → A → Prop
  | start : Path move start [] start
  | extend {past : List (L × A)} {a b : A} {label : L}
      (path : Path move start past a) (last : move a label b) :
      Path move start (past ++ [(label, b)]) b

/-- Paths compose. -/
theorem Path.append {move : A → L → A → Prop} {start middle a : A} {first second : List (L × A)}
    (earlier : Path move start first middle) (later : Path move middle second a) :
    Path move start (first ++ second) a := by
  induction later with
  | start => simpa using earlier
  | extend _ last inductionHypothesis =>
    rw [← List.append_assoc]
    exact inductionHypothesis.extend last

section Execution

variable (step : ι → Program σ ρ) (s : σ)

/-- Without operations the state stays. -/
@[simp] theorem final_nil : final step s [] = s := rfl

/-- Without operations there are no turns. -/
@[simp] theorem history_nil : history step s [] = [] := rfl

/-- Operations after operations. -/
theorem final_append (first second : List ι) :
    final step s (first ++ second) = final step (final step s first) second :=
  List.foldl_append

/-- One more operation is done last. -/
theorem final_concat (operations : List ι) (last : ι) :
    final step s (operations ++ [last]) = (step last).after (final step s operations) :=
  final_append step s operations [last]

/-- The turns of operations after operations. -/
theorem history_append (first second : List ι) :
    history step s (first ++ second) =
      history step s first ++ history step (final step s first) second := by
  induction first generalizing s with
  | nil => rfl
  | cons operation rest inductionHypothesis =>
    exact congrArg (turn step s operation :: ·) (inductionHypothesis _)

/-- One more operation adds one turn. -/
theorem history_concat (operations : List ι) (last : ι) :
    history step s (operations ++ [last]) =
      history step s operations ++ [turn step (final step s operations) last] :=
  history_append step s operations [last]

/-- A history splits only where its operations split. -/
theorem history_split {operations : List ι} {earlier later : List (Turn σ ι ρ)}
    (split : history step s operations = earlier ++ later) :
    ∃ first rest, operations = first ++ rest ∧ history step s first = earlier ∧
      history step (final step s first) rest = later := by
  induction earlier generalizing s operations with
  | nil => exact ⟨[], operations, rfl, rfl, split⟩
  | cons entry earlier inductionHypothesis =>
    cases operations with
    | nil => simp at split
    | cons operation operations =>
      obtain ⟨head, tail⟩ := List.cons.inj split
      obtain ⟨first, rest, rfl, recorded, remains⟩ := inductionHypothesis _ tail
      refine ⟨operation :: first, rest, rfl, ?_, remains⟩
      rw [history, head, recorded]

/-- A recorded turn is some operation performed after the ones recorded before it. -/
theorem history_split_turn {operations : List ι} {earlier later : List (Turn σ ι ρ)}
    {entry : Turn σ ι ρ} (split : history step s operations = earlier ++ entry :: later) :
    ∃ first operation, history step s first = earlier ∧
      entry = turn step (final step s first) operation := by
  obtain ⟨first, rest, -, recorded, remains⟩ := history_split step s split
  cases rest with
  | nil => simp at remains
  | cons operation rest =>
    obtain ⟨head, -⟩ := List.cons.inj remains
    exact ⟨first, operation, recorded, head.symm⟩

/-- The last turn of a history ends where the run ends. -/
theorem after_of_history_concat {operations : List ι} {earlier : List (Turn σ ι ρ)}
    {last : Turn σ ι ρ} (split : history step s operations = earlier ++ [last]) :
    last.after = final step s operations := by
  rcases List.eq_nil_or_concat operations with rfl | ⟨first, operation, rfl⟩
  · simp at split
  · rw [List.concat_eq_append, history_concat] at split
    obtain ⟨-, same⟩ := List.append_inj' split rfl
    rw [← List.singleton_inj.mp same, List.concat_eq_append, final_concat]
    rfl

/-- Every turn of a history is some operation performed after a part of the run. -/
theorem turn_of_mem_history {operations : List ι} {entry : Turn σ ι ρ}
    (member : entry ∈ history step s operations) :
    ∃ first operation, entry = turn step (final step s first) operation := by
  obtain ⟨earlier, later, split⟩ := List.append_of_mem member
  obtain ⟨first, operation, -, same⟩ := history_split_turn step s split
  exact ⟨first, operation, same⟩

/-- The same, with the place of the operation in the run. -/
theorem turn_of_mem_history_split {operations : List ι} {entry : Turn σ ι ρ}
    (member : entry ∈ history step s operations) :
    ∃ first operation rest, operations = first ++ operation :: rest ∧
      entry = turn step (final step s first) operation := by
  obtain ⟨earlier, later, split⟩ := List.append_of_mem member
  obtain ⟨first, rest, whole, -, remains⟩ := history_split step s split
  cases rest with
  | nil => cases remains
  | cons operation rest => exact ⟨first, operation, rest, whole, (List.cons.inj remains).1.symm⟩

/-- A turn is one of the operations. -/
theorem operation_mem_of_mem_history {operations : List ι} {entry : Turn σ ι ρ}
    (member : entry ∈ history step s operations) : entry.operation ∈ operations := by
  induction operations generalizing s with
  | nil => cases member
  | cons operation rest inductionHypothesis =>
    rcases List.mem_cons.mp member with rfl | later
    · exact List.mem_cons_self
    · exact List.mem_cons_of_mem operation (inductionHypothesis _ later)

/-- What every operation preserves holds after every run. -/
theorem final_invariant (invariant : σ → Prop)
    (preserves : ∀ state operation, invariant state → invariant ((step operation).after state))
    (initial : invariant s) (operations : List ι) : invariant (final step s operations) := by
  induction operations generalizing s with
  | nil => exact initial
  | cons operation rest inductionHypothesis =>
    exact inductionHypothesis _ (preserves s operation initial)

/-- What every operation preserves under a condition on that operation holds after
every run whose operations all meet the condition. -/
theorem final_invariant_of (condition : σ → ι → Prop) (invariant : σ → Prop)
    (preserves : ∀ state operation, invariant state → condition state operation →
      invariant ((step operation).after state))
    (initial : invariant s) (operations : List ι)
    (met : ∀ entry ∈ history step s operations, condition entry.before entry.operation) :
    invariant (final step s operations) := by
  induction operations generalizing s with
  | nil => exact initial
  | cons operation rest inductionHypothesis =>
    obtain ⟨now, later⟩ := List.forall_mem_cons.mp met
    exact inductionHypothesis _ (preserves s operation initial now) later

/-- In such a run the invariant holds before every operation. -/
theorem invariant_before (condition : σ → ι → Prop) (invariant : σ → Prop)
    (preserves : ∀ state operation, invariant state → condition state operation →
      invariant ((step operation).after state))
    (initial : invariant s) (operations : List ι)
    (met : ∀ entry ∈ history step s operations, condition entry.before entry.operation) :
    ∀ entry ∈ history step s operations, invariant entry.before := by
  induction operations generalizing s with
  | nil => simp
  | cons operation rest inductionHypothesis =>
    obtain ⟨now, later⟩ := List.forall_mem_cons.mp met
    exact List.forall_mem_cons.mpr
      ⟨initial, inductionHypothesis _ (preserves s operation initial now) later⟩

/-- What the turns of a run add to a measure at most, the run adds at most in all. -/
theorem measure_final_le (measure : σ → Nat) (cost : σ → ι → Nat) (operations : List ι)
    (each : ∀ entry ∈ history step s operations,
      measure entry.after ≤ measure entry.before + cost entry.before entry.operation) :
    measure (final step s operations) ≤
      measure s + ((history step s operations).map fun entry =>
        cost entry.before entry.operation).sum := by
  induction operations generalizing s with
  | nil => exact Nat.le_refl _
  | cons operation rest inductionHypothesis =>
    obtain ⟨now, later⟩ := List.forall_mem_cons.mp each
    have remaining := inductionHypothesis _ later
    rw [history, List.map_cons, List.sum_cons, ← Nat.add_assoc]
    exact Nat.le_trans remaining (Nat.add_le_add_right now _)

/-- As long as a run waits, each turn either ends the wait or takes what it counts for off a
measure. So the turns of a run that goes on waiting count for no more than the measure. -/
theorem counted_until (waits : σ → Prop) (ends : Turn σ ι ρ → Prop) (counts : Turn σ ι ρ → Bool)
    (measure : σ → Nat)
    (each : ∀ state operation, waits state → ends (turn step state operation) ∨
      (waits ((step operation).after state) ∧
        (counts (turn step state operation)).toNat + measure ((step operation).after state) ≤
          measure state))
    (waiting : waits s) (operations : List ι) :
    (∃ entry ∈ history step s operations, ends entry) ∨
      (waits (final step s operations) ∧
        (history step s operations).countP counts + measure (final step s operations) ≤
          measure s) := by
  induction operations generalizing s with
  | nil => exact .inr ⟨waiting, by simp⟩
  | cons operation rest inductionHypothesis =>
    rcases each s operation waiting with now | ⟨still, smaller⟩
    · exact .inl ⟨_, List.mem_cons_self, now⟩
    · rcases inductionHypothesis _ still with ⟨entry, member, later⟩ | ⟨last, counted⟩
      · exact .inl ⟨entry, List.mem_cons_of_mem _ member, later⟩
      · refine .inr ⟨last, ?_⟩
        have split : (history step s (operation :: rest)).countP counts =
            (history step ((step operation).after s) rest).countP counts +
              (counts (turn step s operation)).toNat := by
          rw [history, List.countP_cons]
          cases counts (turn step s operation) <;> rfl
        have same : final step s (operation :: rest) = final step ((step operation).after s) rest :=
          rfl
        rw [split, same]
        omega

/-- A property that an invariant guarantees, that the invariant survives under the
allowed operations, and that every other operation destroys, holds throughout a run
exactly when all operations of the run are allowed where they are performed. -/
theorem holds_throughout_iff (invariant property : σ → Prop) (allowed : σ → ι → Prop)
    (holds : ∀ state, invariant state → property state)
    (preserves : ∀ state operation, invariant state → allowed state operation →
      invariant ((step operation).after state))
    (breaks : ∀ state operation, invariant state → ¬allowed state operation →
      ¬property ((step operation).after state))
    (initial : invariant s) (operations : List ι) :
    (∀ first rest, operations = first ++ rest → property (final step s first)) ↔
      ∀ entry ∈ history step s operations, allowed entry.before entry.operation := by
  induction operations generalizing s with
  | nil =>
    refine ⟨fun _ entry member => by simp at member, fun _ first rest split => ?_⟩
    obtain ⟨rfl, -⟩ := List.append_eq_nil_iff.mp split.symm
    exact holds s initial
  | cons operation operations inductionHypothesis =>
    rw [history, List.forall_mem_cons]
    constructor
    · intro throughout
      have permitted : allowed s operation := by
        by_contra forbidden
        exact breaks s operation initial forbidden (throughout [operation] operations rfl)
      refine ⟨permitted, (inductionHypothesis _ (preserves s operation initial permitted)).mp ?_⟩
      rintro first rest rfl
      exact throughout (operation :: first) rest rfl
    · rintro ⟨permitted, later⟩ first rest split
      cases first with
      | nil => exact holds s initial
      | cons head first =>
        obtain ⟨rfl, remains⟩ := List.cons.inj split
        exact (inductionHypothesis _ (preserves s operation initial permitted)).mpr later first rest
          remains

/-- Every turn of a history is in a relation with the turns before it. -/
def Throughout (relation : List (Turn σ ι ρ) → Turn σ ι ρ → Prop)
    (past : List (Turn σ ι ρ)) : Prop :=
  ∀ earlier entry, earlier ++ [entry] <+: past → relation earlier entry

/-- What holds throughout holds of no turns. -/
theorem throughout_nil (relation : List (Turn σ ι ρ) → Turn σ ι ρ → Prop) :
    Throughout relation [] := by
  intro earlier entry starts
  simp at starts

/-- One more turn has to be right after those before it. -/
theorem throughout_concat (relation : List (Turn σ ι ρ) → Turn σ ι ρ → Prop)
    (past : List (Turn σ ι ρ)) (last : Turn σ ι ρ) :
    Throughout relation (past ++ [last]) ↔ Throughout relation past ∧ relation past last := by
  constructor
  · intro throughout
    exact ⟨fun earlier entry starts => throughout earlier entry (starts.trans (List.prefix_append ..)),
      throughout past last List.prefix_rfl⟩
  · rintro ⟨throughout, related⟩ earlier entry starts
    rcases List.prefix_concat_iff.mp starts with whole | starts
    · obtain ⟨rfl, same⟩ := List.append_inj' whole rfl
      obtain rfl : entry = last := List.singleton_inj.mp same
      exact related
    · exact throughout earlier entry starts

/-- What two relations say throughout, they say together. -/
theorem throughout_and (first second : List (Turn σ ι ρ) → Turn σ ι ρ → Prop)
    (past : List (Turn σ ι ρ)) :
    Throughout (fun earlier entry => first earlier entry ∧ second earlier entry) past ↔
      Throughout first past ∧ Throughout second past := by
  constructor
  · intro both
    exact ⟨fun earlier entry starts => (both earlier entry starts).1,
      fun earlier entry starts => (both earlier entry starts).2⟩
  · rintro ⟨one, other⟩ earlier entry starts
    exact ⟨one earlier entry starts, other earlier entry starts⟩

/-- Two relations between the past and the next turn hold of the same runs if, in a state
of which enough is known, they hold of the same turns, and a turn that is kept makes
enough known of the state after it. -/
theorem throughout_iff (kept allowed : List (Turn σ ι ρ) → Turn σ ι ρ → Prop)
    (known : List (Turn σ ι ρ) → σ → Prop)
    (decided : ∀ past state operation, known past state →
      (kept past (turn step state operation) ↔ allowed past (turn step state operation)))
    (informs : ∀ past state operation, known past state →
      kept past (turn step state operation) →
        known (past ++ [turn step state operation]) ((step operation).after state))
    (initial : known [] s) (operations : List ι) :
    Throughout kept (history step s operations) ↔
      Throughout allowed (history step s operations) := by
  have agree : (Throughout kept (history step s operations) ↔
        Throughout allowed (history step s operations)) ∧
      (Throughout kept (history step s operations) →
        known (history step s operations) (final step s operations)) := by
    induction operations using List.reverseRecOn with
    | nil =>
      exact ⟨iff_of_true (throughout_nil kept) (throughout_nil allowed), fun _ => initial⟩
    | append_singleton operations last inductionHypothesis =>
      obtain ⟨same, informed⟩ := inductionHypothesis
      rw [history_concat, final_concat, throughout_concat, throughout_concat]
      refine ⟨⟨?_, ?_⟩, ?_⟩
      · rintro ⟨earlier, now⟩
        exact ⟨same.mp earlier, (decided _ _ last (informed earlier)).mp now⟩
      · rintro ⟨earlier, now⟩
        have keptEarlier := same.mpr earlier
        exact ⟨keptEarlier, (decided _ _ last (informed keptEarlier)).mpr now⟩
      · rintro ⟨earlier, now⟩
        exact informs _ _ last (informed earlier) now
  exact agree.1

/-- Every run of a system that refines a transition relation is a path of it. The
refinement may use an invariant of the system. -/
theorem path_of_refinement (move : A → L → A → Prop) (abstraction : σ → A)
    (label : Turn σ ι ρ → L) (invariant : σ → Prop)
    (preserves : ∀ state operation, invariant state → invariant ((step operation).after state))
    (refines : ∀ state operation, invariant state →
      move (abstraction state) (label (turn step state operation))
        (abstraction ((step operation).after state)))
    (initial : invariant s) (operations : List ι) :
    Path move (abstraction s)
      ((history step s operations).map (fun entry => (label entry, abstraction entry.after)))
      (abstraction (final step s operations)) := by
  induction operations using List.reverseRecOn with
  | nil => exact .start
  | append_singleton operations last inductionHypothesis =>
    have reached := final_invariant step s invariant preserves initial operations
    rw [history_concat, final_concat, List.map_append]
    exact inductionHypothesis.extend (refines _ last reached)

/-- A run of a system each of whose operations is a path of a transition relation, as
long as every operation meets a condition, is a path of it as well. -/
theorem path_of_paths (move : A → L → A → Prop) (abstraction : σ → A) (invariant : σ → Prop)
    (condition : σ → ι → Prop)
    (preserves : ∀ state operation, invariant state → invariant ((step operation).after state))
    (refines : ∀ state operation, invariant state → condition state operation →
      ∃ past, Path move (abstraction state) past (abstraction ((step operation).after state)))
    (initial : invariant s) (operations : List ι)
    (met : ∀ entry ∈ history step s operations, condition entry.before entry.operation) :
    ∃ past, Path move (abstraction s) past (abstraction (final step s operations)) := by
  induction operations using List.reverseRecOn with
  | nil => exact ⟨[], .start⟩
  | append_singleton operations last inductionHypothesis =>
    have reached := final_invariant step s invariant preserves initial operations
    rw [history_concat] at met
    rw [final_concat]
    obtain ⟨past, path⟩ := inductionHypothesis
      (fun entry member => met entry (List.mem_append_left _ member))
    obtain ⟨later, next⟩ := refines _ last reached
      (met (turn step _ last) (List.mem_append_right _ List.mem_cons_self))
    exact ⟨past ++ later, path.append next⟩

/-! ## Clients -/

/-- A client that may do anything to the system only by its operations, and perform each of
them only where a condition holds, leads from one state to another. -/
def Drives (condition : σ → ι → Prop) (s s' : σ) : Prop :=
  ∃ operations, s' = final step s operations ∧
    ∀ entry ∈ history step s operations, condition entry.before entry.operation

variable {step} {condition : σ → ι → Prop}

/-- Doing nothing needs nothing. -/
theorem Drives.refl (s : σ) : Drives step condition s s := ⟨[], rfl, by simp⟩

/-- One operation, where its condition is met. -/
theorem Drives.single {s : σ} {operation : ι} (met : condition s operation) :
    Drives step condition s ((step operation).after s) :=
  ⟨[operation], rfl, List.forall_mem_singleton.mpr met⟩

/-- Operations after operations. -/
theorem Drives.trans {s s' s'' : σ} (earlier : Drives step condition s s')
    (later : Drives step condition s' s'') : Drives step condition s s'' := by
  obtain ⟨first, rfl, met⟩ := earlier
  obtain ⟨second, rfl, metLater⟩ := later
  refine ⟨first ++ second, (final_append step s first second).symm, ?_⟩
  rw [history_append]
  exact List.forall_mem_append.mpr ⟨met, metLater⟩

/-- A weaker condition. -/
theorem Drives.mono {other : σ → ι → Prop} {s s' : σ} (drives : Drives step condition s s')
    (weaker : ∀ state operation, condition state operation → other state operation) :
    Drives step other s s' := by
  obtain ⟨operations, same, met⟩ := drives
  exact ⟨operations, same, fun entry member => weaker _ _ (met entry member)⟩

/-- What such operations preserve, every client of the kind preserves. -/
theorem Drives.preserves {s s' : σ} (drives : Drives step condition s s') (invariant : σ → Prop)
    (preserved : ∀ state operation, invariant state → condition state operation →
      invariant ((step operation).after state))
    (initial : invariant s) : invariant s' := by
  obtain ⟨operations, rfl, met⟩ := drives
  exact final_invariant_of step s condition invariant preserved initial operations met

end Execution

/-- What holds at the start and is preserved by every transition holds along every path. -/
theorem Path.preserves {move : A → L → A → Prop} {start a : A} {past : List (L × A)}
    (property : A → Prop) (initial : property start)
    (preserved : ∀ a label b, property a → move a label b → property b)
    (path : Path move start past a) : property a := by
  induction path with
  | start => exact initial
  | extend _ last inductionHypothesis => exact preserved _ _ _ inductionHypothesis last

/-- A relation between the past and the present that holds at the start and that
every transition extends holds along every path. -/
theorem Path.invariant {move : A → L → A → Prop} {start a : A} {past : List (L × A)}
    (relation : List (L × A) → A → Prop) (initial : relation [] start)
    (extends_past : ∀ past a label b, relation past a → move a label b →
      relation (past ++ [(label, b)]) b)
    (path : Path move start past a) : relation past a := by
  induction path with
  | start => exact initial
  | extend _ last inductionHypothesis => exact extends_past _ _ _ _ inductionHypothesis last

end MoEcat.Runs
