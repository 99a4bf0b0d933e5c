import Mathlib.Logic.Relation

/-!
# State-passing programs

A program reads one state, replaces it, and returns a value. Its two observations
are the value it returns and the state it leaves; the laws below compute both for
the constructs that programs are written with. A program of a component runs
inside any larger state that contains the component and leaves the rest of that
state alone.

Nothing here depends on what the states are. The laws are equations between
observations, so that a program is evaluated by rewriting rather than by unfolding
its monad. A relation that is reflexive and transitive passes from the parts of a
program to the whole, which is how a step property becomes a property of a program;
so does the frame condition that some part of the state is left alone. Where it is not,
the moves that the parts make on it make up those of the whole.
-/

namespace MoEcat

/-- A deterministic program over one state. -/
abbrev Program (σ α : Type) := StateM σ α

namespace Program

variable {σ τ α β : Type}

/-- The value a program returns when started in a state. -/
def result (p : Program σ α) (s : σ) : α := (p.run s).1

/-- The state a program leaves when started in a state. -/
def after (p : Program σ α) (s : σ) : σ := (p.run s).2

/-- Run a part only under a condition, as an `if` without an `else` does. -/
def when (c : Prop) [Decidable c] (p : Program σ Unit) : Program σ Unit :=
  if c then p else pure ()

/-- Run a component's program inside a larger state. The first function reads the
component, the second puts the changed component back. -/
def zoom (part : σ → τ) (put : τ → σ → σ) (p : Program τ α) : Program σ α := fun s =>
  (p.result (part s), put (p.after (part s)) s)

/-! The laws are plain equations rather than definitional ones (hence the parentheses
around their proofs), so that rewriting the condition of an `if` also rewrites the
decision procedure that belongs to it. -/

/-- An answer is its own result. -/
@[simp] theorem result_pure (a : α) (s : σ) : (pure a : Program σ α).result s = a := (rfl)

/-- An answer leaves the state. -/
@[simp] theorem after_pure (a : α) (s : σ) : (pure a : Program σ α).after s = s := (rfl)

/-- The rest answers, in the state that the first part has left. -/
@[simp] theorem result_bind (p : Program σ α) (f : α → Program σ β) (s : σ) :
    Program.result (p >>= f) s = (f (p.result s)).result (p.after s) := (rfl)

/-- The rest leaves the state, from the one that the first part has left. -/
@[simp] theorem after_bind (p : Program σ α) (f : α → Program σ β) (s : σ) :
    Program.after (p >>= f) s = (f (p.result s)).after (p.after s) := (rfl)

/-- The result is mapped. -/
@[simp] theorem result_map (g : α → β) (p : Program σ α) (s : σ) :
    Program.result (g <$> p) s = g (p.result s) := (rfl)

/-- Mapping the result leaves the state. -/
@[simp] theorem after_map (g : α → β) (p : Program σ α) (s : σ) :
    Program.after (g <$> p) s = p.after s := (rfl)

/-- The state is read. -/
@[simp] theorem result_get (s : σ) : (get : Program σ σ).result s = s := (rfl)

/-- Reading leaves the state. -/
@[simp] theorem after_get (s : σ) : (get : Program σ σ).after s = s := (rfl)

/-- The state is changed. -/
@[simp] theorem after_modify (f : σ → σ) (s : σ) :
    (modify f : Program σ PUnit).after s = f s := (rfl)

/-- The chosen program answers. -/
@[simp] theorem result_ite {c : Prop} {decision : Decidable c} (p q : Program σ α) (s : σ) :
    Program.result (if c then p else q) s = if c then p.result s else q.result s := by
  split <;> rfl

/-- The chosen program leaves the state. -/
@[simp] theorem after_ite {c : Prop} {decision : Decidable c} (p q : Program σ α) (s : σ) :
    Program.after (if c then p else q) s = if c then p.after s else q.after s := by
  split <;> rfl

/-- What is not done leaves the state. -/
@[simp] theorem after_when {c : Prop} {decision : Decidable c} (p : Program σ Unit) (s : σ) :
    (when c p).after s = if c then p.after s else s := by
  unfold when
  split <;> rfl

/-- The second operand of a short-circuit conjunction runs only when the first holds. -/
@[simp] theorem result_and (p q : Program σ Bool) (s : σ) :
    Program.result (p <&&> q) s = if p.result s then q.result (p.after s) else false := by
  unfold andM
  cases held : p.result s <;> simp [held, toBool]

/-- A refused first operand leaves its own state; otherwise the second one's is left. -/
@[simp] theorem after_and (p q : Program σ Bool) (s : σ) :
    Program.after (p <&&> q) s = if p.result s then q.after (p.after s) else p.after s := by
  unfold andM
  cases held : p.result s <;> simp [held, toBool]

/-- The program on the part answers. -/
@[simp] theorem result_zoom (part : σ → τ) (put : τ → σ → σ) (p : Program τ α) (s : σ) :
    (zoom part put p).result s = p.result (part s) := (rfl)

/-- The part is put back as the program leaves it. -/
@[simp] theorem after_zoom (part : σ → τ) (put : τ → σ → σ) (p : Program τ α) (s : σ) :
    (zoom part put p).after s = put (p.after (part s)) s := (rfl)

/-! ## Relations between the states before and after -/

/-- Every run of the program relates the state it starts in to the state it leaves. -/
def Relates (R : σ → σ → Prop) (p : Program σ α) : Prop := ∀ s, R s (p.after s)

/-- The program begins as another one does, and relates what that one leaves to the
state it leaves itself. -/
def StartsWith (first : Program σ β) (R : σ → σ → Prop) (p : Program σ α) : Prop :=
  ∀ s, R (first.after s) (p.after s)

section Relations

variable {R : σ → σ → Prop}

/-- An answer relates the state to itself. -/
theorem relates_pure (refl : ∀ s, R s s) (a : α) : Relates R (pure a : Program σ α) :=
  fun s => refl s

/-- What both parts relate, they relate together. -/
theorem Relates.bind (trans : ∀ s t u, R s t → R t u → R s u) {p : Program σ α}
    {f : α → Program σ β} (first : Relates R p) (rest : ∀ a, Relates R (f a)) :
    Relates R (p >>= f) := by
  intro s
  rw [after_bind]
  exact trans _ _ _ (first s) (rest _ _)

/-- What both branches relate, the choice does. -/
theorem Relates.ite {c : Prop} {decision : Decidable c} {p q : Program σ α}
    (holds : Relates R p) (fails : Relates R q) : Relates R (if c then p else q) := by
  split
  · exact holds
  · exact fails

/-- A sequence begins with its first part. -/
theorem startsWith_bind {first : Program σ α} {f : α → Program σ β}
    (rest : ∀ a, Relates R (f a)) : StartsWith first R (first >>= f) := by
  intro s
  rw [after_bind]
  exact rest _ _

/-- A sequence begins as its first part does. -/
theorem StartsWith.bind (trans : ∀ s t u, R s t → R t u → R s u) {first : Program σ τ}
    {p : Program σ α} {f : α → Program σ β} (starts : StartsWith first R p)
    (rest : ∀ a, Relates R (f a)) : StartsWith first R (p >>= f) := by
  intro s
  rw [after_bind]
  exact trans _ _ _ (starts s) (rest _ _)

/-- A program that begins with a related part is related itself. -/
theorem StartsWith.relates (trans : ∀ s t u, R s t → R t u → R s u) {first : Program σ τ}
    {p : Program σ α} (related : Relates R first) (starts : StartsWith first R p) :
    Relates R p :=
  fun s => trans _ _ _ (related s) (starts s)

end Relations

/-! ## What a program leaves alone -/

/-- Whatever the program does, the part of the state that `view` shows stays. -/
def Keeps {ν : Type} (view : σ → ν) (p : Program σ α) : Prop := ∀ s, view (p.after s) = view s

section Frames

variable {ν : Type} {view : σ → ν}

/-- A change that the view does not show is kept. -/
theorem keeps_modify {f : σ → σ} (same : ∀ s, view (f s) = view s) :
    Keeps view (modify f : Program σ PUnit) := same

/-- What both parts keep, they keep together. -/
theorem Keeps.bind {p : Program σ α} {f : α → Program σ β} (first : Keeps view p)
    (rest : ∀ a, Keeps view (f a)) : Keeps view (p >>= f) := by
  intro s
  rw [after_bind, rest, first]

end Frames

/-! ## The moves that a program makes -/

/-- Whatever the program does, what `view` shows of the state changes by these moves only,
one after another. -/
def Moves {ν : Type} (move : ν → ν → Prop) (view : σ → ν) (p : Program σ α) : Prop :=
  ∀ s, Relation.ReflTransGen move (view s) (view (p.after s))

section Moves

variable {ν : Type} {move : ν → ν → Prop} {view : σ → ν}

/-- An answer moves nothing. -/
theorem moves_pure (a : α) : Moves move view (pure a : Program σ α) := fun _ => .refl

/-- Reading the state moves nothing. -/
theorem moves_get : Moves move view (get : Program σ σ) := fun _ => .refl

/-- A change moves the view as it does. -/
theorem moves_modify {f : σ → σ} (each : ∀ s, Relation.ReflTransGen move (view s) (view (f s))) :
    Moves move view (modify f : Program σ PUnit) := each

/-- A change of what the view does not show is no move. -/
theorem moves_unseen {f : σ → σ} (same : ∀ s, view (f s) = view s) :
    Moves move view (modify f : Program σ PUnit) := by
  intro s
  rw [after_modify, same]

/-- The moves of both parts follow one another. -/
theorem Moves.bind {p : Program σ α} {f : α → Program σ β} (first : Moves move view p)
    (rest : ∀ a, Moves move view (f a)) : Moves move view (p >>= f) := by
  intro s
  exact (first s).trans (rest (p.result s) (p.after s))

/-- Mapping the result moves nothing more. -/
theorem Moves.map {p : Program σ α} (g : α → β) (moves : Moves move view p) :
    Moves move view (g <$> p) :=
  moves

/-- A choice moves as its branches do. -/
theorem Moves.ite {c : Prop} {decision : Decidable c} {p q : Program σ α}
    (holds : Moves move view p) (fails : Moves move view q) :
    Moves move view (if c then p else q) := by
  split
  · exact holds
  · exact fails

/-- What is not done moves nothing. -/
theorem Moves.when {c : Prop} {decision : Decidable c} {p : Program σ Unit}
    (moves : Moves move view p) : Moves move view (when c p) :=
  .ite moves (moves_pure _)

/-- The second program is run where the first succeeds. -/
theorem Moves.and {p q : Program σ Bool} (first : Moves move view p)
    (second : Moves move view q) : Moves move view (p <&&> q) := by
  intro s
  rw [after_and]
  split
  · exact (first s).trans (second (p.after s))
  · exact first s

/-- A loop makes the moves of its passes. -/
theorem moves_forM {items : List α} {body : α → Program σ PUnit}
    (each : ∀ item, Moves move view (body item)) : Moves move view (items.forM body) := by
  induction items with
  | nil => exact moves_pure _
  | cons item rest inductionHypothesis => exact .bind (each item) fun _ => inductionHypothesis

/-- A traversal makes the moves of its steps. -/
theorem moves_mapM {items : List α} {body : α → Program σ β}
    (each : ∀ item, Moves move view (body item)) : Moves move view (items.mapM body) := by
  induction items with
  | nil => exact moves_pure _
  | cons item rest inductionHypothesis =>
    rw [List.mapM_cons]
    exact .bind (each item) fun _ => .bind inductionHypothesis fun _ => moves_pure _

/-- A component's program makes in the whole the moves that it makes in the component. -/
theorem Moves.zoom {part : σ → τ} {put : τ → σ → σ} {view : τ → ν} {p : Program τ α}
    (lawful : ∀ t s, part (put t s) = t) (moves : Moves move view p) :
    Moves move (fun s => view (part s)) (zoom part put p) := by
  intro s
  have moved := moves (part s)
  rw [← lawful (p.after (part s)) s] at moved
  exact moved

/-- A program that keeps the view makes no move, and the other way round where there are no
moves to make. -/
theorem Keeps.moves {p : Program σ α} (keeps : Keeps view p) : Moves move view p := by
  intro s
  rw [keeps s]

/-- A program whose moves are none keeps the view. -/
theorem Moves.keeps {p : Program σ α} (moves : Moves (fun _ _ => False) view p) :
    Keeps view p := by
  intro s
  rcases (moves s).cases_tail with same | ⟨_, _, none⟩
  · exact same
  · exact none.elim

end Moves

end Program

end MoEcat
