import MoEcat.Programs

/-!
# What programs add to a measure

A measure of states, such as the time spent waiting, grows as a program runs. A program
costs at most some amount if no run of it adds more. Costs of parts add up to a cost of
the whole; a part that runs only under a condition costs nothing when the condition fails.
-/

namespace MoEcat.Program

variable {σ τ α β : Type}

/-- No run of the program adds more than `cost` to the measure. -/
def Costs (measure : σ → Nat) (cost : Nat) (p : Program σ α) : Prop :=
  ∀ s, measure (p.after s) ≤ measure s + cost

variable {measure : σ → Nat} {cost other : Nat}

/-- An answer costs nothing. -/
theorem costs_pure (a : α) : Costs measure 0 (pure a : Program σ α) := fun _ => Nat.le_refl _

/-- Reading the state costs nothing. -/
theorem costs_get : Costs measure 0 (get : Program σ σ) := fun _ => Nat.le_refl _

/-- A change that the measure does not see costs nothing. -/
theorem costs_modify {f : σ → σ} (same : ∀ s, measure (f s) = measure s) :
    Costs measure 0 (modify f : Program σ PUnit) :=
  fun s => Nat.le_of_eq (same s)

/-- A higher cost is a cost too. -/
theorem Costs.mono {p : Program σ α} (costs : Costs measure cost p) (cheap : cost ≤ other) :
    Costs measure other p :=
  fun s => Nat.le_trans (costs s) (Nat.add_le_add_left cheap _)

/-- The costs of both parts add up. -/
theorem Costs.bind {p : Program σ α} {f : α → Program σ β} (first : Costs measure cost p)
    (rest : ∀ a, Costs measure other (f a)) : Costs measure (cost + other) (p >>= f) := by
  intro s
  have earlier := first s
  have later := rest (p.result s) (p.after s)
  rw [after_bind]
  omega

/-- Only the rest costs anything. -/
theorem Costs.free_first {p : Program σ α} {f : α → Program σ β} (first : Costs measure 0 p)
    (rest : ∀ a, Costs measure cost (f a)) : Costs measure cost (p >>= f) := by
  rw [← Nat.zero_add cost]
  exact first.bind rest

/-- Only the first part costs anything. -/
theorem Costs.free_rest {p : Program σ α} {f : α → Program σ β} (first : Costs measure cost p)
    (rest : ∀ a, Costs measure 0 (f a)) : Costs measure cost (p >>= f) :=
  first.bind rest

/-- A branch costs what its dearer side does. -/
theorem Costs.ite {c : Prop} {decision : Decidable c} {p q : Program σ α}
    (holds : Costs measure cost p) (fails : Costs measure cost q) :
    Costs measure cost (if c then p else q) := by
  split
  · exact holds
  · exact fails

/-- What is not done costs nothing. -/
theorem Costs.when {c : Prop} {decision : Decidable c} {p : Program σ Unit}
    (costs : Costs measure cost p) : Costs measure (if c then cost else 0) (when c p) := by
  intro s
  rw [after_when]
  split
  · exact costs s
  · exact Nat.le_refl _

/-- The second operand of a conjunction may not run. -/
theorem Costs.and {p q : Program σ Bool} (first : Costs measure cost p)
    (second : Costs measure other q) : Costs measure (cost + other) (p <&&> q) := by
  intro s
  have earlier := first s
  have later := second (p.after s)
  rw [after_and]
  split <;> omega

/-- A component's program adds to the measure of the component. -/
theorem Costs.zoom {part : σ → τ} {put : τ → σ → σ} {measure : τ → Nat} {p : Program τ α}
    (lawful : ∀ t s, part (put t s) = t) (costs : Costs measure cost p) :
    Costs (fun s => measure (part s)) cost (zoom part put p) := by
  intro s
  have kept := costs (part s)
  rw [← lawful (p.after (part s)) s] at kept
  exact kept

/-- A loop of free passes is free. The induction is on its items. -/
theorem costs_forM {items : List α} {body : α → Program σ PUnit}
    (each : ∀ item, Costs measure 0 (body item)) : Costs measure 0 (items.forM body) := by
  induction items with
  | nil => exact costs_pure _
  | cons item rest inductionHypothesis => exact .bind (each item) fun _ => inductionHypothesis

end MoEcat.Program
