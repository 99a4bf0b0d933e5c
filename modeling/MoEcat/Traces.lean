import Mathlib.Data.List.Induction

/-!
# Latches, guards and growth of event traces

A trace lists events in the order in which they happened. A latch is set by some
events and reset by others; it holds after a trace exactly when its last relevant
event was a set. A guard asks a condition of the events before every occurrence of
a trigger. A trace grows by appending, and only a projection of the appended events
is of interest to most arguments.

The laws say how each notion passes through concatenation and through a projection
of the events. They assume nothing about what the events are.
-/

namespace MoEcat.Traces

variable {ε δ : Type}

/-- The effect of one event on a latch. Setting wins when an event does both. -/
def latch (sets resets : ε → Bool) (held : Bool) (event : ε) : Bool :=
  if sets event then true else if resets event then false else held

/-- The latch after a trace, released before the first event. -/
def latched (sets resets : ε → Bool) (trace : List ε) : Bool :=
  trace.foldl (latch sets resets) false

/-- Before every triggering event, the earlier part of the trace satisfies the
requirement. -/
def Guarded (trigger : ε → Prop) (requirement : List ε → Prop) (trace : List ε) : Prop :=
  ∀ before event later, trace = before ++ event :: later → trigger event → requirement before

/-- The new trace extends the old one, and the appended events project to `added`. -/
def Grows (project : ε → Option δ) (old new : List ε) (added : List δ) : Prop :=
  ∃ later, new = old ++ later ∧ later.filterMap project = added

/-- The image of the last event that has one. -/
def latest (project : ε → Option δ) (trace : List ε) : Option δ :=
  (trace.filterMap project).getLast?

/-- Events without an image do not change the latest one. -/
theorem latest_append_silent (project : ε → Option δ) (first second : List ε)
    (silent : ∀ event ∈ second, project event = none) :
    latest project (first ++ second) = latest project first := by
  rw [latest, List.filterMap_append, List.filterMap_eq_nil_iff.mpr silent, List.append_nil]
  rfl

/-- The last event is the latest if it has an image. -/
theorem latest_concat (project : ε → Option δ) (trace : List ε) {event : ε} {mark : δ}
    (shown : project event = some mark) : latest project (trace ++ [event]) = some mark := by
  rw [latest, List.filterMap_append, List.filterMap_cons_some shown, List.filterMap_nil,
    List.getLast?_concat]

/-- The latest image is that of an event after which no other has one. -/
theorem latest_split {project : ε → Option δ} {trace : List ε} {mark : δ}
    (last : latest project trace = some mark) :
    ∃ before event later, trace = before ++ event :: later ∧ project event = some mark ∧
      ∀ other ∈ later, project other = none := by
  induction trace using List.reverseRecOn with
  | nil => cases last
  | append_singleton trace event inductionHypothesis =>
    cases shown : project event with
    | some image =>
      rw [latest_concat project trace shown] at last
      obtain rfl := Option.some.inj last
      exact ⟨trace, event, [], rfl, shown, List.forall_mem_nil _⟩
    | none =>
      have silent : ∀ other ∈ [event], project other = none :=
        List.forall_mem_singleton.mpr shown
      rw [latest_append_silent project trace [event] silent] at last
      obtain ⟨before, found, later, rfl, image, unseen⟩ := inductionHypothesis last
      refine ⟨before, found, later ++ [event], ?_, image,
        List.forall_mem_append.mpr ⟨unseen, silent⟩⟩
      rw [List.append_assoc, List.cons_append]

/-- The latest image of projected events is the latest image under both projections. -/
theorem latest_filterMap {γ : Type} (outer : δ → Option γ) (project : ε → Option δ)
    (trace : List ε) :
    latest outer (trace.filterMap project) = latest (fun event => (project event).bind outer)
      trace := by
  rw [latest, List.filterMap_filterMap]
  rfl

/-- A latch is computed in two passes over the two parts of a trace. -/
theorem latched_append (sets resets : ε → Bool) (first second : List ε) :
    latched sets resets (first ++ second) =
      second.foldl (latch sets resets) (latched sets resets first) :=
  List.foldl_append

/-- Events that neither set nor reset a latch leave it as it was. -/
theorem foldl_latch_neutral (sets resets : ε → Bool) (held : Bool) (events : List ε)
    (neutral : ∀ event ∈ events, sets event = false ∧ resets event = false) :
    events.foldl (latch sets resets) held = held := by
  induction events generalizing held with
  | nil => rfl
  | cons event rest inductionHypothesis =>
    obtain ⟨unset, unreset⟩ := neutral event List.mem_cons_self
    have kept : latch sets resets held event = held := by simp [latch, unset, unreset]
    rw [List.foldl_cons, kept]
    exact inductionHypothesis held (fun other member => neutral other (List.mem_cons_of_mem _ member))

/-- Events that set nothing leave a released latch released. -/
theorem foldl_latch_released (sets resets : ε → Bool) (events : List ε)
    (unset : ∀ event ∈ events, sets event = false) :
    events.foldl (latch sets resets) false = false := by
  induction events with
  | nil => rfl
  | cons event rest inductionHypothesis =>
    have released : latch sets resets false event = false := by
      simp [latch, unset event List.mem_cons_self]
    rw [List.foldl_cons, released]
    exact inductionHypothesis (fun other member => unset other (List.mem_cons_of_mem _ member))

/-- An occurrence in a trace with one more event is that event or an earlier one. -/
theorem split_concat {trace before later : List ε} {last event : ε}
    (split : trace ++ [last] = before ++ event :: later) :
    (trace = before ∧ last = event ∧ later = []) ∨
      ∃ inner, trace = before ++ event :: inner ∧ later = inner ++ [last] := by
  rcases List.append_eq_append_iff.mp split with ⟨inner, rfl, tail⟩ | ⟨inner, rfl, tail⟩
  · cases inner with
    | nil => simp_all
    | cons head inner => simp at tail
  · cases inner with
    | nil => simp_all
    | cons head inner =>
      obtain ⟨rfl, rfl⟩ := List.cons.inj tail
      exact Or.inr ⟨inner, rfl, rfl⟩

/-- A latch holds exactly when some event set it and no later event reset it
without setting it again. -/
theorem latched_iff (sets resets : ε → Bool) (trace : List ε) :
    latched sets resets trace = true ↔
      ∃ before event later, trace = before ++ event :: later ∧ sets event = true ∧
        ∀ other ∈ later, resets other = true → sets other = true := by
  induction trace using List.reverseRecOn with
  | nil => simp [latched]
  | append_singleton trace last inductionHypothesis =>
    have step : latched sets resets (trace ++ [last]) =
        latch sets resets (latched sets resets trace) last := latched_append _ _ _ _
    rw [step]
    cases set : sets last with
    | true =>
      simp only [latch, set, ↓reduceIte, true_iff]
      exact ⟨trace, last, [], rfl, set, by simp⟩
    | false =>
      -- The last event cannot be the setting one, so the witness lies in the old trace.
      have earlier : (∃ before event later, trace ++ [last] = before ++ event :: later ∧
          sets event = true ∧ ∀ other ∈ later, resets other = true → sets other = true) ↔
          (∃ before event later, trace = before ++ event :: later ∧ sets event = true ∧
            ∀ other ∈ later, resets other = true → sets other = true) ∧ resets last = false := by
        constructor
        · rintro ⟨before, event, later, split, setting, kept⟩
          rcases split_concat split with ⟨-, rfl, -⟩ | ⟨inner, rfl, rfl⟩
          · simp [set] at setting
          · have unreset : resets last = false := by
              cases reset : resets last with
              | false => rfl
              | true => simpa [set] using kept last (by simp) reset
            exact ⟨⟨before, event, inner, rfl, setting, fun other member =>
              kept other (List.mem_append_left _ member)⟩, unreset⟩
        · rintro ⟨⟨before, event, later, rfl, setting, kept⟩, unreset⟩
          refine ⟨before, event, later ++ [last], by simp, setting, ?_⟩
          intro other member resetting
          rcases List.mem_append.mp member with old | fresh
          · exact kept other old resetting
          · simp [List.mem_singleton.mp fresh, unreset] at resetting
      rw [earlier, ← inductionHypothesis]
      cases reset : resets last <;> simp [latch, set, reset]

/-- Computing a latch from projected events is computing it from the projection. -/
theorem latched_filterMap (project : ε → Option δ) (sets resets : δ → Bool) (trace : List ε) :
    latched (fun event => (project event).any sets) (fun event => (project event).any resets)
      trace = latched sets resets (trace.filterMap project) := by
  unfold latched
  generalize false = held
  induction trace generalizing held with
  | nil => rfl
  | cons event rest inductionHypothesis =>
    cases projected : project event with
    | none => simp [projected, latch, inductionHypothesis]
    | some mark => simp [projected, latch, inductionHypothesis]

/-- No event has happened in the empty trace. -/
theorem guarded_nil (trigger : ε → Prop) (requirement : List ε → Prop) :
    Guarded trigger requirement [] := by
  intro before event later split
  exact absurd split (by simp)

/-- A concatenation is guarded exactly when its first part is, and every trigger in
its second part meets the requirement on all that came before it. -/
theorem guarded_append (trigger : ε → Prop) (requirement : List ε → Prop)
    (first second : List ε) :
    Guarded trigger requirement (first ++ second) ↔
      Guarded trigger requirement first ∧
        Guarded trigger (fun before => requirement (first ++ before)) second := by
  constructor
  · intro guarded
    constructor
    · rintro before event later rfl triggered
      exact guarded before event (later ++ second) (by simp) triggered
    · rintro before event later rfl triggered
      exact guarded (first ++ before) event later (by simp) triggered
  · rintro ⟨earlier, fresh⟩ before event later split triggered
    rcases List.append_eq_append_iff.mp split with ⟨inner, rfl, tail⟩ | ⟨inner, rfl, tail⟩
    · exact fresh inner event later tail triggered
    · cases inner with
      | nil => simpa using fresh [] event later (by simpa using tail.symm) triggered
      | cons head inner =>
        obtain ⟨rfl, -⟩ := List.cons.inj tail
        exact earlier before event inner rfl triggered

/-- Events that trigger nothing need no requirement. -/
theorem guarded_of_quiet (trigger : ε → Prop) (requirement : List ε → Prop) (events : List ε)
    (quiet : ∀ event ∈ events, ¬ trigger event) : Guarded trigger requirement events := by
  rintro before event later rfl triggered
  exact absurd triggered (quiet event (by simp))

/-- One event is guarded exactly when it triggers nothing or the requirement holds
of the empty past. -/
theorem guarded_singleton (trigger : ε → Prop) (requirement : List ε → Prop) (event : ε) :
    Guarded trigger requirement [event] ↔ (trigger event → requirement []) := by
  constructor
  · intro guarded triggered
    exact guarded [] event [] rfl triggered
  · intro met before other later split triggered
    cases before with
    | nil =>
      obtain ⟨rfl, -⟩ := List.cons.inj split
      exact met triggered
    | cons head before => simp at split

/-- A guard whose trigger and requirement only see projected events is the guard of
the projected trace. -/
theorem guarded_filterMap (project : ε → Option δ) (trigger : δ → Prop)
    (requirement : List δ → Prop) (trace : List ε) :
    Guarded (fun event => ∃ mark, project event = some mark ∧ trigger mark)
      (fun before => requirement (before.filterMap project)) trace ↔
      Guarded trigger requirement (trace.filterMap project) := by
  constructor
  · intro guarded before mark later split triggered
    obtain ⟨first, rest, rfl, rfl, tail⟩ := List.filterMap_eq_append_iff.mp split
    obtain ⟨skipped, event, last, rfl, silent, shown, -⟩ := List.filterMap_eq_cons_iff.mp tail
    have empty : skipped.filterMap project = [] := List.filterMap_eq_nil_iff.mpr silent
    have met := guarded (first ++ skipped) event last (by simp) ⟨mark, shown, triggered⟩
    simpa [empty] using met
  · rintro guarded before event later rfl ⟨mark, shown, triggered⟩
    exact guarded (before.filterMap project) mark (later.filterMap project)
      (by simp [shown]) triggered

/-- A trace extends itself by nothing. -/
theorem Grows.refl (project : ε → Option δ) (trace : List ε) : Grows project trace trace [] :=
  ⟨[], by simp, rfl⟩

/-- Two extensions in a row are one extension by both. -/
theorem Grows.trans {project : ε → Option δ} {old middle new : List ε} {first second : List δ}
    (earlier : Grows project old middle first) (later : Grows project middle new second) :
    Grows project old new (first ++ second) := by
  obtain ⟨firstEvents, rfl, rfl⟩ := earlier
  obtain ⟨secondEvents, rfl, rfl⟩ := later
  exact ⟨firstEvents ++ secondEvents, by simp, by simp⟩

/-- The projection of an extended trace is the old projection and the new marks. -/
theorem Grows.filterMap_eq {project : ε → Option δ} {old new : List ε} {added : List δ}
    (grown : Grows project old new added) :
    new.filterMap project = old.filterMap project ++ added := by
  obtain ⟨later, rfl, rfl⟩ := grown
  exact List.filterMap_append

end MoEcat.Traces
