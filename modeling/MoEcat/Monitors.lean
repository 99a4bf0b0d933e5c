import MoEcat.ExclusiveFlag
import MoEcat.Runs

/-!
# Objects with one lock

A monitor guards a shared state with one lock. Any number of threads call its methods: a
call waits for the lock, performs its body one step at a time while other threads take
steps of their own, and gives the lock back when it answers. Only one call is inside at a
time, so an interleaving leaves the shared state and gives the answers of a sequence of
whole methods, in the order in which the calls return, but for what the call inside has
done. A call that is inside returns after as many steps of its thread as its body takes
alone, whatever the other threads do.

Code that does not ask for the lock may change the shared state as well. What is said here
of the order of whole methods assumes that no such code changes it while a call is inside;
that a call inside returns needs no such assumption.
-/

namespace MoEcat

/-- What a method does while it has the lock. A step changes the state, and what follows it
depends on the state that the step found. -/
inductive Body (σ ρ : Type) where
  | done (answer : ρ)
  | step (change : σ → σ) (next : σ → Body σ ρ)

namespace Body

variable {σ ρ τ : Type}

/-- The steps of the rest follow those of the body. The recursion is on the body. -/
def bind : Body σ ρ → (ρ → Body σ τ) → Body σ τ
  | done answer, rest => rest answer
  | step change next, rest => step change fun s => (next s).bind rest

/-- Bodies are written as programs, one step at a time. -/
instance : Monad (Body σ) where
  pure := done
  bind := bind

/-- A program performed as one step. -/
def once (p : Program σ ρ) : Body σ ρ := step p.after fun s => done (p.result s)

/-- All steps of a body with nothing between them. -/
def whole : Body σ ρ → Program σ ρ
  | done answer => pure answer
  | step change next => fun s => (next s).whole.run (change s)

/-- A body that is done is a program that only answers. -/
@[simp] theorem whole_pure (answer : ρ) : (pure answer : Body σ ρ).whole = pure answer := rfl

/-- A body of one step is its program. -/
@[simp] theorem whole_once (p : Program σ ρ) : (once p).whole = p := rfl

/-- Performing one body after another is performing the two programs in order. -/
@[simp] theorem whole_bind (body : Body σ ρ) (rest : ρ → Body σ τ) :
    (body >>= rest).whole = body.whole >>= fun answer => (rest answer).whole := by
  induction body with
  | done answer => rfl
  | step change next inductionHypothesis =>
    funext s
    exact congrFun (inductionHypothesis s) (change s)

/-- A choice of bodies is a choice of programs. -/
@[simp] theorem whole_ite {c : Prop} {decision : Decidable c} (holds fails : Body σ ρ) :
    (if c then holds else fails).whole = if c then holds.whole else fails.whole := by
  split <;> rfl

/-! ## What the steps of a body relate -/

/-- Whatever state a step of the body finds, it relates that state to the one it leaves. -/
def Relates (R : σ → σ → Prop) : Body σ ρ → Prop
  | done _ => True
  | step change next => ∀ s, R s (change s) ∧ (next s).Relates R

section Relations

variable {R : σ → σ → Prop}

/-- A body that is done has no step. -/
theorem relates_pure (answer : ρ) : (pure answer : Body σ ρ).Relates R := trivial

/-- A body of one step relates what its program does. -/
theorem relates_once {p : Program σ ρ} (related : p.Relates R) : (once p).Relates R := by
  intro s
  exact ⟨related s, trivial⟩

/-- What the steps of both parts relate, all steps do. The induction is on the first body. -/
theorem Relates.bind {body : Body σ ρ} {rest : ρ → Body σ τ} (first : body.Relates R)
    (later : ∀ answer, (rest answer).Relates R) : (body >>= rest).Relates R := by
  induction body with
  | done answer => exact later answer
  | step change next inductionHypothesis =>
    intro s
    obtain ⟨now, after⟩ := first s
    exact ⟨now, inductionHypothesis s after⟩

/-- What both branches relate, the choice does. -/
theorem Relates.ite {c : Prop} {decision : Decidable c} {holds fails : Body σ ρ}
    (first : holds.Relates R) (second : fails.Relates R) :
    (if c then holds else fails).Relates R := by
  split
  · exact first
  · exact second

/-- A weaker relation. The induction is on the body. -/
theorem Relates.mono {R' : σ → σ → Prop} (weaker : ∀ s t, R s t → R' s t) {body : Body σ ρ}
    (related : body.Relates R) : body.Relates R' := by
  induction body with
  | done answer => trivial
  | step change next inductionHypothesis =>
    intro s
    obtain ⟨now, later⟩ := related s
    exact ⟨weaker _ _ now, inductionHypothesis s later⟩

/-- What all steps relate, the whole body relates. -/
theorem Relates.whole (refl : ∀ s, R s s) (trans : ∀ s t u, R s t → R t u → R s u)
    {body : Body σ ρ} (related : body.Relates R) (s : σ) : R s (body.whole.after s) := by
  induction body generalizing s with
  | done answer => exact refl s
  | step change next inductionHypothesis =>
    obtain ⟨now, later⟩ := related s
    exact trans _ _ _ now (inductionHypothesis s later (change s))

end Relations

/-! ## How long a body is -/

/-- The body takes no more steps than this, whatever states it finds. -/
def AtMost : Nat → Body σ ρ → Prop
  | _, done _ => True
  | 0, step _ _ => False
  | limit + 1, step _ next => ∀ s, (next s).AtMost limit

/-- A body that is done has no steps. -/
theorem atMost_pure (limit : Nat) (answer : ρ) : (pure answer : Body σ ρ).AtMost limit := by
  cases limit <;> trivial

/-- A body of one step has one. -/
theorem atMost_once (p : Program σ ρ) : (once p).AtMost 1 := fun _ => trivial

/-- A weaker bound. The induction is on the body. -/
theorem AtMost.mono {less more : Nat} (le : less ≤ more) {body : Body σ ρ}
    (bounded : body.AtMost less) : body.AtMost more := by
  induction body generalizing less more with
  | done answer => cases more <;> trivial
  | step change next inductionHypothesis =>
    cases less with
    | zero => exact bounded.elim
    | succ less =>
      obtain ⟨more, rfl⟩ := Nat.exists_eq_add_of_le' (Nat.lt_of_lt_of_le (Nat.succ_pos less) le)
      intro s
      exact inductionHypothesis s (Nat.le_of_succ_le_succ le) (bounded s)

/-- After a step, the rest is still bounded. -/
theorem AtMost.later {limit : Nat} {change : σ → σ} {next : σ → Body σ ρ}
    (bounded : (step change next).AtMost limit) (s : σ) : (next s).AtMost limit := by
  cases limit with
  | zero => exact bounded.elim
  | succ limit => exact AtMost.mono (Nat.le_succ limit) (bounded s)

/-- The steps of both parts add up. The induction is on the first body. -/
theorem AtMost.bind {first second : Nat} {body : Body σ ρ} {rest : ρ → Body σ τ}
    (bounded : body.AtMost first) (later : ∀ answer, (rest answer).AtMost second) :
    (body >>= rest).AtMost (first + second) := by
  induction body generalizing first with
  | done answer => exact (later answer).mono (Nat.le_add_left ..)
  | step change next inductionHypothesis =>
    cases first with
    | zero => exact bounded.elim
    | succ first =>
      rw [Nat.succ_add]
      intro s
      exact inductionHypothesis s (bounded s)

/-- A choice takes no more than its branches. -/
theorem AtMost.ite {c : Prop} {decision : Decidable c} {limit : Nat} {holds fails : Body σ ρ}
    (first : holds.AtMost limit) (second : fails.AtMost limit) :
    (if c then holds else fails).AtMost limit := by
  split
  · exact first
  · exact second

end Body

/-- Where a thread is: outside, waiting for the lock, or inside with the rest of a body. -/
inductive Phase (μ σ ρ : Type) where
  | idle
  | waiting (method : μ)
  | inside (method : μ) (rest : Body σ ρ)

/-- A thread inside a body has the lock. -/
def Phase.holds {μ σ ρ : Type} : Phase μ σ ρ → Bool
  | idle => false
  | waiting _ => false
  | inside _ _ => true

/-- So a thread that is found inside has it. -/
theorem Phase.holds_of_inside {μ σ ρ : Type} {phase : Phase μ σ ρ} {method : μ}
    {rest : Body σ ρ} (inside : phase = .inside method rest) : phase.holds = true := by
  rw [inside]
  rfl

/-- The shared state, its lock, and the phase of every thread. -/
structure Monitor (ι μ σ ρ : Type) where
  shared : σ
  locked : Bool := false
  threads : ι → Phase μ σ ρ := fun _ => .idle

/-- What may happen: a thread calls a method, a thread takes its next step, and code that
does not ask for the lock changes the shared state. -/
inductive MonitorAction (ι μ σ : Type) where
  | call (thread : ι) (method : μ)
  | advance (thread : ι)
  | outside (change : σ → σ)

/-- A call that has returned, with its answer. -/
structure Return (ι μ ρ : Type) where
  thread : ι
  method : μ
  answer : ρ
deriving DecidableEq, Repr

namespace Monitor

variable {ι μ σ ρ : Type} [DecidableEq ι] (body : μ → Body σ ρ)

/-- The same monitor, with one thread elsewhere. -/
def put (m : Monitor ι μ σ ρ) (thread : ι) (phase : Phase μ σ ρ) : Monitor ι μ σ ρ :=
  { m with threads := Function.update m.threads thread phase }

/-- The next step of a thread. A thread that waits takes the lock when it is free and waits
on otherwise; after its last step it gives the lock back and answers. -/
def advance (thread : ι) : Program (Monitor ι μ σ ρ) (Option ρ) := fun m =>
  match m.threads thread with
  | .idle => (none, m)
  | .waiting method =>
    if m.locked then (none, m)
    else (none, { m.put thread (.inside method (body method)) with locked := true })
  | .inside method (.step change next) =>
    (none, { m.put thread (.inside method (next m.shared)) with shared := change m.shared })
  | .inside _ (.done answer) => (some answer, { m.put thread .idle with locked := false })

/-- A thread that is in a call cannot make another one. -/
def happen : MonitorAction ι μ σ → Program (Monitor ι μ σ ρ) (Option ρ)
  | .call thread method => fun m =>
    match m.threads thread with
    | .idle => (none, m.put thread (.waiting method))
    | .waiting _ => (none, m)
    | .inside _ _ => (none, m)
  | .advance thread => advance body thread
  | .outside change => fun m => (none, { m with shared := change m.shared })

/-- The call that returns in a turn, with the answer that the turn gives. -/
def returning (entry : Runs.Turn (Monitor ι μ σ ρ) (MonitorAction ι μ σ) (Option ρ)) :
    Option (Return ι μ ρ) :=
  match entry.operation with
  | .advance thread =>
    match entry.before.threads thread with
    | .inside method _ => entry.outcome.map fun answer => ⟨thread, method, answer⟩
    | .waiting _ => none
    | .idle => none
  | .call _ _ => none
  | .outside _ => none

/-- Code without the lock leaves the shared state alone while a call is inside. -/
def Undisturbed (entry : Runs.Turn (Monitor ι μ σ ρ) (MonitorAction ι μ σ) (Option ρ)) : Prop :=
  ∀ change, entry.operation = .outside change → entry.before.locked = true →
    change entry.before.shared = entry.before.shared

/-- The turn is made without the lock. -/
def fromOutside (entry : Runs.Turn (Monitor ι μ σ ρ) (MonitorAction ι μ σ) (Option ρ)) : Bool :=
  match entry.operation with
  | .outside _ => true
  | .call _ _ => false
  | .advance _ => false

omit [DecidableEq ι] in
/-- Changes from outside that meet the lock free disturb nobody. -/
theorem undisturbed_of_free
    {entry : Runs.Turn (Monitor ι μ σ ρ) (MonitorAction ι μ σ) (Option ρ)}
    (free : fromOutside entry = true → entry.before.locked = false) : Undisturbed entry := by
  intro change outside taken
  rw [free (by rw [fromOutside, outside])] at taken
  cases taken

/-- One whole method, performed alone, or one change from outside. -/
inductive Whole (perform : μ → Program σ ρ) (changes : (σ → σ) → Prop) :
    σ → Option (Return ι μ ρ) → σ → Prop
  | method (thread : ι) (method : μ) (s : σ) :
    Whole perform changes s (some ⟨thread, method, (perform method).result s⟩)
      ((perform method).after s)
  | outside {change : σ → σ} (s : σ) (possible : changes change) :
    Whole perform changes s none (change s)

/-- The shared state is the given one, but for what the call inside has done since: what
is left of it leads where all of it leads from there. -/
structure InProgress (perform : μ → Program σ ρ) (s : σ) (m : Monitor ι μ σ ρ) : Prop where
  free : m.locked = false → m.shared = s
  inside : ∀ thread method rest, m.threads thread = .inside method rest →
    rest.whole.run m.shared = (perform method).run s

/-- The lock is taken exactly if some thread is inside, and then only one is. -/
def Exclusive (m : Monitor ι μ σ ρ) : Prop :=
  ExclusiveFlag.Truthful Phase.holds m.locked fun thread => [m.threads thread]

/-! ## What a step does -/

section Steps

variable {body} {m : Monitor ι μ σ ρ} {thread : ι} {method : μ}

/-- The thread is where it was put. -/
@[simp] theorem put_self (m : Monitor ι μ σ ρ) (thread : ι) (phase : Phase μ σ ρ) :
    (m.put thread phase).threads thread = phase := Function.update_self ..

/-- The other threads stay. -/
theorem put_of_ne (m : Monitor ι μ σ ρ) {thread other : ι} (phase : Phase μ σ ρ)
    (different : other ≠ thread) : (m.put thread phase).threads other = m.threads other :=
  Function.update_of_ne different ..

/-- A thread without a call has no step to take. -/
theorem advance_idle (idle : m.threads thread = .idle) :
    (advance body thread).run m = (none, m) := by
  simp [advance, StateT.run, idle]

/-- A thread that waits for a lock that is taken takes no step. -/
theorem advance_blocked (waits : m.threads thread = .waiting method) (taken : m.locked = true) :
    (advance body thread).run m = (none, m) := by
  simp [advance, StateT.run, waits, taken]

/-- A thread that waits for a free lock takes it and enters. -/
theorem advance_enters (waits : m.threads thread = .waiting method) (free : m.locked = false) :
    (advance body thread).run m =
      (none, { m.put thread (.inside method (body method)) with locked := true }) := by
  simp [advance, StateT.run, waits, free]

/-- A thread inside makes the next step of its body. -/
theorem advance_works {change : σ → σ} {next : σ → Body σ ρ}
    (inside : m.threads thread = .inside method (.step change next)) :
    (advance body thread).run m =
      (none, { m.put thread (.inside method (next m.shared)) with shared := change m.shared }) := by
  simp [advance, StateT.run, inside]

/-- A thread whose body is done answers and gives the lock back. -/
theorem advance_returns {answer : ρ} (inside : m.threads thread = .inside method (.done answer)) :
    (advance body thread).run m =
      (some answer, { m.put thread .idle with locked := false }) := by
  simp [advance, StateT.run, inside]

variable (body) in
/-- A call leaves the shared state and the lock alone, and puts nobody inside. -/
theorem happen_call (thread : ι) (method : μ) (m : Monitor ι μ σ ρ) :
    (happen body (.call thread method)).run m = (none, m) ∨
      m.threads thread = .idle ∧
        (happen body (.call thread method)).run m = (none, m.put thread (.waiting method)) := by
  cases phase : m.threads thread with
  | idle => exact .inr ⟨rfl, by simp [happen, StateT.run, phase]⟩
  | waiting other => exact .inl (by simp [happen, StateT.run, phase])
  | inside other rest => exact .inl (by simp [happen, StateT.run, phase])

end Steps

/-! ## One call at a time -/

section Exclusion

variable {body} {m : Monitor ι μ σ ρ} {thread other : ι}

/-- Moving one thread keeps the lock exclusive, if the flag still tells who has it. -/
theorem exclusive_of_put (m : Monitor ι μ σ ρ) (thread : ι) (phase : Phase μ σ ρ)
    {m' : Monitor ι μ σ ρ}
    (threads : m'.threads = (m.put thread phase).threads)
    (truthful : ExclusiveFlag.Truthful Phase.holds m'.locked
      (Function.update (fun other => [m.threads other]) thread [phase])) : Exclusive m' := by
  have frames : (fun other => [m'.threads other]) =
      Function.update (fun other => [m.threads other]) thread [phase] := by
    funext other
    rw [threads]
    by_cases same : other = thread
    · subst same
      rw [put_self, Function.update_self]
    · rw [put_of_ne m phase same, Function.update_of_ne same]
  unfold Exclusive
  rwa [frames]

/-- At the start nobody has the lock. -/
theorem exclusive_start (s : σ) : Exclusive ({ shared := s } : Monitor ι μ σ ρ) :=
  ⟨none, rfl, fun _ => rfl⟩

/-- A call inside has the lock. -/
theorem Exclusive.locked (exclusive : Exclusive m) (inside : (m.threads thread).holds = true) :
    m.locked = true :=
  ExclusiveFlag.Truthful.flag_of_held exclusive (List.mem_singleton_self _) inside

/-- Two threads that are inside are the same. -/
theorem Exclusive.unique (exclusive : Exclusive m) (inside : (m.threads thread).holds = true)
    (inside' : (m.threads other).holds = true) : other = thread := by
  have one : ExclusiveFlag.HeldAt Phase.holds (fun thread => [m.threads thread]) (other, 0) :=
    ⟨_, rfl, inside'⟩
  have second : ExclusiveFlag.HeldAt Phase.holds (fun thread => [m.threads thread]) (thread, 0) :=
    ⟨_, rfl, inside⟩
  exact congrArg Prod.fst (ExclusiveFlag.Truthful.exclusive exclusive one second)

/-- The lock is kept as it is by a thread that neither goes inside nor leaves. -/
theorem Exclusive.keep (exclusive : Exclusive m) {phase : Phase μ σ ρ}
    (kept : phase.holds = (m.threads thread).holds) (s : σ) :
    Exclusive { m.put thread phase with shared := s } := by
  refine exclusive_of_put m thread phase rfl ?_
  apply ExclusiveFlag.Truthful.keep exclusive
  rw [List.countP_singleton, List.countP_singleton, kept]

/-- Whatever happens keeps the lock exclusive.

Proof: a call and a change from outside leave who has the lock. A step of a thread takes it
where it is free, keeps it, or gives it back. -/
theorem exclusive_happen (exclusive : Exclusive m) (action : MonitorAction ι μ σ) :
    Exclusive ((happen body action).after m) := by
  unfold Program.after
  cases action with
  | call thread method =>
    rcases happen_call body thread method m with same | ⟨idle, same⟩ <;> rw [same]
    · exact exclusive
    · exact exclusive.keep (by rw [idle]; rfl) m.shared
  | outside change => exact exclusive
  | advance thread =>
    change Exclusive ((advance body thread).run m).2
    cases phase : m.threads thread with
    | idle =>
      rw [advance_idle phase]
      exact exclusive
    | waiting method =>
      cases taken : m.locked with
      | true =>
        rw [advance_blocked phase taken]
        exact exclusive
      | false =>
        rw [advance_enters phase taken]
        refine exclusive_of_put m thread (.inside method (body method)) rfl ?_
        exact ExclusiveFlag.Truthful.take exclusive taken thread rfl
    | inside method rest =>
      cases rest with
      | step change next =>
        rw [advance_works phase]
        exact exclusive.keep (by rw [phase]; rfl) _
      | done answer =>
        rw [advance_returns phase]
        refine exclusive_of_put m thread .idle rfl ?_
        apply ExclusiveFlag.Truthful.release exclusive thread _ rfl
        rw [phase]
        exact Nat.one_pos

/-- Every run keeps the lock exclusive. -/
theorem exclusive_final (exclusive : Exclusive m) (actions : List (MonitorAction ι μ σ)) :
    Exclusive (Runs.final (happen body) m actions) :=
  Runs.final_invariant (happen body) m Exclusive
    (fun _ action reached => exclusive_happen reached action) exclusive actions

end Exclusion

/-! ## A run is a sequence of whole methods -/

section Serial

variable {body} {perform : μ → Program σ ρ} {changes : (σ → σ) → Prop} {m : Monitor ι μ σ ρ}
  {thread : ι} {s : σ}

/-- Where only one thread may be inside, it is the one whose phase has been replaced. -/
theorem inside_put {phase : Phase μ σ ρ}
    (others : ∀ other, (m.threads other).holds = true → other = thread) {other : ι} {method : μ}
    {rest : Body σ ρ} (inside : (m.put thread phase).threads other = .inside method rest) :
    phase = .inside method rest := by
  by_cases same : other = thread
  · subst same
    rwa [put_self] at inside
  · rw [put_of_ne m phase same] at inside
    exact absurd (others other (Phase.holds_of_inside inside)) same

/-- Nobody is inside while the lock is free. -/
theorem Exclusive.nobody (exclusive : Exclusive m) (free : m.locked = false) (other : ι)
    (inside : (m.threads other).holds = true) : other = thread := by
  rw [exclusive.locked inside] at free
  cases free

omit [DecidableEq ι] in
/-- At the start no call is in progress. -/
theorem inProgress_start (s : σ) : InProgress perform s ({ shared := s } : Monitor ι μ σ ρ) where
  free _ := rfl
  inside _ _ _ inside := by cases inside

/-- A step of a thread is nothing yet, or it completes one whole method. -/
theorem inProgress_advance (refines : ∀ method, (body method).whole = perform method) (thread : ι)
    (exclusive : Exclusive m) (progress : InProgress perform s m) :
    (returning (Runs.turn (happen body) m (.advance thread)) = none ∧
      InProgress perform s ((advance body thread).after m)) ∨
    ∃ method, returning (Runs.turn (happen body) m (.advance thread)) =
        some ⟨thread, method, (perform method).result s⟩ ∧
      InProgress perform ((perform method).after s) ((advance body thread).after m) := by
  cases phase : m.threads thread with
  | idle =>
    refine .inl ⟨by simp [returning, Runs.turn, phase], ?_⟩
    rw [Program.after, advance_idle phase]
    exact progress
  | waiting method =>
    refine .inl ⟨by simp [returning, Runs.turn, phase], ?_⟩
    cases taken : m.locked with
    | true =>
      rw [Program.after, advance_blocked phase taken]
      exact progress
    | false =>
      rw [Program.after, advance_enters phase taken]
      refine ⟨fun free => Bool.noConfusion free, ?_⟩
      intro other called rest inside
      have entered := inside_put (exclusive.nobody taken) inside
      cases entered
      rw [refines, ← progress.free taken]
      rfl
  | inside method rest =>
    have alone (other : ι) (inside : (m.threads other).holds = true) : other = thread :=
      exclusive.unique (Phase.holds_of_inside phase) inside
    cases rest with
    | step change next =>
      refine .inl ⟨?_, ?_⟩
      · have silent : (happen body (.advance thread)).result m = none :=
          congrArg Prod.fst (advance_works phase)
        simp [returning, Runs.turn, phase, silent]
      · rw [Program.after, advance_works phase]
        refine ⟨fun free => ?_, ?_⟩
        · have taken := exclusive.locked (Phase.holds_of_inside phase)
          exact absurd (taken.symm.trans free) Bool.noConfusion
        · intro other called rest inside
          have worked := inside_put alone inside
          cases worked
          exact progress.inside thread method _ phase
    | done answer =>
      have whole : (perform method).run s = (answer, m.shared) :=
        (progress.inside thread method _ phase).symm
      refine .inr ⟨method, ?_, ?_⟩
      · have answered : (happen body (.advance thread)).result m = some answer :=
          congrArg Prod.fst (advance_returns phase)
        have same : (perform method).result s = answer := congrArg Prod.fst whole
        simp [returning, Runs.turn, phase, answered, same]
      · rw [Program.after, Program.after, advance_returns phase, whole]
        refine ⟨fun _ => rfl, ?_⟩
        intro other called rest inside
        have left := inside_put alone inside
        cases left

/-- What one thing that happens stands for: nothing, a whole method or a change from outside. -/
theorem inProgress_happen (refines : ∀ method, (body method).whole = perform method)
    (exclusive : Exclusive m) (progress : InProgress perform s m)
    (action : MonitorAction ι μ σ)
    (possible : ∀ change, action = .outside change → changes change)
    (undisturbed : Undisturbed (Runs.turn (happen body) m action)) :
    ∃ past s', Runs.Path (Whole perform changes) s past s' ∧
      past.filterMap Prod.fst = (returning (Runs.turn (happen body) m action)).toList ∧
      InProgress perform s' ((happen body action).after m) := by
  cases action with
  | call thread method =>
    refine ⟨[], s, .start, rfl, ?_⟩
    unfold Program.after
    rcases happen_call body thread method m with same | ⟨idle, same⟩ <;> rw [same]
    · exact progress
    · refine ⟨progress.free, ?_⟩
      intro other called rest inside
      by_cases own : other = thread
      · subst own
        rw [put_self] at inside
        cases inside
      · rw [put_of_ne m _ own] at inside
        exact progress.inside other called rest inside
  | outside change =>
    cases taken : m.locked with
    | true =>
      refine ⟨[], s, .start, rfl, ?_⟩
      have same : change m.shared = m.shared := undisturbed change rfl taken
      change InProgress perform s { m with shared := change m.shared }
      rwa [same]
    | false =>
      refine ⟨_, _, Runs.Path.start.extend (.outside s (possible change rfl)), rfl, ?_, ?_⟩
      · intro free
        exact congrArg change (progress.free free)
      · intro other called rest inside
        rw [exclusive.locked (Phase.holds_of_inside inside)] at taken
        cases taken
  | advance thread =>
    rcases inProgress_advance refines thread exclusive progress with
      ⟨silent, kept⟩ | ⟨method, returned, kept⟩
    · exact ⟨[], s, .start, by rw [silent]; rfl, kept⟩
    · exact ⟨_, _, Runs.Path.start.extend (.method thread method s), by rw [returned]; rfl, kept⟩

/-- Every undisturbed run leads where a sequence of whole methods and changes from outside
leads, but for what the call inside has done. The methods of the sequence, with their
answers, are those that have returned, in this order. -/
theorem serial (refines : ∀ method, (body method).whole = perform method) (s : σ)
    (actions : List (MonitorAction ι μ σ))
    (possible : ∀ change, .outside change ∈ actions → changes change) :
    let start : Monitor ι μ σ ρ := { shared := s }
    (∀ entry ∈ Runs.history (happen body) start actions, Undisturbed entry) →
    ∃ past s', Runs.Path (Whole perform changes) s past s' ∧
      past.filterMap Prod.fst = (Runs.history (happen body) start actions).filterMap returning ∧
      InProgress perform s' (Runs.final (happen body) start actions) := by
  intro start undisturbed
  induction actions using List.reverseRecOn with
  | nil => exact ⟨[], s, .start, rfl, inProgress_start s⟩
  | append_singleton actions action inductionHypothesis =>
    rw [Runs.history_concat] at undisturbed
    obtain ⟨earlier, last⟩ := List.forall_mem_append.mp undisturbed
    obtain ⟨past, s', path, returned, progress⟩ := inductionHypothesis
      (fun change member => possible change (List.mem_append_left _ member)) earlier
    have appended := List.mem_append_right actions (List.mem_singleton_self action)
    obtain ⟨next, s'', onward, completed, kept⟩ := inProgress_happen refines
      (exclusive_final (exclusive_start s) actions) progress action
      (fun change same => possible change (same ▸ appended)) (last _ (List.mem_singleton_self _))
    refine ⟨past ++ next, s'', path.append onward, ?_, ?_⟩
    · rw [Runs.history_concat, List.filterMap_append, List.filterMap_append, returned, completed,
        List.filterMap_cons]
      cases returning (Runs.turn (happen body) (Runs.final (happen body) start actions) action) <;>
        rfl
    · rw [Runs.final_concat]
      exact kept

/-- The shared state after whole methods in order. -/
def replay (perform : μ → Program σ ρ) (s : σ) (calls : List (Return ι μ ρ)) : σ :=
  calls.foldl (fun s call => (perform call.method).after s) s

omit [DecidableEq ι] in
/-- One more call is replayed last. -/
theorem replay_concat (s : σ) (calls : List (Return ι μ ρ)) (call : Return ι μ ρ) :
    replay perform s (calls ++ [call]) = (perform call.method).after (replay perform s calls) := by
  rw [replay, List.foldl_append]
  rfl

omit [DecidableEq ι] in
/-- Without changes from outside, whole methods lead where their replay leads, and each has
given the answer that it gives after the ones before it. -/
theorem path_replay {past : List (Option (Return ι μ ρ) × σ)} {s' : σ}
    (path : Runs.Path (Whole perform fun _ => False) s past s') :
    s' = replay perform s (past.filterMap Prod.fst) ∧
      ∀ earlier call later, past.filterMap Prod.fst = earlier ++ call :: later →
        call.answer = (perform call.method).result (replay perform s earlier) := by
  induction path with
  | start => exact ⟨rfl, fun earlier call later split => by simp at split⟩
  | extend path last inductionHypothesis =>
    obtain ⟨rfl, answered⟩ := inductionHypothesis
    cases last with
    | outside s impossible => exact impossible.elim
    | method thread method s =>
      rw [List.filterMap_append]
      refine ⟨(replay_concat s _ ⟨thread, method, _⟩).symm, ?_⟩
      intro earlier call later split
      rcases List.eq_nil_or_concat later with rfl | ⟨inner, final, rfl⟩
      · obtain ⟨rfl, same⟩ := List.append_inj' split rfl
        obtain rfl := List.singleton_inj.mp same
        rfl
      · have longer : earlier ++ call :: inner.concat final =
            (earlier ++ call :: inner) ++ [final] := by
          simp
        rw [longer] at split
        obtain ⟨before, -⟩ := List.append_inj' split rfl
        exact answered earlier call inner before

/-- In a run without changes from outside the calls that have returned lead to the shared
state, but for what the call inside has done, and their answers are those of the replay. -/
theorem replayed (refines : ∀ method, (body method).whole = perform method) (s : σ)
    (actions : List (MonitorAction ι μ σ)) (inner : ∀ change, .outside change ∉ actions) :
    let start : Monitor ι μ σ ρ := { shared := s }
    let returned := (Runs.history (happen body) start actions).filterMap returning
    InProgress perform (replay perform s returned) (Runs.final (happen body) start actions) ∧
      ∀ earlier call later, returned = earlier ++ call :: later →
        call.answer = (perform call.method).result (replay perform s earlier) := by
  intro start returned
  have undisturbed : ∀ entry ∈ Runs.history (happen body) start actions, Undisturbed entry := by
    intro entry member change outside
    have performed : entry.operation ∈ actions := Runs.operation_mem_of_mem_history _ _ member
    rw [outside] at performed
    exact absurd performed (inner change)
  have never (change : σ → σ) (member : .outside change ∈ actions) : False := inner change member
  obtain ⟨past, s', path, same, progress⟩ := serial refines s actions never undisturbed
  obtain ⟨rfl, answered⟩ := path_replay path
  rw [same] at progress answered
  exact ⟨progress, answered⟩

end Serial

/-! ## The call inside -/

section Inside

variable {body} {m : Monitor ι μ σ ρ} {thread : ι}

/-- A taken lock has a holder. -/
theorem Exclusive.holder (exclusive : Exclusive m) (taken : m.locked = true) :
    ∃ thread method rest, m.threads thread = .inside method rest := by
  obtain ⟨⟨thread, depth⟩, ⟨phase, found, held⟩, -⟩ :=
    (ExclusiveFlag.Truthful.flag_iff exclusive).mp taken
  obtain rfl := List.mem_singleton.mp (List.mem_of_getElem? found)
  cases inside : m.threads thread with
  | idle => simp [inside, Phase.holds] at held
  | waiting method => simp [inside, Phase.holds] at held
  | inside method rest => exact ⟨thread, method, rest, inside⟩

/-- What is left of a call inside was left before, is all of its body, or is what follows
the step that it has just taken. -/
theorem inside_happen (action : MonitorAction ι μ σ) {method : μ} {rest : Body σ ρ}
    (inside : ((happen body action).after m).threads thread = .inside method rest) :
    m.threads thread = .inside method rest ∨ rest = body method ∨
      ∃ change next, m.threads thread = .inside method (.step change next) ∧
        rest = next m.shared := by
  have replaced {other : ι} {phase : Phase μ σ ρ}
      (inside : (m.put other phase).threads thread = .inside method rest) :
      thread = other ∧ phase = .inside method rest ∨ m.threads thread = .inside method rest := by
    by_cases same : thread = other
    · subst same
      rw [put_self] at inside
      exact .inl ⟨rfl, inside⟩
    · rw [put_of_ne m phase same] at inside
      exact .inr inside
  unfold Program.after at inside
  cases action with
  | outside change => exact .inl inside
  | call other called =>
    rcases happen_call body other called m with same | ⟨-, same⟩ <;> rw [same] at inside
    · exact .inl inside
    · rcases replaced inside with ⟨-, waits⟩ | before
      · cases waits
      · exact .inl before
  | advance other =>
    change ((advance body other).run m).2.threads thread = .inside method rest at inside
    cases phase : m.threads other with
    | idle =>
      rw [advance_idle phase] at inside
      exact .inl inside
    | waiting called =>
      cases taken : m.locked with
      | true =>
        rw [advance_blocked phase taken] at inside
        exact .inl inside
      | false =>
        rw [advance_enters phase taken] at inside
        rcases replaced inside with ⟨-, entered⟩ | before
        · cases entered
          exact .inr (.inl rfl)
        · exact .inl before
    | inside called left =>
      cases left with
      | step change next =>
        rw [advance_works phase] at inside
        rcases replaced inside with ⟨rfl, worked⟩ | before
        · cases worked
          exact .inr (.inr ⟨change, next, phase, rfl⟩)
        · exact .inl before
      | done answer =>
        rw [advance_returns phase] at inside
        rcases replaced inside with ⟨-, left⟩ | before
        · cases left
        · exact .inl before

/-- What holds of all bodies, and of what follows a step wherever it holds of the step, holds
of what is left of every call inside. -/
theorem rests_final {Q : μ → Body σ ρ → Prop} (bodies : ∀ method, Q method (body method))
    (later : ∀ method change next s, Q method (.step change next) → Q method (next s)) (s : σ)
    (actions : List (MonitorAction ι μ σ)) :
    ∀ thread method rest, (Runs.final (happen body) ({ shared := s } : Monitor ι μ σ ρ)
      actions).threads thread = .inside method rest → Q method rest := by
  apply Runs.final_invariant (happen body) _ fun m : Monitor ι μ σ ρ =>
    ∀ thread method rest, m.threads thread = .inside method rest → Q method rest
  · intro m action before thread method rest inside
    rcases inside_happen action inside with kept | rfl | ⟨change, next, stepped, rfl⟩
    · exact before thread method rest kept
    · exact bodies method
    · exact later method change next _ (before thread method _ stepped)
  · intro thread method rest inside
    cases inside

/-- Where all steps of all bodies are in a relation, every undisturbed run is related to
where a sequence of whole methods leads: those that have returned and the one inside. -/
theorem serial_within {perform : μ → Program σ ρ}
    (refines : ∀ method, (body method).whole = perform method) {changes : (σ → σ) → Prop}
    {R : σ → σ → Prop} (refl : ∀ s, R s s) (trans : ∀ s t u, R s t → R t u → R s u)
    (related : ∀ method, (body method).Relates R) (s : σ) (actions : List (MonitorAction ι μ σ))
    (possible : ∀ change, .outside change ∈ actions → changes change)
    (undisturbed : ∀ entry ∈ Runs.history (happen body) ({ shared := s } : Monitor ι μ σ ρ) actions,
      Undisturbed entry) :
    let start : Monitor ι μ σ ρ := { shared := s }
    ∃ past s' pending, Runs.Path (Whole perform changes) s past s' ∧
      past.filterMap Prod.fst =
        (Runs.history (happen body) start actions).filterMap returning ++ Option.toList pending ∧
      (∀ call ∈ pending, ∃ rest, (Runs.final (happen body) start actions).threads call.thread =
        .inside call.method rest) ∧
      R (Runs.final (happen body) start actions).shared s' := by
  intro start
  obtain ⟨past, s', path, returned, progress⟩ := serial refines s actions possible undisturbed
  have exclusive : Exclusive (Runs.final (happen body) start actions) :=
    exclusive_final (exclusive_start s) actions
  cases taken : (Runs.final (happen body) start actions).locked with
  | false =>
    refine ⟨past, s', none, path, ?_, ?_, ?_⟩
    · rw [returned]
      exact (List.append_nil _).symm
    · intro call member
      cases member
    · rw [progress.free taken]
      exact refl s'
  | true =>
    obtain ⟨thread, method, rest, inside⟩ := exclusive.holder taken
    have remaining : rest.Relates R :=
      rests_final (Q := fun _ rest => rest.Relates R) related (fun _ _ _ s both => (both s).2) s
        actions thread method rest inside
    let pending : Return ι μ ρ := ⟨thread, method, (perform method).result s'⟩
    refine ⟨_, _, some pending, path.extend (.method thread method s'), ?_, ?_, ?_⟩
    · rw [List.filterMap_append, returned]
      rfl
    · intro call member
      obtain rfl := Option.some.inj member
      exact ⟨rest, inside⟩
    · have leads : rest.whole.after _ = (perform method).after s' :=
        congrArg Prod.snd (progress.inside thread method rest inside)
      rw [← leads]
      exact remaining.whole refl trans _

/-- The turn is a step of the thread. -/
def advances (thread : ι)
    (entry : Runs.Turn (Monitor ι μ σ ρ) (MonitorAction ι μ σ) (Option ρ)) : Bool :=
  match entry.operation with
  | .advance other => other == thread
  | .call _ _ => false
  | .outside _ => false

/-- While a call is inside, only a step of its own thread touches its phase: no other thread
can come inside, and a change from outside moves no thread. -/
theorem threads_happen (exclusive : Exclusive m) {method : μ} {rest : Body σ ρ}
    (inside : m.threads thread = .inside method rest) {action : MonitorAction ι μ σ}
    (other : action ≠ .advance thread) :
    ((happen body action).after m).threads thread = .inside method rest := by
  have taken : m.locked = true := exclusive.locked (Phase.holds_of_inside inside)
  cases action with
  | outside change => exact inside
  | call caller called =>
    unfold Program.after
    rcases happen_call body caller called m with same | ⟨idle, same⟩ <;> rw [same]
    · exact inside
    · have different : thread ≠ caller := by
        rintro rfl
        rw [inside] at idle
        cases idle
      exact (put_of_ne m _ different).trans inside
  | advance stepping =>
    have different : stepping ≠ thread := by
      rintro rfl
      exact other rfl
    have same : (happen body (.advance stepping)).after m = m := by
      change ((advance body stepping).run m).2 = m
      cases phase : m.threads stepping with
      | idle => rw [advance_idle phase]
      | waiting called => rw [advance_blocked phase taken]
      | inside called left =>
        have one := exclusive.unique (Phase.holds_of_inside inside) (Phase.holds_of_inside phase)
        exact absurd one different
    rw [same]
    exact inside

/-- A step of the thread that is inside gives the answer, or leaves one step less to do,
whatever state it finds. -/
theorem own_step {limit : Nat} {method : μ} {rest : Body σ ρ}
    (inside : m.threads thread = .inside method rest) (bounded : rest.AtMost limit) :
    (∃ answer, returning (Runs.turn (happen body) m (.advance thread)) =
        some ⟨thread, method, answer⟩) ∨
      ∃ rest' less, ((happen body (.advance thread)).after m).threads thread =
          .inside method rest' ∧ rest'.AtMost less ∧ less + 1 = limit := by
  cases rest with
  | done answer =>
    refine .inl ⟨answer, ?_⟩
    have answered : (happen body (.advance thread)).result m = some answer :=
      congrArg Prod.fst (advance_returns inside)
    simp [returning, Runs.turn, inside, answered]
  | step change next =>
    cases limit with
    | zero => exact bounded.elim
    | succ less =>
      have worked : (happen body (.advance thread)).after m =
          { m.put thread (.inside method (next m.shared)) with shared := change m.shared } :=
        congrArg Prod.snd (advance_works inside)
      refine .inr ⟨next m.shared, less, ?_, bounded m.shared, rfl⟩
      rw [worked]
      exact put_self ..

/-- A call inside returns, or its thread has taken no more steps than are left of its body,
whatever the other threads do and whatever is changed from outside.

Proof: by induction on what happens. A step of the thread itself uses up one of the steps
that are left, and everything else leaves the call where it is. -/
theorem holder_returns {limit : Nat} (exclusive : Exclusive m) {method : μ} {rest : Body σ ρ}
    (inside : m.threads thread = .inside method rest) (bounded : rest.AtMost limit)
    (actions : List (MonitorAction ι μ σ)) :
    (∃ entry ∈ Runs.history (happen body) m actions, ∃ answer,
        returning entry = some ⟨thread, method, answer⟩) ∨
      (Runs.history (happen body) m actions).countP (advances thread) ≤ limit := by
  induction actions generalizing m rest limit with
  | nil => exact .inr (Nat.zero_le limit)
  | cons action actions inductionHypothesis =>
    have exclusive' : Exclusive ((happen body action).after m) := exclusive_happen exclusive action
    rw [Runs.history, List.countP_cons]
    by_cases own : action = .advance thread
    · subst own
      rcases own_step inside bounded with returned | ⟨rest', less, inside', bounded', rfl⟩
      · exact .inl ⟨_, List.mem_cons_self, returned⟩
      · rcases inductionHypothesis exclusive' inside' bounded' with ⟨entry, later, returned⟩ | few
        · exact .inl ⟨entry, List.mem_cons_of_mem _ later, returned⟩
        · have counted : advances thread (Runs.turn (happen body) m (.advance thread)) = true :=
            beq_self_eq_true thread
          rw [if_pos counted]
          exact .inr (Nat.succ_le_succ few)
    · have uncounted : ¬ advances thread (Runs.turn (happen body) m action) = true := by
        intro counted
        cases action with
        | advance other => exact own (congrArg MonitorAction.advance (eq_of_beq counted))
        | call _ _ => cases counted
        | outside _ => cases counted
      rw [if_neg uncounted]
      rcases inductionHypothesis exclusive' (threads_happen exclusive inside own) bounded with
        ⟨entry, later, returned⟩ | few
      · exact .inl ⟨entry, List.mem_cons_of_mem _ later, returned⟩
      · exact .inr few

end Inside

end Monitor

end MoEcat
