import MoEcat.FailureReactions

/-!
# Interleaved activities as whole ones

Threads take the steps of their calls in any order, yet the flag lets one body proceed at
a time. Where nothing else changes the master while a call has the flag, a run is one of
whole activities: each body that has ended did so in one piece, from the master that the
ones before it left, and in a state that permitted it. Reactions to failures and other
changes fall between them.
-/

namespace MoEcat

variable {ι β : Type}

/-- The same master with another state of its bus master. -/
def Impl.withMaster (i : Impl β) (m : EcMaster β) : Impl β :=
  { i with controller := { i.controller with master := m } }

/-- The bus master is the one put in. -/
@[simp] theorem Impl.withMaster_master (i : Impl β) (m : EcMaster β) :
    (i.withMaster m).controller.master = m := rfl

/-- The last one put in counts. -/
@[simp] theorem Impl.withMaster_withMaster (i : Impl β) (m m' : EcMaster β) :
    (i.withMaster m).withMaster m' = i.withMaster m' := rfl

/-- What is left of a body, and the bus master, some way into it. A call of Execute from
inside has been refused. -/
inductive ActivityBody.Reaches (whole : ActivityBody β) (m : EcMaster β) :
    ActivityBody β → EcMaster β → Prop
  | begun : Reaches whole m whole m
  | access {act : EcMaster β → ActivityBody β × EcMaster β} {now : EcMaster β}
      (before : Reaches whole m (.access act) now) : Reaches whole m (act now).1 (act now).2
  | reenter {activity : Option (EcatActivity β)} {next : Bool → ActivityBody β}
      {now : EcMaster β} (before : Reaches whole m (.reenter activity next) now) :
      Reaches whole m (next false) now

/-- The rest of a body, wherever it was reached, ends as the whole does. -/
theorem ActivityBody.Reaches.finishes {whole rest : ActivityBody β} {m now last : EcMaster β}
    {ok : Bool} (reached : whole.Reaches m rest now) (ends : rest.Finishes now ok last) :
    whole.Finishes m ok last := by
  induction reached with
  | begun => exact ends
  | access before inductionHypothesis =>
    apply inductionHypothesis
    exact .access ends
  | reenter before inductionHypothesis =>
    apply inductionHypothesis
    exact .reenter ends

/-- A call whose body has come to its end: the activity and its result. -/
def ExecuteCall.completion (call : ExecuteCall β) : Option (EcatActivity β × Bool) :=
  match call.phase with
  | .executing (.finished ok) => some (call.activity, ok)
  | _ => none

/-- A call whose body has ended, with its result. -/
def ExecuteCall.ended (call : ExecuteCall β) : Option (EcatActivity β × Bool) :=
  match call.phase with
  | .finished ok | .released ok => some (call.activity, ok)
  | _ => none

/-- A call that is about to react to the end of its activity. -/
def ExecuteCall.reacts (call : ExecuteCall β) : Bool :=
  match call.phase with
  | .released _ => true
  | _ => false

/-- What happens to a master whose activities are not interrupted. -/
inductive WholeAction (β : Type) where
  | body (activity : EcatActivity β) (ok : Bool)
  | reaction (ok : Bool) (policy : ActivityFailurePolicy)
  | other (change : Impl β → Impl β)

/-- The activity that was executed, with its result. -/
def WholeAction.execution : WholeAction β → Option (EcatActivity β × Bool)
  | .body activity ok => some (activity, ok)
  | _ => none

namespace ActivityScheduler

open ExclusiveFlag (HeldAt)

/-- The turn ends a body: the activity and its result. -/
def completion (entry : SchedulerTurn ι β) : Option (EcatActivity β × Bool) :=
  (stepping entry).bind ExecuteCall.completion

/-- The turn may change the master without being a step of the call that has the flag. -/
def fromOutside (entry : SchedulerTurn ι β) : Bool :=
  match entry.operation with
  | .interfere _ => true
  | _ => (stepping entry).any ExecuteCall.reacts

/-- Nothing from outside changes the master while a call has the flag. -/
def Undisturbed (entry : SchedulerTurn ι β) : Prop :=
  fromOutside entry = true → entry.before.running = true → entry.after.master = entry.before.master

/-- A call answers success only after its activity has been executed with success. -/
def Answers (past : List (SchedulerTurn ι β)) (entry : SchedulerTurn ι β) : Prop :=
  entry.outcome = some true →
    ∃ call, stepping entry = some call ∧ (call.activity, true) ∈ past.filterMap completion

variable [DecidableEq ι] [Platform β]

/-- Activities of some kind, one after another, with changes of some kind in between. -/
inductive Whole (provider : Option (Impl β → MasterRuntimeState)) (given : EcatActivity β → Prop)
    (changes : (Impl β → Impl β) → Prop) : Impl β → WholeAction β → Impl β → Prop
  | body {i : Impl β} {activity : EcatActivity β} {ok : Bool} {m : EcMaster β}
      (present : given activity) (starts : activity.canStart (observedState provider i) = true)
      (finishes : activity.execute.Finishes i.controller.master ok m) :
      Whole provider given changes i (.body activity ok) (i.withMaster m)
  | reaction (i : Impl β) (ok : Bool) {activity : EcatActivity β} (present : given activity) :
      Whole provider given changes i (.reaction ok activity.failurePolicy)
        ((Impl.handle (.activity ok activity.failurePolicy)).after i)
  | other (i : Impl β) {change : Impl β → Impl β} (possible : changes change) :
      Whole provider given changes i (.other change) (change i)

/-- What a call has done to the master since the last whole action. -/
def Pending (provider : Option (Impl β → MasterRuntimeState)) (i now : Impl β)
    (call : ExecuteCall β) : Prop :=
  match call.phase with
  | .called | .released _ => True
  | .exchanged | .rejected | .finished _ => now = i
  | .permitted => call.activity.canStart (observedState provider i) = true ∧ now = i
  | .executing body =>
    call.activity.canStart (observedState provider i) = true ∧
      ∃ m, call.activity.execute.Reaches i.controller.master body m ∧ now = i.withMaster m

/-- The master is where the whole actions have led, but for the body in progress. -/
def InProgress (provider : Option (Impl β → MasterRuntimeState)) (i : Impl β)
    (s : ActivityScheduler ι β) : Prop :=
  (s.running = false → s.master = i) ∧
    ∀ thread, ∀ call ∈ s.calls thread, Pending provider i s.master call

/-- The calls of one thread, the outermost with an activity of the kind given. A call of
Execute from inside a body is the only kind of nesting, and has not taken the flag. -/
inductive Shape (given : EcatActivity β → Prop) : List (ExecuteCall β) → Prop
  | idle : Shape given []
  | single (call : ExecuteCall β) (present : given call.activity) : Shape given [call]
  | nested (activity : EcatActivity β) {outer : EcatActivity β} (next : Bool → ActivityBody β)
      (present : given outer) :
      Shape given [⟨activity, .called⟩, ⟨outer, .executing (.reenter (some activity) next)⟩]

omit [DecidableEq ι] [Platform β] in
/-- A call that has the flag is the outermost one of its thread. -/
theorem Shape.given_of_holds {given : EcatActivity β → Prop} {stack : List (ExecuteCall β)}
    (shape : Shape given stack) {call : ExecuteCall β} (member : call ∈ stack)
    (held : call.holds = true) : given call.activity := by
  cases shape with
  | idle => cases member
  | single _ present =>
    obtain rfl := List.mem_singleton.mp member
    exact present
  | nested activity next present =>
    rcases List.mem_cons.mp member with rfl | below
    · cases held
    · obtain rfl := List.mem_singleton.mp below
      exact present

section Invariants

variable {provider : Option (Impl β → MasterRuntimeState)} {given : EcatActivity β → Prop}
  {changes : (Impl β → Impl β) → Prop} {s : ActivityScheduler ι β} {i : Impl β} {thread : ι}

omit [DecidableEq ι] [Platform β] in
/-- A call without the flag has done nothing to the master. -/
theorem pending_of_not_holds (now : Impl β) {call : ExecuteCall β} (free : call.holds = false) :
    Pending provider i now call := by
  obtain ⟨activity, phase⟩ := call
  cases phase <;> trivial

omit [Platform β] in
/-- While one call has the flag, the calls of other threads do not. -/
theorem not_holds_of_ne (truthful : FlagTruthful s) {call : ExecuteCall β}
    (member : call ∈ s.calls thread) (held : call.holds = true) {other : ι}
    (different : other ≠ thread) {another : ExecuteCall β} (present : another ∈ s.calls other) :
    another.holds = false := by
  apply Bool.eq_false_iff.mpr
  intro holds
  obtain ⟨depth, found⟩ := List.mem_iff_getElem?.mp member
  obtain ⟨height, located⟩ := List.mem_iff_getElem?.mp present
  have one : HeldAt ExecuteCall.holds s.calls (thread, depth) := ⟨call, found, held⟩
  have two : HeldAt ExecuteCall.holds s.calls (other, height) := ⟨another, located, holds⟩
  exact different (congrArg Prod.fst (truthful.exclusive two one))

omit [Platform β] in
/-- While the flag is clear, no call has it. -/
theorem not_holds_of_clear (truthful : FlagTruthful s) (clear : s.running = false)
    {call : ExecuteCall β} (member : call ∈ s.calls thread) : call.holds = false := by
  apply Bool.eq_false_iff.mpr
  intro held
  have taken := truthful.flag_of_held member held
  rw [clear] at taken
  cases taken

omit [Platform β] in
/-- It is enough to look at the stack that has changed, when what the others wait for has
not. -/
theorem inProgress_put {t : ActivityScheduler ι β} {stack : List (ExecuteCall β)}
    (calls : t.calls = (s.put thread stack).calls) (vacant : t.running = false → t.master = i)
    (own : ∀ call ∈ stack, Pending provider i t.master call)
    (others : ∀ other, other ≠ thread → ∀ call ∈ s.calls other, Pending provider i t.master call) :
    InProgress provider i t := by
  refine ⟨vacant, ?_⟩
  intro other call member
  rw [calls] at member
  by_cases same : other = thread
  · subst same
    rw [put_calls_self] at member
    exact own call member
  · rw [put_calls_of_ne s same] at member
    exact others other same call member

omit [Platform β] in
/-- The same for a stack of one call. -/
theorem inProgress_single {t : ActivityScheduler ι β} {call : ExecuteCall β}
    (calls : t.calls = (s.put thread [call]).calls) (vacant : t.running = false → t.master = i)
    (own : Pending provider i t.master call)
    (others : ∀ other, other ≠ thread → ∀ call ∈ s.calls other, Pending provider i t.master call) :
    InProgress provider i t :=
  inProgress_put calls vacant (List.forall_mem_singleton.mpr own) others

omit [Platform β] in
/-- What the others wait for does not matter to them while one call has the flag. -/
theorem pending_of_ne (truthful : FlagTruthful s) {call : ExecuteCall β}
    (member : call ∈ s.calls thread) (held : call.holds = true) (now : Impl β) (other : ι)
    (different : other ≠ thread) (another : ExecuteCall β) (present : another ∈ s.calls other) :
    Pending provider i now another :=
  pending_of_not_holds now (not_holds_of_ne truthful member held different present)

variable (provider) in
/-- Every step keeps the shape of the stacks, and a call is one whose body has ended only
by the step that ends it. -/
theorem shape_advance {call : ExecuteCall β} {below : List (ExecuteCall β)}
    (truthful : FlagTruthful s) (inside : s.calls thread = call :: below)
    (shape : Shape given (call :: below)) :
    ∃ stack, ((advance provider thread call below).after s).calls = (s.put thread stack).calls ∧
      Shape given stack ∧
      ∀ later ∈ stack, later.ended = none ∨ later.ended = call.completion ∨
        later.ended = call.ended := by
  have single (only : ExecuteCall β)
      (known : only.ended = none ∨ only.ended = call.completion ∨ only.ended = call.ended) :
      ∀ later ∈ [only], later.ended = none ∨ later.ended = call.completion ∨
        later.ended = call.ended :=
    List.forall_mem_singleton.mpr known
  cases shape with
  | single _ present =>
    obtain ⟨activity, phase⟩ := call
    cases phase with
    | called =>
      by_cases taken : s.running = true
      · rw [advance_called_refused taken]
        exact ⟨[], rfl, .idle, List.forall_mem_nil _⟩
      · rw [advance_called_exchanged (Bool.eq_false_iff.mpr taken)]
        exact ⟨_, rfl, .single _ present, single _ (.inl rfl)⟩
    | exchanged =>
      rw [advance_exchanged]
      refine ⟨_, rfl, .single _ present, single _ (.inl ?_)⟩
      split <;> rfl
    | rejected => exact ⟨[], rfl, .idle, List.forall_mem_nil _⟩
    | permitted => exact ⟨_, rfl, .single _ present, single _ (.inl rfl)⟩
    | executing body =>
      cases body with
      | finished ok => exact ⟨_, rfl, .single _ present, single _ (.inr (.inl rfl))⟩
      | access act => exact ⟨_, rfl, .single _ present, single _ (.inl rfl)⟩
      | reenter nested next =>
        cases nested with
        | none => exact ⟨_, rfl, .single _ present, single _ (.inl rfl)⟩
        | some nested =>
          exact ⟨_, rfl, .nested _ _ present, List.forall_mem_cons.mpr ⟨.inl rfl, single _ (.inl rfl)⟩⟩
    | finished ok => exact ⟨_, rfl, .single _ present, single _ (.inr (.inr rfl))⟩
    | released ok => exact ⟨[], rfl, .idle, List.forall_mem_nil _⟩
  | @nested activity outer next present =>
    have member : ⟨outer, .executing (.reenter (some activity) next)⟩ ∈ s.calls thread := by
      rw [inside]
      exact List.mem_cons_of_mem _ (List.mem_singleton_self _)
    rw [advance_called_refused (truthful.flag_of_held member rfl)]
    exact ⟨_, rfl, .single _ present, single _ (.inl rfl)⟩

/-! ### The steps of a call -/

variable (provider given changes) in
/-- Whole actions, of which one executes an activity exactly if the call has completed its own,
lead from one master to where the scheduler is now. -/
def Progresses (i : Impl β) (call : ExecuteCall β) (t : ActivityScheduler ι β) : Prop :=
  ∃ past j, Runs.Path (Whole provider given changes) i past j ∧
    past.filterMap (fun taken => taken.1.execution) = call.completion.toList ∧
    InProgress provider j t

omit [DecidableEq ι] in
/-- Most steps are no whole action. -/
theorem progresses_of_stays {call : ExecuteCall β} {t : ActivityScheduler ι β}
    (none : call.completion = none) (kept : InProgress provider i t) :
    Progresses provider given changes i call t :=
  ⟨[], i, .start, by rw [none]; rfl, kept⟩

section Cases

variable {activity : EcatActivity β} {body : ActivityBody β} {ok : Bool}

/-- Taking the flag, or being refused it, is no whole action. -/
theorem progresses_called (progress : InProgress provider i s) :
    Progresses provider given changes i ⟨activity, .called⟩
      ((advance provider thread ⟨activity, .called⟩ []).after s) := by
  apply progresses_of_stays rfl
  have unchanged : ∀ other, other ≠ thread → ∀ call ∈ s.calls other,
      Pending provider i s.master call := fun other _ => progress.2 other
  by_cases taken : s.running = true
  · rw [advance_called_refused taken]
    exact inProgress_put rfl progress.1 (List.forall_mem_nil _) unchanged
  · have clear := Bool.eq_false_iff.mpr taken
    rw [advance_called_exchanged clear]
    exact inProgress_single rfl nofun (progress.1 clear) unchanged

/-- The answer of the activity is remembered with the flag taken. -/
theorem progresses_exchanged (inside : s.calls thread = [⟨activity, .exchanged⟩])
    (progress : InProgress provider i s) :
    Progresses provider given changes i ⟨activity, .exchanged⟩
      ((advance provider thread ⟨activity, .exchanged⟩ []).after s) := by
  apply progresses_of_stays rfl
  have member : ⟨activity, .exchanged⟩ ∈ s.calls thread := inside ▸ List.mem_cons_self
  have still : s.master = i := progress.2 thread _ member
  rw [advance_exchanged]
  refine inProgress_single rfl progress.1 ?_ fun other _ => progress.2 other
  split
  · next starts => exact ⟨still ▸ starts, still⟩
  · exact still

/-- A reaction while another call has the flag does nothing; otherwise it is a whole action. -/
theorem progresses_released (truthful : FlagTruthful s) (present : given activity)
    (progress : InProgress provider i s)
    (undisturbed : s.running = true →
      ((advance provider thread ⟨activity, .released ok⟩ []).after s).master = s.master) :
    Progresses provider given changes i ⟨activity, .released ok⟩
      ((advance provider thread ⟨activity, .released ok⟩ []).after s) := by
  by_cases taken : s.running = true
  · refine progresses_of_stays rfl (inProgress_put rfl ?_ (List.forall_mem_nil _) ?_)
    · exact fun clear => absurd clear (Bool.ne_false_iff.mpr taken)
    · rw [undisturbed taken]
      exact fun other _ => progress.2 other
  · have clear := Bool.eq_false_iff.mpr taken
    refine ⟨_, _, Runs.Path.start.extend (.reaction i ok present), rfl,
      inProgress_put rfl (fun _ => ?_) (List.forall_mem_nil _) ?_⟩
    · rw [advance_released, progress.1 clear]
    · intro other _ another waiting
      exact pending_of_not_holds _ (not_holds_of_clear truthful clear waiting)

/-- The end of a body is the whole action of its activity. -/
theorem progresses_finished (truthful : FlagTruthful s) (present : given activity)
    (inside : s.calls thread = [⟨activity, .executing (.finished ok)⟩])
    (progress : InProgress provider i s) :
    Progresses provider given changes i ⟨activity, .executing (.finished ok)⟩
      ((advance provider thread ⟨activity, .executing (.finished ok)⟩ []).after s) := by
  have member : ⟨activity, .executing (.finished ok)⟩ ∈ s.calls thread :=
    inside ▸ List.mem_cons_self
  obtain ⟨starts, m, reached, now⟩ := progress.2 thread _ member
  have taken := truthful.flag_of_held member rfl
  refine ⟨_, _, Runs.Path.start.extend (.body present starts (reached.finishes (.finished ok m))),
    rfl, inProgress_single rfl (fun clear => ?_) now (pending_of_ne truthful member rfl _)⟩
  exact absurd clear (Bool.ne_false_iff.mpr taken)

/-- An access takes the body further, and the bus master with it. -/
theorem progresses_access (truthful : FlagTruthful s)
    {act : EcMaster β → ActivityBody β × EcMaster β}
    (inside : s.calls thread = [⟨activity, .executing (.access act)⟩])
    (progress : InProgress provider i s) :
    Progresses provider given changes i ⟨activity, .executing (.access act)⟩
      ((advance provider thread ⟨activity, .executing (.access act)⟩ []).after s) := by
  have member : ⟨activity, .executing (.access act)⟩ ∈ s.calls thread :=
    inside ▸ List.mem_cons_self
  obtain ⟨starts, m, reached, now⟩ := progress.2 thread _ member
  have taken := truthful.flag_of_held member rfl
  refine progresses_of_stays rfl (inProgress_single rfl (fun clear => ?_) ?_
    (pending_of_ne truthful member rfl _))
  · exact absurd clear (Bool.ne_false_iff.mpr taken)
  · obtain rfl : s.master.controller.master = m := congrArg (·.controller.master) now
    let accessed := act s.master.controller.master
    have after : s.master.withMaster accessed.2 = i.withMaster accessed.2 :=
      congrArg (fun before => before.withMaster accessed.2) now
    exact ⟨starts, _, reached.access, after⟩

/-- A call of Execute from inside begins above the one that makes it, and a null activity is
answered at once. -/
theorem progresses_reenter {nested : Option (EcatActivity β)} {next : Bool → ActivityBody β}
    (inside : s.calls thread = [⟨activity, .executing (.reenter nested next)⟩])
    (progress : InProgress provider i s) :
    Progresses provider given changes i ⟨activity, .executing (.reenter nested next)⟩
      ((advance provider thread ⟨activity, .executing (.reenter nested next)⟩ []).after s) := by
  have unchanged : ∀ other, other ≠ thread → ∀ call ∈ s.calls other,
      Pending provider i s.master call := fun other _ => progress.2 other
  obtain ⟨starts, m, reached, now⟩ := progress.2 thread _ (inside ▸ List.mem_cons_self)
  apply progresses_of_stays rfl
  cases nested with
  | none => exact inProgress_single rfl progress.1 ⟨starts, m, reached.reenter, now⟩ unchanged
  | some nested =>
    refine inProgress_put rfl progress.1 (List.forall_mem_cons.mpr ⟨trivial, ?_⟩) unchanged
    exact List.forall_mem_singleton.mpr ⟨starts, m, reached, now⟩

/-- A call from inside is refused, and the body below it goes on with that. -/
theorem progresses_nested (truthful : FlagTruthful s) {outer : EcatActivity β}
    {next : Bool → ActivityBody β}
    (inside : s.calls thread =
      [⟨activity, .called⟩, ⟨outer, .executing (.reenter (some activity) next)⟩])
    (progress : InProgress provider i s) :
    Progresses provider given changes i ⟨activity, .called⟩
      ((advance provider thread ⟨activity, .called⟩
        [⟨outer, .executing (.reenter (some activity) next)⟩]).after s) := by
  have inner : ⟨outer, .executing (.reenter (some activity) next)⟩ ∈ s.calls thread := by
    rw [inside]
    exact List.mem_cons_of_mem _ (List.mem_singleton_self _)
  have taken := truthful.flag_of_held inner rfl
  obtain ⟨starts, m, reached, now⟩ := progress.2 thread _ inner
  apply progresses_of_stays rfl
  rw [advance_called_refused taken]
  exact inProgress_single rfl (fun clear => absurd clear (Bool.ne_false_iff.mpr taken))
    ⟨starts, m, reached.reenter, now⟩ fun other _ => progress.2 other

end Cases

/-- The whole actions that a step of a call stands for: the body that it ends, the reaction
that it makes, or none. -/
theorem inProgress_advance {call : ExecuteCall β} {below : List (ExecuteCall β)}
    (truthful : FlagTruthful s) (inside : s.calls thread = call :: below)
    (shape : Shape given (call :: below)) (progress : InProgress provider i s)
    (undisturbed : call.reacts = true → s.running = true →
      ((advance provider thread call below).after s).master = s.master) :
    Progresses provider given changes i call ((advance provider thread call below).after s) := by
  cases shape with
  | nested activity next present => exact progresses_nested truthful inside progress
  | single _ present =>
    have pending := progress.2 thread call (inside ▸ List.mem_cons_self)
    have unchanged : ∀ other, other ≠ thread → ∀ call ∈ s.calls other,
        Pending provider i s.master call := fun other _ => progress.2 other
    obtain ⟨activity, phase⟩ := call
    cases phase with
    | called => exact progresses_called progress
    | exchanged => exact progresses_exchanged inside progress
    | rejected =>
      exact progresses_of_stays rfl
        (inProgress_put rfl (fun _ => pending) (List.forall_mem_nil _) unchanged)
    | permitted =>
      obtain ⟨starts, now⟩ := pending
      exact progresses_of_stays rfl
        (inProgress_single rfl progress.1 ⟨starts, _, .begun, now⟩ unchanged)
    | finished ok =>
      exact progresses_of_stays rfl
        (inProgress_single rfl (fun _ => pending) trivial unchanged)
    | released ok => exact progresses_released truthful present progress (undisturbed rfl)
    | executing body =>
      cases body with
      | finished ok => exact progresses_finished truthful present inside progress
      | access act => exact progresses_access truthful inside progress
      | reenter nested next => exact progresses_reenter inside progress

end Invariants

/-! ## Runs -/

section Runs

variable (provider : Option (Impl β → MasterRuntimeState)) {given : EcatActivity β → Prop}
  {changes : (Impl β → Impl β) → Prop}

/-- The stacks of a run have the shape that refused nesting leaves. -/
theorem shape_final (i : Impl β) {actions : List (SchedulerAction ι β)}
    (calls : ∀ thread activity, .execute thread (some activity) ∈ actions → given activity)
    (thread : ι) :
    Shape given ((Runs.final (happen provider) { master := i } actions).calls thread) := by
  induction actions using List.reverseRecOn generalizing thread with
  | nil => exact .idle
  | append_singleton actions action inductionHypothesis =>
    rw [Runs.final_concat]
    replace inductionHypothesis := inductionHypothesis fun other activity member =>
      calls other activity (List.mem_append_left _ member)
    generalize reached : Runs.final (happen provider) { master := i } actions = s
    have truthful : FlagTruthful s := reached ▸ truthful_final provider i actions
    rw [reached] at inductionHypothesis
    have put_shape (t : ActivityScheduler ι β) (other : ι) (stack : List (ExecuteCall β))
        (calls : t.calls = (s.put other stack).calls) (shape : Shape given stack) :
        Shape given (t.calls thread) := by
      rw [calls]
      by_cases same : thread = other
      · subst same
        rwa [put_calls_self]
      · rw [put_calls_of_ne s same]
        exact inductionHypothesis thread
    cases action with
    | interfere change => exact inductionHypothesis thread
    | execute other activity =>
      rcases happen_execute provider s other activity with same | ⟨present, rfl, -, same⟩
      · rw [same]
        exact inductionHypothesis thread
      · rw [same]
        apply put_shape _ other _ rfl
        exact .single _ (calls other present (List.mem_append_right _ (List.mem_singleton_self _)))
    | step other =>
      cases inside : s.calls other with
      | nil =>
        rw [happen_idle inside]
        exact inductionHypothesis thread
      | cons call below =>
        rw [happen_inside inside]
        obtain ⟨stack, calls, shape, -⟩ :=
          shape_advance provider truthful inside (inside ▸ inductionHypothesis other)
        exact put_shape _ other stack calls shape

/-- Every body that a call in progress has behind it is on record. -/
theorem recorded_final (i : Impl β) (actions : List (SchedulerAction ι β)) (thread : ι) :
    ∀ call ∈ (Runs.final (happen provider) { master := i } actions).calls thread,
      ∀ done, call.ended = some done →
        done ∈ (Runs.history (happen provider) { master := i } actions).filterMap completion := by
  induction actions using List.reverseRecOn generalizing thread with
  | nil => exact List.forall_mem_nil _
  | append_singleton actions action inductionHypothesis =>
    rw [Runs.final_concat, Runs.history_concat, List.filterMap_append]
    have truthful := truthful_final provider i actions
    have shape : ∀ other, Shape (fun _ => True)
        ((Runs.final (happen provider) { master := i } actions).calls other) :=
      shape_final provider i fun _ _ _ => trivial
    generalize Runs.final (happen provider) { master := i } actions = s at *
    have earlier (other : ι) (call : ExecuteCall β) (member : call ∈ s.calls other) (done)
        (ended : call.ended = some done) :=
      List.mem_append_left ([Runs.turn (happen provider) s action].filterMap completion)
        (inductionHypothesis other call member done ended)
    cases action with
    | interfere change => exact earlier thread
    | execute other activity =>
      rcases happen_execute provider s other activity with same | ⟨present, -, -, same⟩
      · rw [same]
        exact earlier thread
      · rw [same]
        intro call member done ended
        by_cases own : thread = other
        · subst own
          rw [put_calls_self] at member
          obtain rfl := List.mem_singleton.mp member
          cases ended
        · rw [put_calls_of_ne s own] at member
          exact earlier thread call member done ended
    | step other =>
      cases inside : s.calls other with
      | nil =>
        rw [happen_idle inside]
        exact earlier thread
      | cons call below =>
        rw [happen_inside inside]
        obtain ⟨stack, calls, -, origin⟩ :=
          shape_advance provider truthful inside (inside ▸ shape other)
        intro later member done ended
        rw [calls] at member
        by_cases own : thread = other
        · subst own
          rw [put_calls_self] at member
          rcases origin later member with none | completed | kept
          · rw [none] at ended
            cases ended
          · apply List.mem_append_right
            have stepped : stepping (Runs.turn (happen provider) s (.step thread)) = some call := by
              simp [stepping, Runs.turn, inside]
            simp [completion, stepped, ← completed, ended]
          · exact earlier thread call (inside ▸ List.mem_cons_self) done (kept ▸ ended)
        · rw [put_calls_of_ne s own] at member
          exact earlier thread later member done ended

/-- Only a call whose body has succeeded answers success. -/
theorem ended_of_answer {s : ActivityScheduler ι β} {action : SchedulerAction ι β}
    (answer : (happen provider action).result s = some true) :
    ∃ thread call below, action = .step thread ∧ s.calls thread = call :: below ∧
      call.ended = some (call.activity, true) := by
  cases action with
  | interfere change => cases answer
  | execute thread activity =>
    cases idle : s.calls thread <;> cases activity <;>
      simp [happen, execute, Program.result, StateT.run, idle] at answer
  | step thread =>
    cases inside : s.calls thread with
    | nil => simp [happen, Program.result, StateT.run, inside] at answer
    | cons call below =>
      refine ⟨thread, call, below, rfl, inside, ?_⟩
      have same : (happen provider (.step thread)).result s =
          (advance provider thread call below).result s := by
        simp [happen, Program.result, StateT.run, inside]
      rw [same] at answer
      obtain ⟨activity, phase⟩ := call
      cases phase with
      | released ok =>
        obtain rfl : ok = true := Option.some.inj answer
        rfl
      | called =>
        by_cases taken : s.running = true <;>
          simp [advance, Program.result, StateT.run, taken] at answer
      | exchanged =>
        by_cases starts : activity.canStart (observedState provider s.master) = true <;>
          simp [advance, Program.result, StateT.run, starts] at answer
      | executing body =>
        cases body with
        | finished ok => cases answer
        | access act => cases answer
        | reenter nested next => cases nested <;> cases answer
      | _ => cases answer

/-- In every run, success is answered only for an activity that has been executed. -/
theorem answers_throughout (i : Impl β) (actions : List (SchedulerAction ι β)) :
    Runs.Throughout Answers (Runs.history (happen provider) { master := i } actions) := by
  induction actions using List.reverseRecOn with
  | nil => exact Runs.throughout_nil _
  | append_singleton actions action inductionHypothesis =>
    rw [Runs.history_concat, Runs.throughout_concat]
    refine ⟨inductionHypothesis, ?_⟩
    intro answer
    obtain ⟨thread, call, below, rfl, inside, ended⟩ := ended_of_answer provider answer
    refine ⟨call, by simp [stepping, Runs.turn, inside], ?_⟩
    exact recorded_final provider i actions thread call (inside ▸ List.mem_cons_self) _ ended

variable (changes) in
/-- The whole actions that one thing that happens stands for. -/
theorem inProgress_happen {s : ActivityScheduler ι β} {i : Impl β}
    (truthful : FlagTruthful s) (shape : ∀ thread, Shape given (s.calls thread))
    (progress : InProgress provider i s) (action : SchedulerAction ι β)
    (possible : ∀ change, action = .interfere change → changes change)
    (undisturbed : Undisturbed (Runs.turn (happen provider) s action)) :
    ∃ past j, Runs.Path (Whole provider given changes) i past j ∧
      past.filterMap (fun taken => taken.1.execution) =
        (completion (Runs.turn (happen provider) s action)).toList ∧
      InProgress provider j ((happen provider action).after s) := by
  cases action with
  | interfere change =>
    cases clear : s.running with
    | true =>
      have same : change s.master = s.master := undisturbed rfl clear
      refine ⟨[], i, .start, rfl, ?_⟩
      change InProgress provider i { s with master := change s.master }
      rwa [same]
    | false =>
      refine ⟨_, _, Runs.Path.start.extend (.other i (possible change rfl)), rfl, ?_, ?_⟩
      · exact fun _ => congrArg change (progress.1 clear)
      · intro thread call member
        exact pending_of_not_holds _ (not_holds_of_clear truthful clear member)
  | execute thread activity =>
    refine ⟨[], i, .start, rfl, ?_⟩
    rcases happen_execute provider s thread activity with same | ⟨present, -, -, same⟩
    · rwa [same]
    · rw [same]
      exact inProgress_single rfl progress.1 trivial fun other _ => progress.2 other
  | step thread =>
    cases inside : s.calls thread with
    | nil =>
      rw [happen_idle inside]
      refine ⟨[], i, .start, ?_, progress⟩
      simp [completion, stepping, Runs.turn, inside]
    | cons call below =>
      have stepped : stepping (Runs.turn (happen provider) s (.step thread)) = some call := by
        simp [stepping, Runs.turn, inside]
      rw [completion, stepped, happen_inside inside]
      refine inProgress_advance truthful inside (inside ▸ shape thread) progress ?_
      intro reacts taken
      rw [← happen_inside inside]
      apply undisturbed _ taken
      change (stepping (Runs.turn (happen provider) s (.step thread))).any _ = true
      rw [stepped]
      exact reacts

/-- In every run that nothing disturbs while a call has the flag: whatever the threads,
the activities and the order of steps, the master is where a sequence of whole actions
leads, but for what the body in progress has done. The activities executed in it are the
ones whose bodies have ended, in this order, and a call that answers success is one whose
activity is among them. -/
theorem activities_serial (i : Impl β) (actions : List (SchedulerAction ι β))
    (calls : ∀ thread activity, .execute thread (some activity) ∈ actions → given activity)
    (possible : ∀ change, .interfere change ∈ actions → changes change) :
    let start : ActivityScheduler ι β := { master := i }
    let history := Runs.history (happen provider) start actions
    (∀ entry ∈ history, Undisturbed entry) →
    Runs.Throughout Answers history ∧
      ∃ past j, Runs.Path (Whole provider given changes) i past j ∧
        past.filterMap (fun taken => taken.1.execution) = history.filterMap completion ∧
        InProgress provider j (Runs.final (happen provider) start actions) := by
  intro start history undisturbed
  refine ⟨answers_throughout provider i actions, ?_⟩
  induction actions using List.reverseRecOn with
  | nil => exact ⟨[], i, .start, rfl, fun _ => rfl, fun _ _ member => nomatch member⟩
  | append_singleton actions action inductionHypothesis =>
    simp only [history, Runs.history_concat] at undisturbed
    obtain ⟨earlier, last⟩ := List.forall_mem_append.mp undisturbed
    have before (thread activity) (member : .execute thread (some activity) ∈ actions) :=
      calls thread activity (List.mem_append_left _ member)
    obtain ⟨past, j, path, executed, progress⟩ := inductionHypothesis before
      (fun change member => possible change (List.mem_append_left _ member)) earlier
    obtain ⟨next, k, onward, completed, kept⟩ := inProgress_happen provider changes
      (truthful_final provider i actions) (shape_final provider i before) progress action
      (fun change same => possible change (same ▸ List.mem_append_right _ (List.mem_singleton_self _)))
      (last _ (List.mem_singleton_self _))
    refine ⟨past ++ next, k, path.append onward, ?_, ?_⟩
    · rw [List.filterMap_append, executed, completed]
      simp only [history, Runs.history_concat, List.filterMap_append, List.filterMap_cons,
        List.filterMap_nil]
      cases completion (Runs.turn (happen provider) (Runs.final (happen provider) start actions)
        action) <;> rfl
    · rw [Runs.final_concat]
      exact kept

end Runs

/-- Two threads that both want to write: while the first has the flag, the second is
refused twice. -/
def contended : List (SchedulerAction (Fin 2) Bench) :=
  [.execute 0 (some parameterWrite), .execute 1 (some parameterWrite), .step 0, .step 1, .step 0,
    .step 0, .execute 1 (some parameterWrite), .step 0, .step 1, .step 0, .step 0, .step 0, .step 0]

/-- On the bench the writes of this run are serial. -/
theorem activities_serial_bench :
    let history := Runs.history (happen (some Impl.currentRuntimeState)) { master := maintained }
      contended
    Runs.Throughout Answers history ∧
      ∃ past j, Runs.Path (Whole (some Impl.currentRuntimeState) (· = parameterWrite)
          (fun _ => False)) maintained past j ∧
        past.filterMap (fun taken => taken.1.execution) = history.filterMap completion ∧
        InProgress (some Impl.currentRuntimeState) j
          (Runs.final (happen (some Impl.currentRuntimeState)) { master := maintained } contended) := by
  apply activities_serial
  · intro thread activity member
    have either : thread = 0 ∧ activity = parameterWrite ∨ thread = 1 ∧ activity = parameterWrite := by
      simpa [contended] using member
    rcases either with ⟨-, same⟩ | ⟨-, same⟩ <;> exact same
  · intro change member
    simp [contended] at member
  · have calm : ∀ entry ∈ Runs.history (happen (some Impl.currentRuntimeState))
        { master := maintained } contended, fromOutside entry = true → entry.before.running = false := by
      decide
    intro entry member outside taken
    rw [calm entry member outside] at taken
    cases taken

end ActivityScheduler

end MoEcat
