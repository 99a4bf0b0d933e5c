import MoEcat.ActivityScheduler
import MoEcat.AdapterSessions
import MoEcat.Bench

/-!
# Failures and the next activity

A call whose activity fails gives the running flag back before it reacts to the failure,
so another activity can take the flag, find that it can start, and begin its body in
between. As long as no body begins in that gap, every failure is handled before the next
activity: until the flag is given back exclusion keeps all others out, and the reaction
itself leads to the state that the policy asks for.
-/

namespace MoEcat

variable {ι β : Type}

/-- The state that the reaction to a failure leads to, if it changes the state. -/
def ActivityFailurePolicy.target : ActivityFailurePolicy → Option ControllerState
  | .enterError => some .fault
  | .shutdown => some .uninitialized
  | .keepControllerState => none

/-- The state that a call leads to that has given the flag back after a failure. -/
def ExecuteCall.awaits (call : ExecuteCall β) : Option ControllerState :=
  match call.phase with
  | .released false => call.activity.failurePolicy.target
  | _ => none

/-- The state that a call leads to whose body has failed. -/
def ExecuteCall.owes (call : ExecuteCall β) : Option ControllerState :=
  match call.phase with
  | .finished false | .released false => call.activity.failurePolicy.target
  | _ => none

namespace ActivityScheduler

/-- One thing that has happened to the scheduler. -/
abbrev SchedulerTurn (ι β : Type) :=
  Runs.Turn (ActivityScheduler ι β) (SchedulerAction ι β) (Option Bool)

/-- The innermost call of the thread that takes a step. -/
def stepping (entry : SchedulerTurn ι β) : Option (ExecuteCall β) :=
  match entry.operation with
  | .step thread => (entry.before.calls thread).head?
  | _ => none

/-- The turn begins the body of an activity. -/
def beginsBody (entry : SchedulerTurn ι β) : Bool :=
  match stepping entry with
  | some ⟨_, .permitted⟩ => true
  | _ => false

/-- The turn is the failure of an activity: the state that is to be entered for it. -/
def failure (entry : SchedulerTurn ι β) : Option ControllerState :=
  match stepping entry with
  | some ⟨activity, .executing (.finished false)⟩ => activity.failurePolicy.target
  | _ => none

/-- A body begins only after each earlier failure has been handled: since the failure
the controller has been in the state that the failure's policy asks for. -/
def HandlesFirst (past : List (SchedulerTurn ι β)) (entry : SchedulerTurn ι β) : Prop :=
  beginsBody entry = true → ∀ earlier failing since target,
    past = earlier ++ failing :: since → failure failing = some target →
      ∃ turn ∈ failing :: since, turn.after.master.controller.state = target

/-- A body begins only where no call stands between giving the flag back and its
reaction, unless the controller is already in the state that the reaction leads to. -/
def BeginsInOrder (entry : SchedulerTurn ι β) : Prop :=
  beginsBody entry = true → ∀ thread, ∀ call ∈ entry.before.calls thread,
    call.awaits ≠ none → call.awaits = some entry.before.master.controller.state

/-- Some call still owes the controller this state. -/
def Owed (s : ActivityScheduler ι β) (target : ControllerState) : Prop :=
  ∃ thread, ∃ call ∈ s.calls thread, call.owes = some target

variable [DecidableEq ι] [Platform β]

/-- The reaction to a failure leads to the state that the policy asks for. -/
theorem handle_activity_target {policy : ActivityFailurePolicy} {target : ControllerState}
    (asked : policy.target = some target) (i : Impl β) :
    ((Impl.handle (.activity false policy)).after i).controller.state = target := by
  cases policy <;> cases asked
  · obtain ⟨m, faulted, -⟩ := EcatController.enterFault_after i.controller
    exact congrArg EcatController.state faulted
  · exact (EcatController.stop_move i.controller).stop_state

omit [DecidableEq ι] [Platform β] in
/-- The calls below a call that returns stay, except for the one that it returns to. -/
theorem mem_resume {call : ExecuteCall β} {below : List (ExecuteCall β)} (answer : Bool)
    (member : call ∈ below) (returned : call.isExecuting = false) :
    call ∈ resume answer below := by
  unfold resume
  split
  · rcases List.mem_cons.mp member with rfl | deeper
    · cases returned
    · exact List.mem_cons_of_mem _ deeper
  · exact member

/-- A step replaces the stack of one thread, and keeps the calls below the innermost one
that are not in their bodies. -/
theorem advance_calls (provider : Option (Impl β → MasterRuntimeState))
    (s : ActivityScheduler ι β) (thread : ι) (call : ExecuteCall β)
    (below : List (ExecuteCall β)) :
    ∃ stack, ((advance provider thread call below).after s).calls =
        (s.put thread stack).calls ∧
      ∀ other ∈ below, other.isExecuting = false → other ∈ stack := by
  obtain ⟨activity, phase⟩ := call
  have deeper : ∀ top, ∀ other ∈ below, other.isExecuting = false → other ∈ top :: below :=
    fun top other member _ => List.mem_cons_of_mem top member
  cases phase with
  | called =>
    by_cases taken : s.running = true
    · rw [advance_called_refused taken]
      exact ⟨_, rfl, fun other => mem_resume false⟩
    · rw [advance_called_exchanged (Bool.eq_false_iff.mpr taken)]
      exact ⟨_, rfl, deeper _⟩
  | exchanged =>
    rw [advance_exchanged]
    exact ⟨_, rfl, deeper _⟩
  | rejected => exact ⟨_, rfl, fun other => mem_resume false⟩
  | permitted => exact ⟨_, rfl, deeper _⟩
  | executing body =>
    cases body with
    | finished ok => exact ⟨_, rfl, deeper _⟩
    | access act => exact ⟨_, rfl, deeper _⟩
    | reenter nested next =>
      cases nested with
      | none => exact ⟨_, rfl, deeper _⟩
      | some nested =>
        exact ⟨_, rfl, fun other member returned =>
          List.mem_cons_of_mem _ (deeper _ other member returned)⟩
  | finished ok => exact ⟨_, rfl, deeper _⟩
  | released ok => exact ⟨_, rfl, fun other => mem_resume ok⟩

/-- The innermost call pays what it owes: it gives the flag back and owes it still, or
it reacts. -/
theorem owed_advance (provider : Option (Impl β → MasterRuntimeState))
    (s : ActivityScheduler ι β) {thread : ι} {call : ExecuteCall β}
    {below : List (ExecuteCall β)} {target : ControllerState} (owes : call.owes = some target) :
    Owed ((advance provider thread call below).after s) target ∨
      ((advance provider thread call below).after s).master.controller.state = target := by
  obtain ⟨activity, phase⟩ := call
  cases phase with
  | finished ok =>
    cases ok with
    | true => cases owes
    | false =>
      refine .inl ⟨thread, ⟨activity, .released false⟩, ?_, owes⟩
      have stack : ((advance provider thread ⟨activity, .finished false⟩ below).after s).calls
          thread = ⟨activity, .released false⟩ :: below := Function.update_self ..
      rw [stack]
      exact List.mem_cons_self
  | released ok =>
    cases ok with
    | true => cases owes
    | false =>
      rw [advance_released]
      exact .inr (handle_activity_target owes s.master)
  | _ => cases owes

/-- What is owed stays owed until the controller is in the state that is owed. -/
theorem owed_happen (provider : Option (Impl β → MasterRuntimeState))
    (s : ActivityScheduler ι β) {target : ControllerState} (owed : Owed s target)
    (action : SchedulerAction ι β) :
    Owed ((happen provider action).after s) target ∨
      ((happen provider action).after s).master.controller.state = target := by
  obtain ⟨debtor, call, member, owes⟩ := owed
  cases action with
  | interfere change => exact .inl ⟨debtor, call, member, owes⟩
  | execute thread activity =>
    rcases happen_execute provider s thread activity with same | ⟨present, -, idle, same⟩
    · rw [same]
      exact .inl ⟨debtor, call, member, owes⟩
    · have other : debtor ≠ thread := by
        rintro rfl
        rw [idle] at member
        cases member
      rw [same]
      refine .inl ⟨debtor, call, ?_, owes⟩
      rw [put_calls_of_ne s other]
      exact member
  | step thread =>
    cases inside : s.calls thread with
    | nil =>
      rw [happen_idle inside]
      exact .inl ⟨debtor, call, member, owes⟩
    | cons top below =>
      rw [happen_inside inside]
      obtain ⟨stack, replaced, kept⟩ := advance_calls provider s thread top below
      by_cases same : debtor = thread
      · subst same
        rw [inside] at member
        rcases List.mem_cons.mp member with rfl | deeper
        · exact owed_advance provider s owes
        · have returned : call.isExecuting = false := by
            obtain ⟨activity, phase⟩ := call
            cases phase <;> first | rfl | cases owes
          refine .inl ⟨debtor, call, ?_, owes⟩
          rw [replaced, put_calls_self]
          exact kept call deeper returned
      · refine .inl ⟨debtor, call, ?_, owes⟩
        rw [replaced, put_calls_of_ne s same]
        exact member

/-- A failure is owed from then on. -/
theorem owed_of_failure (provider : Option (Impl β → MasterRuntimeState))
    (s : ActivityScheduler ι β) (action : SchedulerAction ι β) {target : ControllerState}
    (failed : failure (Runs.turn (happen provider) s action) = some target) :
    Owed ((happen provider action).after s) target := by
  unfold failure at failed
  split at failed
  case h_2 => cases failed
  case h_1 activity innermost =>
    cases action with
    | execute thread present => cases innermost
    | interfere change => cases innermost
    | step thread =>
      cases inside : s.calls thread with
      | nil => simp [stepping, Runs.turn, inside] at innermost
      | cons top below =>
        obtain rfl : top = ⟨activity, .executing (.finished false)⟩ := by
          simpa [stepping, Runs.turn, inside] using innermost
        rw [happen_inside inside]
        refine ⟨thread, ⟨activity, .finished false⟩, ?_, failed⟩
        have stack : ((advance provider thread ⟨activity, .executing (.finished false)⟩
            below).after s).calls thread = ⟨activity, .finished false⟩ :: below :=
          Function.update_self ..
        rw [stack]
        exact List.mem_cons_self

/-- Each earlier failure has been handled or is still owed. -/
def Remembers (past : List (SchedulerTurn ι β)) (s : ActivityScheduler ι β) : Prop :=
  ∀ earlier failing since target, past = earlier ++ failing :: since →
    failure failing = some target →
      (∃ turn ∈ failing :: since, turn.after.master.controller.state = target) ∨ Owed s target

/-- No failure is forgotten. The induction is on the last thing that happened: either it
is the failure itself, or the failure is remembered from before. -/
theorem remembers (provider : Option (Impl β → MasterRuntimeState))
    (start : ActivityScheduler ι β) (actions : List (SchedulerAction ι β)) :
    Remembers (Runs.history (happen provider) start actions)
      (Runs.final (happen provider) start actions) := by
  induction actions using List.reverseRecOn with
  | nil =>
    intro earlier failing since target split
    simp at split
  | append_singleton actions last inductionHypothesis =>
    intro earlier failing since target split failed
    rw [Runs.history_concat] at split
    rw [Runs.final_concat]
    rcases List.eq_nil_or_concat since with rfl | ⟨before, final, rfl⟩
    · obtain ⟨-, same⟩ := List.append_inj' split rfl
      obtain rfl := List.singleton_inj.mp same
      exact .inr (owed_of_failure provider _ last failed)
    · rw [List.concat_eq_append, ← List.cons_append, ← List.append_assoc] at split
      obtain ⟨recorded, same⟩ := List.append_inj' split rfl
      obtain rfl := List.singleton_inj.mp same
      rw [List.concat_eq_append, ← List.cons_append]
      rcases inductionHypothesis _ _ _ target recorded failed with ⟨turn, member, reached⟩ | owed
      · exact .inl ⟨turn, List.mem_append_left _ member, reached⟩
      · rcases owed_happen provider _ owed last with still | reached
        · exact .inr still
        · exact .inl ⟨_, List.mem_append_right _ List.mem_cons_self, reached⟩

omit [DecidableEq ι] [Platform β] in
/-- A body is begun by an innermost call. -/
theorem innermost_of_begins {entry : SchedulerTurn ι β} (begins : beginsBody entry = true) :
    ∃ thread activity, (entry.before.calls thread)[0]? = some ⟨activity, .permitted⟩ := by
  unfold beginsBody at begins
  split at begins
  case h_2 => cases begins
  case h_1 activity innermost =>
    unfold stepping at innermost
    split at innermost
    · exact ⟨_, activity, by rw [← List.head?_eq_getElem?]; exact innermost⟩
    · cases innermost

omit [Platform β] in
/-- While a body begins, no other call has the flag, so what is owed is awaited. -/
theorem awaited_of_owed {entry : SchedulerTurn ι β} (begins : beginsBody entry = true)
    (truthful : FlagTruthful entry.before) {target : ControllerState}
    (owed : Owed entry.before target) :
    ∃ thread, ∃ call ∈ entry.before.calls thread, call.awaits = some target := by
  obtain ⟨debtor, call, member, owes⟩ := owed
  refine ⟨debtor, call, member, ?_⟩
  obtain ⟨activity, phase⟩ := call
  cases phase with
  | released ok => cases ok <;> exact owes
  | finished ok =>
    obtain ⟨thread, beginning, innermost⟩ := innermost_of_begins begins
    obtain ⟨depth, found⟩ := List.getElem?_of_mem member
    have same : (thread, 0) = (debtor, depth) :=
      truthful.exclusive ⟨_, innermost, rfl⟩ ⟨_, found, rfl⟩
    cases same
    rw [innermost] at found
    cases found
  | _ => cases owes

/-- In every run in which bodies begin in order, every failure is handled before the
next activity: any number of threads may call the scheduler, with any activities, and
anything else may happen to the master in between. -/
theorem failures_handled_first (provider : Option (Impl β → MasterRuntimeState)) (i : Impl β)
    (actions : List (SchedulerAction ι β)) :
    let history := Runs.history (happen provider) { master := i } actions
    (∀ entry ∈ history, BeginsInOrder entry) → Runs.Throughout HandlesFirst history := by
  intro history ordered past entry starts begins earlier failing since target split failed
  have within : entry ∈ history :=
    starts.subset (List.mem_append_right _ List.mem_cons_self)
  obtain ⟨later, recorded⟩ := starts
  rw [List.append_assoc, List.singleton_append] at recorded
  obtain ⟨first, action, before, turned⟩ :=
    Runs.history_split_turn (happen provider) _ recorded.symm
  have truthful : FlagTruthful entry.before := by
    rw [turned]
    exact truthful_final provider i first
  rw [← before] at split
  rcases remembers provider { master := i } first _ _ _ target split failed with reached | owed
  · exact reached
  -- Nothing has been done about the failure yet, so the condition tells the state.
  have owing : Owed entry.before target := by
    rw [turned]
    exact owed
  obtain ⟨thread, call, member, awaits⟩ := awaited_of_owed begins truthful owing
  have present := ordered entry within begins thread call member (by simp [awaits])
  rw [awaits] at present
  obtain ⟨front, last, concat⟩ : ∃ front last, failing :: since = front ++ [last] :=
    ⟨_, _, (List.dropLast_append_getLast (List.cons_ne_nil failing since)).symm⟩
  rw [concat, ← List.append_assoc] at split
  have ended : last.after = entry.before := by
    rw [turned]
    exact Runs.after_of_history_concat (happen provider) _ split
  refine ⟨last, by simp [concat], ?_⟩
  rw [ended]
  exact (Option.some.inj present).symm

/-- A master in Maintenance with one slave on the bench, which does not keep what is
written to it. -/
def maintained : Impl Bench :=
  Runs.final Impl.perform (Impl.constructed { slaves := [{}] } true true)
    [.initializeAdapter {}, .scan, .enterMaintenance]

/-- Write a parameter of the slave and verify it. -/
def parameterWrite : EcatActivity Bench :=
  SdoParameterActivity.activity { info := { slaveId := 1 } } 0x6060 0 8 true

/-- A write fails and its reaction comes; the master is taken up again, and only then another
thread begins. -/
theorem failures_handled_first_bench :
    Runs.Throughout HandlesFirst
      (Runs.history (happen (some Impl.currentRuntimeState)) { master := maintained }
        (.execute 0 (some parameterWrite) :: List.replicate 8 (.step 0) ++
          .interfere (fun i => Runs.final Impl.perform i
            [.stop, .initializeAdapter {}, .scan, .enterMaintenance]) ::
          .execute 1 (some parameterWrite) :: List.replicate 3 (.step (1 : Fin 2)))) :=
  failures_handled_first (some Impl.currentRuntimeState) maintained _ (by
    unfold BeginsInOrder
    decide)

/-- The second thread's write begins between the failure of the first and the fault. -/
theorem failure_overtaken :
    ¬Runs.Throughout HandlesFirst
      (Runs.history (happen (some Impl.currentRuntimeState)) { master := maintained }
        (((.execute 0 (some parameterWrite) :: List.replicate 5 (.step 0)) ++
          ([.step 0, .step 0, .execute 1 (some parameterWrite), .step (1 : Fin 2), .step 1])) ++
            [.step 1])) := by
  intro handled
  rw [Runs.history_concat, Runs.throughout_concat] at handled
  have handledFirst := handled.2 (by decide) _ _ _ .fault
    (Runs.history_append (happen (some Impl.currentRuntimeState)) _ _ _) (by decide)
  revert handledFirst
  decide

end ActivityScheduler

end MoEcat
