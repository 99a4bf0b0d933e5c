import MoEcat.ExclusiveFlag
import MoEcat.SystemRuns

/-!
# The scheduler of activities

Execute is a sequence of atomic steps: it takes the running flag, asks the activity
whether it can start, runs its body, gives the flag back, and reacts to a failure. Any
number of threads are in the middle of such calls, and a body may call Execute again,
so each thread has a stack of calls. A run interleaves their steps in any order, with
anything else that happens to the master in between.
-/

namespace MoEcat

variable {ι β : Type}

mutual

/-- What is left of the body of an activity: its result, an access to the bus master
that decides how it goes on, or a call of Execute from inside and what it does with the
answer. -/
inductive ActivityBody (β : Type) : Type
  | finished (ok : Bool)
  | access (act : EcMaster β → ActivityBody β × EcMaster β)
  | reenter (activity : Option (EcatActivity β)) (next : Bool → ActivityBody β)

/-- An activity, as the scheduler sees it. -/
structure EcatActivity (β : Type) : Type where
  name : String
  canStart : MasterRuntimeState → Bool
  failurePolicy : ActivityFailurePolicy := .enterError
  execute : ActivityBody β

end

/-- The body ends with this result, starting from this bus master and leaving that one,
when nothing comes in between. A call of Execute from inside is refused. -/
inductive ActivityBody.Finishes : ActivityBody β → EcMaster β → Bool → EcMaster β → Prop
  | finished (ok : Bool) (m : EcMaster β) : Finishes (.finished ok) m ok m
  | access {act : EcMaster β → ActivityBody β × EcMaster β} {m m' : EcMaster β} {ok : Bool}
      (rest : Finishes (act m).1 (act m).2 ok m') : Finishes (.access act) m ok m'
  | reenter {activity : Option (EcatActivity β)} {next : Bool → ActivityBody β}
      {m m' : EcMaster β} {ok : Bool} (rest : Finishes (next false) m ok m') :
      Finishes (.reenter activity next) m ok m'

namespace SdoParameterActivity

variable [Platform β]

/-- The value goes out as four little-endian bytes, with the time limit that the source gives
the transfer. -/
def writeParameter (node : SlaveNode) (index : UInt16) (subindex : UInt8) (value : UInt32) :
    Program (EcMaster β) Bool :=
  node.sdoWrite index subindex (littleEndian 4 value.toNat) 4 10000

/-- Read the parameter back into a cleared buffer and compare it. -/
def readBackAndVerify (node : SlaveNode) (index : UInt16) (subindex : UInt8) (value : UInt32) :
    Program (EcMaster β) Bool := do
  let (ok, readBack) ← node.sdoRead index subindex [0, 0, 0, 0] 4 10000
  return ok && readBack == littleEndian 4 value.toNat

/-- Write the parameter, and read it back if that is asked for. -/
def execute (node : SlaveNode) (index : UInt16) (subindex : UInt8) (value : UInt32)
    (verify : Bool) : ActivityBody β :=
  .access fun m =>
    let write := writeParameter node index subindex value
    let verification : ActivityBody β := .access fun m =>
      let verified := readBackAndVerify node index subindex value
      (.finished (verified.result m), verified.after m)
    (if write.result m then if verify then verification else .finished true else .finished false,
      write.after m)

/-- Left alone, the body is one program: write, and verify what was written. -/
theorem execute_finishes (node : SlaveNode) (index : UInt16) (subindex : UInt8) (value : UInt32)
    (verify : Bool) (m : EcMaster β) :
    let whole : Program (EcMaster β) Bool := do
      if ← writeParameter node index subindex value then
        if verify then readBackAndVerify node index subindex value else return true
      else return false
    (execute node index subindex value verify).Finishes m (whole.result m) (whole.after m) := by
  intro whole
  apply ActivityBody.Finishes.access
  cases written : (writeParameter node index subindex value).result m with
  | false =>
    simp only [whole, Program.result_bind, Program.after_bind, written, Bool.false_eq_true, if_false,
      Program.result_pure, Program.after_pure]
    apply ActivityBody.Finishes.finished
  | true =>
    cases verify with
    | false =>
      simp only [whole, Program.result_bind, Program.after_bind, written, Bool.false_eq_true,
        if_true, if_false, Program.result_pure, Program.after_pure]
      apply ActivityBody.Finishes.finished
    | true =>
      simp only [whole, Program.result_bind, Program.after_bind, written, if_true]
      apply ActivityBody.Finishes.access
      apply ActivityBody.Finishes.finished

/-- Writing one parameter of a slave. A failure is severe enough for a fault. -/
def activity (node : SlaveNode) (index : UInt16) (subindex : UInt8) (value : UInt32)
    (verify : Bool) : EcatActivity β where
  name := "SdoParameter"
  canStart := canRunMaintenanceActivity
  failurePolicy := .enterError
  execute := execute node index subindex value verify

end SdoParameterActivity

/-- How far a call of Execute has come. -/
inductive ExecutePhase (β : Type) where
  -- The activity is not null; the flag has not been asked for.
  | called
  -- The flag has been taken.
  | exchanged
  -- The answer of `canStart`, on which nothing has been done yet.
  | rejected
  | permitted
  | executing (body : ActivityBody β)
  -- The body has returned; the flag is still set.
  | finished (ok : Bool)
  -- The flag has been given back; a failure has not been reacted to.
  | released (ok : Bool)

/-- A call of Execute with an activity. -/
structure ExecuteCall (β : Type) where
  activity : EcatActivity β
  phase : ExecutePhase β := .called

namespace ExecuteCall

/-- The call has taken the running flag and has not given it back. -/
def holds (call : ExecuteCall β) : Bool :=
  match call.phase with
  | .exchanged | .rejected | .permitted | .executing _ | .finished _ => true
  | .called | .released _ => false

/-- The body of the activity is in progress. -/
def isExecuting (call : ExecuteCall β) : Bool :=
  match call.phase with
  | .executing _ => true
  | _ => false

/-- A call that executes its activity has the running flag. -/
theorem holds_of_executing {call : ExecuteCall β} (executing : call.isExecuting = true) :
    call.holds = true := by
  obtain ⟨activity, phase⟩ := call
  cases phase <;> simp_all [isExecuting, holds]

end ExecuteCall

/-- The scheduler with the master that it works on. Each thread has a stack of calls,
the innermost first. -/
structure ActivityScheduler (ι β : Type) where
  master : Impl β
  running : Bool := false
  calls : ι → List (ExecuteCall β) := fun _ => []

/-- What can happen next: an idle thread calls Execute, a thread's innermost call takes
its next step, or something else changes the master. -/
inductive SchedulerAction (ι β : Type) where
  | execute (thread : ι) (activity : Option (EcatActivity β))
  | step (thread : ι)
  | interfere (change : Impl β → Impl β)

namespace ActivityScheduler

/-- Whether an activity is being executed. -/
def isRunning (s : ActivityScheduler ι β) : Bool := s.running

/-- The calls below a call that returns: the body that made it goes on with the answer. -/
def resume (answer : Bool) : List (ExecuteCall β) → List (ExecuteCall β)
  | ⟨activity, .executing (.reenter _ next)⟩ :: below =>
    ⟨activity, .executing (next answer)⟩ :: below
  | below => below

variable [DecidableEq ι]

/-- The same scheduler with another stack of calls for one thread. -/
def put (s : ActivityScheduler ι β) (thread : ι) (stack : List (ExecuteCall β)) :
    ActivityScheduler ι β :=
  { s with calls := Function.update s.calls thread stack }

/-- After a thread's calls have been replaced, they are the new ones. -/
@[simp] theorem put_calls_self (s : ActivityScheduler ι β) (thread : ι)
    (stack : List (ExecuteCall β)) : (s.put thread stack).calls thread = stack :=
  Function.update_self ..

/-- Replacing the calls of one thread leaves those of the others. -/
theorem put_calls_of_ne (s : ActivityScheduler ι β) {other thread : ι} (different : other ≠ thread)
    (stack : List (ExecuteCall β)) : (s.put thread stack).calls other = s.calls other :=
  Function.update_of_ne different ..

/-- Call Execute on a thread without a call in progress. A null activity is refused. -/
def execute (thread : ι) (activity : Option (EcatActivity β)) :
    Program (ActivityScheduler ι β) (Option Bool) := fun s =>
  match s.calls thread, activity with
  | [], none => (some false, s)
  | [], some activity => (none, s.put thread [{ activity := activity }])
  | _ :: _, _ => (none, s)

/-- The runtime state that the start of an activity is judged by. -/
def observedState (provider : Option (Impl β → MasterRuntimeState)) (i : Impl β) :
    MasterRuntimeState :=
  match provider with
  | some provide => provide i
  | none => {}

variable [Platform β]

/-- The next step of an innermost call of Execute. The outcome is its answer once it
returns. -/
def advance (provider : Option (Impl β → MasterRuntimeState)) (thread : ι)
    (call : ExecuteCall β) (below : List (ExecuteCall β)) :
    Program (ActivityScheduler ι β) (Option Bool) := fun s =>
  let goOn (phase : ExecutePhase β) (s : ActivityScheduler ι β) :=
    (none, s.put thread ({ call with phase := phase } :: below))
  let answer (ok : Bool) (s : ActivityScheduler ι β) :=
    (some ok, s.put thread (resume ok below))
  match call.phase with
  | .called =>
    -- The exchange sets the flag and tells what it was.
    if s.running then answer false s
    else goOn .exchanged { s with running := true }
  | .exchanged =>
    if call.activity.canStart (observedState provider s.master) then goOn .permitted s
    else goOn .rejected s
  | .rejected => answer false { s with running := false }
  | .permitted => goOn (.executing call.activity.execute) s
  | .executing (.finished ok) => goOn (.finished ok) s
  | .executing (.access act) =>
    let (body, m) := act s.master.controller.master
    goOn (.executing body)
      { s with master := { s.master with controller := { s.master.controller with master := m } } }
  | .executing (.reenter none next) => goOn (.executing (next false)) s
  | .executing (.reenter (some activity) _) =>
    (none, s.put thread ({ activity := activity } :: call :: below))
  | .finished ok => goOn (.released ok) { s with running := false }
  | .released ok =>
    answer ok { s with
      master := (Impl.onController (completeActivity ok call.activity.failurePolicy)).after s.master }

/-- One thing that happens. A thread without a call in progress has no step to take. -/
def happen (provider : Option (Impl β → MasterRuntimeState)) :
    SchedulerAction ι β → Program (ActivityScheduler ι β) (Option Bool)
  | .execute thread activity => execute thread activity
  | .step thread => fun s =>
    match s.calls thread with
    | [] => (none, s)
    | call :: below => advance provider thread call below s
  | .interfere change => fun s => (none, { s with master := change s.master })

/-! ## Single steps -/

section Steps

variable {provider : Option (Impl β → MasterRuntimeState)} {thread : ι} {activity : EcatActivity β}
  {below : List (ExecuteCall β)} {s : ActivityScheduler ι β}

/-- A call that finds the flag set is refused: it answers false to whatever has called it. -/
theorem advance_called_refused (taken : s.running = true) :
    (advance provider thread ⟨activity, .called⟩ below).after s =
      s.put thread (resume false below) := by
  simp [advance, Program.after, StateT.run, taken]

/-- A call that finds the flag clear has set it in the same step. -/
theorem advance_called_exchanged (clear : s.running = false) :
    (advance provider thread ⟨activity, .called⟩ below).after s =
      { s with running := true }.put thread (⟨activity, .exchanged⟩ :: below) := by
  simp [advance, Program.after, StateT.run, clear]

/-- Whether or not the activity can start, its call keeps the flag for now. -/
theorem advance_exchanged :
    (advance provider thread ⟨activity, .exchanged⟩ below).after s =
      s.put thread (⟨activity,
        if activity.canStart (observedState provider s.master) then .permitted else .rejected⟩ ::
          below) := by
  by_cases starts : activity.canStart (observedState provider s.master) = true <;>
    simp [advance, Program.after, StateT.run, starts]

/-- The last step of a call does to the master what the end of an activity does to it in
the runs of whole calls. -/
theorem advance_released (ok : Bool) :
    ((advance provider thread ⟨activity, .released ok⟩ below).after s).master =
      (Impl.handle (.activity ok activity.failurePolicy)).after s.master := rfl

/-- A thread with no call has no step to take. -/
theorem happen_idle (idle : s.calls thread = []) :
    (happen provider (.step thread)).after s = s := by
  simp [happen, Program.after, StateT.run, idle]

/-- A step of a thread is one of its innermost call. -/
theorem happen_inside {call : ExecuteCall β} (inside : s.calls thread = call :: below) :
    (happen provider (.step thread)).after s = (advance provider thread call below).after s := by
  simp [happen, Program.after, StateT.run, inside]

omit [Platform β] in
/-- Only an idle thread's call with an activity is begun. -/
theorem execute_after (s : ActivityScheduler ι β) (thread : ι)
    (activity : Option (EcatActivity β)) :
    (execute thread activity).after s = s ∨
      ∃ present, activity = some present ∧ s.calls thread = [] ∧
        (execute thread activity).after s = s.put thread [{ activity := present }] := by
  cases idle : s.calls thread with
  | nil =>
    cases activity with
    | none => exact .inl (by simp [execute, Program.after, StateT.run, idle])
    | some present =>
      exact .inr ⟨present, rfl, rfl, by simp [execute, Program.after, StateT.run, idle]⟩
  | cons call below => exact .inl (by simp [execute, Program.after, StateT.run, idle])

/-- A call of Execute does nothing for a null activity or while the thread is in another
call; otherwise it becomes the thread's only call, and nothing else changes. -/
theorem happen_execute (provider : Option (Impl β → MasterRuntimeState))
    (s : ActivityScheduler ι β) (thread : ι) (activity : Option (EcatActivity β)) :
    (happen provider (.execute thread activity)).after s = s ∨
      ∃ present, activity = some present ∧ s.calls thread = [] ∧
        (happen provider (.execute thread activity)).after s =
          s.put thread [{ activity := present }] :=
  execute_after s thread activity

end Steps

/-! ## Calls that nothing interrupts -/

section Alone

/-- One call in progress, on one thread. -/
def alone (thread : ι) (i : Impl β) (running : Bool) (call : ExecuteCall β) :
    ActivityScheduler ι β :=
  { master := i, running := running, calls := Function.update (fun _ => []) thread [call] }

omit [Platform β] in
/-- Where one call is alone, the thread has just this call. -/
theorem alone_calls (thread : ι) (i : Impl β) (running : Bool) (call : ExecuteCall β) :
    (alone thread i running call).calls thread = [call] := by
  simp [alone]

variable (provider : Option (Impl β → MasterRuntimeState)) (thread : ι)

/-- The next step of the call in progress. -/
theorem happen_alone (i : Impl β) (running : Bool) (call : ExecuteCall β) :
    (happen provider (.step thread)).after (alone thread i running call) =
      (advance provider thread call []).after (alone thread i running call) :=
  happen_inside (alone_calls thread i running call)

/-- While its body goes on alone, a call ends where the body ends. The induction follows
the body; a nested call takes two steps to be refused. -/
theorem alone_finishes (activity : EcatActivity β) {body : ActivityBody β} {m m' : EcMaster β}
    {ok : Bool} (finishes : body.Finishes m ok m') (i : Impl β)
    (start : i.controller.master = m) :
    ∃ steps, Runs.final (happen provider) (alone thread i true ⟨activity, .executing body⟩)
        (List.replicate steps (.step thread)) =
      alone thread { i with controller := { i.controller with master := m' } } true
        ⟨activity, .executing (.finished ok)⟩ := by
  induction finishes generalizing i with
  | finished ok m =>
    subst start
    exact ⟨0, rfl⟩
  | @access act m m' ok rest inductionHypothesis =>
    subst start
    obtain ⟨steps, reached⟩ := inductionHypothesis
      { i with controller := { i.controller with master := (act i.controller.master).2 } } rfl
    refine ⟨steps + 1, ?_⟩
    have accessed : (happen provider (.step thread)).after
        (alone thread i true ⟨activity, .executing (.access act)⟩) =
        alone thread
          { i with controller := { i.controller with master := (act i.controller.master).2 } }
          true ⟨activity, .executing (act i.controller.master).1⟩ := by
      rw [happen_alone]
      simp [advance, Program.after, StateT.run, alone, put]
    rw [List.replicate_succ]
    refine Eq.trans ?_ reached
    rw [← accessed]
    rfl
  | @reenter nested next m m' ok rest inductionHypothesis =>
    obtain ⟨steps, reached⟩ := inductionHypothesis i start
    cases nested with
    | none =>
      have answered : (happen provider (.step thread)).after
          (alone thread i true ⟨activity, .executing (.reenter none next)⟩) =
          alone thread i true ⟨activity, .executing (next false)⟩ := by
        rw [happen_alone]
        simp [advance, Program.after, StateT.run, alone, put]
      refine ⟨steps + 1, Eq.trans ?_ reached⟩
      rw [List.replicate_succ, ← answered]
      rfl
    | some nested =>
      have refused : (happen provider (.step thread)).after ((happen provider (.step thread)).after
          (alone thread i true ⟨activity, .executing (.reenter (some nested) next)⟩)) =
          alone thread i true ⟨activity, .executing (next false)⟩ := by
        rw [happen_alone]
        simp [happen, advance, resume, Program.after, StateT.run, alone, put]
      refine ⟨steps + 2, Eq.trans ?_ reached⟩
      rw [List.replicate_succ, List.replicate_succ, ← refused]
      rfl

/-- A call of Execute that can start and that nothing interrupts does to the master what
its body does, and then what the end of an activity does in the runs of whole calls. -/
theorem execute_alone (activity : EcatActivity β) (i : Impl β) {m : EcMaster β} {ok : Bool}
    (starts : activity.canStart (observedState provider i) = true)
    (finishes : activity.execute.Finishes i.controller.master ok m) :
    ∃ steps, Runs.final (happen provider) { master := i }
        (.execute thread (some activity) :: List.replicate steps (.step thread)) =
      { master := (Impl.handle (.activity ok activity.failurePolicy)).after
          { i with controller := { i.controller with master := m } } } := by
  obtain ⟨steps, reached⟩ := alone_finishes provider thread activity finishes i rfl
  -- Three steps lead into the body, and three from its end to the answer.
  refine ⟨3 + (steps + 3), ?_⟩
  have begun : Runs.final (happen provider) { master := i }
      (.execute thread (some activity) :: List.replicate 3 (.step thread)) =
      alone thread i true ⟨activity, .executing activity.execute⟩ := by
    simp [Runs.final, List.replicate, happen, execute, advance, Program.after, StateT.run, alone,
      put, starts]
  have ended : ∀ j : Impl β, Runs.final (happen provider)
      (alone thread j true ⟨activity, .executing (.finished ok)⟩)
        (List.replicate 3 (.step thread)) =
      { master := (Impl.handle (.activity ok activity.failurePolicy)).after j } := by
    intro j
    have released : (happen provider (.step thread)).after ((happen provider (.step thread)).after
        (alone thread j true ⟨activity, .executing (.finished ok)⟩)) =
        alone thread j false ⟨activity, .released ok⟩ := by
      simp [happen, advance, Program.after, StateT.run, alone, put]
    change (happen provider (.step thread)).after ((happen provider (.step thread)).after
      ((happen provider (.step thread)).after
        (alone thread j true ⟨activity, .executing (.finished ok)⟩))) = _
    rw [released, happen_alone]
    simp [advance, resume, Program.after, StateT.run, alone, put]
    rfl
  rw [← List.replicate_append_replicate, ← List.replicate_append_replicate, ← List.cons_append,
    Runs.final_append, begun, Runs.final_append, reached, ended]

end Alone

/-! ## Exclusion -/

open ExclusiveFlag (Truthful HeldAt)

omit [DecidableEq ι] [Platform β] in
/-- Returning to the calls below changes none of the phases that matter. -/
theorem countP_resume (answer : Bool) (below : List (ExecuteCall β)) :
    (resume answer below).countP ExecuteCall.holds = below.countP ExecuteCall.holds := by
  unfold resume
  split <;> rfl

/-- The flag tells the truth about the calls. -/
def FlagTruthful (s : ActivityScheduler ι β) : Prop :=
  Truthful ExecuteCall.holds s.running s.calls

omit [Platform β] in
/-- The call that holds the flag gives it back and returns, or goes on without it. -/
theorem FlagTruthful.give_back {s : ActivityScheduler ι β} (truthful : FlagTruthful s)
    {thread : ι} {call : ExecuteCall β} {below stack : List (ExecuteCall β)}
    (inside : s.calls thread = call :: below) (held : call.holds = true)
    (rest : stack.countP ExecuteCall.holds = below.countP ExecuteCall.holds) :
    FlagTruthful ({ s with running := false }.put thread stack) := by
  have counted : (s.calls thread).countP ExecuteCall.holds =
      below.countP ExecuteCall.holds + 1 := by
    rw [inside, List.countP_cons_of_pos held]
  have bound := truthful.count_le thread
  exact truthful.release thread (by omega) (by omega)

/-- A step keeps the flag truthful: only the exchange that finds it clear takes it, and
only the call that has it gives it back. -/
theorem advance_truthful (provider : Option (Impl β → MasterRuntimeState))
    (s : ActivityScheduler ι β) (truthful : FlagTruthful s) {thread : ι} {call : ExecuteCall β}
    {below : List (ExecuteCall β)} (inside : s.calls thread = call :: below) :
    FlagTruthful ((advance provider thread call below).after s) := by
  obtain ⟨activity, phase⟩ := call
  cases phase with
  | called =>
    by_cases taken : s.running = true
    · rw [advance_called_refused taken]
      exact truthful.keep thread (by rw [inside, countP_resume]; rfl)
    · have clear : s.running = false := Bool.eq_false_iff.mpr taken
      have vacant : (s.calls thread).countP ExecuteCall.holds = 0 := truthful.vacant clear thread
      rw [inside, List.countP_cons_of_neg Bool.false_ne_true] at vacant
      rw [advance_called_exchanged clear]
      apply truthful.take clear thread
      rw [List.countP_cons_of_pos rfl, vacant]
  | exchanged =>
    have held : ExecuteCall.holds ⟨activity,
        if activity.canStart (observedState provider s.master) then .permitted
        else .rejected⟩ = true := by
      split <;> rfl
    rw [advance_exchanged]
    apply truthful.keep thread
    rw [inside, List.countP_cons_of_pos held]
    exact (List.countP_cons_of_pos rfl).symm
  | rejected => exact truthful.give_back inside rfl (countP_resume false below)
  | permitted => exact truthful.keep thread (by rw [inside]; rfl)
  | executing body =>
    cases body with
    | finished ok => exact truthful.keep thread (by rw [inside]; rfl)
    | access act => exact truthful.keep thread (by rw [inside]; rfl)
    | reenter nested next =>
      cases nested with
      | none => exact truthful.keep thread (by rw [inside]; rfl)
      | some nested => exact truthful.keep thread (by rw [inside]; rfl)
  | finished ok => exact truthful.give_back inside rfl rfl
  | released ok => exact truthful.keep thread (by rw [inside, countP_resume]; rfl)

/-- Whatever happens next, the flag stays truthful. -/
theorem happen_truthful (provider : Option (Impl β → MasterRuntimeState))
    (s : ActivityScheduler ι β) (action : SchedulerAction ι β) (truthful : FlagTruthful s) :
    FlagTruthful ((happen provider action).after s) := by
  cases action with
  | execute thread activity =>
    rcases happen_execute provider s thread activity with same | ⟨present, -, idle, same⟩
    · rw [same]
      exact truthful
    · rw [same]
      exact truthful.keep thread (by rw [idle]; rfl)
  | interfere change => exact truthful
  | step thread =>
    cases inside : s.calls thread with
    | nil =>
      rw [happen_idle inside]
      exact truthful
    | cons call below =>
      rw [happen_inside inside]
      exact advance_truthful provider s truthful inside

/-- In every run from a scheduler without calls the flag is truthful. -/
theorem truthful_final (provider : Option (Impl β → MasterRuntimeState)) (i : Impl β)
    (actions : List (SchedulerAction ι β)) :
    FlagTruthful (Runs.final (happen provider) { master := i } actions) :=
  Runs.final_invariant (happen provider) { master := i } FlagTruthful (happen_truthful provider)
    ExclusiveFlag.truthful_idle actions

/-- A step that clears the flag is one of the call that holds it. -/
theorem advance_clears (provider : Option (Impl β → MasterRuntimeState))
    {s : ActivityScheduler ι β} {thread : ι} {call : ExecuteCall β}
    {below : List (ExecuteCall β)} (taken : s.running = true)
    (clear : ((advance provider thread call below).after s).running = false) :
    call.holds = true := by
  obtain ⟨activity, phase⟩ := call
  cases phase with
  | called =>
    rw [advance_called_refused taken] at clear
    exact absurd clear (Bool.ne_false_iff.mpr taken)
  | released ok => exact absurd clear (Bool.ne_false_iff.mpr taken)
  | _ => rfl

/-- Anything that clears the flag is a step of the only call that holds it. -/
theorem happen_clears (provider : Option (Impl β → MasterRuntimeState))
    {s : ActivityScheduler ι β} (truthful : FlagTruthful s) {action : SchedulerAction ι β}
    (taken : s.running = true) (clear : ((happen provider action).after s).running = false) :
    ∃ thread call below, action = .step thread ∧ s.calls thread = call :: below ∧
      call.holds = true ∧
      ∀ position, HeldAt ExecuteCall.holds s.calls position → position = (thread, 0) := by
  cases action with
  | execute thread activity =>
    rcases happen_execute provider s thread activity with same | ⟨present, -, -, same⟩ <;>
      rw [same] at clear <;> exact absurd clear (Bool.ne_false_iff.mpr taken)
  | interfere change => exact absurd clear (Bool.ne_false_iff.mpr taken)
  | step thread =>
    cases inside : s.calls thread with
    | nil =>
      rw [happen_idle inside] at clear
      exact absurd clear (Bool.ne_false_iff.mpr taken)
    | cons call below =>
      rw [happen_inside inside] at clear
      have held := advance_clears provider taken clear
      refine ⟨thread, call, below, rfl, inside, held, fun position holding => ?_⟩
      exact truthful.exclusive holding ⟨call, by rw [inside]; rfl, held⟩

/-- In every run, with any number of threads and nested calls and any activities: at
most one body is in progress, the scheduler is running exactly while one call holds the
flag, only that call clears it, and the flag is clear with no call in progress. -/
theorem activities_exclusive (provider : Option (Impl β → MasterRuntimeState)) (i : Impl β)
    (actions : List (SchedulerAction ι β)) :
    let start : ActivityScheduler ι β := { master := i }
    let s := Runs.final (happen provider) start actions
    (∀ first second, HeldAt ExecuteCall.isExecuting s.calls first →
        HeldAt ExecuteCall.isExecuting s.calls second → first = second) ∧
      (s.isRunning = true ↔ ∃! position, HeldAt ExecuteCall.holds s.calls position) ∧
      (∀ entry ∈ Runs.history (happen provider) start actions,
        entry.before.isRunning = true → entry.after.isRunning = false →
          ∃ thread call below, entry.operation = .step thread ∧
            entry.before.calls thread = call :: below ∧ call.holds = true ∧
            ∀ position, HeldAt ExecuteCall.holds entry.before.calls position →
              position = (thread, 0)) ∧
      ((∀ thread, s.calls thread = []) → s.isRunning = false) := by
  intro start s
  have truthful : FlagTruthful s := truthful_final provider i actions
  refine ⟨?_, truthful.flag_iff, ?_, ?_⟩
  · rintro first second ⟨one, found, executing⟩ ⟨other, located, running⟩
    exact truthful.exclusive ⟨one, found, ExecuteCall.holds_of_executing executing⟩
      ⟨other, located, ExecuteCall.holds_of_executing running⟩
  · intro entry member taken clear
    obtain ⟨past, action, rfl⟩ := Runs.turn_of_mem_history (happen provider) start member
    exact happen_clears provider (truthful_final provider i past) taken clear
  · intro idle
    apply Bool.eq_false_iff.mpr
    intro taken
    obtain ⟨⟨thread, depth⟩, ⟨call, found, -⟩, -⟩ := truthful.flag_iff.mp taken
    rw [idle thread] at found
    cases found

end ActivityScheduler

end MoEcat
