import MoEcat.AsyncLogger

/-!
# The end of the logger

The destructor sets the flag, notifies the worker and waits for it. From then on nothing is
put into the queue, and the worker does not fall asleep again: it writes what is left and
leaves. So the destructor returns after no more steps of the worker than there are records
to write, and four; and when it returns every record that was enqueued has been written.
-/

namespace MoEcat

namespace AsyncLogger

variable {ι : Type}

/-- What the destructor has brought about so far. -/
def Shut (l : AsyncLogger ι) : Prop :=
  match l.destructor with
  | .alive => True
  | .closing => l.shutdown = true
  | .joining => l.shutdown = true ∧ l.worker.isWaiting = false
  | .done => l.shutdown = true ∧ l.worker.hasLeft = true

/-- How many steps the worker takes for a queue and for leaving. -/
def outstanding (queue : List LogRecord) : Nat := if queue = [] then 1 else queue.length + 3

/-- How many steps the worker takes to its end once the flag is set. -/
def remaining (l : AsyncLogger ι) : Nat :=
  match l.worker with
  | .left => 0
  | .checking | .waiting => outstanding l.queue
  | .writing batch => batch.length + 1 + outstanding l.queue

/-- The worker can take a step: it is not asleep and has not left. -/
def awake (l : AsyncLogger ι) : Bool :=
  match l.worker with
  | .checking | .writing _ => true
  | .waiting | .left => false

/-- A turn is a step that the worker really takes. -/
def workerStep (entry : Runs.Turn (AsyncLogger ι) (LoggerAction ι) Unit) : Bool :=
  match entry.operation with
  | .work _ => entry.before.awake
  | _ => false

/-- A queue takes the worker at most three steps more than it has records. -/
theorem outstanding_le (queue : List LogRecord) : outstanding queue ≤ queue.length + 3 := by
  unfold outstanding
  split <;> omega

/-- What remains for the worker is bounded by the records that it has and that wait. -/
theorem remaining_le (l : AsyncLogger ι) :
    l.remaining ≤ l.queue.length + l.worker.batch.length + 4 := by
  have queued := outstanding_le l.queue
  unfold remaining
  cases l.worker with
  | writing batch =>
    simp only [WorkerPhase.batch]
    omega
  | _ =>
    simp only [WorkerPhase.batch, List.length_nil]
    omega

section Steps

variable {l l' : AsyncLogger ι}

/-- What the destructor waits for is not undone by the others. -/
theorem Shut.mono (shut : Shut l) (destructor : l'.destructor = l.destructor)
    (shutdown : l'.shutdown = l.shutdown)
    (awake : l.worker.isWaiting = false → l'.worker.isWaiting = false)
    (left : l.worker.hasLeft = true → l'.worker.hasLeft = true) : Shut l' := by
  unfold Shut at *
  rw [destructor, shutdown]
  cases phase : l.destructor with
  | alive => trivial
  | closing => simpa only [phase] using shut
  | joining =>
    simp only [phase] at shut
    exact shut.imp_right awake
  | done =>
    simp only [phase] at shut
    exact shut.imp_right left

/-- A notification leaves all but the worker's sleep, and what remains for it. -/
theorem notify_same (l : AsyncLogger ι) :
    l.notify.destructor = l.destructor ∧ l.notify.shutdown = l.shutdown ∧
      l.notify.remaining = l.remaining ∧
      (l.worker.hasLeft = true → l.notify.worker.hasLeft = true) := by
  unfold notify remaining
  cases phase : l.worker <;> simp [phase, WorkerPhase.hasLeft]

/-- A notification leaves the phase of the destructor. -/
theorem Shut.notify (shut : Shut l) : Shut l.notify := by
  obtain ⟨destructor, shutdown, -, left⟩ := notify_same l
  exact shut.mono destructor shutdown (fun _ => notify_awake l) left

/-- After the flag is set, a step of the worker is one step towards its end. -/
theorem work_shut (closed : l.shutdown = true) (timestamp : String) :
    (work timestamp l).destructor = l.destructor ∧ (work timestamp l).shutdown = l.shutdown ∧
      (l.awake = true → (work timestamp l).worker.isWaiting = false ∧
        (work timestamp l).remaining + 1 ≤ l.remaining) ∧
      (l.awake = false → work timestamp l = l) := by
  unfold work awake
  cases phase : l.worker with
  | checking =>
    by_cases empty : l.queue = []
    · simp [closed, empty, remaining, phase, outstanding, WorkerPhase.isWaiting]
    · simp [closed, empty, remaining, phase, outstanding, WorkerPhase.isWaiting]
  | waiting => simp
  | writing batch =>
    cases batch with
    | nil =>
      simp only [remaining, phase, WorkerPhase.isWaiting]
      refine ⟨trivial, trivial, fun _ => ⟨trivial, ?_⟩, Bool.noConfusion⟩
      simp only [List.length_nil]
      omega
    | cons record batch =>
      simp only [remaining, phase, WorkerPhase.isWaiting]
      refine ⟨trivial, trivial, fun _ => ⟨trivial, ?_⟩, Bool.noConfusion⟩
      simp only [List.length_cons]
      omega
  | left => simp

/-- The worker leaves the destructor where it is. -/
theorem work_destructor (l : AsyncLogger ι) (timestamp : String) :
    (work timestamp l).destructor = l.destructor := by
  unfold work
  cases l.worker with
  | checking =>
    dsimp only
    split
    · rfl
    · split <;> rfl
  | writing batch => cases batch <;> rfl
  | _ => rfl

/-- A worker that has left is not awake. -/
theorem not_awake_of_hasLeft (left : l.worker.hasLeft = true) : l.awake = false := by
  unfold awake
  cases phase : l.worker with
  | left => rfl
  | _ => simp [phase, WorkerPhase.hasLeft] at left

/-- A step of the worker keeps what the phase of the destructor says. -/
theorem Shut.work (shut : Shut l) (timestamp : String) : Shut (work timestamp l) := by
  have kept := work_destructor l timestamp
  cases phase : l.destructor with
  | alive =>
    rw [Shut, kept, phase]
    trivial
  | closing =>
    simp only [Shut, phase] at shut
    rw [Shut, kept, phase]
    exact (work_shut shut timestamp).2.1.trans shut
  | joining =>
    simp only [Shut, phase] at shut
    obtain ⟨-, shutdown, goesOn, stays⟩ := work_shut shut.1 timestamp
    rw [Shut, kept, phase]
    cases able : l.awake with
    | true => exact ⟨shutdown.trans shut.1, (goesOn able).1⟩
    | false => rwa [stays able]
  | done =>
    simp only [Shut, phase] at shut
    rw [(work_shut shut.1 timestamp).2.2.2 (not_awake_of_hasLeft shut.2), Shut, phase]
    exact shut

/-- A step of the destructor brings it to a phase that holds. -/
theorem Shut.destroy (shut : Shut l) : Shut (destroy l) := by
  unfold AsyncLogger.destroy
  cases phase : l.destructor with
  | alive => exact rfl
  | closing =>
    simp only [Shut, phase] at shut
    exact ⟨(notify_same l).2.1.trans shut, notify_awake l⟩
  | joining =>
    simp only [Shut, phase] at shut
    dsimp only
    split
    · next left => exact ⟨shut.1, left⟩
    · simpa only [Shut, phase] using shut
  | done => exact shut

variable [DecidableEq ι]

/-- Whatever happens keeps what the phase of the destructor says. -/
theorem Shut.happen (shut : Shut l) (action : LoggerAction ι) : Shut ((happen action).after l) := by
  cases action with
  | log thread record =>
    simp only [AsyncLogger.happen, Program.after_modify, AsyncLogger.log]
    split
    · split
      · exact shut.mono rfl rfl id id
      · exact shut
    · exact shut
  | step thread =>
    simp only [AsyncLogger.happen, Program.after_modify, advance]
    split
    · exact shut
    · split
      · exact shut.mono rfl rfl id id
      · exact shut.mono rfl rfl id id
    · exact shut.notify.mono rfl rfl id id
  | work timestamp => exact shut.work timestamp
  | wake => exact shut.notify
  | destroy => exact shut.destroy
  | configure change => exact shut.mono rfl rfl id id

/-- The destructor has set the flag and has not returned. -/
def Awaits (l : AsyncLogger ι) : Prop := l.destructor = .closing ∨ l.destructor = .joining

omit [DecidableEq ι] in
/-- While the destructor waits, the flag is set. -/
theorem Awaits.closed (awaits : l.Awaits) (shut : Shut l) : l.shutdown = true := by
  unfold Shut at shut
  rcases awaits with phase | phase
  · simpa only [phase] using shut
  · simp only [phase] at shut
    exact shut.1

/-- After the flag is set, a call of Log only comes to its end, with a notification at most. -/
theorem advance_closed (thread : ι) (closed : l.shutdown = true) :
    (advance thread l).destructor = l.destructor ∧ (advance thread l).remaining = l.remaining := by
  obtain ⟨destructor, -, same, -⟩ := notify_same l
  unfold advance
  cases l.calls thread with
  | idle => exact ⟨rfl, rfl⟩
  | wanted record =>
    dsimp only
    rw [if_pos closed]
    exact ⟨rfl, rfl⟩
  | enqueued => exact ⟨destructor, same⟩

/-- While the destructor waits, a turn is its return, a step of the worker towards its end,
or nothing to either of them. -/
theorem awaits_turn (shut : Shut l) (awaits : l.Awaits) (action : LoggerAction ι) :
    let entry := Runs.turn happen l action
    (entry.after.destructor = .done) ∨
      (entry.after.Awaits ∧ (workerStep entry).toNat + entry.after.remaining ≤ l.remaining) := by
  have closed := awaits.closed shut
  have quiet {l' : AsyncLogger ι} (destructor : l'.destructor = l.destructor)
      (same : l'.remaining = l.remaining) : l'.Awaits ∧ 0 + l'.remaining ≤ l.remaining := by
    rw [Awaits, destructor, same, Nat.zero_add]
    exact ⟨awaits, Nat.le_refl _⟩
  cases action with
  | log thread record =>
    right
    simp only [Runs.turn, AsyncLogger.happen, Program.after_modify, AsyncLogger.log]
    split
    · split
      · exact quiet rfl rfl
      · exact quiet rfl rfl
    · exact quiet rfl rfl
  | step thread =>
    obtain ⟨destructor, same⟩ := advance_closed thread closed
    exact .inr (quiet destructor same)
  | work timestamp =>
    obtain ⟨destructor, -, goesOn, stays⟩ := work_shut closed timestamp
    right
    simp only [Runs.turn, AsyncLogger.happen, Program.after_modify, workerStep]
    cases able : l.awake with
    | true =>
      have fewer := (goesOn able).2
      rw [Awaits, destructor, Bool.toNat_true]
      exact ⟨awaits, by omega⟩
    | false =>
      rw [stays able]
      exact quiet rfl rfl
  | wake =>
    obtain ⟨destructor, -, same, -⟩ := notify_same l
    exact .inr (quiet destructor same)
  | destroy =>
    simp only [Runs.turn, AsyncLogger.happen, Program.after_modify, AsyncLogger.destroy, workerStep]
    rcases awaits with phase | phase
    · rw [phase]
      exact .inr ⟨.inr rfl, Nat.le_of_eq ((Nat.zero_add _).trans (notify_same l).2.2.1)⟩
    · rw [phase]
      dsimp only
      split
      · exact .inl rfl
      · exact .inr (quiet rfl rfl)
  | configure change => exact .inr (quiet rfl rfl)

end Steps

/-! ## Whole runs -/

section Ends

variable [DecidableEq ι]

/-- Every run keeps what the phase of the destructor says. -/
theorem shut_final (actions : List (LoggerAction ι)) :
    Shut (Runs.final happen ({} : AsyncLogger ι) actions) :=
  Runs.final_invariant happen _ Shut (fun _ action shut => shut.happen action)
    (show Shut ({} : AsyncLogger ι) from trivial) actions

omit [DecidableEq ι] in
/-- A worker that has left has written everything. -/
theorem Accounted.complete {l : AsyncLogger ι} (accounted : Accounted l)
    (left : l.worker.hasLeft = true) : l.handed = l.enqueued := by
  have nothing : l.worker.batch = [] := by
    cases phase : l.worker with
    | writing batch => simp [phase, WorkerPhase.hasLeft] at left
    | _ => rfl
  rw [accounted.records, nothing, (accounted.vacated left).2, List.append_nil, List.append_nil]

omit [DecidableEq ι] in
/-- While the destructor waits, there is a next step on the way to its return. -/
theorem Awaits.goes_on {l : AsyncLogger ι} (awaits : l.Awaits) (shut : Shut l) :
    l.awake = true ∨ l.destructor = .closing ∨ (destroy l).destructor = .done := by
  rcases awaits with phase | phase
  · exact .inr (.inl phase)
  · simp only [Shut, phase] at shut
    unfold awake destroy
    cases worker : l.worker with
    | waiting => simp [worker, WorkerPhase.isWaiting] at shut
    | left => simp [phase, WorkerPhase.hasLeft]
    | _ => exact .inl rfl

/-- The destructor returns, and nothing is lost. From the moment in which it has set the flag
until it returns, whatever else happens, the worker takes at most as many steps as there are
records to write, and four; in between the worker can take the next one, or the destructor
still has to notify it, or it has left and the destructor's next step is its return. Whenever
the destructor has returned, the records handed to the sinks are those ever enqueued, all of
them and in their order. -/
theorem destructor_returns (earlier later : List (LoggerAction ι))
    (begun : (Runs.final happen ({} : AsyncLogger ι) earlier).Awaits) :
    let l := Runs.final happen ({} : AsyncLogger ι) earlier
    let l' := Runs.final happen l later
    ((∃ entry ∈ Runs.history happen l later, entry.after.destructor = .done) ∨
      (Runs.history happen l later).countP workerStep ≤
          l.queue.length + l.worker.batch.length + 4 ∧
        (l'.awake = true ∨ l'.destructor = .closing ∨
          ((happen .destroy).after l').destructor = .done)) ∧
      (l'.destructor = .done → l'.handed = l'.enqueued) := by
  intro l l'
  have whole : Runs.final happen ({} : AsyncLogger ι) (earlier ++ later) = l' :=
    Runs.final_append happen _ earlier later
  constructor
  · have waits := Runs.counted_until happen l (fun l => Shut l ∧ l.Awaits)
      (fun entry => entry.after.destructor = .done) workerStep remaining
      (fun l action waits => (awaits_turn waits.1 waits.2 action).imp id fun still =>
        ⟨⟨waits.1.happen action, still.1⟩, still.2⟩)
      ⟨shut_final earlier, begun⟩ later
    rcases waits with returned | ⟨⟨shut, awaits⟩, steps⟩
    · exact .inl returned
    · have bound := remaining_le l
      exact .inr ⟨by omega, awaits.goes_on shut⟩
  · intro done
    have shut := shut_final (earlier ++ later)
    rw [whole] at shut
    simp only [Shut, done] at shut
    exact (whole ▸ accounted_final (earlier ++ later)).complete shut.2

/-- A record is enqueued, the flag is set before it is written, and the worker writes it. -/
theorem destructor_returns_bench :
    let begun : List (LoggerAction Nat) :=
      [.log 0 ⟨.info, "a", 1, "b"⟩, .step 0, .step 0, .destroy]
    let rest : List (LoggerAction Nat) :=
      [.destroy, .work "t", .work "t", .work "t", .work "t", .destroy]
    let l := Runs.final happen (Runs.final happen ({} : AsyncLogger Nat) begun) rest
    l.handed = l.enqueued := by
  intro begun rest l
  exact (destructor_returns begun rest (.inl rfl)).2 rfl

end Ends

end AsyncLogger

end MoEcat
