import MoEcat.Runs
import MoEcat.Traces

/-!
# The cyclic runner

The runner has a loop of its own thread perform a task again and again. Its owner is one
thread, which starts the loop and stops it; the destructor stops it too. The loop takes the
clock once, when it begins, and from then on only adds the interval to the point in time
that it sleeps until.

Reading the flag, setting it, putting the task into its place, making the thread and waiting
for its end are steps of the owner; reading the flag, the two ends of a task and waking up
are steps of the loop. A run interleaves them in any order, with time going by in between.
A task takes as long as it takes and does not call the runner. Scheduling parameters of the
thread change nothing here. Times are in nanoseconds.

The events that are recorded stand for the history and are not read by the program.
-/

namespace MoEcat

namespace CyclicRunner

/-- How far the owner's call has come. -/
inductive OwnerPhase (τ : Type) where
  | idle
  -- Start has found the flag clear.
  | admitted (task : Option τ)
  -- The task is in its place.
  | assigned
  -- The flag is set; there is no thread yet.
  | announced
  -- Stop has found the flag set.
  | stopping
  -- The flag is clear; the thread has not been joined.
  | joining

/-- Where the loop stands, with the time that it counts from. -/
inductive LoopPhase where
  -- The thread is there; the clock has not been read.
  | created
  -- About to read the flag.
  | checking (next : Int)
  -- The flag was set; the task has not begun.
  | admitted (next : Int)
  | working (next : Int)
  | sleeping (next : Int)
deriving DecidableEq

/-- What statements are about: the answers of Start, the returns of Stop, the begin and the
end of every task with their times, and the clearing of the flag. -/
inductive RunnerEvent (τ : Type) where
  | answered (started : Bool)
  | launched (time : Int)
  | begun (task : τ) (time : Int)
  | ended (time : Int)
  | cleared
  | stopped
  -- A thread was put where one that could be joined still was.
  | aborted

end CyclicRunner

open CyclicRunner in
/-- The runner with the call that its owner is in, its loop and the time. The record is not
read by the program. -/
structure CyclicRunner (τ : Type) where
  cycleTimeUs : Int
  task : Option τ := none
  running : Bool := false
  joinable : Bool := false
  owner : OwnerPhase τ := .idle
  loop : Option LoopPhase := none
  now : Int := 0
  log : List (RunnerEvent τ) := []

/-- What may happen to a runner: a call, a step of the owner, a step of the loop, or time
going by. -/
inductive RunnerAction (τ : Type) where
  | start (task : Option τ)
  | stop
  | own
  | work
  | pass (duration : Nat)

namespace CyclicRunner

variable {τ : Type}

/-- The cycle time in nanoseconds. -/
def interval (r : CyclicRunner τ) : Int := 1000 * r.cycleTimeUs

/-- Record an event. -/
def note (r : CyclicRunner τ) (event : RunnerEvent τ) : CyclicRunner τ :=
  { r with log := r.log ++ [event] }

/-- Begin a call of Start. -/
def start (task : Option τ) (r : CyclicRunner τ) : CyclicRunner τ :=
  match r.owner with
  | .idle => if r.running then r.note (.answered false) else { r with owner := .admitted task }
  | _ => r

/-- Begin a call of Stop. -/
def stop (r : CyclicRunner τ) : CyclicRunner τ :=
  match r.owner with
  | .idle => if r.running then { r with owner := .stopping } else r.note .stopped
  | _ => r

/-- The next step of the owner's call. It waits until the loop has ended. -/
def advance (r : CyclicRunner τ) : CyclicRunner τ :=
  match r.owner with
  | .idle => r
  | .admitted task => { r with task := task, owner := .assigned }
  | .assigned => { r with running := true, owner := .announced }
  | .announced =>
    if r.joinable then r.note .aborted
    else { r.note (.answered true) with joinable := true, loop := some .created, owner := .idle }
  | .stopping => { r.note .cleared with running := false, owner := .joining }
  | .joining =>
    if r.joinable = true ∧ r.loop.isSome = true then r
    else { r.note .stopped with joinable := false, owner := .idle }

/-- The next step of the loop. -/
def runLoop (r : CyclicRunner τ) : CyclicRunner τ :=
  match r.loop with
  | none => r
  | some .created => { r.note (.launched r.now) with loop := some (.checking r.now) }
  | some (.checking next) => { r with loop := if r.running then some (.admitted next) else none }
  | some (.admitted next) =>
    match r.task with
    | none => { r with loop := some (.sleeping (next + r.interval)) }
    | some task => { r.note (.begun task r.now) with loop := some (.working next) }
  | some (.working next) =>
    { r.note (.ended r.now) with loop := some (.sleeping (next + r.interval)) }
  | some (.sleeping next) => if next ≤ r.now then { r with loop := some (.checking next) } else r

/-- One thing that happens, as a program. -/
def happen : RunnerAction τ → Program (CyclicRunner τ) Unit
  | .start task => modify (start task)
  | .stop => modify stop
  | .own => modify advance
  | .work => modify runLoop
  | .pass duration => modify fun r => { r with now := r.now + duration }

/-! ## What the record says -/

/-- The loop that the record tells of: when it read the clock, how many tasks it has begun
since, whether one of them goes on, and how many it has begun after the flag was cleared. -/
structure Ledger where
  origin : Option Int := none
  begins : Nat := 0
  busy : Bool := false
  late : Option Nat := none
deriving DecidableEq, Repr

/-- The ledger after one more event. When Stop returns there is no loop any more. -/
def Ledger.enter (ledger : Ledger) : RunnerEvent τ → Ledger
  | .answered _ | .aborted => ledger
  | .launched time => { ledger with origin := some time, begins := 0 }
  | .begun _ _ =>
    { ledger with begins := ledger.begins + 1, busy := true, late := ledger.late.map (· + 1) }
  | .ended _ => { ledger with busy := false }
  | .cleared => { ledger with late := some 0 }
  | .stopped => {}

/-- The ledger of a record, entered event by event. -/
def ledger (log : List (RunnerEvent τ)) : Ledger := log.foldl Ledger.enter {}

/-- One more event is entered last. -/
theorem ledger_concat (log : List (RunnerEvent τ)) (event : RunnerEvent τ) :
    ledger (log ++ [event]) = (ledger log).enter event := by
  simp [ledger]

/-- So it is with an event that the runner records. -/
@[simp] theorem ledger_note (r : CyclicRunner τ) (event : RunnerEvent τ) :
    ledger (r.note event).log = (ledger r.log).enter event :=
  ledger_concat r.log event

/-! ## What every step keeps -/

/-- The flag, the thread and the loop are as the owner's call has left them. -/
def PhaseFits (r : CyclicRunner τ) : Prop :=
  match r.owner with
  | .idle => r.running = r.joinable ∧ r.loop.isSome = r.running
  | .admitted _ | .assigned => r.running = false ∧ r.joinable = false ∧ r.loop = none
  | .announced => r.running = true ∧ r.joinable = false ∧ r.loop = none
  | .stopping => r.running = true ∧ r.joinable = true ∧ r.loop.isSome = true
  | .joining => r.running = false ∧ r.joinable = true

/-- While Stop waits, the loop may begin the task once more, if it had seen the flag set. -/
def LateFits (ledger : Ledger) (r : CyclicRunner τ) : Prop :=
  match r.owner with
  | .joining => ledger.late = some 0 ∨
      ledger.late = some 1 ∧ ∀ next, r.loop ≠ some (.admitted next)
  | _ => ledger.late = none

/-- A point in time is that of the tasks begun so far on the grid of the intervals. -/
def OnGrid (ledger : Ledger) (r : CyclicRunner τ) (next : Int) : Prop :=
  ∃ origin, ledger.origin = some origin ∧
    (r.task.isSome = true → next = origin + ledger.begins * r.interval)

/-- The loop counts from the time of its next task. -/
def GridFits (ledger : Ledger) (r : CyclicRunner τ) : Prop :=
  match r.loop with
  | none | some .created => True
  | some (.checking next) | some (.admitted next) => OnGrid ledger r next ∧ next ≤ r.now
  | some (.working next) => OnGrid ledger r (next + r.interval)
  | some (.sleeping next) => OnGrid ledger r next

/-- A task has begun and not ended. -/
def isWorking : Option LoopPhase → Bool
  | some (.working _) => true
  | _ => false

/-- All that a run keeps: the flag and the thread fit the owner's call, the ledger fits the
loop, and no thread has been put where one still was. -/
structure Consistent (r : CyclicRunner τ) : Prop where
  phase : r.PhaseFits
  late : LateFits (ledger r.log) r
  grid : GridFits (ledger r.log) r
  busy : (ledger r.log).busy = isWorking r.loop
  sound : .aborted ∉ r.log

/-- A fresh runner is consistent. -/
theorem consistent_constructed (cycleTimeUs : Int) :
    Consistent ({ cycleTimeUs := cycleTimeUs } : CyclicRunner τ) :=
  ⟨⟨rfl, rfl⟩, rfl, trivial, rfl, List.not_mem_nil⟩

/-- Consistency, with what is known of the ledger. -/
theorem Consistent.of_ledger {r : CyclicRunner τ} {l : Ledger} (known : ledger r.log = l)
    (phase : r.PhaseFits) (late : LateFits l r) (grid : GridFits l r)
    (busy : l.busy = isWorking r.loop) (sound : .aborted ∉ r.log) : r.Consistent := by
  subst known
  exact ⟨phase, late, grid, busy, sound⟩

/-- A loop that has not read the clock, or none at all, has no grid. -/
theorem gridFits_of_none (l : Ledger) {r : CyclicRunner τ} (none : r.loop = none) :
    GridFits l r := by
  rw [GridFits, none]
  trivial

/-- An event of another kind adds no abort. -/
theorem sound_concat {log : List (RunnerEvent τ)} (sound : .aborted ∉ log)
    {event : RunnerEvent τ} (other : .aborted ≠ event) : .aborted ∉ log ++ [event] := by
  simp [sound, other]

/-- The grid stays while the loop stays where it is. -/
theorem GridFits.later {l l' : Ledger} {r r' : CyclicRunner τ} (grid : GridFits l r)
    (loop : r'.loop = r.loop) (task : r'.task = r.task) (interval : r'.interval = r.interval)
    (now : r.now ≤ r'.now) (origin : l'.origin = l.origin) (begins : l'.begins = l.begins) :
    GridFits l' r' := by
  unfold GridFits OnGrid at *
  rw [loop, task, interval, origin, begins]
  split
  · trivial
  · trivial
  · rename_i same
    rw [same] at grid
    exact ⟨grid.1, Int.le_trans grid.2 now⟩
  · rename_i same
    rw [same] at grid
    exact ⟨grid.1, Int.le_trans grid.2 now⟩
  · rename_i same
    rwa [same] at grid
  · rename_i same
    rwa [same] at grid

/-- The owner sees no difference between two places of a loop that goes on. -/
theorem PhaseFits.moved {r r' : CyclicRunner τ} (fits : r.PhaseFits)
    (alive : r.loop.isSome = true) (goesOn : r'.loop.isSome = true) (owner : r'.owner = r.owner)
    (running : r'.running = r.running) (joinable : r'.joinable = r.joinable) : r'.PhaseFits := by
  unfold PhaseFits at *
  rw [owner, running, joinable, goesOn]
  cases phase : r.owner with
  | idle | stopping | joining => simpa [phase, alive] using fits
  | admitted _ | assigned | announced =>
    simp only [phase] at fits
    simp [fits.2.2] at alive

/-- Only a loop that goes on to begin a task is late. -/
theorem LateFits.moved {l l' : Ledger} {r r' : CyclicRunner τ} (fits : LateFits l r)
    (late : l'.late = l.late) (owner : r'.owner = r.owner)
    (elsewhere : ∀ next, r'.loop ≠ some (.admitted next)) : LateFits l' r' := by
  unfold LateFits at *
  rw [owner, late]
  cases phase : r.owner with
  | joining =>
    simp only [phase] at fits
    exact fits.imp_right fun once => ⟨once.1, elsewhere⟩
  | _ => simpa only [phase] using fits

/-- While the flag is set nothing is late. -/
theorem LateFits.running {l : Ledger} {r r' : CyclicRunner τ} (fits : LateFits l r)
    (phase : r.PhaseFits) (running : r.running = true) (owner : r'.owner = r.owner) :
    LateFits l r' := by
  unfold LateFits at *
  rw [owner]
  cases place : r.owner with
  | joining =>
    simp only [PhaseFits, place] at phase
    rw [running] at phase
    cases phase.1
  | _ => simpa only [place] using fits

/-- One more task is begun late, but only one. -/
theorem LateFits.begun {r r' : CyclicRunner τ} {l : Ledger} (fits : LateFits l r) {next : Int}
    (loop : r.loop = some (.admitted next)) (owner : r'.owner = r.owner)
    (elsewhere : ∀ next, r'.loop ≠ some (.admitted next)) (task : τ) (time : Int) :
    LateFits (l.enter (.begun task time)) r' := by
  unfold LateFits at *
  rw [owner]
  cases place : r.owner with
  | joining =>
    simp only [place] at fits
    rcases fits with none | ⟨-, ended⟩
    · exact .inr ⟨by simp [Ledger.enter, none], elsewhere⟩
    · exact absurd loop (ended next)
  | _ =>
    simp only [place] at fits
    simp [Ledger.enter, fits]

/-- The loop ends only where Stop waits for it. -/
theorem PhaseFits.joining {r : CyclicRunner τ} (phase : r.PhaseFits)
    (alive : r.loop.isSome = true) (clear : r.running = false) : r.owner = .joining := by
  unfold PhaseFits at phase
  cases place : r.owner with
  | joining => rfl
  | _ => simp_all

section Steps

variable {r : CyclicRunner τ}

/-- Beginning a call of Start keeps the runner consistent. -/
theorem Consistent.start (consistent : r.Consistent) (task : Option τ) :
    (r.start task).Consistent := by
  obtain ⟨phase, late, grid, busy, sound⟩ := consistent
  unfold CyclicRunner.start
  cases owner : r.owner with
  | idle =>
    have fits := phase
    have punctual := late
    simp only [PhaseFits, LateFits, owner] at phase late
    dsimp only
    split
    · next running =>
      have keepsPhase : (r.note (.answered false)).PhaseFits := fits
      exact .of_ledger (ledger_note r _) keepsPhase punctual
        (grid.later rfl rfl rfl (Int.le_refl _) rfl rfl) busy (sound_concat sound (by simp))
    · next clear =>
      have running : r.running = false := by simpa using clear
      have vacant : r.loop = none := by simpa [running] using phase.2
      exact ⟨⟨running, phase.1 ▸ running, vacant⟩, late, gridFits_of_none _ vacant, busy, sound⟩
  | _ => exact ⟨phase, late, grid, busy, sound⟩

/-- So does beginning a call of Stop. -/
theorem Consistent.stop (consistent : r.Consistent) : r.stop.Consistent := by
  obtain ⟨phase, late, grid, busy, sound⟩ := consistent
  unfold CyclicRunner.stop
  cases owner : r.owner with
  | idle =>
    have fits := phase
    simp only [PhaseFits, LateFits, owner] at phase late
    dsimp only
    split
    · next running =>
      exact ⟨⟨running, phase.1 ▸ running, phase.2.trans running⟩, late,
        grid.later rfl rfl rfl (Int.le_refl _) rfl rfl, busy, sound⟩
    · next clear =>
      have vacant : r.loop = none := by simpa [clear] using phase.2
      have keepsPhase : (r.note .stopped).PhaseFits := fits
      have idle : (r.note .stopped).owner = .idle := owner
      refine .of_ledger (ledger_note r _) keepsPhase ?_ (gridFits_of_none _ vacant) ?_
        (sound_concat sound (by simp))
      · rw [LateFits, idle]
        rfl
      · rw [show (r.note .stopped).loop = none from vacant]
        rfl
  | _ => exact ⟨phase, late, grid, busy, sound⟩

/-- So does a step of the owner. The cases are the places where the owner's call can be. -/
theorem Consistent.advance (consistent : r.Consistent) : r.advance.Consistent := by
  obtain ⟨phase, late, grid, busy, sound⟩ := consistent
  unfold CyclicRunner.advance
  cases owner : r.owner with
  | idle => exact ⟨phase, late, grid, busy, sound⟩
  | admitted task =>
    simp only [PhaseFits, LateFits, owner] at phase late
    exact ⟨phase, late, gridFits_of_none _ phase.2.2, busy, sound⟩
  | assigned =>
    simp only [PhaseFits, LateFits, owner] at phase late
    exact ⟨⟨rfl, phase.2⟩, late, gridFits_of_none _ phase.2.2, busy, sound⟩
  | announced =>
    simp only [PhaseFits, LateFits, owner] at phase late
    obtain ⟨running, vacant, none⟩ := phase
    dsimp only
    rw [if_neg (by simp [vacant])]
    refine .of_ledger (ledger_concat r.log _) ⟨running, running.symm⟩ late trivial ?_
      (sound_concat sound (by simp))
    exact busy.trans (by rw [none]; rfl)
  | stopping =>
    simp only [PhaseFits, LateFits, owner] at phase late
    exact .of_ledger (ledger_concat r.log _) ⟨rfl, phase.2.1⟩ (.inl rfl)
      (grid.later rfl rfl rfl (Int.le_refl _) rfl rfl) busy (sound_concat sound (by simp))
  | joining =>
    have fits := phase
    simp only [PhaseFits, owner] at fits
    dsimp only
    split
    · exact ⟨phase, late, grid, busy, sound⟩
    · next ended =>
      have vacant : r.loop = none := by simpa [fits.2] using ended
      refine .of_ledger (ledger_concat r.log _) ⟨fits.1, ?_⟩ rfl (gridFits_of_none _ vacant) ?_
        (sound_concat sound (by simp))
      · simp [note, vacant, fits.1]
      · simp [note, vacant, isWorking, Ledger.enter]

/-- Time that goes by keeps the runner consistent: what has been reached stays reached. -/
theorem Consistent.pass (consistent : r.Consistent) (duration : Nat) :
    Consistent { r with now := r.now + duration } := by
  obtain ⟨phase, late, grid, busy, sound⟩ := consistent
  have later : r.now ≤ r.now + duration := Int.le_add_of_nonneg_right (Int.natCast_nonneg _)
  exact ⟨phase, late, grid.later rfl rfl rfl later rfl rfl, busy, sound⟩

/-- A step of the loop keeps the runner consistent. The cases are the places where the loop
can be; a task begins and ends on the grid. -/
theorem Consistent.runLoop (consistent : r.Consistent) : r.runLoop.Consistent := by
  obtain ⟨phase, late, grid, busy, sound⟩ := consistent
  unfold CyclicRunner.runLoop
  cases loop : r.loop with
  | none => exact ⟨phase, late, grid, busy, sound⟩
  | some place =>
    have alive : r.loop.isSome = true := by rw [loop]; rfl
    simp only [GridFits, loop] at grid
    rw [loop] at busy
    cases place with
    | created =>
      have first (_ : r.task.isSome = true) :
          r.now = r.now + ((ledger r.log).enter (RunnerEvent.launched (τ := τ) r.now)).begins *
            r.interval := by
        simp [Ledger.enter]
      exact .of_ledger (ledger_concat r.log _) (phase.moved alive rfl rfl rfl rfl)
        (late.moved rfl rfl (by simp)) ⟨⟨r.now, rfl, first⟩, Int.le_refl _⟩ busy
        (sound_concat sound (by simp))
    | checking next =>
      dsimp only
      cases running : r.running with
      | true =>
        exact ⟨phase.moved alive rfl rfl running.symm rfl, late.running phase running rfl, grid,
          busy, sound⟩
      | false =>
        have waits := phase.joining alive running
        have fits := phase
        simp only [PhaseFits, waits] at fits
        refine ⟨?_, late.moved rfl rfl (by simp), trivial, busy, sound⟩
        simpa [PhaseFits, waits] using fits.2
    | admitted next =>
      obtain ⟨⟨origin, read, place⟩, due⟩ := grid
      cases task : r.task with
      | none =>
        refine ⟨phase.moved alive rfl rfl rfl rfl, late.moved rfl rfl (by simp), ?_, busy, sound⟩
        exact ⟨origin, read, fun present => by simp at present⟩
      | some job =>
        have reached := place (by rw [task]; rfl)
        have following : next + r.interval =
            origin + ((ledger r.log).begins + 1 : Nat) * r.interval := by
          rw [reached, Int.natCast_add, Int.add_mul]
          omega
        refine .of_ledger (ledger_concat r.log _) (phase.moved alive rfl rfl rfl rfl) ?_
          ⟨origin, read, fun _ => following⟩ rfl (sound_concat sound (by simp))
        apply late.begun loop
        · rfl
        · simp
    | working next =>
      exact .of_ledger (ledger_concat r.log _) (phase.moved alive rfl rfl rfl rfl)
        (late.moved rfl rfl (by simp)) grid rfl (sound_concat sound (by simp))
    | sleeping next =>
      dsimp only
      split
      · next due =>
        exact ⟨phase.moved alive rfl rfl rfl rfl, late.moved rfl rfl (by simp), ⟨grid, due⟩, busy,
          sound⟩
      · exact ⟨phase, late, by simpa [GridFits, loop] using grid, by rw [busy, loop], sound⟩

/-- Whatever happens keeps the runner consistent. -/
theorem Consistent.happen (consistent : r.Consistent) (action : RunnerAction τ) :
    ((happen action).after r).Consistent := by
  cases action with
  | start task => exact consistent.start task
  | stop => exact consistent.stop
  | own => exact consistent.advance
  | work => exact consistent.runLoop
  | pass duration => exact consistent.pass duration

end Steps

/-! ## Whole runs -/

/-- The runner before anything has happened. -/
def constructed (cycleTimeUs : Int) : CyclicRunner τ := { cycleTimeUs := cycleTimeUs }

/-- Every run leaves a consistent runner. -/
theorem consistent_final (cycleTimeUs : Int) (actions : List (RunnerAction τ)) :
    (Runs.final happen (constructed cycleTimeUs) actions).Consistent :=
  Runs.final_invariant happen _ Consistent (fun _ action consistent => consistent.happen action)
    (consistent_constructed cycleTimeUs) actions

/-- What a step does to the record, the interval and the task: it records one event at most,
a task begins at the time of the step and where the loop had been admitted, and the task is
replaced by the owner only. -/
structure StepsTo (r r' : CyclicRunner τ) : Prop where
  record : r'.log = r.log ∨ ∃ event, r'.log = r.log ++ [event] ∧
    ∀ task time, event = .begun task time →
      r.now = time ∧ r.task = some task ∧ ∃ next, r.loop = some (.admitted next)
  interval : r'.interval = r.interval
  task : r'.task = r.task ∨ ∃ task, r.owner = .admitted task

/-- A step that records nothing and leaves the task. -/
theorem StepsTo.quiet {r r' : CyclicRunner τ} (log : r'.log = r.log)
    (cycle : r'.cycleTimeUs = r.cycleTimeUs) (task : r'.task = r.task) : StepsTo r r' :=
  ⟨.inl log, by rw [CyclicRunner.interval, cycle, CyclicRunner.interval], .inl task⟩

/-- A step that records something else than the begin of a task. -/
theorem StepsTo.noted {r r' : CyclicRunner τ} {event : RunnerEvent τ}
    (log : r'.log = r.log ++ [event]) (cycle : r'.cycleTimeUs = r.cycleTimeUs)
    (task : r'.task = r.task) (other : ∀ task time, event ≠ .begun task time) : StepsTo r r' :=
  ⟨.inr ⟨event, log, fun task time same => absurd same (other task time)⟩,
    by rw [CyclicRunner.interval, cycle, CyclicRunner.interval], .inl task⟩

/-- Whatever happens is such a step. Only the loop begins tasks, and only the task in its
place. -/
theorem happen_stepsTo (r : CyclicRunner τ) (action : RunnerAction τ) :
    StepsTo r ((happen action).after r) := by
  cases action with
  | start task =>
    simp only [happen, Program.after_modify, start]
    split
    · split
      · exact .noted rfl rfl rfl (by simp)
      · exact .quiet rfl rfl rfl
    · exact .quiet rfl rfl rfl
  | stop =>
    simp only [happen, Program.after_modify, stop]
    split
    · split
      · exact .quiet rfl rfl rfl
      · exact .noted rfl rfl rfl (by simp)
    · exact .quiet rfl rfl rfl
  | own =>
    simp only [happen, Program.after_modify, advance]
    split
    · exact .quiet rfl rfl rfl
    · next task owner => exact ⟨.inl rfl, rfl, .inr ⟨task, owner⟩⟩
    · exact .quiet rfl rfl rfl
    · split
      · exact .noted rfl rfl rfl (by simp)
      · exact .noted rfl rfl rfl (by simp)
    · exact .noted rfl rfl rfl (by simp)
    · split
      · exact .quiet rfl rfl rfl
      · exact .noted rfl rfl rfl (by simp)
  | work =>
    simp only [happen, Program.after_modify, runLoop]
    split
    · exact .quiet rfl rfl rfl
    · exact .noted rfl rfl rfl (by simp)
    · exact .quiet rfl rfl rfl
    · next next loop =>
      split
      · exact .quiet rfl rfl rfl
      · next job task =>
        refine ⟨.inr ⟨_, rfl, ?_⟩, rfl, .inl rfl⟩
        intro task time same
        cases same
        exact ⟨rfl, task, next, loop⟩
    · exact .noted rfl rfl rfl (by simp)
    · split
      · exact .quiet rfl rfl rfl
      · exact .quiet rfl rfl rfl
  | pass duration => exact .quiet rfl rfl rfl

/-- No run changes the interval. -/
theorem interval_final (cycleTimeUs : Int) (actions : List (RunnerAction τ)) :
    (Runs.final happen (constructed cycleTimeUs) actions).interval = 1000 * cycleTimeUs :=
  Runs.final_invariant happen _ (fun r => r.interval = 1000 * cycleTimeUs)
    (fun r action kept => (happen_stepsTo r action).interval.trans kept) rfl actions

/-- What holds of the record and the clock wherever the loop is about to begin a task holds
of everything recorded before the beginning of a task, and of its time. -/
theorem begun_of (cycleTimeUs : Int) {property : List (RunnerEvent τ) → Int → Prop}
    {actions : List (RunnerAction τ)}
    (holds : ∀ first next, first <+: actions →
      (Runs.final happen (constructed cycleTimeUs) first).loop = some (.admitted next) →
      (Runs.final happen (constructed cycleTimeUs) first).task.isSome = true →
      property (Runs.final happen (constructed cycleTimeUs) first).log
        (Runs.final happen (constructed cycleTimeUs) first).now)
    {before later : List (RunnerEvent τ)} {task : τ} {time : Int}
    (split : (Runs.final happen (constructed cycleTimeUs) actions).log =
      before ++ .begun task time :: later) : property before time := by
  induction actions using List.reverseRecOn generalizing later with
  | nil => simp [constructed] at split
  | append_singleton actions action inductionHypothesis =>
    have earlier := @inductionHypothesis
      fun first next part => holds first next (part.trans (List.prefix_append _ _))
    rw [Runs.final_concat] at split
    rcases (happen_stepsTo (Runs.final happen (constructed cycleTimeUs) actions) action).record with
      same | ⟨event, added, begins⟩
    · exact earlier (same ▸ split)
    · rw [added] at split
      rcases Traces.split_concat split with ⟨rfl, begun, -⟩ | ⟨inner, recorded, -⟩
      · obtain ⟨rfl, present, next, admitted⟩ := begins task time begun
        exact holds actions next (List.prefix_append _ _) admitted (present ▸ rfl)
      · exact earlier recorded

/-- What came before the beginning of a task: a loop, no task that goes on, at most the
clearing of the flag with no task after it, and all intervals of the tasks begun so far. -/
structure Due (interval : Int) (before : List (RunnerEvent τ)) (time : Int) : Prop where
  alone : (ledger before).busy = false
  last : (ledger before).late = none ∨ (ledger before).late = some 0
  spaced : ∃ origin, (ledger before).origin = some origin ∧
    origin + (ledger before).begins * interval ≤ time

/-- A task that is about to begin is due. -/
theorem Consistent.due {r : CyclicRunner τ} (consistent : r.Consistent) {next : Int}
    (admitted : r.loop = some (.admitted next)) (present : r.task.isSome = true) :
    Due r.interval r.log r.now := by
  obtain ⟨-, late, grid, busy, -⟩ := consistent
  simp only [GridFits, admitted] at grid
  obtain ⟨⟨origin, read, place⟩, reached⟩ := grid
  refine ⟨?_, ?_, origin, read, place present ▸ reached⟩
  · rw [busy, admitted]
    rfl
  · unfold LateFits at late
    cases owner : r.owner with
    | joining =>
      simp only [owner] at late
      rcases late with none | ⟨-, ended⟩
      · exact .inr none
      · exact absurd admitted (ended next)
    | _ =>
      simp only [owner] at late
      exact .inl late

/-- In every run the runner never puts a thread where another one still is, and never
replaces the task while there is a loop that may read it; where its owner is idle, there is a
loop exactly if the flag says so. A task begins only in a loop that Stop has not yet seen the
end of, never while another one goes on, at most once after the flag was cleared, and never
early: as many intervals have passed since the loop began as it has begun tasks before. -/
theorem runner_safe (cycleTimeUs : Int) (actions : List (RunnerAction τ)) :
    let r := Runs.final happen (constructed cycleTimeUs) actions
    .aborted ∉ r.log ∧ (r.owner = .idle → r.loop.isSome = r.running) ∧
      (∀ entry ∈ Runs.history happen (constructed cycleTimeUs) actions,
        entry.before.loop.isSome = true → entry.after.task = entry.before.task) ∧
      ∀ before task time later, r.log = before ++ .begun task time :: later →
        Due (1000 * cycleTimeUs) before time := by
  intro r
  have consistent := consistent_final cycleTimeUs actions
  refine ⟨consistent.sound, ?_, ?_, ?_⟩
  · intro idle
    have fits := consistent.phase
    rw [PhaseFits, show r.owner = .idle from idle] at fits
    exact fits.2
  · intro entry member alive
    obtain ⟨first, action, rfl⟩ := Runs.turn_of_mem_history happen _ member
    rcases (happen_stepsTo _ action).task with same | ⟨task, owner⟩
    · exact same
    · have fits := (consistent_final cycleTimeUs first).phase
      simp only [PhaseFits, owner] at fits
      rw [Runs.turn, fits.2.2] at alive
      cases alive
  · intro before task time later split
    refine begun_of cycleTimeUs (fun first next _ admitted present => ?_) split
    rw [← interval_final cycleTimeUs first]
    exact (consistent_final cycleTimeUs first).due admitted present

/-! ## No drift -/

/-- The loop is not late by more than the delay: it wakes up and goes on within the delay of
the time that it counts from, and a task ends within the delay of its interval. -/
def OnTime (delay : Nat) (r : CyclicRunner τ) : Prop :=
  match r.loop with
  | none | some .created => True
  | some (.checking next) | some (.admitted next) | some (.sleeping next) => r.now ≤ next + delay
  | some (.working next) => r.now ≤ next + r.interval + delay

/-- A step of the loop is not late, if the cycle time is not negative: the point in time that
it counts from never moves back. -/
theorem OnTime.runLoop {delay : Nat} {r : CyclicRunner τ} (onTime : r.OnTime delay)
    (forward : 0 ≤ r.interval) : OnTime delay r.runLoop := by
  unfold OnTime at onTime
  unfold CyclicRunner.runLoop
  cases loop : r.loop with
  | none =>
    rw [OnTime, loop]
    trivial
  | some place =>
    simp only [loop] at onTime
    cases place with
    | created =>
      change r.now ≤ r.now + delay
      omega
    | checking next =>
      cases running : r.running with
      | true => exact onTime
      | false => trivial
    | admitted next =>
      cases task : r.task with
      | none =>
        change r.now ≤ next + r.interval + delay
        omega
      | some task =>
        change r.now ≤ next + r.interval + delay
        omega
    | working next => exact onTime
    | sleeping next =>
      dsimp only
      split
      · exact onTime
      · simpa only [OnTime, loop] using onTime

/-- Only time that passes can make the loop late. -/
theorem OnTime.happen {delay : Nat} {r : CyclicRunner τ} (onTime : r.OnTime delay)
    (forward : 0 ≤ r.interval) (action : RunnerAction τ)
    (passes : ∀ duration, action = .pass duration → OnTime delay ((happen action).after r)) :
    OnTime delay ((happen action).after r) := by
  cases action with
  | start task =>
    simp only [CyclicRunner.happen, Program.after_modify, CyclicRunner.start]
    split <;> (try split) <;> exact onTime
  | stop =>
    simp only [CyclicRunner.happen, Program.after_modify, CyclicRunner.stop]
    split <;> (try split) <;> exact onTime
  | own =>
    simp only [CyclicRunner.happen, Program.after_modify, CyclicRunner.advance]
    split
    · exact onTime
    · exact onTime
    · exact onTime
    · split
      · exact onTime
      · trivial
    · exact onTime
    · split <;> exact onTime
  | work => exact onTime.runLoop forward
  | pass duration => exact passes duration rfl

/-- A run in which the loop is never late while time passes. -/
def Prompt (cycleTimeUs : Int) (delay : Nat) (actions : List (RunnerAction τ)) : Prop :=
  ∀ entry ∈ Runs.history happen (constructed cycleTimeUs) actions,
    ∀ duration, entry.operation = .pass duration → OnTime delay entry.after

/-- A prompt run is never late: no other step than time passing makes the loop late. -/
theorem Prompt.onTime {cycleTimeUs : Int} (forward : 0 ≤ cycleTimeUs) {delay : Nat}
    {first rest : List (RunnerAction τ)} (prompt : Prompt cycleTimeUs delay (first ++ rest)) :
    OnTime delay (Runs.final happen (constructed cycleTimeUs) first) := by
  have kept := Runs.final_invariant_of happen (constructed cycleTimeUs)
    (fun r action => ∀ duration, action = .pass duration → OnTime delay ((happen action).after r))
    (fun r => OnTime delay r ∧ r.interval = 1000 * cycleTimeUs)
    (fun r action fits passes => ⟨fits.1.happen (by omega) action passes,
      (happen_stepsTo r action).interval.trans fits.2⟩)
    ⟨trivial, rfl⟩ first
  refine (kept fun entry member duration same => ?_).1
  have listed : entry ∈ Runs.history happen (constructed cycleTimeUs) (first ++ rest) := by
    rw [Runs.history_append]
    exact List.mem_append_left _ member
  obtain ⟨earlier, action, rfl⟩ := Runs.turn_of_mem_history happen _ member
  exact prompt _ listed duration same

/-- A time is within a delay of the place that the next task has on the grid. -/
def OnSchedule (interval : Int) (delay : Nat) (before : List (RunnerEvent τ)) (time : Int) :
    Prop :=
  ∃ origin, (ledger before).origin = some origin ∧
    origin + (ledger before).begins * interval ≤ time ∧
    time ≤ origin + (ledger before).begins * interval + delay

/-- Where the cycle time is not negative, the beginnings of the tasks do not drift: as long as
no delay is longer than a given one, every task begins within this delay of its place on the
grid of the intervals, which is fixed when the loop begins. What the tasks and the delays
before it took does not add up. -/
theorem no_drift (cycleTimeUs : Int) (forward : 0 ≤ cycleTimeUs) (delay : Nat)
    (actions : List (RunnerAction τ)) (prompt : Prompt cycleTimeUs delay actions)
    (before : List (RunnerEvent τ)) (task : τ) (time : Int) (later : List (RunnerEvent τ))
    (split : (Runs.final happen (constructed cycleTimeUs) actions).log =
      before ++ .begun task time :: later) :
    OnSchedule (1000 * cycleTimeUs) delay before time := by
  refine begun_of cycleTimeUs (fun first next part admitted present => ?_) split
  obtain ⟨rest, rfl⟩ := part
  have onTime := prompt.onTime forward
  have grid := (consistent_final cycleTimeUs first).grid
  simp only [GridFits, admitted] at grid
  obtain ⟨⟨origin, read, place⟩, reached⟩ := grid
  simp only [OnTime, admitted] at onTime
  rw [← interval_final cycleTimeUs first]
  have aligned := place present
  exact ⟨origin, read, by omega, by omega⟩

/-- A task of 300 microseconds in a cycle of one millisecond, begun for the second time by a
loop that wakes up 20 nanoseconds late. -/
def twoCycles : List (RunnerAction Unit) :=
  [.start (some ()), .own, .own, .own, .work, .work, .work, .pass 300000, .work, .pass 700020,
    .work, .work, .work]

/-- A task that begins twenty nanoseconds late is within a delay of fifty. -/
theorem no_drift_bench : OnSchedule 1000000 50
    [.answered true, .launched 0, .begun () 0, .ended 300000] 1000020 := by
  refine no_drift 1000 (by decide) 50 twoCycles ?_ _ () _ [] rfl
  simp only [Prompt, twoCycles, Runs.history, Runs.turn, List.forall_mem_cons]
  refine ⟨by simp, by simp, by simp, by simp, by simp, by simp, by simp, fun _ _ => ?_, by simp,
    fun _ _ => ?_, by simp, by simp, by simp, by simp⟩
  · change (300000 : Int) ≤ 0 + 1000000 + 50
    decide
  · change (1000020 : Int) ≤ 1000000 + 50
    decide

/-! ## The end of the loop -/

/-- How many steps the loop takes to its end once the flag is clear. -/
def remaining : Option LoopPhase → Nat
  | none => 0
  | some (.checking _) => 1
  | some .created | some (.sleeping _) => 2
  | some (.working _) => 3
  | some (.admitted _) => 4

/-- The next step of the loop gets it on: there is a loop, and it need not sleep any longer. -/
def ready (r : CyclicRunner τ) : Bool :=
  match r.loop with
  | none => false
  | some (.sleeping next) => decide (next ≤ r.now)
  | some _ => true

/-- The step of the loop that a turn is, if it gets the loop on. -/
def loopStep (entry : Runs.Turn (CyclicRunner τ) (RunnerAction τ) Unit) : Bool :=
  match entry.operation with
  | .work => entry.before.ready
  | _ => false

/-- With the flag clear, a loop that is ready comes one step nearer to its end, and one that
is not stands still. -/
theorem runLoop_of_clear {r : CyclicRunner τ} (clear : r.running = false) :
    r.runLoop.running = false ∧ r.runLoop.owner = r.owner ∧
      (r.ready = true → remaining r.runLoop.loop + 1 ≤ remaining r.loop) ∧
      (r.ready = false → r.runLoop.loop = r.loop) := by
  unfold runLoop ready
  cases loop : r.loop with
  | none => simp [clear, loop]
  | some place =>
    cases place with
    | created => simp [note, remaining, clear]
    | checking next => simp [remaining, clear]
    | admitted next => cases task : r.task <;> simp [note, remaining, clear]
    | working next => simp [note, remaining, clear]
    | sleeping next =>
      dsimp only
      split
      · next due => simp [remaining, clear, due]
      · next early => simp [clear, early, loop]

/-- While Stop waits, a step is its return, a step of the loop towards its end, or nothing to
either of them. -/
theorem joining_step {r : CyclicRunner τ} (consistent : r.Consistent)
    (waits : r.owner = .joining) (action : RunnerAction τ) :
    let entry := Runs.turn happen r action
    (entry.after.owner = .idle ∧ r.loop = none) ∨
      (entry.after.owner = .joining ∧
        (loopStep entry).toNat + remaining entry.after.loop ≤ remaining r.loop) := by
  have fits := consistent.phase
  simp only [PhaseFits, waits] at fits
  obtain ⟨clear, joinable⟩ := fits
  cases action with
  | start task => right; simp [Runs.turn, happen, start, waits, loopStep]
  | stop => right; simp [Runs.turn, happen, stop, waits, loopStep]
  | own =>
    cases loop : r.loop with
    | none => left; simp [Runs.turn, happen, advance, waits, loop]
    | some place => right; simp [Runs.turn, happen, advance, waits, loop, joinable, loopStep]
  | work =>
    obtain ⟨-, owner, advances, stays⟩ := runLoop_of_clear clear
    right
    simp only [Runs.turn, happen, Program.after_modify, loopStep]
    refine ⟨owner.trans waits, ?_⟩
    cases ready : r.ready with
    | true =>
      have fewer := advances ready
      simp only [Bool.toNat_true]
      omega
    | false => simp [stays ready]
  | pass duration => right; simp [Runs.turn, happen, waits, loopStep]

/-- Stop returns when the loop has ended, and the loop ends: from the moment in which the flag
is cleared until Stop returns, whatever else happens, the loop takes at most four steps, the
end of the task being one of them. In between it can always take the next one, unless it
sleeps, and when it has taken the last one, the owner's next step is the return. -/
theorem stop_returns (cycleTimeUs : Int) (earlier later : List (RunnerAction τ))
    (waits : (Runs.final happen (constructed cycleTimeUs) earlier).owner = .joining) :
    let r := Runs.final happen (constructed cycleTimeUs) earlier
    let r' := Runs.final happen r later
    (∃ entry ∈ Runs.history happen r later, entry.after.owner = .idle) ∨
      (Runs.history happen r later).countP loopStep ≤ 4 ∧
        (r'.loop = none → ((happen .own).after r').owner = .idle) ∧
        ∀ place, r'.loop = some place →
          r'.ready = true ∨ ∃ next, place = .sleeping next ∧ r'.now < next := by
  intro r r'
  have joins := Runs.counted_until happen r
    (fun r => r.Consistent ∧ r.owner = .joining) (fun entry => entry.after.owner = .idle) loopStep
    (fun r => remaining r.loop)
    (fun r action waits => (joining_step waits.1 waits.2 action).imp And.left fun still =>
      ⟨⟨waits.1.happen action, still.1⟩, still.2⟩)
    ⟨consistent_final cycleTimeUs earlier, waits⟩ later
  rcases joins with returned | ⟨⟨-, still⟩, steps⟩
  · exact .inl returned
  · refine .inr ⟨?_, ?_, ?_⟩
    · have most : ∀ loop, remaining loop ≤ 4 := by
        intro loop
        rcases loop with _ | _ | _ | _ | _ | _ <;> simp [remaining]
      exact Nat.le_trans (Nat.le_add_right _ _) (Nat.le_trans steps (most _))
    · intro ended
      simp [happen, advance, show r'.owner = .joining from still, ended]
    · intro place loop
      cases place with
      | sleeping next =>
        rcases Int.lt_or_le r'.now next with early | due
        · exact .inr ⟨next, rfl, early⟩
        · exact .inl (by simp [ready, loop, due])
      | _ => exact .inl (by simp [ready, loop])

/-- A runner that is stopped before its loop has read the clock. -/
theorem stop_returns_bench :
    let halted : List (RunnerAction Unit) :=
      [.start (some ()), .own, .own, .own, .stop, .own, .work, .work]
    ((happen .own).after (Runs.final happen (constructed 1000) halted)).owner = .idle := by
  intro halted
  rcases stop_returns 1000 halted [] rfl with ⟨entry, member, -⟩ | ⟨-, returns, -⟩
  · cases member
  · exact returns rfl

end CyclicRunner

end MoEcat
