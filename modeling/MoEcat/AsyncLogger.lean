import MoEcat.Channels
import MoEcat.MoEcatMaster
import Mathlib.Logic.Function.Basic

/-!
# The asynchronous logger

Callers append records to a queue; one worker takes the whole queue at a time and
writes its records to the sinks; the destructor tells the worker to leave and waits
for it. Each section under a mutex is one atomic step, and a run interleaves the steps
of any number of threads in any order, together with changes of the sinks and wake-ups
of the worker without cause. The time stamp in a formatted record is whatever the clock
says when it is written.

The events that are recorded stand for the history and are not read by the program.
Callbacks are assumed to return.
-/

namespace MoEcat

/-- The severities of the source, from the least to the most severe. -/
inductive LogLevel where
  | debug
  | info
  | warn
  | error
  | fatal
deriving DecidableEq, Repr

namespace LogLevel

/-- The place of a level in the order in which the source declares it. -/
def toNat : LogLevel → Nat
  | .debug => 0
  | .info => 1
  | .warn => 2
  | .error => 3
  | .fatal => 4

/-- Levels are compared by number. -/
def atLeast (level bound : LogLevel) : Bool := bound.toNat ≤ level.toNat

/-- The names that `LevelToString` gives the levels. -/
def toText : LogLevel → String
  | .debug => "DEBUG"
  | .info => "INFO"
  | .warn => "WARN"
  | .error => "ERROR"
  | .fatal => "FATAL"

end LogLevel

/-- What a caller hands to the logger. -/
structure LogRecord where
  level : LogLevel
  file : String
  line : Int
  message : String
deriving DecidableEq, Repr

namespace LogRecord

/-- What follows the last separator of a path. -/
def baseName : List Char → List Char → List Char
  | [], base => base
  | c :: rest, base => baseName rest (if c = '/' ∨ c = '\\' then rest else base)

/-- A line of the log: the time stamp, the level, the file without its path, the line and the
message. -/
def format (record : LogRecord) (timestamp : String) : String :=
  "[" ++ timestamp ++ "] [" ++ record.level.toText ++ "] [" ++
    String.ofList (baseName record.file.toList record.file.toList) ++ ":" ++
    toString record.line ++ "] " ++ record.message ++ "\n"

end LogRecord

/-- The sinks that the master switches, and the lowest level that each of them takes. -/
structure LogSinks extends Logger where
  consoleLevel : LogLevel := .info
  fileLevel : LogLevel := .debug
  callbackLevel : LogLevel := .debug
deriving DecidableEq, Repr

/-- What a sink has been given. -/
inductive LogOutput where
  | standardError (text : String)
  | standardOutput (text : String)
  | file (text : String)
  | callback (record : LogRecord)
deriving DecidableEq, Repr

namespace LogSinks

/-- Whether a record of this level goes to the console. -/
def toConsole (sinks : LogSinks) (level : LogLevel) : Bool :=
  sinks.hasConsole && level.atLeast sinks.consoleLevel

/-- Whether a record of this level goes to the log file. -/
def toFile (sinks : LogSinks) (level : LogLevel) : Bool :=
  sinks.hasFile && level.atLeast sinks.fileLevel

/-- Whether a record of this level goes to the callback. -/
def toCallback (sinks : LogSinks) (level : LogLevel) : Bool :=
  sinks.hasCallback && level.atLeast sinks.callbackLevel

/-- Some sink takes records of this level. -/
def wants (sinks : LogSinks) (level : LogLevel) : Bool :=
  sinks.toConsole level || sinks.toFile level || sinks.toCallback level

/-- Write a record to every sink that takes it. -/
def writeToSinks (sinks : LogSinks) (record : LogRecord) (timestamp : String) : List LogOutput :=
  (if sinks.toConsole record.level then
    [if record.level.atLeast .warn then .standardError (record.format timestamp)
      else .standardOutput (record.format timestamp)]
  else []) ++
  (if sinks.toFile record.level then [.file (record.format timestamp)] else []) ++
  (if sinks.toCallback record.level then [.callback record] else [])

end LogSinks

/-- How far a thread's call of Log has come. -/
inductive LogCall where
  | idle
  -- Some sink takes the record; the queue has not been locked.
  | wanted (record : LogRecord)
  -- The record is in the queue; the worker has not been notified.
  | enqueued

/-- Where the worker's loop stands. -/
inductive WorkerPhase where
  -- About to look at the queue.
  | checking
  -- Asleep on the condition variable.
  | waiting
  -- The records of the batch that are still to be written.
  | writing (batch : List LogRecord)
  | left

namespace WorkerPhase

/-- The records taken out of the queue and not yet written. -/
def batch : WorkerPhase → List LogRecord
  | .writing batch => batch
  | .checking | .waiting | .left => []

/-- The worker sleeps on the condition variable. -/
def isWaiting : WorkerPhase → Bool
  | .waiting => true
  | .checking | .writing _ | .left => false

/-- The worker has returned from its loop. -/
def hasLeft : WorkerPhase → Bool
  | .left => true
  | .checking | .waiting | .writing _ => false

end WorkerPhase

/-- How far the destructor has come. -/
inductive DestructorPhase where
  | alive
  -- The flag is set; the worker has not been notified.
  | closing
  | joining
  | done

/-- What statements are about: a record entered the queue, or was handed to the sinks. -/
inductive LoggerEvent where
  | enqueued (record : LogRecord)
  | handed (record : LogRecord)

/-- The logger with its queue, its flag, the call that every thread is in, the worker and the
destructor. The outputs and the trace stand for the history and are not read by the program.
-/
structure AsyncLogger (ι : Type) where
  sinks : LogSinks := {}
  queue : List LogRecord := []
  shutdown : Bool := false
  calls : ι → LogCall := fun _ => .idle
  worker : WorkerPhase := .checking
  destructor : DestructorPhase := .alive
  outputs : List LogOutput := []
  trace : List LoggerEvent := []

/-- What can happen next. A wake-up is one without a notification. -/
inductive LoggerAction (ι : Type) where
  | log (thread : ι) (record : LogRecord)
  | step (thread : ι)
  | work (timestamp : String)
  | wake
  | destroy
  | configure (change : LogSinks → LogSinks)

namespace AsyncLogger

variable {ι : Type} [DecidableEq ι]

/-- The same logger with another progress of one thread's call. -/
def put (l : AsyncLogger ι) (thread : ι) (call : LogCall) : AsyncLogger ι :=
  { l with calls := Function.update l.calls thread call }

/-- A notification reaches the worker if it is asleep. -/
def notify (l : AsyncLogger ι) : AsyncLogger ι :=
  match l.worker with
  | .waiting => { l with worker := .checking }
  | _ => l

/-- Put a record at the end of the queue. -/
def enqueue (l : AsyncLogger ι) (record : LogRecord) : AsyncLogger ι :=
  { l with queue := l.queue ++ [record], trace := l.trace ++ [.enqueued record] }

/-- Begin a call of Log: a record that no sink takes is dropped. -/
def log (thread : ι) (record : LogRecord) (l : AsyncLogger ι) : AsyncLogger ι :=
  match l.calls thread with
  | .idle => if l.sinks.wants record.level then l.put thread (.wanted record) else l
  | _ => l

/-- The next step of a thread's call. -/
def advance (thread : ι) (l : AsyncLogger ι) : AsyncLogger ι :=
  match l.calls thread with
  | .idle => l
  | .wanted record =>
    if l.shutdown then l.put thread .idle else (l.enqueue record).put thread .enqueued
  | .enqueued => l.notify.put thread .idle

/-- The next step of the worker's loop. -/
def work (timestamp : String) (l : AsyncLogger ι) : AsyncLogger ι :=
  match l.worker with
  | .checking =>
    if l.shutdown = false ∧ l.queue = [] then { l with worker := .waiting }
    else if l.shutdown = true ∧ l.queue = [] then { l with worker := .left }
    else { l with worker := .writing l.queue, queue := [] }
  | .writing (record :: batch) =>
    { l with
      outputs := l.outputs ++ l.sinks.writeToSinks record timestamp
      worker := .writing batch
      trace := l.trace ++ [.handed record] }
  -- The file is flushed, which changes nothing here.
  | .writing [] => { l with worker := .checking }
  | .waiting | .left => l

/-- The next step of the destructor. It waits until the worker has left. -/
def destroy (l : AsyncLogger ι) : AsyncLogger ι :=
  match l.destructor with
  | .alive => { l with shutdown := true, destructor := .closing }
  | .closing => { l.notify with destructor := .joining }
  | .joining =>
    if l.worker.hasLeft then { l with sinks := { l.sinks with file := none }, destructor := .done }
    else l
  | .done => l

/-- What may happen to the logger: a call, a step of a thread or of the worker, a spurious
wake-up, the destructor, and a change of the sinks. -/
def happen : LoggerAction ι → Program (AsyncLogger ι) Unit
  | .log thread record => modify (log thread record)
  | .step thread => modify (advance thread)
  | .work timestamp => modify (work timestamp)
  | .wake => modify notify
  | .destroy => modify destroy
  | .configure change => modify fun l => { l with sinks := change l.sinks }

/-- The records that have been put into the queue so far. -/
def enqueued (l : AsyncLogger ι) : List LogRecord :=
  l.trace.filterMap fun
    | .enqueued record => some record
    | .handed _ => none

/-- The records that have been handed to the sinks so far. -/
def handed (l : AsyncLogger ι) : List LogRecord :=
  l.trace.filterMap fun
    | .enqueued _ => none
    | .handed record => some record

/-! ## The queue as a channel -/

/-- Every record enqueued has been written, waits in the batch or waits in the queue; a
worker that has left has left nothing behind. -/
structure Accounted (l : AsyncLogger ι) : Prop where
  records : l.enqueued = l.handed ++ (l.worker.batch ++ l.queue)
  vacated : l.worker.hasLeft = true → l.shutdown = true ∧ l.queue = []

/-- The channel that the logger is between its callers and its sinks. -/
def channel (l : AsyncLogger ι) : Channels.Channel LogRecord where
  sent := l.enqueued
  received := l.handed
  closed := l.shutdown
  finished := l.worker.hasLeft

section Steps

open Channels (Move)

variable {l : AsyncLogger ι}

omit [DecidableEq ι] in
/-- A fresh logger accounts for all records: there are none. -/
theorem accounted_constructed : Accounted ({} : AsyncLogger ι) :=
  ⟨rfl, by simp [WorkerPhase.hasLeft]⟩

omit [DecidableEq ι] in
/-- The worker moves records from the queue into its batch, or only goes on. -/
theorem Accounted.turn (accounted : Accounted l) {worker : WorkerPhase} {queue : List LogRecord}
    (moved : worker.batch ++ queue = l.worker.batch ++ l.queue)
    (stays : worker.hasLeft = false) :
    Accounted { l with worker := worker, queue := queue } := by
  constructor
  · exact accounted.records.trans (congrArg (l.handed ++ ·) moved.symm)
  · intro left
    rw [stays] at left
    cases left

omit [DecidableEq ι] in
/-- Nothing goes through the channel while the trace stays and the worker does not leave. -/
theorem channel_eq {l' : AsyncLogger ι} (trace : l'.trace = l.trace)
    (shutdown : l'.shutdown = l.shutdown) (left : l'.worker.hasLeft = l.worker.hasLeft) :
    l'.channel = l.channel := by
  simp only [channel, enqueued, handed, trace, shutdown, left]

omit [DecidableEq ι] in
/-- A notification moves no record. -/
theorem notify_spec (accounted : Accounted l) :
    Accounted l.notify ∧ l.notify.channel = l.channel := by
  unfold notify
  cases phase : l.worker with
  | waiting =>
    exact ⟨accounted.turn (by rw [phase]; rfl) rfl, channel_eq rfl rfl (by rw [phase]; rfl)⟩
  | checking => exact ⟨accounted, rfl⟩
  | writing batch => exact ⟨accounted, rfl⟩
  | left => exact ⟨accounted, rfl⟩

/-- How far the calls have come is not accounted for. -/
theorem Accounted.put (accounted : Accounted l) (thread : ι) (call : LogCall) :
    Accounted (l.put thread call) :=
  ⟨accounted.records, accounted.vacated⟩

omit [DecidableEq ι] in
/-- Before the shutdown, a record put into the queue is sent on the channel. -/
theorem enqueue_spec (accounted : Accounted l) (opened : l.shutdown = false) (record : LogRecord) :
    Accounted (l.enqueue record) ∧ Move l.channel () (l.enqueue record).channel := by
  have sent : (l.enqueue record).enqueued = l.enqueued ++ [record] := by
    simp [enqueue, enqueued]
  have kept : (l.enqueue record).handed = l.handed := by simp [enqueue, handed]
  refine ⟨⟨?_, fun left => ?_⟩, ?_⟩
  · rw [sent, kept, accounted.records, List.append_assoc, List.append_assoc]
    rfl
  · have closed := (accounted.vacated left).1
    rw [opened] at closed
    cases closed
  · have move : Move l.channel () { l.channel with sent := l.channel.sent ++ [record] } :=
      .send record opened
    have same : (l.enqueue record).channel =
        { l.channel with sent := l.channel.sent ++ [record] } := by
      rw [channel, sent, kept]
      rfl
    rwa [same]

/-- A step of a caller keeps the account, and is a move of the channel. -/
theorem advance_spec (accounted : Accounted l) (thread : ι) :
    Accounted (advance thread l) ∧ Move l.channel () (advance thread l).channel := by
  unfold advance
  cases l.calls thread with
  | idle => exact ⟨accounted, .idle _⟩
  | wanted record =>
    cases closed : l.shutdown with
    | true => exact ⟨accounted.put thread .idle, .idle _⟩
    | false =>
      obtain ⟨stays, move⟩ := enqueue_spec accounted closed record
      exact ⟨stays.put thread .enqueued, move⟩
  | enqueued =>
    obtain ⟨notified, same⟩ := notify_spec accounted
    have quiet : (l.notify.put thread .idle).channel = l.channel := same
    refine ⟨notified.put thread .idle, ?_⟩
    rw [quiet]
    exact .idle _

omit [DecidableEq ι] in
/-- Writing the first record of the batch receives the next record of the channel. -/
theorem write_spec (accounted : Accounted l) {record : LogRecord} {batch : List LogRecord}
    (phase : l.worker = .writing (record :: batch)) (timestamp : String) :
    Accounted (work timestamp l) ∧ Move l.channel () (work timestamp l).channel := by
  have written : (work timestamp l).enqueued = l.enqueued ∧
      (work timestamp l).handed = l.handed ++ [record] ∧
      (work timestamp l).worker = .writing batch ∧ (work timestamp l).queue = l.queue ∧
      (work timestamp l).shutdown = l.shutdown := by
    simp [work, phase, enqueued, handed]
  obtain ⟨sent, received, worker, queue, shutdown⟩ := written
  have records : l.enqueued = (l.handed ++ [record]) ++ (batch ++ l.queue) := by
    rw [accounted.records, phase, List.append_assoc]
    rfl
  refine ⟨⟨?_, fun left => ?_⟩, ?_⟩
  · rw [sent, received, worker, queue]
    exact records
  · rw [worker] at left
    cases left
  · have move : Move l.channel () { l.channel with received := l.channel.received ++ [record] } :=
      .receive record ⟨batch ++ l.queue, records.symm⟩
    have same : (work timestamp l).channel =
        { l.channel with received := l.channel.received ++ [record] } := by
      rw [channel, sent, received, worker, shutdown, channel, phase]
      rfl
    rwa [same]

omit [DecidableEq ι] in
/-- Before it leaves, the worker has written all that has been enqueued. -/
theorem leave_spec (accounted : Accounted l) (phase : l.worker = .checking)
    (closed : l.shutdown = true) (empty : l.queue = []) :
    Accounted { l with worker := .left } ∧ Move l.channel () (channel { l with worker := .left }) := by
  have all : l.enqueued = l.handed := by
    rw [accounted.records, phase, empty]
    exact List.append_nil _
  refine ⟨⟨?_, fun _ => ⟨closed, empty⟩⟩, .finish closed all.symm⟩
  rw [empty]
  exact all.trans (List.append_nil _).symm

omit [DecidableEq ι] in
/-- A step of the worker keeps the account, and is a move of the channel. -/
theorem work_spec (accounted : Accounted l) (timestamp : String) :
    Accounted (work timestamp l) ∧ Move l.channel () (work timestamp l).channel := by
  -- Where the worker only goes on, the channel stays.
  have goesOn : ∀ (worker : WorkerPhase) (queue : List LogRecord), l.worker.hasLeft = false →
      work timestamp l = { l with worker := worker, queue := queue } →
      worker.batch ++ queue = l.worker.batch ++ l.queue → worker.hasLeft = false →
      Accounted (work timestamp l) ∧ Move l.channel () (work timestamp l).channel := by
    intro worker queue present step moved stays
    have same : channel { l with worker := worker, queue := queue } = l.channel :=
      channel_eq rfl rfl (stays.trans present.symm)
    rw [step, same]
    exact ⟨accounted.turn moved stays, .idle _⟩
  cases phase : l.worker with
  | checking =>
    by_cases empty : l.queue = []
    · cases closed : l.shutdown with
      | false =>
        exact goesOn .waiting l.queue (by rw [phase]; rfl) (by simp [work, phase, empty, closed])
          (by rw [phase]; rfl) rfl
      | true =>
        have step : work timestamp l = { l with worker := .left } := by
          simp [work, phase, empty, closed]
        rw [step]
        exact leave_spec accounted phase closed empty
    · exact goesOn (.writing l.queue) [] (by rw [phase]; rfl) (by simp [work, phase, empty])
        (by rw [phase]; simp [WorkerPhase.batch]) rfl
  | waiting =>
    have step : work timestamp l = l := by simp [work, phase]
    rw [step]
    exact ⟨accounted, .idle _⟩
  | writing batch =>
    cases batch with
    | nil =>
      exact goesOn .checking l.queue (by rw [phase]; rfl) (by simp [work, phase])
        (by rw [phase]; rfl) rfl
    | cons record batch => exact write_spec accounted phase timestamp
  | left =>
    have step : work timestamp l = l := by simp [work, phase]
    rw [step]
    exact ⟨accounted, .idle _⟩

omit [DecidableEq ι] in
/-- The destructor closes the channel, and then only waits. -/
theorem destroy_spec (accounted : Accounted l) :
    Accounted (destroy l) ∧ Move l.channel () (destroy l).channel := by
  unfold destroy
  cases l.destructor with
  | alive => exact ⟨⟨accounted.records, fun left => ⟨rfl, (accounted.vacated left).2⟩⟩, .close _⟩
  | closing =>
    obtain ⟨notified, same⟩ := notify_spec accounted
    have quiet : channel { l.notify with destructor := .joining } = l.channel := same
    refine ⟨⟨notified.records, notified.vacated⟩, ?_⟩
    rw [quiet]
    exact .idle _
  | joining =>
    by_cases left : l.worker.hasLeft = true
    · simp only [left, if_true]
      exact ⟨⟨accounted.records, accounted.vacated⟩, .idle _⟩
    · simp only [left]
      exact ⟨accounted, .idle _⟩
  | done => exact ⟨accounted, .idle _⟩

/-- Whatever happens is at most one move of the channel. -/
theorem happen_spec (accounted : Accounted l) (action : LoggerAction ι) :
    Accounted ((happen action).after l) ∧
      Move l.channel () ((happen action).after l).channel := by
  cases action with
  | log thread record =>
    simp only [happen, Program.after_modify]
    unfold log
    split
    · split
      · exact ⟨accounted.put thread _, .idle _⟩
      · exact ⟨accounted, .idle _⟩
    · exact ⟨accounted, .idle _⟩
  | step thread => exact advance_spec accounted thread
  | work timestamp => exact work_spec accounted timestamp
  | wake =>
    obtain ⟨notified, same⟩ := notify_spec accounted
    refine ⟨notified, ?_⟩
    have quiet : ((happen .wake).after l).channel = l.channel := same
    rw [quiet]
    exact .idle _
  | destroy => exact destroy_spec accounted
  | configure change => exact ⟨⟨accounted.records, accounted.vacated⟩, .idle _⟩

end Steps

/-! ## Runs -/

/-- Every run accounts for all records. -/
theorem accounted_final (actions : List (LoggerAction ι)) :
    Accounted (Runs.final happen ({} : AsyncLogger ι) actions) :=
  Runs.final_invariant happen _ Accounted
    (fun _ action accounted => (happen_spec accounted action).1) accounted_constructed actions

/-- In every run the records are written in the order in which they were enqueued, none is
enqueued after the shutdown, and all have been written when the worker has left. -/
theorem records_in_order (actions : List (LoggerAction ι)) :
    let l := Runs.final happen ({} : AsyncLogger ι) actions
    l.handed <+: l.enqueued ∧
      (∀ entry ∈ Runs.history happen ({} : AsyncLogger ι) actions,
        entry.before.shutdown = true → entry.after.enqueued = entry.before.enqueued) ∧
      (l.worker.hasLeft = true → l.handed = l.enqueued) := by
  intro l
  have path := Runs.path_of_refinement happen ({} : AsyncLogger ι) Channels.Move channel
    (fun _ => ()) Accounted (fun _ action accounted => (happen_spec accounted action).1)
    (fun _ action accounted => (happen_spec accounted action).2) accounted_constructed actions
  obtain ⟨inOrder, complete⟩ := Channels.orderly_of_path path
  refine ⟨inOrder, ?_, fun left => (complete left).2⟩
  intro entry member closed
  obtain ⟨past, action, rfl⟩ := Runs.turn_of_mem_history happen _ member
  exact ((happen_spec (accounted_final past) action).2.closed closed).2

/-! ## Wake-ups -/

/-- A worker that is asleep has nothing to do, or a notification is on its way. -/
def Noticed (l : AsyncLogger ι) : Prop :=
  l.worker.isWaiting = true →
    (l.shutdown = false ∧ l.queue = []) ∨ (∃ thread, l.calls thread = .enqueued) ∨
      l.destructor = .closing

omit [DecidableEq ι] in
/-- A notified worker no longer waits. -/
theorem notify_awake (l : AsyncLogger ι) : l.notify.worker.isWaiting = false := by
  unfold notify
  cases phase : l.worker <;> simp [phase, WorkerPhase.isWaiting]

/-- A call that has nothing to notify leaves the other calls' notifications alone. -/
theorem Noticed.put {l : AsyncLogger ι} (noticed : Noticed l) {thread : ι}
    (other : l.calls thread ≠ .enqueued) (call : LogCall) : Noticed (l.put thread call) := by
  intro waiting
  rcases noticed waiting with quiet | ⟨notifier, pending⟩ | closing
  · exact .inl quiet
  · refine .inr (.inl ⟨notifier, ?_⟩)
    have different : notifier ≠ thread := by
      rintro rfl
      exact other pending
    exact (Function.update_of_ne different ..).trans pending
  · exact .inr (.inr closing)

/-- A step of a caller leaves no sleeping worker behind without a notification to come: what
it puts into the queue it has still to notify of. -/
theorem advance_noticed {l : AsyncLogger ι} (noticed : Noticed l) (thread : ι) :
    Noticed (advance thread l) := by
  unfold advance
  cases call : l.calls thread with
  | idle => exact noticed
  | wanted record =>
    cases l.shutdown with
    | true => exact noticed.put (by simp [call]) .idle
    | false =>
      intro _
      exact .inr (.inl ⟨thread, Function.update_self ..⟩)
  | enqueued =>
    intro waiting
    have awake : (l.notify.put thread .idle).worker.isWaiting = false := notify_awake l
    rw [awake] at waiting
    cases waiting

omit [DecidableEq ι] in
/-- The worker falls asleep only on an empty queue before the shutdown. -/
theorem work_noticed {l : AsyncLogger ι} (noticed : Noticed l) (timestamp : String) :
    Noticed (work timestamp l) := by
  unfold work
  cases phase : l.worker with
  | checking =>
    by_cases asleep : l.shutdown = false ∧ l.queue = []
    · simp only [if_pos asleep]
      intro _
      exact .inl asleep
    · simp only [if_neg asleep]
      split
      · rintro ⟨⟩
      · rintro ⟨⟩
  | waiting => exact noticed
  | writing batch =>
    cases batch with
    | nil => rintro ⟨⟩
    | cons record batch => rintro ⟨⟩
  | left => exact noticed

omit [DecidableEq ι] in
/-- A step of the destructor leaves no sleeping worker behind without a notification to come.
-/
theorem destroy_noticed {l : AsyncLogger ι} (noticed : Noticed l) : Noticed (destroy l) := by
  unfold destroy
  cases phase : l.destructor with
  | alive =>
    intro _
    exact .inr (.inr rfl)
  | closing =>
    intro waiting
    have awake : l.notify.worker.isWaiting = false := notify_awake l
    rw [awake] at waiting
    cases waiting
  | joining =>
    by_cases left : l.worker.hasLeft = true
    · simp only [left, if_true]
      intro waiting
      cases worker : l.worker <;> simp_all [WorkerPhase.hasLeft, WorkerPhase.isWaiting]
    · simp only [left]
      exact noticed
  | done => exact noticed

/-- Nothing that happens leaves a sleeping worker behind without a notification to come. -/
theorem happen_noticed {l : AsyncLogger ι} (noticed : Noticed l) (action : LoggerAction ι) :
    Noticed ((happen action).after l) := by
  cases action with
  | log thread record =>
    simp only [happen, Program.after_modify]
    unfold log
    cases call : l.calls thread with
    | idle =>
      by_cases wanted : l.sinks.wants record.level = true
      · rw [if_pos wanted]
        exact noticed.put (by simp [call]) _
      · rw [if_neg wanted]
        exact noticed
    | wanted _ => exact noticed
    | enqueued => exact noticed
  | step thread => exact advance_noticed noticed thread
  | work timestamp => exact work_noticed noticed timestamp
  | wake =>
    intro waiting
    have awake : ((happen .wake).after l).worker.isWaiting = false := notify_awake l
    rw [awake] at waiting
    cases waiting
  | destroy => exact destroy_noticed noticed
  | configure change => exact noticed

/-- In no run does the worker sleep on records, or through the shutdown, without a
notification that is still to come. -/
theorem no_wake_up_lost (actions : List (LoggerAction ι)) :
    Noticed (Runs.final happen ({} : AsyncLogger ι) actions) :=
  Runs.final_invariant happen _ Noticed (fun _ action noticed => happen_noticed noticed action)
    (by rintro ⟨⟩) actions

end AsyncLogger

end MoEcat
