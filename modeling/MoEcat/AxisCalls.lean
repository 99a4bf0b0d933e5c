import MoEcat.Monitors
import MoEcat.SlaveNode
import MoEcat.Traces

/-!
# Calls of a servo axis from several threads

An axis is where the layers above and the cycle meet: the ones set targets and ask for
feedback, the other reads the targets to encode them and replaces the feedback. Every
operation takes the axis' own mutex. The bodies below write and read one member at a time, so
the feedback of one exchange is written in five steps.

Seen from outside every member is a register: what is read of it is what the latest call that
writes it has written, and the five members of the feedback always belong together.
-/

namespace MoEcat

open Body

/-- The members of an axis, with the enable command that the cycle does not read. -/
structure AxisMembers extends ServoAxis where
  enableCommand : Bool := false
deriving DecidableEq, Repr

/-- The members of an axis that its operations read and write. -/
inductive AxisMember where
  | targetPosition | targetVelocity | targetTorque | enableCommand
  | actualPosition | actualVelocity | actualTorque | enabled | fault
deriving DecidableEq, Repr

/-- The operations of the axis. -/
inductive AxisCall where
  | setTargetPosition (rad : Rat)
  | setTargetVelocity (radPerS : Rat)
  | setTargetTorque (nm : Rat)
  | setEnable (enable : Bool)
  | getActualPosition
  | getActualVelocity
  | getActualTorque
  | isEnabled
  | hasFault
  | updateCommandReadback (position velocity torque : Rat) (enabled fault : Bool)
  | getTargetPosition
  | getTargetVelocity
  | getTargetTorque
  | getEnableCommand
deriving DecidableEq, Repr

/-- What an operation answers: nothing, a number or a flag. -/
inductive AxisAnswer where
  | nothing
  | number (value : Rat)
  | flag (value : Bool)
deriving DecidableEq, Repr

/-- The members that an exchange of process data replaces. -/
def AxisMember.isFeedback : AxisMember → Bool
  | actualPosition | actualVelocity | actualTorque | enabled | fault => true
  | targetPosition | targetVelocity | targetTorque | enableCommand => false

namespace AxisMembers

/-- An operation of the axis leaves the enable command alone. -/
def onAxis (act : ServoAxis → ServoAxis) (axis : AxisMembers) : AxisMembers :=
  { axis with toServoAxis := act axis.toServoAxis }

/-- The value of a member, as an answer. -/
def value (axis : AxisMembers) : AxisMember → AxisAnswer
  | .targetPosition => .number axis.targetPosition
  | .targetVelocity => .number axis.targetVelocity
  | .targetTorque => .number axis.targetTorque
  | .enableCommand => .flag axis.enableCommand
  | .actualPosition => .number axis.actualPosition
  | .actualVelocity => .number axis.actualVelocity
  | .actualTorque => .number axis.actualTorque
  | .enabled => .flag axis.enabled
  | .fault => .flag axis.hasFault

end AxisMembers

namespace AxisCall

/-- The member that a call asks for. -/
def asked : AxisCall → Option AxisMember
  | getActualPosition => some .actualPosition
  | getActualVelocity => some .actualVelocity
  | getActualTorque => some .actualTorque
  | isEnabled => some .enabled
  | hasFault => some .fault
  | getTargetPosition => some .targetPosition
  | getTargetVelocity => some .targetVelocity
  | getTargetTorque => some .targetTorque
  | getEnableCommand => some .enableCommand
  | _ => none

/-- The value that a call gives a member. -/
def written (member : AxisMember) : AxisCall → Option AxisAnswer
  | setTargetPosition rad => if member = .targetPosition then some (.number rad) else none
  | setTargetVelocity radPerS =>
    if member = .targetVelocity then some (.number radPerS) else none
  | setTargetTorque nm => if member = .targetTorque then some (.number nm) else none
  | setEnable enable => if member = .enableCommand then some (.flag enable) else none
  | updateCommandReadback position velocity torque enabled fault =>
    match member with
    | .actualPosition => some (.number position)
    | .actualVelocity => some (.number velocity)
    | .actualTorque => some (.number torque)
    | .enabled => some (.flag enabled)
    | .fault => some (.flag fault)
    | .targetPosition | .targetVelocity | .targetTorque | .enableCommand => none
  | _ => none

/-- A call that replaces the feedback. -/
def isUpdate : AxisCall → Bool
  | updateCommandReadback _ _ _ _ _ => true
  | _ => false

/-- A call as a whole, with the operations of the axis that the rest of the program uses. -/
def perform : AxisCall → Program AxisMembers AxisAnswer
  | setTargetPosition rad => do
    modify (AxisMembers.onAxis (·.setTargetPosition rad))
    return .nothing
  | setTargetVelocity radPerS => do
    modify (AxisMembers.onAxis (·.setTargetVelocity radPerS))
    return .nothing
  | setTargetTorque nm => do
    modify (AxisMembers.onAxis (·.setTargetTorque nm))
    return .nothing
  | setEnable enable => do
    modify fun axis => { axis with enableCommand := enable }
    return .nothing
  | updateCommandReadback position velocity torque enabled fault => do
    modify (AxisMembers.onAxis
      (·.updateCommandReadback position velocity torque enabled fault))
    return .nothing
  | getActualPosition => do return (← get).value .actualPosition
  | getActualVelocity => do return (← get).value .actualVelocity
  | getActualTorque => do return (← get).value .actualTorque
  | isEnabled => do return (← get).value .enabled
  | hasFault => do return (← get).value .fault
  | getTargetPosition => do return (← get).value .targetPosition
  | getTargetVelocity => do return (← get).value .targetVelocity
  | getTargetTorque => do return (← get).value .targetTorque
  | getEnableCommand => do return (← get).value .enableCommand

/-- What a call does while it has the lock, one member at a time. -/
def body : AxisCall → Body AxisMembers AxisAnswer
  | updateCommandReadback position velocity torque enabled fault => do
    once (modify fun axis => { axis with actualPosition := position })
    once (modify fun axis => { axis with actualVelocity := velocity })
    once (modify fun axis => { axis with actualTorque := torque })
    once (modify fun axis => { axis with enabled := enabled })
    once (modify fun axis => { axis with hasFault := fault })
    return .nothing
  | call => once call.perform

/-- Without a pause the steps of a call are the call. -/
theorem whole_body (call : AxisCall) : call.body.whole = call.perform := by
  cases call <;> rfl

/-- A call that asks for a member answers with its value. -/
theorem perform_asked {call : AxisCall} {member : AxisMember} (asks : call.asked = some member)
    (axis : AxisMembers) : call.perform.result axis = axis.value member := by
  cases call <;> cases asks <;> rfl

/-- A call leaves every member at the value that it writes, or as it was. -/
theorem value_perform (call : AxisCall) (axis : AxisMembers) (member : AxisMember) :
    (call.perform.after axis).value member = (call.written member).getD (axis.value member) := by
  cases call <;> cases member <;> rfl

/-- An update writes all the feedback, and no other call writes any of it. -/
theorem written_feedback (call : AxisCall) {member : AxisMember}
    (feedback : member.isFeedback = true) : (call.written member).isSome = call.isUpdate := by
  cases call <;> cases member <;> first | rfl | cases feedback

/-! ## Runs -/

section Runs

variable {ι : Type}

/-- What the calls have written to a member last. -/
def register (axis : AxisMembers) (member : AxisMember)
    (calls : List (Return ι AxisCall AxisAnswer)) : AxisAnswer :=
  (Traces.latest (fun call => call.method.written member) calls).getD (axis.value member)

/-- One more call gives a member its value, or leaves it to the calls before. -/
theorem register_concat (axis : AxisMembers) (member : AxisMember)
    (calls : List (Return ι AxisCall AxisAnswer)) (call : Return ι AxisCall AxisAnswer) :
    register axis member (calls ++ [call]) =
      (call.method.written member).getD (register axis member calls) := by
  unfold register
  cases written : call.method.written member with
  | none =>
    rw [Traces.latest_append_silent]
    · rfl
    · exact List.forall_mem_singleton.mpr written
  | some value =>
    have last := Traces.latest_concat
      (fun call : Return ι AxisCall AxisAnswer => call.method.written member) calls written
    rw [last]
    rfl

/-- Whole calls leave in every member what the latest of them to write it has written. -/
theorem value_replay (axis : AxisMembers) (member : AxisMember)
    (calls : List (Return ι AxisCall AxisAnswer)) :
    (Monitor.replay perform axis calls).value member = register axis member calls := by
  induction calls using List.reverseRecOn with
  | nil => rfl
  | append_singleton calls call inductionHypothesis =>
    rw [Monitor.replay_concat, value_perform, register_concat, inductionHypothesis]

/-- The update that has returned last. -/
def latestUpdate (calls : List (Return ι AxisCall AxisAnswer)) : Option AxisCall :=
  Traces.latest (fun call => if call.method.isUpdate then some call.method else none) calls

/-- The five members of the feedback are together those of the latest update.

Proof: by induction on the calls. An update becomes the latest one and writes all five; any
other call writes none of them and leaves the latest one as it is. -/
theorem register_feedback (axis : AxisMembers) (calls : List (Return ι AxisCall AxisAnswer)) :
    (∀ update, latestUpdate calls = some update → ∀ member, member.isFeedback = true →
      update.written member = some (register axis member calls)) ∧
    (latestUpdate calls = none → ∀ member, member.isFeedback = true →
      register axis member calls = axis.value member) := by
  induction calls using List.reverseRecOn with
  | nil => exact ⟨nofun, fun _ _ _ => rfl⟩
  | append_singleton calls call inductionHypothesis =>
    obtain ⟨updated, untouched⟩ := inductionHypothesis
    by_cases updates : call.method.isUpdate = true
    · have latest : latestUpdate (calls ++ [call]) = some call.method :=
        Traces.latest_concat _ calls (if_pos updates)
      rw [latest]
      refine ⟨?_, nofun⟩
      intro update last member feedback
      obtain rfl := Option.some.inj last
      obtain ⟨value, written⟩ := Option.isSome_iff_exists.mp
        ((written_feedback call.method feedback).trans updates)
      rw [register_concat, written]
      rfl
    · have latest : latestUpdate (calls ++ [call]) = latestUpdate calls :=
        Traces.latest_append_silent _ calls [call]
          (List.forall_mem_singleton.mpr (if_neg updates))
      have kept (member : AxisMember) (feedback : member.isFeedback = true) :
          register axis member (calls ++ [call]) = register axis member calls := by
        have silent : (call.method.written member).isSome = false :=
          (written_feedback call.method feedback).trans (Bool.eq_false_iff.mpr updates)
        rw [register_concat, Option.not_isSome_iff_eq_none.mp (Bool.eq_false_iff.mp silent)]
        rfl
      rw [latest]
      refine ⟨fun update last member feedback => ?_, fun none member feedback => ?_⟩
      · rw [kept member feedback]
        exact updated update last member feedback
      · rw [kept member feedback]
        exact untouched none member feedback

/-- However the calls of any threads interleave: a call that asks for a member answers what
the latest call that has returned before it and writes the member has written, and the value
of the start if there is none. Where nobody is inside, every member has that value, and the
five members of the feedback are together those of one single update, the latest one. -/
theorem axis_registers [DecidableEq ι] (axis : AxisMembers)
    (actions : List (MonitorAction ι AxisCall AxisMembers))
    (inner : ∀ change, .outside change ∉ actions) :
    let monitor : Monitor ι AxisCall AxisMembers AxisAnswer := { shared := axis }
    let returned := (Runs.history (Monitor.happen body) monitor actions).filterMap
      Monitor.returning
    let reached := Runs.final (Monitor.happen body) monitor actions
    (∀ earlier call later, returned = earlier ++ call :: later →
      ∀ member, call.method.asked = some member →
        call.answer = register axis member earlier) ∧
    (reached.locked = false →
      (∀ member, reached.shared.value member = register axis member returned) ∧
      (∀ update, latestUpdate returned = some update → ∀ member, member.isFeedback = true →
        update.written member = some (reached.shared.value member)) ∧
      (latestUpdate returned = none → ∀ member, member.isFeedback = true →
        reached.shared.value member = axis.value member)) := by
  intro monitor returned reached
  obtain ⟨progress, answered⟩ := Monitor.replayed whole_body axis actions inner
  refine ⟨?_, ?_⟩
  · intro earlier call later split member asks
    rw [answered earlier call later split, perform_asked asks, value_replay]
  · intro free
    have same : reached.shared = Monitor.replay perform axis returned := progress.free free
    have values : ∀ member, reached.shared.value member = register axis member returned := by
      intro member
      rw [same, value_replay]
    simp only [values]
    exact ⟨fun _ => trivial, register_feedback axis returned⟩

/-- The feedback of an exchange is written while another thread asks for it. -/
def asking : List (MonitorAction Bool AxisCall AxisMembers) :=
  [.call true (.updateCommandReadback 1 2 3 false false), .call false .getActualVelocity,
    .advance true, .advance true, .advance false, .advance true, .advance true, .advance false,
    .advance true, .advance true, .advance true, .advance false, .advance false, .advance false]

/-- The answer to the question that came in between is that of the whole update. -/
theorem axis_registers_bench :
    let axis : AxisMembers := { config := {} }
    let monitor : Monitor Bool AxisCall AxisMembers AxisAnswer := { shared := axis }
    let returned := (Runs.history (Monitor.happen body) monitor asking).filterMap
      Monitor.returning
    let reached := Runs.final (Monitor.happen body) monitor asking
    (∀ earlier call later, returned = earlier ++ call :: later →
      ∀ member, call.method.asked = some member →
        call.answer = register axis member earlier) ∧
    (reached.locked = false →
      (∀ member, reached.shared.value member = register axis member returned) ∧
      (∀ update, latestUpdate returned = some update → ∀ member, member.isFeedback = true →
        update.written member = some (reached.shared.value member)) ∧
      (latestUpdate returned = none → ∀ member, member.isFeedback = true →
        reached.shared.value member = axis.value member)) := by
  exact axis_registers { config := {} } asking fun change member => by simp [asking] at member

end Runs

end AxisCall

end MoEcat
