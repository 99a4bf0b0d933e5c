import Mathlib.Logic.Function.Basic
import Mathlib.Logic.ExistsUnique

/-!
# A flag held by one frame of many stacks

Any number of threads each have a stack of frames, and some frames hold a shared flag.
The flag tells the truth when it is set exactly if some thread has a frame that holds
it, and then only one thread has, and only one such frame. Replacing one thread's stack
keeps that if the flag follows: a frame that takes the flag finds it clear, and the
flag is cleared where the last holding frame stops holding it.

Nothing here depends on what the frames are or why they hold the flag.
-/

namespace MoEcat.ExclusiveFlag

variable {ι F : Type} (holds : F → Bool)

/-- The frame at a position, the thread and the depth in its stack, holds the flag. -/
def HeldAt (stackOf : ι → List F) (position : ι × Nat) : Prop :=
  ∃ frame, (stackOf position.1)[position.2]? = some frame ∧ holds frame = true

/-- The flag is set exactly if some thread owns it, and that thread alone has a frame
that holds it, and only one. -/
def Truthful [DecidableEq ι] (flag : Bool) (stackOf : ι → List F) : Prop :=
  ∃ owner : Option ι, flag = owner.isSome ∧
    ∀ thread, (stackOf thread).countP holds = if owner = some thread then 1 else 0

variable {holds}

/-- Where one frame counts, its position is unique. -/
theorem existsUnique_of_countP {frames : List F} (one : frames.countP holds = 1) :
    ∃! depth : Nat, ∃ frame, frames[depth]? = some frame ∧ holds frame = true := by
  induction frames with
  | nil => simp at one
  | cons top below inductionHypothesis =>
    by_cases held : holds top = true
    · have others : ∀ frame ∈ below, ¬holds frame = true := by
        rw [List.countP_cons_of_pos held] at one
        exact List.countP_eq_zero.mp (by omega)
      refine ⟨0, ⟨top, rfl, held⟩, ?_⟩
      rintro depth ⟨frame, found, holding⟩
      cases depth with
      | zero => rfl
      | succ depth => exact absurd holding (others frame (List.mem_of_getElem? found))
    · rw [List.countP_cons_of_neg held] at one
      obtain ⟨depth, located, unique⟩ := inductionHypothesis one
      refine ⟨depth + 1, located, ?_⟩
      rintro other ⟨frame, found, holding⟩
      cases other with
      | zero =>
        obtain rfl : top = frame := Option.some.inj found
        exact absurd holding held
      | succ other => exact congrArg Nat.succ (unique other ⟨frame, found, holding⟩)

variable [DecidableEq ι] {flag : Bool} {stackOf : ι → List F}

/-- With all stacks empty a clear flag tells the truth. -/
theorem truthful_idle : Truthful holds false (fun _ : ι => ([] : List F)) :=
  ⟨none, rfl, fun _ => rfl⟩

/-- Where a frame holds the flag, the flag is set. -/
theorem Truthful.flag_of_held (truthful : Truthful holds flag stackOf) {thread : ι} {frame : F}
    (member : frame ∈ stackOf thread) (held : holds frame = true) : flag = true := by
  obtain ⟨owner, told, counted⟩ := truthful
  have present : 0 < (stackOf thread).countP holds := List.countP_pos_iff.mpr ⟨frame, member, held⟩
  rw [counted thread] at present
  by_cases owned : owner = some thread
  · rw [told, owned]
    rfl
  · rw [if_neg owned] at present
    omega

/-- Where the flag is clear, no frame holds it. -/
theorem Truthful.vacant (truthful : Truthful holds flag stackOf) (clear : flag = false)
    (thread : ι) : (stackOf thread).countP holds = 0 := by
  apply List.countP_eq_zero.mpr
  intro frame member held
  rw [truthful.flag_of_held member held] at clear
  cases clear

/-- A thread holds the flag once at most. -/
theorem Truthful.count_le (truthful : Truthful holds flag stackOf) (thread : ι) :
    (stackOf thread).countP holds ≤ 1 := by
  obtain ⟨owner, -, counted⟩ := truthful
  rw [counted thread]
  split <;> omega

/-- The flag is set exactly if one position holds it. -/
theorem Truthful.flag_iff (truthful : Truthful holds flag stackOf) :
    flag = true ↔ ∃! position, HeldAt holds stackOf position := by
  obtain ⟨owner, told, counted⟩ := truthful
  cases owner with
  | none =>
    apply iff_of_false (by simp [told])
    rintro ⟨⟨thread, depth⟩, ⟨frame, found, held⟩, -⟩
    have vacant : (stackOf thread).countP holds = 0 := counted thread
    exact List.countP_eq_zero.mp vacant frame (List.mem_of_getElem? found) held
  | some thread =>
    apply iff_of_true told
    have one : (stackOf thread).countP holds = 1 := by rw [counted, if_pos rfl]
    obtain ⟨depth, located, unique⟩ := existsUnique_of_countP one
    refine ⟨(thread, depth), located, ?_⟩
    rintro ⟨other, place⟩ ⟨frame, found, held⟩
    have present : 0 < (stackOf other).countP holds :=
      List.countP_pos_iff.mpr ⟨frame, List.mem_of_getElem? found, held⟩
    obtain rfl : thread = other := by
      by_contra different
      rw [counted other, if_neg (by simpa using different)] at present
      omega
    rw [unique place ⟨frame, found, held⟩]

/-- Two positions that hold the flag are the same. -/
theorem Truthful.exclusive (truthful : Truthful holds flag stackOf) {first second : ι × Nat}
    (one : HeldAt holds stackOf first) (other : HeldAt holds stackOf second) : first = second := by
  obtain ⟨frame, found, held⟩ := one
  have set := truthful.flag_of_held (List.mem_of_getElem? found) held
  exact (truthful.flag_iff.mp set).unique ⟨frame, found, held⟩ other

/-- A stack is replaced by one with as many holding frames. -/
theorem Truthful.keep (truthful : Truthful holds flag stackOf) (thread : ι) {frames : List F}
    (kept : frames.countP holds = (stackOf thread).countP holds) :
    Truthful holds flag (Function.update stackOf thread frames) := by
  obtain ⟨owner, told, counted⟩ := truthful
  refine ⟨owner, told, fun other => ?_⟩
  by_cases same : other = thread
  · subst same
    rw [Function.update_self, kept, counted]
  · rw [Function.update_of_ne same, counted]

/-- A clear flag is taken by the one holding frame of the new stack. -/
theorem Truthful.take (truthful : Truthful holds flag stackOf) (clear : flag = false) (thread : ι)
    {frames : List F} (one : frames.countP holds = 1) :
    Truthful holds true (Function.update stackOf thread frames) := by
  obtain ⟨owner, told, counted⟩ := truthful
  obtain rfl : owner = none := by
    rw [clear] at told
    simpa using told.symm
  refine ⟨some thread, rfl, fun other => ?_⟩
  by_cases same : other = thread
  · subst same
    rw [Function.update_self, one, if_pos rfl]
  · rw [Function.update_of_ne same, counted, if_neg (by simp), if_neg (by simpa using Ne.symm same)]

/-- The thread with the holding frame gives the flag up. -/
theorem Truthful.release (truthful : Truthful holds flag stackOf) (thread : ι) {frames : List F}
    (held : 0 < (stackOf thread).countP holds) (none : frames.countP holds = 0) :
    Truthful holds false (Function.update stackOf thread frames) := by
  obtain ⟨owner, told, counted⟩ := truthful
  have owned : owner = some thread := by
    by_contra other
    rw [counted, if_neg other] at held
    omega
  subst owned
  refine ⟨.none, rfl, fun other => ?_⟩
  by_cases same : other = thread
  · subst same
    rw [Function.update_self, none, if_neg (by simp)]
  · rw [Function.update_of_ne same, counted, if_neg (by simpa using Ne.symm same),
      if_neg (by simp)]

end MoEcat.ExclusiveFlag
