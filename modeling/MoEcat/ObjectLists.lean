import MoEcat.MoEcatMaster
import Mathlib.Data.Nat.Find

/-!
# Lists of subindices

An object announces at subindex 0 how many values it holds, and a loop reads them one
after another. The loop's counter and its bound are both eight bits wide, so a slave that
announces 255 values and answers all of them sends the counter back to 0. In every other
case the loop ends with the values that were answered.
-/

namespace MoEcat

/-! ## Loops with a counter of one byte -/

namespace ByteLoop

variable {σ α : Type} (ask : UInt8 → Program σ (Option α))

/-- From `i` to the bound, collect what is answered, up to the first failure. -/
def collect (bound : UInt8) : Nat → UInt8 → List α → Program σ (Option (Bool × List α))
  | 0, _, _ => return none
  | fuel + 1, i, values =>
    if i ≤ bound then do
      match ← ask i with
      | none => return some (false, values)
      | some value => collect bound fuel (i + 1) (values ++ [value])
    else return some (true, values)

/-- The state once 1 to `k` have been asked for. -/
def asked (s : σ) : Nat → σ
  | 0 => s
  | k + 1 => (ask (UInt8.ofNat (k + 1))).after (asked s k)

/-- What is answered to `k + 1` when all before have been asked for. -/
def answer (s : σ) (k : Nat) : Option α := (ask (UInt8.ofNat (k + 1))).result (asked ask s k)

variable {ask} {s : σ} {bound i : UInt8} {values : List α}

/-- A pass that is answered adds its value and goes on. -/
theorem collect_answered {fuel : Nat} {value : α} (inside : i ≤ bound)
    (answered : (ask i).result s = some value) :
    (collect ask bound (fuel + 1) i values).run s =
      (collect ask bound fuel (i + 1) (values ++ [value])).run ((ask i).after s) := by
  have first : (ask i).run s = (some value, (ask i).after s) := Prod.ext answered rfl
  rw [collect, if_pos inside, StateT.run_bind, first]
  rfl

/-- A pass that is not answered ends the loop without success. -/
theorem collect_failed {fuel : Nat} (inside : i ≤ bound) (failed : (ask i).result s = none) :
    (collect ask bound (fuel + 1) i values).result s = some (false, values) ∧
      (collect ask bound (fuel + 1) i values).after s = (ask i).after s := by
  rw [collect, if_pos inside, Program.result_bind, Program.after_bind, failed]
  exact ⟨rfl, rfl⟩

/-- Past the bound the loop ends with success. -/
theorem collect_done {fuel : Nat} (outside : ¬i ≤ bound) :
    (collect ask bound (fuel + 1) i values).result s = some (true, values) ∧
      (collect ask bound (fuel + 1) i values).after s = s := by
  rw [collect, if_neg outside]
  exact ⟨rfl, rfl⟩

/-- While the counter has not passed its bound, it counts. -/
theorem ofNat_le {k : Nat} (within : k ≤ bound.toNat) : UInt8.ofNat k ≤ bound := by
  rw [UInt8.le_iff_toNat_le, UInt8.toNat_ofNat']
  omega

/-- As long as the bound is not passed, the counter has not wrapped. -/
theorem inside_of_le (bound : UInt8) {k : Nat} (within : k ≤ bound.toNat) :
    ∀ j < k, UInt8.ofNat (j + 1) ≤ bound :=
  fun _ before => ofNat_le (Nat.le_trans before within)

/-- The loop after its first `k` passes, when all of them were answered. -/
theorem collect_run {k : Nat} (inside : ∀ j < k, UInt8.ofNat (j + 1) ≤ bound)
    (answered : values.map some = (List.range k).map (answer ask s)) (fuel : Nat) :
    (collect ask bound (fuel + k) 1 []).run s =
      (collect ask bound fuel (UInt8.ofNat (k + 1)) values).run (asked ask s k) := by
  induction k generalizing values fuel with
  | zero =>
    obtain rfl : values = [] := by simpa using answered
    rfl
  | succ k inductionHypothesis =>
    rw [List.range_succ, List.map_append, List.map_singleton] at answered
    obtain ⟨earlier, last, rfl, answeredEarlier, answeredLast⟩ := List.map_eq_append_iff.mp answered
    obtain ⟨value, rfl, next⟩ := List.map_eq_singleton_iff.mp answeredLast
    have passed := inductionHypothesis (fun j before => inside j (Nat.lt_succ_of_lt before))
      answeredEarlier
    rw [show fuel + (k + 1) = fuel + 1 + k by omega, passed,
      collect_answered (inside k (Nat.lt_succ_self k)) next.symm, UInt8.ofNat_add (k + 1) 1]
    rfl

/-- The values that are answered up to a point, or up to the first failure before it. -/
theorem answers_before (ask : UInt8 → Program σ (Option α)) (s : σ) (n : Nat) :
    (∃ values : List α, values.map some = (List.range n).map (answer ask s)) ∨
      ∃ k < n, answer ask s k = none ∧
        ∃ values : List α, values.map some = (List.range k).map (answer ask s) := by
  induction n with
  | zero => exact .inl ⟨[], rfl⟩
  | succ n inductionHypothesis =>
    rcases inductionHypothesis with ⟨values, same⟩ | ⟨k, before, failed⟩
    · cases last : answer ask s n with
      | none => exact .inr ⟨n, Nat.lt_succ_self n, last, values, same⟩
      | some value =>
        refine .inl ⟨values ++ [value], ?_⟩
        rw [List.range_succ, List.map_append, List.map_append, same, List.map_singleton,
          List.map_singleton, last]
    · exact .inr ⟨k, Nat.lt_succ_of_lt before, failed⟩

/-- Where nothing fails, there are values up to every point. -/
theorem exists_values {n : Nat} (answered : ∀ k < n, (answer ask s k).isSome) :
    ∃ values : List α, values.map some = (List.range n).map (answer ask s) := by
  rcases answers_before ask s n with all | ⟨k, before, failed, -⟩
  · exact all
  · have some := answered k before
    rw [failed] at some
    cases some

/-- There are as many values as answers. -/
theorem length_of_values {n : Nat} {values : List α}
    (answers : values.map some = (List.range n).map (answer ask s)) : values.length = n := by
  simpa using congrArg List.length answers

/-- A value is the answer to its number. -/
theorem getElem?_of_values {n k : Nat} {values : List α}
    (answers : values.map some = (List.range n).map (answer ask s)) (before : k < n) :
    values[k]? = answer ask s k := by
  have length := length_of_values answers
  have same := congrArg (fun given => given[k]?) answers
  simp only [List.getElem?_map, List.getElem?_range before, Option.map_some] at same
  rw [List.getElem?_eq_getElem (length ▸ before)] at same ⊢
  exact Option.some.inj same

/-- Where there are values, all was answered. -/
theorem isSome_of_values {n k : Nat} {values : List α}
    (answers : values.map some = (List.range n).map (answer ask s)) (before : k < n) :
    (answer ask s k).isSome := by
  have length := length_of_values answers
  rw [← getElem?_of_values answers before, List.getElem?_eq_getElem (length ▸ before)]
  rfl

/-- Pass `k` is made and answered. -/
def Reached (ask : UInt8 → Program σ (Option α)) (s : σ) (bound : UInt8) (k : Nat) : Prop :=
  ∀ j ≤ k, UInt8.ofNat (j + 1) ≤ bound ∧ (answer ask s j).isSome

/-- A loop that ends has collected the answer of every pass before the one that it did not
make or that was not answered. The induction carries the passes made so far. -/
theorem collect_ended {fuel : Nat} {ok : Bool} (k : Nat) (earlier : List α)
    (answered : earlier.map some = (List.range k).map (answer ask s))
    (inside : ∀ j < k, UInt8.ofNat (j + 1) ≤ bound)
    (ended : (collect ask bound fuel (UInt8.ofNat (k + 1)) earlier).result (asked ask s k) =
      some (ok, values)) :
    values.map some = (List.range values.length).map (answer ask s) ∧
      (∀ j < values.length, UInt8.ofNat (j + 1) ≤ bound) ∧
      ¬Reached ask s bound values.length := by
  have length := length_of_values answered
  induction fuel generalizing k earlier with
  | zero => cases ended
  | succ fuel inductionHypothesis =>
    by_cases next : UInt8.ofNat (k + 1) ≤ bound
    · cases given : answer ask s k with
      | none =>
        rw [(collect_failed next given).1] at ended
        obtain ⟨-, rfl⟩ := Prod.mk.inj (Option.some.inj ended)
        rw [length]
        refine ⟨answered, inside, fun reached => ?_⟩
        have made := (reached k (Nat.le_refl k)).2
        rw [given] at made
        cases made
      | some value =>
        rw [Program.result, collect_answered next given] at ended
        refine inductionHypothesis (k + 1) (earlier ++ [value]) ?_ ?_ ?_ (by simp [length])
        · rw [List.range_succ, List.map_append, List.map_append, answered, List.map_singleton,
            List.map_singleton, given]
        · intro j before
          rcases Nat.lt_succ_iff_lt_or_eq.mp before with earlier | rfl
          · exact inside j earlier
          · exact next
        · rw [UInt8.ofNat_add (k + 1) 1]
          exact ended
    · rw [(collect_done next).1] at ended
      obtain ⟨-, rfl⟩ := Prod.mk.inj (Option.some.inj ended)
      rw [length]
      exact ⟨answered, inside, fun reached => next (reached k (Nat.le_refl k)).1⟩

/-- What a loop that has ended has collected: the answers up to where it ended, none left
out. -/
theorem collected {fuel : Nat} {ok : Bool}
    (ended : (collect ask bound fuel 1 []).result s = some (ok, values)) :
    values.map some = (List.range values.length).map (answer ask s) ∧
      (∀ j < values.length, UInt8.ofNat (j + 1) ≤ bound) ∧
      ¬Reached ask s bound values.length :=
  collect_ended 0 [] rfl (fun j before => absurd before (Nat.not_lt_zero j)) ended

/-- The loop ends at the first pass that it does not make or that is not answered. -/
theorem exists_ended {n : Nat} (passed : ∀ j < n, Reached ask s bound j)
    (stopped : ¬Reached ask s bound n) :
    ∃ fuel ok values, (collect ask bound fuel 1 []).result s = some (ok, values) ∧
      values.length = n := by
  obtain ⟨values, answers⟩ := exists_values fun j before =>
    (passed j before j (Nat.le_refl j)).2
  have length := length_of_values answers
  have run := collect_run (fun j before => (passed j before j (Nat.le_refl j)).1) answers 1
  by_cases next : UInt8.ofNat (n + 1) ≤ bound
  · have failed : answer ask s n = none := by
      rw [← Option.not_isSome_iff_eq_none]
      intro given
      refine stopped fun j within => ?_
      rcases Nat.lt_or_eq_of_le within with before | rfl
      · exact passed j before j (Nat.le_refl j)
      · exact ⟨next, given⟩
    refine ⟨1 + n, false, values, ?_, length⟩
    rw [Program.result, run]
    exact (collect_failed next failed).1
  · refine ⟨1 + n, true, values, ?_, length⟩
    rw [Program.result, run]
    exact (collect_done next).1

/-- What holds of every value in a collected list; a loop that goes on for ever collects
nothing. -/
theorem forall_collected_iff (ask : UInt8 → Program σ (Option α)) (s : σ) (bound : UInt8)
    (P : Nat → Option α → Prop) :
    (∀ fuel ok (values : List α), (collect ask bound fuel 1 []).result s = some (ok, values) →
      ∀ k < values.length, P k values[k]?) ↔
      (∃ n, ¬Reached ask s bound n) → ∀ k, Reached ask s bound k → P k (answer ask s k) := by
  constructor
  · intro holds stops k reached
    classical
    have passed : ∀ j < Nat.find stops, Reached ask s bound j := fun j before =>
      not_not.mp (Nat.find_min stops before)
    have later : k < Nat.find stops := by
      apply Nat.lt_of_not_le
      intro before
      exact Nat.find_spec stops fun j within => reached j (Nat.le_trans within before)
    obtain ⟨fuel, ok, values, ended, length⟩ := exists_ended passed (Nat.find_spec stops)
    obtain ⟨answers, -, -⟩ := collected ended
    rw [← length] at later
    rw [← getElem?_of_values answers later]
    exact holds fuel ok values ended k later
  · intro holds fuel ok values ended k before
    obtain ⟨answers, inside, stopped⟩ := collected ended
    rw [getElem?_of_values answers before]
    refine holds ⟨_, stopped⟩ k fun j within => ?_
    have earlier := Nat.lt_of_le_of_lt within before
    exact ⟨inside j earlier, isSome_of_values answers earlier⟩

/-- A bound of 255 and an answer to everything up to it. -/
def Wraps (ask : UInt8 → Program σ (Option α)) (s : σ) (bound : UInt8) : Prop :=
  bound = 255 ∧ ∀ k < 255, (answer ask s k).isSome

/-- The loop ends, asks at most as often as the bound says, and returns the answers up to
the first failure, all of them unless there was one. -/
def Exact (ask : UInt8 → Program σ (Option α)) (clock : σ → Nat) (s : σ) (bound : UInt8) : Prop :=
  ∃ fuel ok values, (collect ask bound fuel 1 []).result s = some (ok, values) ∧
    clock ((collect ask bound fuel 1 []).after s) ≤ clock s + bound.toNat ∧
    values.map some <+: (List.range bound.toNat).map (answer ask s) ∧
    (ok = true → values.length = bound.toNat)

section Clock

variable {clock : σ → Nat} (ticks : ∀ i s, clock ((ask i).after s) = clock s + 1)

include ticks

/-- So many requests take so many ticks. -/
theorem clock_asked (k : Nat) : clock (asked ask s k) = clock s + k := by
  induction k with
  | zero => rfl
  | succ k inductionHypothesis =>
    rw [asked, ticks, inductionHypothesis]
    omega

/-- A pass advances the clock if the rest of the loop does not set it back. -/
theorem clock_pass {fuel : Nat} (inside : i ≤ bound)
    (later : ∀ i (values : List α) s, clock s ≤ clock ((collect ask bound fuel i values).after s)) :
    clock s < clock ((collect ask bound (fuel + 1) i values).after s) := by
  have once := ticks i s
  cases answered : (ask i).result s with
  | none =>
    rw [(collect_failed inside answered).2]
    omega
  | some value =>
    rw [Program.after, collect_answered inside answered]
    exact Nat.lt_of_lt_of_le (by omega) (later _ _ _)

/-- The loop does not turn the clock back. The induction is on the fuel. -/
theorem clock_collect (fuel : Nat) :
    ∀ i (values : List α) s, clock s ≤ clock ((collect ask bound fuel i values).after s) := by
  induction fuel with
  | zero => exact fun _ _ _ => Nat.le_refl _
  | succ fuel inductionHypothesis =>
    intro i values s
    by_cases inside : i ≤ bound
    · exact Nat.le_of_lt (clock_pass ticks inside inductionHypothesis)
    · exact Nat.le_of_eq (congrArg clock (collect_done inside).2).symm

/-- A loop that is sent back to 0 asks once more than it may, if it ends at all. -/
theorem not_exact_of_wraps (wraps : Wraps ask s bound) : ¬Exact ask clock s bound := by
  rintro ⟨fuel, ok, values, ended, bounded, -, -⟩
  obtain ⟨rfl, answered⟩ := wraps
  rcases Nat.lt_or_ge fuel 256 with few | many
  · obtain ⟨read, answers⟩ := exists_values (n := fuel) fun k before => answered k (by omega)
    have run := collect_run (inside_of_le 255 (Nat.le_of_lt_succ few)) answers 0
    rw [Nat.zero_add] at run
    rw [Program.result, run] at ended
    cases ended
  · obtain ⟨more, rfl⟩ : ∃ more, fuel = more + 1 + 255 := ⟨fuel - 256, by omega⟩
    obtain ⟨read, answers⟩ := exists_values answered
    have run := collect_run (inside_of_le 255 (Nat.le_refl 255)) answers (more + 1)
    have back : UInt8.ofNat (255 + 1) ≤ 255 := by decide
    have again : clock (asked ask s 255) < clock
        ((collect ask 255 (more + 1) (UInt8.ofNat (255 + 1)) read).after (asked ask s 255)) :=
      clock_pass ticks back (clock_collect ticks more)
    rw [clock_asked ticks] at again
    rw [Program.after, run] at bounded
    exact absurd bounded (Nat.not_le_of_lt again)

/-- Where the counter does not wrap, the loop is exact.

Proof: the loop ends at the first failure, or at the bound, which the counter then passes by
one. -/
theorem exact_of_not_wraps (regular : ¬Wraps ask s bound) : Exact ask clock s bound := by
  rcases answers_before ask s bound.toNat with ⟨values, answers⟩ | ⟨k, within, failed, values, answers⟩
  · have small : bound.toNat ≠ 255 := by
      intro full
      refine regular ⟨UInt8.toNat_inj.mp full, fun k before => ?_⟩
      exact isSome_of_values answers (by omega)
    have limit := bound.toNat_lt
    have outside : ¬UInt8.ofNat (bound.toNat + 1) ≤ bound := by
      rw [UInt8.le_iff_toNat_le, UInt8.toNat_ofNat']
      omega
    have run := collect_run (inside_of_le bound (Nat.le_refl _)) answers 1
    have left : (collect ask bound 1 (UInt8.ofNat (bound.toNat + 1)) values).after
        (asked ask s bound.toNat) = asked ask s bound.toNat := (collect_done outside).2
    refine ⟨1 + bound.toNat, true, values, ?_, ?_, ?_, ?_⟩
    · rw [Program.result, run]
      exact (collect_done outside).1
    · rw [Program.after, run]
      exact Nat.le_of_eq ((congrArg clock left).trans (clock_asked ticks _))
    · exact answers ▸ List.prefix_rfl
    · intro _
      exact length_of_values answers
  · have inside : UInt8.ofNat (k + 1) ≤ bound := ofNat_le within
    have run := collect_run (inside_of_le bound (Nat.le_of_lt within)) answers 1
    have left : (collect ask bound 1 (UInt8.ofNat (k + 1)) values).after (asked ask s k) =
        asked ask s (k + 1) := (collect_failed inside failed).2
    refine ⟨1 + k, false, values, ?_, ?_, ?_, fun contradiction => nomatch contradiction⟩
    · rw [Program.result, run]
      exact (collect_failed inside failed).1
    · rw [Program.after, run]
      have passed := clock_asked ticks (s := s) (k + 1)
      exact Nat.le_trans (Nat.le_of_eq ((congrArg clock left).trans passed)) (by omega)
    · rw [answers]
      exact (List.prefix_iff_eq_take.mpr (by simp [Nat.min_eq_left (Nat.le_of_lt within)])).map _

/-- The loop is exact if and only if the counter does not wrap.

Proof: where it wraps, all 255 requests are answered and the counter begins again at 0, so
that any loop that ends has asked more often than the bound says. -/
theorem exact_iff : Exact ask clock s bound ↔ ¬Wraps ask s bound :=
  ⟨fun exact wraps => not_exact_of_wraps ticks wraps exact, exact_of_not_wraps ticks⟩

end Clock

end ByteLoop

/-! ## The mapping activity -/

variable {β : Type} [Platform β]

namespace PdoMappingActivity

/-- The same loop as the master's, over the service data of a node. A failure is logged. -/
def readSubindices (node : SlaveNode) (index : UInt16) (width : Nat) (count : UInt8) :
    Nat → UInt8 → List Nat → Program (EcMaster β) (Option (Bool × List Nat))
  | 0, _, _ => return none
  | fuel + 1, i, values =>
    if i ≤ count then do
      let reply ← node.sdoRead index i (List.replicate width 0) width 10000
      if reply.1 = false then return some (false, values)
      else
        readSubindices node index width count fuel (i + 1)
          (values ++ [unsignedLittleEndian reply.2])
    else return some (true, values)

/-- The list of an object of this node: first the number of values, then the values. -/
def readObjectList (fuel : Nat) (node : SlaveNode) (index : UInt16) (width : Nat) :
    Program (EcMaster β) (Option (Bool × List Nat)) := do
  let reply ← node.sdoRead index 0 [0] 1 10000
  if reply.1 = false then return some (false, [])
  else readSubindices node index width (UInt8.ofNat (unsignedLittleEndian reply.2)) fuel 1 []

/-- The objects that are assigned to a sync manager of this node. -/
def readSmAssignment (fuel : Nat) (node : SlaveNode) (assignIndex : UInt16) :
    Program (EcMaster β) (Option (Bool × List Nat)) :=
  readObjectList fuel node assignIndex 2

/-- The entries that are mapped in an object of this node. -/
def readPdoMapping (fuel : Nat) (node : SlaveNode) (pdoIndex : UInt16) :
    Program (EcMaster β) (Option (Bool × List Nat)) :=
  readObjectList fuel node pdoIndex 4

/-- A size that fits an `int` is passed on as it is. -/
theorem readObjectList_eq (fuel : Nat) (node : SlaveNode) (index : UInt16) (width : Nat)
    (kept : narrowInt width = width) :
    readObjectList (β := β) fuel node index width =
      Impl.readObjectList fuel (UInt16.ofInt node.info.slaveId) index width := by
  have loops : ∀ count fuel i values, readSubindices (β := β) node index width count fuel i values =
      Impl.readSubindices (UInt16.ofInt node.info.slaveId) index width count fuel i values := by
    intro count fuel
    induction fuel with
    | zero => exact fun _ _ => rfl
    | succ fuel inductionHypothesis =>
      intro i values
      rw [readSubindices, Impl.readSubindices, SlaveNode.sdoRead, kept]
      simp only [inductionHypothesis]
  rw [readObjectList, Impl.readObjectList]
  simp only [loops]
  rfl

/-- So the activity reads as the master does, from the slave of its node. -/
theorem readSmAssignment_eq (fuel : Nat) (node : SlaveNode) (assignIndex : UInt16) :
    readSmAssignment (β := β) fuel node assignIndex =
      Impl.readSmAssignment fuel (UInt16.ofInt node.info.slaveId) assignIndex :=
  readObjectList_eq fuel node assignIndex 2 (by decide)

/-- The node's reader is the master's, for the number of the node's slave. -/
theorem readPdoMapping_eq (fuel : Nat) (node : SlaveNode) (pdoIndex : UInt16) :
    readPdoMapping (β := β) fuel node pdoIndex =
      Impl.readPdoMapping fuel (UInt16.ofInt node.info.slaveId) pdoIndex :=
  readObjectList_eq fuel node pdoIndex 4 (by decide)

end PdoMappingActivity

/-! ## What a slave answers -/

/-- One read of a subindex, and its value if it succeeds. -/
def readSubindex (slave index : UInt16) (width : Nat) (subindex : UInt8) :
    Program (EcMaster β) (Option Nat) := do
  let reply ← EcMaster.sdoRead slave index subindex (List.replicate width 0) width 10000
  return if reply.1 = false then none else some (unsignedLittleEndian reply.2)

/-- The event is an upload. -/
def Event.isSdoRead : Event → Bool
  | .soem (.sdoRead ..) _ => true
  | _ => false

/-- How often service data has been read so far. -/
def EcMaster.sdoReads (m : EcMaster β) : Nat := m.trace.countP Event.isSdoRead

/-- The readers' loop is such a loop. -/
theorem readSubindices_eq (slave index : UInt16) (width : Nat) (count : UInt8) (fuel : Nat)
    (i : UInt8) (values : List Nat) :
    Impl.readSubindices (β := β) slave index width count fuel i values =
      ByteLoop.collect (readSubindex slave index width) count fuel i values := by
  induction fuel generalizing i values with
  | zero => rfl
  | succ fuel inductionHypothesis =>
    rw [Impl.readSubindices, ByteLoop.collect]
    split
    · rw [readSubindex, bind_assoc]
      congr 1
      funext reply
      rw [pure_bind]
      cases reply.1 with
      | false => rfl
      | true => exact inductionHypothesis _ _
    · rfl

/-- Each request is one upload. -/
theorem sdoReads_readSubindex (slave index : UInt16) (width : Nat) (i : UInt8) (m : EcMaster β) :
    ((readSubindex slave index width i).after m).sdoReads = m.sdoReads + 1 := by
  have grown : ((readSubindex slave index width i).after m).trace = m.trace ++ [_] := rfl
  rw [EcMaster.sdoReads, grown, List.countP_append]
  rfl

/-- The number of values that the slave announces, if it answers. -/
def announced (m : EcMaster β) (slave index : UInt16) : Option Nat :=
  (readSubindex slave index 1 0).result m

/-- The value of subindex `k + 1`, read after the announcement and all subindices before. -/
def valueOf (m : EcMaster β) (slave index : UInt16) (width k : Nat) : Option Nat :=
  ByteLoop.answer (readSubindex slave index width) ((readSubindex slave index 1 0).after m) k

/-- A list is read as it should be: the reader ends after at most one read more than is
announced, with the values in order up to the first one that could not be read, and
reports success only for as many as were announced. -/
def ListsExactly (m : EcMaster β) (slave index : UInt16) (width : Nat)
    (reader : Nat → Program (EcMaster β) (Option (Bool × List Nat))) : Prop :=
  let count := (announced m slave index).getD 0
  ∃ fuel ok values, (reader fuel).result m = some (ok, values) ∧
    ((reader fuel).after m).sdoReads ≤ m.sdoReads + count + 1 ∧
    values.map some <+: (List.range count).map (valueOf m slave index width) ∧
    (ok = true → announced m slave index = some values.length)

/-- The slave announces 255 values and answers all of them. -/
def CounterWraps (m : EcMaster β) (slave index : UInt16) (width : Nat) : Prop :=
  announced m slave index = some 255 ∧ ∀ k < 255, (valueOf m slave index width k).isSome

/-- What is announced is the value that the upload of subindex 0 brought. -/
theorem announced_eq (m : EcMaster β) (slave index : UInt16) :
    announced m slave index =
      if ((EcMaster.sdoRead slave index 0 [0] 1 10000).result m).1 = false then none
      else some (unsignedLittleEndian ((EcMaster.sdoRead slave index 0 [0] 1 10000).result m).2) :=
  (rfl)

/-- A byte announces less than 256. -/
theorem announced_lt {m : EcMaster β} {slave index : UInt16} {count : Nat}
    (answered : announced m slave index = some count) : count < 256 := by
  have oneByte : ∀ bytes : List UInt8,
      unsignedLittleEndian (bytes.take 1 ++ [0].drop bytes.length) < 256 := by
    intro bytes
    cases bytes with
    | nil => decide
    | cons byte rest =>
      have below := byte.toNat_lt
      simpa [unsignedLittleEndian] using below
  rw [announced_eq] at answered
  split at answered
  · cases answered
  · rw [← Option.some.inj answered]
    exact oneByte _

/-- Where nothing is announced there is no list. -/
theorem readObjectList_failed {m : EcMaster β} {slave index : UInt16} (fuel width : Nat)
    (failed : announced m slave index = none) :
    (Impl.readObjectList fuel slave index width).result m = some (false, []) ∧
      (Impl.readObjectList fuel slave index width).after m =
        (readSubindex slave index 1 0).after m := by
  rw [announced_eq] at failed
  split at failed
  · rename_i refused
    rw [Impl.readObjectList, Program.result_bind, Program.after_bind, if_pos refused]
    exact ⟨rfl, rfl⟩
  · cases failed

/-- Where a number is announced, the reader is the loop with this bound. -/
theorem readObjectList_answered {m : EcMaster β} {slave index : UInt16} {count : Nat}
    (fuel width : Nat) (answered : announced m slave index = some count) :
    let list := ByteLoop.collect (readSubindex slave index width) (UInt8.ofNat count) fuel 1 []
    let asked := (readSubindex slave index 1 0).after m
    (Impl.readObjectList fuel slave index width).result m = list.result asked ∧
      (Impl.readObjectList fuel slave index width).after m = list.after asked := by
  rw [announced_eq] at answered
  split at answered
  · cases answered
  · rename_i succeeded
    rw [Impl.readObjectList, Program.result_bind, Program.after_bind, if_neg succeeded,
      readSubindices_eq, Option.some.inj answered]
    exact ⟨rfl, rfl⟩

/-- A list is read as it should be if and only if the counter does not wrap. -/
theorem readObjectList_exactly_iff (m : EcMaster β) (slave index : UInt16) (width : Nat) :
    ListsExactly m slave index width (fun fuel => Impl.readObjectList fuel slave index width) ↔
      ¬CounterWraps m slave index width := by
  cases heard : announced m slave index with
  | none =>
    have regular : ¬CounterWraps m slave index width := by
      rintro ⟨wrong, -⟩
      rw [heard] at wrong
      cases wrong
    refine iff_of_true ?_ regular
    obtain ⟨ended, left⟩ := readObjectList_failed 0 width heard
    refine ⟨0, false, [], ended, ?_, ?_, fun contradiction => nomatch contradiction⟩
    · rw [left, sdoReads_readSubindex]
      omega
    · exact List.nil_prefix
  | some count =>
    have small := announced_lt heard
    have bound : (UInt8.ofNat count).toNat = count := by
      rw [UInt8.toNat_ofNat']
      omega
    have same : CounterWraps m slave index width ↔ ByteLoop.Wraps (readSubindex slave index width)
        ((readSubindex slave index 1 0).after m) (UInt8.ofNat count) := by
      rw [CounterWraps, heard, Option.some_inj, ByteLoop.Wraps, ← UInt8.toNat_inj, bound]
      rfl
    rw [same, ← ByteLoop.exact_iff (sdoReads_readSubindex slave index width)]
    rw [ListsExactly, ByteLoop.Exact, heard, bound, Option.getD_some]
    apply exists_congr
    intro fuel
    obtain ⟨ended, left⟩ := readObjectList_answered fuel width heard
    simp only [ended, left, Option.some_inj, sdoReads_readSubindex]
    refine exists_congr fun ok => exists_congr fun values => and_congr_right fun _ => ?_
    exact and_congr (by rw [Nat.add_right_comm]) (and_congr_right fun _ => imp_congr_right fun _ => eq_comm)

/-- Whatever a slave answers, the four readers end after the announced number of reads and
return exactly what was answered, unless the slave announces 255 values and answers them
all: then the counter goes back to 0, and no reader ends in time. -/
theorem object_lists_exactly_iff (m : EcMaster β) (slave index : UInt16) (node : SlaveNode) :
    let own := UInt16.ofInt node.info.slaveId
    (ListsExactly m slave index 2 (fun fuel => Impl.readSmAssignment fuel slave index) ↔
      ¬CounterWraps m slave index 2) ∧
    (ListsExactly m slave index 4 (fun fuel => Impl.readPdoMapping fuel slave index) ↔
      ¬CounterWraps m slave index 4) ∧
    (ListsExactly m own index 2
        (fun fuel => PdoMappingActivity.readSmAssignment fuel node index) ↔
      ¬CounterWraps m own index 2) ∧
    (ListsExactly m own index 4
        (fun fuel => PdoMappingActivity.readPdoMapping fuel node index) ↔
      ¬CounterWraps m own index 4) := by
  intro own
  refine ⟨readObjectList_exactly_iff m slave index 2, readObjectList_exactly_iff m slave index 4,
    ?_, ?_⟩
  · simp only [PdoMappingActivity.readSmAssignment_eq]
    exact readObjectList_exactly_iff m own index 2
  · simp only [PdoMappingActivity.readPdoMapping_eq]
    exact readObjectList_exactly_iff m own index 4

/-- A slave that answers every read with a byte of ones. -/
structure Talkative where

/-- Every upload is answered with the byte 255. -/
instance : Platform Talkative where
  soem _ ctx talkative := ({ result := 1, data := [255] }, ctx, talkative)
  steadyClock talkative := (0, talkative)
  openLogFile _ talkative := (.opened, talkative)

/-- It is asked again and again by each of the four readers. -/
theorem object_lists_not_exactly :
    let m : EcMaster Talkative := { platform := {} }
    let node : SlaveNode := { info := { slaveId := 1 } }
    ¬ListsExactly m 1 0x1C12 2 (fun fuel => Impl.readSmAssignment fuel 1 0x1C12) ∧
      ¬ListsExactly m 1 0x1600 4 (fun fuel => Impl.readPdoMapping fuel 1 0x1600) ∧
      ¬ListsExactly m 1 0x1C12 2
        (fun fuel => PdoMappingActivity.readSmAssignment fuel node 0x1C12) ∧
      ¬ListsExactly m 1 0x1600 4
        (fun fuel => PdoMappingActivity.readPdoMapping fuel node 0x1600) := by
  intro m node
  have wraps : ∀ index width, CounterWraps m 1 index width :=
    fun index width => ⟨rfl, fun k _ => rfl⟩
  have fails : ∀ index width,
      ¬ListsExactly m 1 index width (fun fuel => Impl.readObjectList fuel 1 index width) := by
    intro index width exact
    exact (readObjectList_exactly_iff m 1 index width).mp exact (wraps index width)
  refine ⟨fails 0x1C12 2, fails 0x1600 4, ?_, ?_⟩
  · simp only [PdoMappingActivity.readSmAssignment_eq]
    exact fails 0x1C12 2
  · simp only [PdoMappingActivity.readPdoMapping_eq]
    exact fails 0x1600 4

end MoEcat
