import MoEcat.ObjectLists
import MoEcat.SerialActivities
import Mathlib.Data.List.Forall2

/-!
# Activities that only look

Three activities read from a slave in Maintenance and write nothing: the diagnosis of its
identity, the inspection of its state, and the listing of its PDO mapping. Each has a
script: which requests it makes, in which order, and with which result it ends after them.
Whatever the threads, the bus sees the scripts one after another, and the bus master is
where exactly these calls lead.

What is read is only logged. The inspection's effect on the state that a node remembers
is left out, which nothing reads.
-/

namespace MoEcat

variable {ι β : Type}

/-- Perform a program as one access, and go on with its result. -/
def ActivityBody.perform {α : Type} (p : Program (EcMaster β) α) (next : α → ActivityBody β) :
    ActivityBody β :=
  .access fun m => (next (p.result m), p.after m)

/-- A body finishes as the rest of it does after its first program. -/
theorem ActivityBody.finishes_perform {α : Type} {p : Program (EcMaster β) α}
    {next : α → ActivityBody β} {m m' : EcMaster β} {ok : Bool}
    (rest : (next (p.result m)).Finishes (p.after m) ok m') : (perform p next).Finishes m ok m' :=
  .access rest

section Activities

variable [Platform β]

/-- The status code of the node's slave, read from the bus. -/
def SlaveNode.readAlStatusCode (node : SlaveNode) : Program (EcMaster β) UInt16 :=
  EcMaster.readAlStatusCode node.info.slaveId

namespace SdoDiagnosticsActivity

/-- The device type is asked for as entry 0x1000, and the answer only looked at for success.
-/
def readDeviceType (node : SlaveNode) (next : Bool → ActivityBody β) : ActivityBody β :=
  .perform (node.sdoRead 0x1000 0 [0, 0, 0, 0] 4 10000) fun reply => next reply.1

/-- All three values are asked for, also after a failure. -/
def readIdentity (node : SlaveNode) (next : Bool → ActivityBody β) : ActivityBody β :=
  .perform (node.sdoRead 0x1018 1 [0, 0, 0, 0] 4 10000) fun vendor =>
  .perform (node.sdoRead 0x1018 2 [0, 0, 0, 0] 4 10000) fun product =>
  .perform (node.sdoRead 0x1018 3 [0, 0, 0, 0] 4 10000) fun revision =>
    next (vendor.1 && product.1 && revision.1)

/-- The device type and then the identity are read. The activity succeeds if both do. -/
def execute (node : SlaveNode) : ActivityBody β :=
  readDeviceType node fun typed =>
  readIdentity node fun identified =>
    .finished (typed && identified)

/-- Reading the identity of a slave. A failure does not harm the master. -/
def activity (node : SlaveNode) : EcatActivity β where
  name := "SdoDiagnostics"
  canStart := canRunMaintenanceActivity
  failurePolicy := .keepControllerState
  execute := execute node

end SdoDiagnosticsActivity

namespace StateInspectionActivity

/-- The state and then the status code are read. The activity succeeds whatever they are. -/
def execute (node : SlaveNode) : ActivityBody β :=
  .perform node.refreshActualState fun _ =>
  .perform node.readAlStatusCode fun _ =>
    .finished true

/-- Reading the state of a slave afresh. -/
def activity (node : SlaveNode) : EcatActivity β where
  name := "StateInspection"
  canStart := canRunMaintenanceActivity
  failurePolicy := .keepControllerState
  execute := execute node

end StateInspectionActivity

namespace PdoMappingActivity

/-- The passes of `readSubindices`, each an access of its own. -/
def visitSubindices (node : SlaveNode) (index : UInt16) (width : Nat) (count : UInt8)
    (next : Option (Bool × List Nat) → ActivityBody β) :
    Nat → UInt8 → List Nat → ActivityBody β
  | 0, _, _ => next none
  | fuel + 1, i, values =>
    if i ≤ count then
      .perform (node.sdoRead index i (List.replicate width 0) width 10000) fun reply =>
        if reply.1 = false then next (some (false, values))
        else
          visitSubindices node index width count next fuel (i + 1)
            (values ++ [unsignedLittleEndian reply.2])
    else next (some (true, values))

/-- The accesses of `readObjectList`. -/
def visitObjectList (fuel : Nat) (node : SlaveNode) (index : UInt16) (width : Nat)
    (next : Option (Bool × List Nat) → ActivityBody β) : ActivityBody β :=
  .perform (node.sdoRead index 0 [0] 1 10000) fun reply =>
    if reply.1 = false then next (some (false, []))
    else
      visitSubindices node index width (UInt8.ofNat (unsignedLittleEndian reply.2)) next fuel 1 []

/-- The mapping of one PDO after another. A mapping that cannot be read is passed over. -/
def visitPdos (fuel : Nat) (node : SlaveNode) (next : Option Bool → ActivityBody β) :
    List Nat → ActivityBody β
  | [] => next (some true)
  | pdoIndex :: rest =>
    visitObjectList fuel node (UInt16.ofNat pdoIndex) 4 fun entries =>
      match entries with
      | none => next none
      | some _ => visitPdos fuel node next rest

/-- One direction: its assigned PDOs, then their mappings. -/
def logPdoMapping (fuel : Nat) (node : SlaveNode) (assignIndex : UInt16)
    (next : Option Bool → ActivityBody β) : ActivityBody β :=
  visitObjectList fuel node assignIndex 2 fun pdoIndices =>
    match pdoIndices with
    | none => next none
    | some (false, _) => next (some false)
    | some (true, pdoIndices) => visitPdos fuel node next pdoIndices

/-- Both directions. The readers may go round for ever, so the passes of a loop are
bounded; a run of no more steps than that does not tell the difference. -/
def execute (fuel : Nat) (node : SlaveNode) : ActivityBody β :=
  logPdoMapping fuel node 0x1C12 fun received =>
  match received with
  | none => .finished false
  | some received =>
    logPdoMapping fuel node 0x1C13 fun transmitted =>
    .finished (received && transmitted.getD false)

/-- Listing what a slave exchanges. -/
def activity (fuel : Nat) (node : SlaveNode) : EcatActivity β where
  name := "PdoMapping"
  canStart := canRunMaintenanceActivity
  failurePolicy := .keepControllerState
  execute := execute fuel node

end PdoMappingActivity

namespace PdoMappingActivity

/-- Alone, the accesses of the loop are its passes. -/
theorem visitSubindices_finishes (node : SlaveNode) (index : UInt16) (width : Nat) (count : UInt8)
    (next : Option (Bool × List Nat) → ActivityBody β) (fuel : Nat) (i : UInt8) (values : List Nat)
    {m m' : EcMaster β} {ok : Bool}
    (rest : (next ((readSubindices node index width count fuel i values).result m)).Finishes
      ((readSubindices node index width count fuel i values).after m) ok m') :
    (visitSubindices node index width count next fuel i values).Finishes m ok m' := by
  induction fuel generalizing i values m with
  | zero => exact rest
  | succ fuel inductionHypothesis =>
    rw [readSubindices] at rest
    rw [visitSubindices]
    split at rest
    next inside =>
      rw [if_pos inside]
      apply ActivityBody.finishes_perform
      rw [Program.result_bind, Program.after_bind] at rest
      split at rest
      next failed =>
        simpa only [if_pos failed, Program.result_pure, Program.after_pure] using rest
      next answered =>
        simpa only [if_neg answered] using inductionHypothesis _ _ rest
    next outside =>
      rw [if_neg outside]
      exact rest

/-- Alone, the accesses are those of the reader whose lists are exact. -/
theorem visitObjectList_finishes (fuel : Nat) (node : SlaveNode) (index : UInt16) (width : Nat)
    (next : Option (Bool × List Nat) → ActivityBody β) {m m' : EcMaster β} {ok : Bool}
    (rest : (next ((readObjectList fuel node index width).result m)).Finishes
      ((readObjectList fuel node index width).after m) ok m') :
    (visitObjectList fuel node index width next).Finishes m ok m' := by
  apply ActivityBody.finishes_perform
  rw [readObjectList, Program.result_bind, Program.after_bind] at rest
  split at rest
  next failed =>
    simpa only [if_pos failed, Program.result_pure, Program.after_pure] using rest
  next answered =>
    simpa only [if_neg answered] using visitSubindices_finishes node index width _ next fuel 1 [] rest

end PdoMappingActivity

end Activities

/-! ## Scripts -/

/-- A call of SOEM, and the reply to it. -/
structure Exchange where
  call : SoemCall
  reply : SoemReply

/-- What the record keeps of an exchange. -/
def Exchange.event (exchange : Exchange) : Event := .soem exchange.call exchange.reply.result

namespace EcMaster

variable [Platform β]

/-- The bus master is where these calls lead, and each of them was replied to like this. -/
def Made (m m' : EcMaster β) : List Exchange → Prop
  | [] => m' = m
  | exchange :: rest =>
    (soem exchange.call).result m = exchange.reply ∧ Made ((soem exchange.call).after m) m' rest

/-- A call makes itself. -/
theorem made_soem (call : SoemCall) (m : EcMaster β) :
    Made m ((soem call).after m) [⟨call, (soem call).result m⟩] :=
  ⟨rfl, rfl⟩

/-- The calls of two programs follow one another. The induction is on those of the first. -/
theorem Made.trans {m m' m'' : EcMaster β} {first second : List Exchange}
    (earlier : Made m m' first) (later : Made m' m'' second) : Made m m'' (first ++ second) := by
  induction first generalizing m with
  | nil =>
    obtain rfl : m' = m := earlier
    exact later
  | cons exchange rest inductionHypothesis =>
    obtain ⟨replied, others⟩ := earlier
    exact ⟨replied, inductionHypothesis others⟩

/-- The record grows by what is made, call by call. -/
theorem Made.grows {m m' : EcMaster β} {exchanges : List Exchange} (made : Made m m' exchanges) :
    m'.trace = m.trace ++ exchanges.map Exchange.event := by
  induction exchanges generalizing m with
  | nil =>
    obtain rfl : m' = m := made
    exact (List.append_nil _).symm
  | cons exchange rest inductionHypothesis =>
    obtain ⟨replied, others⟩ := made
    have own : ((soem exchange.call).after m).trace = m.trace ++ [exchange.event] := by
      rw [Exchange.event, ← replied]
      rfl
    rw [inductionHypothesis others, own, List.map_cons, ← List.append_cons]

end EcMaster

open EcMaster (Made)

section Follows

variable [Platform β]

/-- Whatever is answered, the body makes requests that its script permits, and ends with
a result that it permits after them. -/
inductive ActivityBody.Follows : ActivityBody β → (Bool → List Exchange → Prop) → Prop
  | finished {ok : Bool} {script : Bool → List Exchange → Prop} (ends : script ok []) :
      Follows (.finished ok) script
  | access {act : EcMaster β → ActivityBody β × EcMaster β} {script : Bool → List Exchange → Prop}
      (exchange : EcMaster β → Exchange) (made : ∀ m, Made m (act m).2 [exchange m])
      (rest : ∀ m, Follows (act m).1 fun ok later => script ok (exchange m :: later)) :
      Follows (.access act) script

namespace ActivityBody

/-- A script can be exchanged for a more permissive one. -/
theorem Follows.mono {body : ActivityBody β}
    {script permissive : Bool → List Exchange → Prop} (follows : body.Follows script)
    (implies : ∀ ok exchanges, script ok exchanges → permissive ok exchanges) :
    body.Follows permissive := by
  induction follows generalizing permissive with
  | finished ends => exact .finished (implies _ _ ends)
  | access exchange made rest inductionHypothesis =>
    refine .access exchange made fun m => ?_
    exact inductionHypothesis m fun ok later => implies ok (exchange m :: later)

/-- What a body that has ended has made is permitted with its result. -/
theorem Follows.finishes {body : ActivityBody β} {script : Bool → List Exchange → Prop}
    (follows : body.Follows script) {m m' : EcMaster β} {ok : Bool}
    (finishes : body.Finishes m ok m') : ∃ exchanges, Made m m' exchanges ∧ script ok exchanges := by
  induction finishes generalizing script with
  | finished ok m =>
    cases follows with
    | finished ends => exact ⟨[], rfl, ends⟩
  | @access act m m' ok rest inductionHypothesis =>
    cases follows with
    | access exchange made later =>
      obtain ⟨exchanges, grown, permitted⟩ := inductionHypothesis (later m)
      exact ⟨exchange m :: exchanges, (made m).trans grown, permitted⟩
  | reenter rest => cases follows

/-- Some way into a body, it follows what is left of its script. -/
theorem Follows.reaches {whole rest : ActivityBody β} {script : Bool → List Exchange → Prop}
    (follows : whole.Follows script) {m now : EcMaster β} (reached : whole.Reaches m rest now) :
    ∃ exchanges, Made m now exchanges ∧ rest.Follows fun ok later => script ok (exchanges ++ later) := by
  induction reached with
  | begun => exact ⟨[], rfl, follows⟩
  | @access act now before inductionHypothesis =>
    obtain ⟨exchanges, grown, going⟩ := inductionHypothesis
    cases going with
    | access exchange made later =>
      refine ⟨exchanges ++ [exchange now], grown.trans (made now), (later now).mono ?_⟩
      intro ok more permitted
      rwa [List.append_assoc]
  | reenter before inductionHypothesis =>
    obtain ⟨exchanges, grown, going⟩ := inductionHypothesis
    cases going

/-- Every script can be played to some end. -/
theorem Follows.exists_end {body : ActivityBody β} {script : Bool → List Exchange → Prop}
    (follows : body.Follows script) (m : EcMaster β) : ∃ ok exchanges, script ok exchanges := by
  induction follows generalizing m with
  | finished ends => exact ⟨_, _, ends⟩
  | access exchange made rest inductionHypothesis =>
    obtain ⟨ok, later, permitted⟩ := inductionHypothesis m m
    exact ⟨ok, exchange m :: later, permitted⟩

end ActivityBody

end Follows

/-! ## The scripts of the diagnoses -/

/-- The activities that only look, with the slave that they look at. -/
inductive Diagnosis where
  | sdoDiagnostics (node : SlaveNode)
  | stateInspection (node : SlaveNode)
  | pdoMapping (fuel : Nat) (node : SlaveNode)

/-- The request for a value of the node's own slave. -/
def SlaveNode.upload (node : SlaveNode) (index : UInt16) (subindex : UInt8) (len : Nat) : SoemCall :=
  .sdoRead (UInt16.ofInt node.info.slaveId) index subindex false (narrowInt len) 10000

/-- The number that is read from a reply: its bytes, and zeros for those that are missing. -/
def SoemReply.stored (width : Nat) (reply : SoemReply) : Nat :=
  unsignedLittleEndian
    (reply.data.take width ++ (List.replicate width 0).drop reply.data.length)

namespace Diagnosis

/-- The requests for the values of an object, from one subindex on. They end behind the last
subindex or with a request that fails, and the flag says which; the numbers are what the
others were answered with. -/
inductive Subindices (node : SlaveNode) (index : UInt16) (width : Nat) (count : UInt8) :
    UInt8 → List Exchange → Bool × List Nat → Prop
  | ended {i : UInt8} (outside : ¬i ≤ count) : Subindices node index width count i [] (true, [])
  | failed {i : UInt8} {reply : SoemReply} (inside : i ≤ count) (failed : ¬0 < reply.result) :
      Subindices node index width count i [⟨node.upload index i width, reply⟩] (false, [])
  | read {i : UInt8} {reply : SoemReply} {exchanges : List Exchange} {ok : Bool}
      {values : List Nat} (inside : i ≤ count) (answered : 0 < reply.result)
      (rest : Subindices node index width count (i + 1) exchanges (ok, values)) :
      Subindices node index width count i (⟨node.upload index i width, reply⟩ :: exchanges)
        (ok, reply.stored width :: values)

/-- The requests that read a list from an object: how many values it has, then these, from
the first subindex on. -/
inductive ObjectList (node : SlaveNode) (index : UInt16) (width : Nat) :
    List Exchange → Bool × List Nat → Prop
  | uncounted {reply : SoemReply} (failed : ¬0 < reply.result) :
      ObjectList node index width [⟨node.upload index 0 1, reply⟩] (false, [])
  | counted {reply : SoemReply} (answered : 0 < reply.result) {exchanges : List Exchange}
      {read : Bool × List Nat}
      (rest : Subindices node index width (UInt8.ofNat (reply.stored 1)) 1 exchanges read) :
      ObjectList node index width (⟨node.upload index 0 1, reply⟩ :: exchanges) read

/-- The requests for the mappings of PDOs, one after another. One that cannot be read does not
keep the next ones from being asked for. -/
inductive Mappings (node : SlaveNode) : List Nat → List Exchange → Prop
  | nil : Mappings node [] []
  | cons {pdoIndex : Nat} {pdoIndices : List Nat} {first later : List Exchange}
      {read : Bool × List Nat} (own : ObjectList node (UInt16.ofNat pdoIndex) 4 first read)
      (rest : Mappings node pdoIndices later) :
      Mappings node (pdoIndex :: pdoIndices) (first ++ later)

/-- The requests for one direction: the assigned PDOs, and the mapping of each of them if the
assignment can be read. Only that decides on the result. -/
inductive Direction (node : SlaveNode) (assignIndex : UInt16) : List Exchange → Bool → Prop
  | unassigned {exchanges : List Exchange} {values : List Nat}
      (assignment : ObjectList node assignIndex 2 exchanges (false, values)) :
      Direction node assignIndex exchanges false
  | assigned {exchanges later : List Exchange} {pdoIndices : List Nat}
      (assignment : ObjectList node assignIndex 2 exchanges (true, pdoIndices))
      (mappings : Mappings node pdoIndices later) :
      Direction node assignIndex (exchanges ++ later) true

/-- The requests of a diagnosis that ends with this result, and what they were answered. -/
def Script : Diagnosis → Bool → List Exchange → Prop
  | sdoDiagnostics node => fun ok exchanges => ∃ typed vendor product revision : SoemReply,
      exchanges = [⟨node.upload 0x1000 0 4, typed⟩, ⟨node.upload 0x1018 1 4, vendor⟩,
        ⟨node.upload 0x1018 2 4, product⟩, ⟨node.upload 0x1018 3 4, revision⟩] ∧
      (ok = true ↔
        0 < typed.result ∧ 0 < vendor.result ∧ 0 < product.result ∧ 0 < revision.result)
  | stateInspection _ => fun ok exchanges =>
      (∃ state code : SoemReply, exchanges = [⟨.readState, state⟩, ⟨.readState, code⟩]) ∧
      ok = true
  | pdoMapping _ node => fun ok exchanges => ∃ rx tx received transmitted,
      Direction node 0x1C12 rx received ∧ Direction node 0x1C13 tx transmitted ∧
      exchanges = rx ++ tx ∧ ok = (received && transmitted)

/-- The passes of a loop to which the model of a diagnosis is bounded, if it is. -/
def passes : Diagnosis → Option Nat
  | pdoMapping fuel _ => some fuel
  | _ => none

/-- What a diagnosis makes of its script: all of it, or more requests than its loops may have
passes, where the script still goes on. -/
def Plays (diagnosis : Diagnosis) (ok : Bool) (exchanges : List Exchange) : Prop :=
  diagnosis.Script ok exchanges ∨
    (∃ fuel ∈ diagnosis.passes, fuel < exchanges.length) ∧
      ∃ more, ∃ ended, diagnosis.Script ended (exchanges ++ more)

variable [Platform β]

/-- The activity that a diagnosis is. -/
def activity : Diagnosis → EcatActivity β
  | sdoDiagnostics node => SdoDiagnosticsActivity.activity node
  | stateInspection node => StateInspectionActivity.activity node
  | pdoMapping fuel node => PdoMappingActivity.activity fuel node

/-- No failed diagnosis changes the state of the controller. -/
theorem failurePolicy_activity (diagnosis : Diagnosis) :
    (diagnosis.activity : EcatActivity β).failurePolicy = .keepControllerState := by
  cases diagnosis <;> rfl

/-- Only Maintenance lets a diagnosis start. -/
theorem canStart_activity (diagnosis : Diagnosis) :
    (diagnosis.activity : EcatActivity β).canStart = canRunMaintenanceActivity := by
  cases diagnosis <;> rfl

open ActivityBody (Follows)

/-- A value of the node's slave, and what follows it. -/
theorem follows_upload (node : SlaveNode) (index : UInt16) (subindex : UInt8) (data : List UInt8)
    (len : Nat) {next : Bool × List UInt8 → ActivityBody β} {script : Bool → List Exchange → Prop}
    (rest : ∀ reply : SoemReply,
      (next (decide (0 < reply.result),
        reply.data.take data.length ++ data.drop reply.data.length)).Follows
        fun ok later => script ok (⟨node.upload index subindex len, reply⟩ :: later)) :
    (ActivityBody.perform (node.sdoRead index subindex data len 10000) next).Follows script :=
  .access (fun m => ⟨_, (EcMaster.soem (node.upload index subindex len)).result m⟩)
    (EcMaster.made_soem _) fun _ => rest _

/-- A reading of all states, and what follows it. -/
theorem follows_readState {α : Type} {p : Program (EcMaster β) α}
    {next : α → ActivityBody β} {script : Bool → List Exchange → Prop}
    (reads : ∀ m, p.after m = (EcMaster.soem .readState).after m)
    (rest : ∀ (reply : SoemReply) (value : α), (next value).Follows
      fun ok later => script ok (⟨.readState, reply⟩ :: later)) :
    (ActivityBody.perform p next).Follows script := by
  refine .access (fun m => ⟨_, (EcMaster.soem .readState).result m⟩) ?_ fun _ => rest _ _
  intro m
  rw [reads m]
  exact EcMaster.made_soem _ m

section PdoMapping

open PdoMappingActivity

variable (node : SlaveNode)

/-- A reply that says nothing is a failure. -/
theorem unanswered : ¬0 < ({} : SoemReply).result := by decide

/-- From any subindex on, the requests can come to an end. -/
theorem exists_subindices (index : UInt16) (width : Nat) (count i : UInt8) :
    ∃ more read, Subindices node index width count i more read := by
  by_cases inside : i ≤ count
  · exact ⟨_, _, .failed inside unanswered⟩
  · exact ⟨_, _, .ended inside⟩

/-- The requests for any PDOs can come to an end. -/
theorem exists_mappings (pdoIndices : List Nat) : ∃ more, Mappings node pdoIndices more := by
  induction pdoIndices with
  | nil => exact ⟨_, .nil⟩
  | cons pdoIndex pdoIndices inductionHypothesis =>
    obtain ⟨more, rest⟩ := inductionHypothesis
    exact ⟨_, .cons (.uncounted unanswered) rest⟩

/-- The requests for a direction can come to an end. -/
theorem exists_direction (assignIndex : UInt16) : ∃ more ok, Direction node assignIndex more ok :=
  ⟨_, _, .unassigned (.uncounted unanswered)⟩

variable {script : Bool → List Exchange → Prop}

/-- The loop over the subindices makes their requests, or as many of them as it may have
passes. The induction is on these. -/
theorem follows_visitSubindices (index : UInt16) (width : Nat) (count : UInt8)
    {next : Option (Bool × List Nat) → ActivityBody β} (fuel : Nat) (i : UInt8)
    (before : List Nat)
    (listed : ∀ exchanges ok values, Subindices node index width count i exchanges (ok, values) →
      (next (some (ok, before ++ values))).Follows fun ok later => script ok (exchanges ++ later))
    (broken : ∀ exchanges, fuel ≤ exchanges.length →
      (∃ more read, Subindices node index width count i (exchanges ++ more) read) →
      (next none).Follows fun ok later => script ok (exchanges ++ later)) :
    (visitSubindices node index width count next fuel i before).Follows script := by
  induction fuel generalizing i before script with
  | zero => exact broken [] (Nat.le_refl 0) (exists_subindices node index _ count i)
  | succ fuel inductionHypothesis =>
    rw [visitSubindices]
    by_cases inside : i ≤ count
    · rw [if_pos inside]
      apply follows_upload
      intro reply
      rw [List.length_replicate]
      by_cases answered : 0 < reply.result
      · rw [if_neg (by simpa using answered)]
        apply inductionHypothesis
        · intro exchanges ok values rest
          rw [List.append_assoc]
          exact listed _ ok _ (.read inside answered rest)
        · rintro exchanges long ⟨more, ⟨ok, values⟩, rest⟩
          exact broken (_ :: exchanges) (Nat.succ_le_succ long)
            ⟨more, _, .read inside answered rest⟩
      · rw [if_pos (by simpa using answered)]
        have last := listed _ _ _ (.failed inside answered)
        rw [List.append_nil] at last
        exact last
    · rw [if_neg inside]
      simpa only [List.append_nil, List.nil_append] using listed [] true [] (.ended inside)

/-- Reading a list makes the requests of one. -/
theorem follows_visitObjectList (fuel : Nat) (index : UInt16) (width : Nat)
    {next : Option (Bool × List Nat) → ActivityBody β}
    (listed : ∀ exchanges ok values, ObjectList node index width exchanges (ok, values) →
      (next (some (ok, values))).Follows fun ok later => script ok (exchanges ++ later))
    (broken : ∀ exchanges, fuel < exchanges.length →
      (∃ more read, ObjectList node index width (exchanges ++ more) read) →
      (next none).Follows fun ok later => script ok (exchanges ++ later)) :
    (visitObjectList fuel node index width next).Follows script := by
  apply follows_upload
  intro reply
  by_cases answered : 0 < reply.result
  · rw [if_neg (by simpa using answered)]
    apply follows_visitSubindices
    · intro exchanges ok values rest
      exact listed _ ok values (.counted answered rest)
    · rintro exchanges long ⟨more, read, rest⟩
      exact broken (_ :: exchanges) (Nat.lt_succ_of_le long) ⟨more, read, .counted answered rest⟩
  · rw [if_pos (by simpa using answered)]
    exact listed _ _ _ (.uncounted answered)

/-- The mappings are asked for one after another. The induction is on the PDOs; one whose list
goes on for ever is completed by some end for it and for those behind it. -/
theorem follows_visitPdos (fuel : Nat) {next : Option Bool → ActivityBody β}
    (pdoIndices : List Nat)
    (done : ∀ exchanges, Mappings node pdoIndices exchanges →
      (next (some true)).Follows fun ok later => script ok (exchanges ++ later))
    (broken : ∀ exchanges, fuel < exchanges.length → (∃ more, Mappings node pdoIndices (exchanges ++ more)) →
      (next none).Follows fun ok later => script ok (exchanges ++ later)) :
    (visitPdos fuel node next pdoIndices).Follows script := by
  induction pdoIndices generalizing script with
  | nil => exact done [] .nil
  | cons pdoIndex pdoIndices inductionHypothesis =>
    apply follows_visitObjectList
    · intro first ok values own
      apply inductionHypothesis
      · intro exchanges rest
        simpa only [List.append_assoc] using done _ (.cons own rest)
      · rintro exchanges long ⟨more, rest⟩
        have whole := broken (first ++ exchanges) (by rw [List.length_append]; omega)
          ⟨more, by rw [List.append_assoc]; exact .cons own rest⟩
        simpa only [List.append_assoc] using whole
    · rintro exchanges long ⟨more, read, own⟩
      obtain ⟨later, rest⟩ := exists_mappings node pdoIndices
      exact broken exchanges long ⟨more ++ later, by rw [← List.append_assoc]; exact .cons own rest⟩

/-- A direction is asked for as its script says. -/
theorem follows_logPdoMapping (fuel : Nat) (assignIndex : UInt16)
    {next : Option Bool → ActivityBody β}
    (done : ∀ exchanges ok, Direction node assignIndex exchanges ok →
      (next (some ok)).Follows fun ok later => script ok (exchanges ++ later))
    (broken : ∀ exchanges, fuel < exchanges.length →
      (∃ more ok, Direction node assignIndex (exchanges ++ more) ok) →
      (next none).Follows fun ok later => script ok (exchanges ++ later)) :
    (logPdoMapping fuel node assignIndex next).Follows script := by
  apply follows_visitObjectList
  · intro first ok pdoIndices assignment
    cases ok with
    | false => exact done first false (.unassigned assignment)
    | true =>
      apply follows_visitPdos
      · intro exchanges mappings
        simpa only [List.append_assoc] using done _ true (.assigned assignment mappings)
      · rintro exchanges long ⟨more, mappings⟩
        have whole := broken (first ++ exchanges) (by rw [List.length_append]; omega)
          ⟨more, true, by rw [List.append_assoc]; exact .assigned assignment mappings⟩
        simpa only [List.append_assoc] using whole
  · rintro exchanges long ⟨more, ⟨ok, values⟩, assignment⟩
    cases ok with
    | false => exact broken exchanges long ⟨more, false, .unassigned assignment⟩
    | true =>
      obtain ⟨later, mappings⟩ := exists_mappings node values
      exact broken exchanges long
        ⟨more ++ later, true, by rw [← List.append_assoc]; exact .assigned assignment mappings⟩

end PdoMapping

/-- The diagnosis of a slave's service data makes the calls of its script. -/
theorem follows_sdoDiagnostics (node : SlaveNode) :
    (SdoDiagnosticsActivity.execute node : ActivityBody β).Follows (sdoDiagnostics node).Script := by
  unfold SdoDiagnosticsActivity.execute SdoDiagnosticsActivity.readDeviceType
    SdoDiagnosticsActivity.readIdentity
  apply follows_upload
  intro typed
  apply follows_upload
  intro vendor
  apply follows_upload
  intro product
  apply follows_upload
  intro revision
  refine .finished ⟨typed, vendor, product, revision, rfl, ?_⟩
  simp only [Bool.and_eq_true, decide_eq_true_eq, and_assoc]

/-- The inspection of a slave's state makes the calls of its script. -/
theorem follows_stateInspection (node : SlaveNode) :
    (StateInspectionActivity.execute node : ActivityBody β).Follows (stateInspection node).Script := by
  unfold StateInspectionActivity.execute
  apply follows_readState
  · exact fun _ => rfl
  · intro state _
    apply follows_readState
    · exact fun _ => rfl
    · intro code _
      exact .finished ⟨⟨state, code, rfl⟩, rfl⟩

/-- Both directions are asked for, whatever comes of the first one. -/
theorem follows_pdoMapping (fuel : Nat) (node : SlaveNode) :
    (PdoMappingActivity.execute fuel node : ActivityBody β).Follows
      (pdoMapping fuel node).Plays := by
  unfold PdoMappingActivity.execute
  apply follows_logPdoMapping
  · intro rx received first
    apply follows_logPdoMapping
    · intro tx transmitted second
      refine .finished (.inl ⟨rx, tx, received, transmitted, first, second, ?_, rfl⟩)
      rw [List.append_nil]
    · rintro exchanges long ⟨more, transmitted, second⟩
      refine .finished (.inr ⟨⟨fuel, rfl, ?_⟩, more, _, rx, _, received, transmitted, first, second,
        ?_, rfl⟩)
      · simp only [List.length_append]
        omega
      · simp only [List.append_nil, List.append_assoc]
  · rintro exchanges long ⟨more, received, first⟩
    obtain ⟨later, transmitted, second⟩ := exists_direction node 0x1C13
    refine .finished (.inr ⟨⟨fuel, rfl, ?_⟩, more ++ later, _, _, later, received, transmitted, first,
      second, ?_, rfl⟩)
    · rwa [List.append_nil]
    · rw [List.append_nil, List.append_assoc]

/-- Every diagnosis plays its script, whatever the bus answers. -/
theorem follows_activity (diagnosis : Diagnosis) :
    (diagnosis.activity : EcatActivity β).execute.Follows diagnosis.Plays := by
  cases diagnosis with
  | sdoDiagnostics node => exact (follows_sdoDiagnostics node).mono fun _ _ => .inl
  | stateInspection node => exact (follows_stateInspection node).mono fun _ _ => .inl
  | pdoMapping fuel node => exact follows_pdoMapping fuel node

/-- What is played is the beginning of a script. -/
theorem Plays.begins {diagnosis : Diagnosis} {ok : Bool} {exchanges : List Exchange}
    (plays : diagnosis.Plays ok exchanges) :
    ∃ more, ∃ ended, diagnosis.Script ended (exchanges ++ more) := by
  rcases plays with whole | ⟨-, begun⟩
  · exact ⟨[], ok, by rwa [List.append_nil]⟩
  · exact begun

/-- What is played in no more requests than the loops may have passes is the whole script. -/
theorem Plays.whole {diagnosis : Diagnosis} {ok : Bool} {exchanges : List Exchange}
    (plays : diagnosis.Plays ok exchanges) (short : ∀ fuel ∈ diagnosis.passes, exchanges.length ≤ fuel) :
    diagnosis.Script ok exchanges := by
  rcases plays with whole | ⟨⟨fuel, bounded, long⟩, -⟩
  · exact whole
  · exact absurd (short fuel bounded) (Nat.not_le.mpr long)

end Diagnosis

/-! ## Runs of diagnoses -/

namespace ActivityScheduler

variable [DecidableEq ι] [Platform β]

/-- A thread calls for a diagnosis, or for nothing, or takes a step. The loops of a diagnosis may
have as many passes as the run has steps, so that none of them is ever broken off. -/
inductive Diagnoses (steps : Nat) : SchedulerAction ι β → Prop
  | execute (thread : ι) (diagnosis : Diagnosis) (long : ∀ fuel ∈ diagnosis.passes, steps ≤ fuel) :
      Diagnoses steps (.execute thread (some diagnosis.activity))
  | null (thread : ι) : Diagnoses steps (.execute thread none)
  | step (thread : ι) : Diagnoses steps (.step thread)

/-- An activity that is such a diagnosis. -/
def IsDiagnosis (steps : Nat) (activity : EcatActivity β) : Prop :=
  ∃ diagnosis : Diagnosis, (∀ fuel ∈ diagnosis.passes, steps ≤ fuel) ∧
    activity = diagnosis.activity

/-- What the diagnosis in progress has played of its script, if there is one. -/
def Playing (s : ActivityScheduler ι β) (current : List Exchange) : Prop :=
  current = [] ∨ ∃ thread, ∃ call ∈ s.calls thread, call.isExecuting = true ∧
    ∃ diagnosis : Diagnosis, call.activity = diagnosis.activity ∧
      ∃ ok more, diagnosis.Script ok (current ++ more)

section

variable {provider : Option (Impl β → MasterRuntimeState)} {i : Impl β}
  {actions : List (SchedulerAction ι β)} {steps : Nat}

omit [DecidableEq ι] in
/-- The activities of such a run are diagnoses. -/
theorem given_of_diagnoses (only : ∀ action ∈ actions, Diagnoses steps action) (thread : ι)
    (activity : EcatActivity β) (member : .execute thread (some activity) ∈ actions) :
    IsDiagnosis steps activity := by
  generalize same : SchedulerAction.execute thread (some activity) = action at member
  cases only action member with
  | execute _ diagnosis long =>
    cases same
    exact ⟨diagnosis, long, rfl⟩
  | null _ => cases same
  | step _ => cases same

/-- The end of a diagnosis does nothing to the master. -/
theorem reaction_diagnosis (i : Impl β) (ok : Bool) (diagnosis : Diagnosis) :
    (Impl.handle (.activity ok (diagnosis.activity : EcatActivity β).failurePolicy)).after i = i := by
  rw [diagnosis.failurePolicy_activity]
  cases ok <;> rfl

/-- Nothing disturbs a diagnosis but its own steps. -/
theorem undisturbed_of_diagnoses (only : ∀ action ∈ actions, Diagnoses steps action) :
    ∀ entry ∈ Runs.history (happen provider) { master := i } actions, Undisturbed entry := by
  intro entry member outside taken
  obtain ⟨past, action, rest, rfl, rfl⟩ :=
    Runs.turn_of_mem_history_split (happen provider) _ member
  have possible := only action (List.mem_append_right _ List.mem_cons_self)
  have shape := shape_final provider i fun thread activity member =>
    given_of_diagnoses only thread activity (List.mem_append_left _ member)
  cases possible with
  | execute thread diagnosis long => cases outside
  | null thread => cases outside
  | step thread =>
    replace shape := shape thread
    generalize Runs.final (happen provider) { master := i } past = s at *
    cases inside : s.calls thread with
    | nil => simp [fromOutside, stepping, Runs.turn, inside] at outside
    | cons call below =>
      have reacts : call.reacts = true := by
        simpa [fromOutside, stepping, Runs.turn, inside] using outside
      rw [inside] at shape
      cases shape with
      | nested => cases reacts
      | single _ present =>
        obtain ⟨activity, phase⟩ := call
        cases phase with
        | released ok =>
          obtain ⟨diagnosis, -, rfl⟩ := present
          change ((happen provider (.step thread)).after s).master = s.master
          rw [happen_inside inside, advance_released, reaction_diagnosis]
        | _ => cases reacts

/-- A sequence of whole diagnoses plays their scripts one after another. -/
theorem made_of_path {past : List (WholeAction β × Impl β)} {j : Impl β}
    (path : Runs.Path (Whole provider (IsDiagnosis steps) (fun _ => False)) i past j) :
    ∃ (done : List (Diagnosis × Bool)) (blocks : List (List Exchange)),
      past.filterMap (fun taken => taken.1.execution) =
        done.map (fun entry => (entry.1.activity, entry.2)) ∧
      List.Forall₂ (fun entry block => entry.1.Plays entry.2 block ∧
        ∀ fuel ∈ entry.1.passes, steps ≤ fuel) done blocks ∧
      j = i.withMaster j.controller.master ∧
      Made i.controller.master j.controller.master blocks.flatten := by
  induction path with
  | start => exact ⟨[], [], rfl, .nil, rfl, rfl⟩
  | extend path last inductionHypothesis =>
    obtain ⟨done, blocks, executed, played, same, made⟩ := inductionHypothesis
    cases last with
    | @body _ ok m present starts finishes =>
      obtain ⟨diagnosis, long, rfl⟩ := present
      obtain ⟨exchanges, more, permitted⟩ := diagnosis.follows_activity.finishes finishes
      refine ⟨done ++ [(diagnosis, ok)], blocks ++ [exchanges], ?_, ?_, ?_, ?_⟩
      · rw [List.filterMap_append, executed, List.map_append]
        rfl
      · exact List.rel_append played (.cons ⟨permitted, long⟩ .nil)
      · rw [same]
        rfl
      · rw [List.flatten_append, List.flatten_singleton]
        exact made.trans more
    | reaction ok present =>
      obtain ⟨diagnosis, -, rfl⟩ := present
      refine ⟨done, blocks, ?_, played, ?_, ?_⟩
      · rw [List.filterMap_append, executed]
        exact List.append_nil _
      · rw [reaction_diagnosis]
        exact same
      · rw [reaction_diagnosis]
        exact made
    | other possible => cases possible

variable (provider) in
/-- A step of a call leaves the master alone, or is an access of its body or its reaction. -/
theorem advance_master (s : ActivityScheduler ι β) (thread : ι) (call : ExecuteCall β)
    (below : List (ExecuteCall β)) :
    ((advance provider thread call below).after s).master = s.master ∨
      (∃ act, call.phase = .executing (.access act) ∧
        ((advance provider thread call below).after s).master =
          s.master.withMaster (act s.master.controller.master).2) ∨
      ∃ ok, call.phase = .released ok ∧ ((advance provider thread call below).after s).master =
        (Impl.handle (.activity ok call.activity.failurePolicy)).after s.master := by
  obtain ⟨activity, phase⟩ := call
  cases phase with
  | called =>
    by_cases taken : s.running = true
    · rw [advance_called_refused taken]
      exact .inl rfl
    · rw [advance_called_exchanged (Bool.eq_false_iff.mpr taken)]
      exact .inl rfl
  | exchanged =>
    rw [advance_exchanged]
    exact .inl rfl
  | rejected => exact .inl rfl
  | permitted => exact .inl rfl
  | finished ok => exact .inl rfl
  | released ok => exact .inr (.inr ⟨ok, rfl, rfl⟩)
  | executing body =>
    cases body with
    | finished ok => exact .inl rfl
    | access act => exact .inr (.inl ⟨act, rfl, rfl⟩)
    | reenter nested next =>
      cases nested with
      | none => exact .inl rfl
      | some nested => exact .inl rfl

/-- The requests that have been made. -/
def requests (s : ActivityScheduler ι β) : List Event := s.master.controller.master.trace

/-- One thing that happens makes at most one request. Only an access of a body makes one, and
the body plays a script, by which an access makes exactly one. -/
theorem requests_happen {s : ActivityScheduler ι β} {j : Impl β}
    (shape : ∀ thread, Shape (IsDiagnosis steps) (s.calls thread))
    (progress : InProgress provider j s) {action : SchedulerAction ι β}
    (only : Diagnoses steps action) :
    (requests ((happen provider action).after s)).length ≤ (requests s).length + 1 := by
  have still {t : ActivityScheduler ι β} (same : t.master = s.master) :
      (requests t).length ≤ (requests s).length + 1 := by
    rw [requests, same]
    exact Nat.le_succ _
  cases only with
  | execute thread diagnosis long =>
    rcases happen_execute provider s thread (some diagnosis.activity) with same | ⟨_, -, -, same⟩
    · exact still (by rw [same])
    · exact still (by rw [same]; rfl)
  | null thread =>
    rcases happen_execute provider s thread none with same | ⟨_, absurd, -, -⟩
    · exact still (by rw [same])
    · cases absurd
  | step thread =>
    cases inside : s.calls thread with
    | nil => exact still (by rw [happen_idle inside])
    | cons call below =>
      have member : call ∈ s.calls thread := inside ▸ List.mem_cons_self
      rw [happen_inside inside]
      rcases advance_master provider s thread call below with
        same | ⟨act, phase, same⟩ | ⟨ok, phase, same⟩
      · exact still same
      · obtain ⟨diagnosis, -, given⟩ := (shape thread).given_of_holds member
          (by rw [ExecuteCall.holds, phase])
        have pending := progress.2 thread call member
        simp only [Pending, phase] at pending
        obtain ⟨-, m, reached, now⟩ := pending
        rw [given] at reached
        obtain ⟨_, -, going⟩ := diagnosis.follows_activity.reaches reached
        cases going with
        | access exchange made rest =>
          have grows := (made s.master.controller.master).grows
          rw [requests, same, Impl.withMaster_master, grows, List.length_append]
          exact Nat.le_refl _
      · have given : IsDiagnosis steps call.activity := by
          have shape := shape thread
          rw [inside] at shape
          cases shape with
          | single _ present => exact present
          | nested activity next present => cases phase
        obtain ⟨diagnosis, -, given⟩ := given
        rw [given, reaction_diagnosis] at same
        exact still same

/-- A run makes at most as many requests as it has steps. -/
theorem requests_final (only : ∀ action ∈ actions, Diagnoses steps action) :
    (requests (Runs.final (happen provider) { master := i } actions)).length ≤
      i.controller.master.trace.length + actions.length := by
  induction actions using List.reverseRecOn with
  | nil => exact Nat.le_refl _
  | append_singleton actions action inductionHypothesis =>
    have before : ∀ action ∈ actions, Diagnoses steps action :=
      fun action member => only action (List.mem_append_left _ member)
    have impossible : ∀ change, .interfere change ∈ actions → False := by
      intro change member
      cases before _ member
    obtain ⟨-, past, j, -, -, progress⟩ := activities_serial provider i actions
      (given_of_diagnoses before) impossible (undisturbed_of_diagnoses before)
    have one := requests_happen (shape_final provider i (given_of_diagnoses before)) progress
      (only action (List.mem_append_right _ (List.mem_singleton_self _)))
    have earlier := inductionHypothesis before
    rw [Runs.final_concat, List.length_append, List.length_singleton]
    omega

end

/-- A diagnosis on one thread, while another thread is refused its inspection and asks
again. -/
def inspections : List (SchedulerAction Nat Bench) :=
  let node : SlaveNode := { info := { slaveId := 1 } }
  [.execute 0 (some (Diagnosis.sdoDiagnostics node).activity),
    .execute 1 (some (Diagnosis.stateInspection node).activity), .step 0, .step 0, .step 1, .step 0,
    .step 0, .step 0, .step 0, .execute 1 (some (Diagnosis.pdoMapping 20 node).activity), .step 0,
    .step 0, .step 0, .step 1, .step 1, .step 1, .step 1]

end ActivityScheduler

end MoEcat
