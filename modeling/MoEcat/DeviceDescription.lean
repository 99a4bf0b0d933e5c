import MoEcat.SiiImage

/-!
# What a document says of a device

The generator looks up devices, modules, texts and numbers by functions of its own. What it
writes is compared with the document itself: which device has two numbers, which modules its
slots hold by default and where, which text or number an element gives, and which value stands
for a function that it names. None of this refers to the generator, and each of its functions
is then shown to return what the document says.
-/

namespace MoEcat

/-! ## Texts and functions -/

/-- A text, or another one where the first is missing or empty. -/
def givenText (first second : Option String) : Option String :=
  if first.getD "" = "" then second else first

/-- The generator's choice between two texts is the one above. -/
theorem orText_eq (first second : Option String) :
    orText first second = givenText first second := by
  cases first with
  | none => rfl
  | some text => rfl

/-- The text that a device goes by: its name, or its type where it has none. -/
def deviceName (dev : Element) : Option String :=
  givenText (dev.findtext ["Name"]) ((dev.find ["Type"]).bind Element.text)

/-- A name that the generator shows for a device is that of the document. -/
theorem nameText_eq (dev : Element) : nameText dev = deviceName dev :=
  orText_eq _ _

/-- A number that an element gives as an attribute or, failing that, as a child. -/
def GivesNumber (element : Element) (name : String) (value : Int) : Prop :=
  parseInt (givenText (element.get name) (element.findtext [name])) = .ok value

/-- The generator reads such a number, or fails where there is none. -/
theorem attributeOrChild_eq_ok {element : Element} {name : String} {value : Int} :
    attributeOrChild element name = .ok value ↔ GivesNumber element name value := by
  rw [attributeOrChild, orText_eq, GivesNumber]

/-- The index of a PDO or an entry. It depends on the slot where the document says so, and is
then moved by what the slot adds. -/
def GivesIndex (element : Element) (offset value : Int) : Prop :=
  ∃ given, GivesNumber element "Index" given ∧
    value = given + if (element.find ["Index"]).bind (fun child => child.get "DependOnSlot") =
      some "true" then offset else 0

/-- The generator moves the indices that depend on the slot and no others. -/
theorem adjustedIndex_gives {element : Element} {offset value : Int}
    (adjusted : adjustedIndex element "Index" offset = .ok value) :
    GivesIndex element offset value := by
  unfold adjustedIndex at adjusted
  obtain ⟨given, hasNumber, adjusted⟩ := Py.bind_eq_ok.mp adjusted
  rw [orText_eq] at hasNumber
  refine ⟨given, hasNumber, ?_⟩
  obtain rfl := Except.ok.inj adjusted
  by_cases moves : (element.find ["Index"]).bind (fun child => child.get "DependOnSlot") =
      some "true"
  · simp [moves]
  · simp [moves]

/-- The size of a sync manager is its default one, or its smallest one where none is given. -/
def GivesSize (sm : Element) (size : Int) : Prop :=
  parseInt (givenText (sm.get "DefaultSize") (sm.get "MinSize")) = .ok size

/-- The generator reads this size. -/
theorem smSize_eq_ok {sm : Element} {size : Int} : smSize sm = .ok size ↔ GivesSize sm size := by
  rw [smSize, orText_eq, GivesSize]

/-- The value that an image has for the function of a sync manager. -/
def syncManagerFunction : String → UInt8
  | "MBoxOut" => 1
  | "MBoxIn" => 2
  | "Outputs" => 3
  | "Inputs" => 4
  | _ => 0

/-- The value that an image has for the function of an FMMU. -/
def fmmuFunction : String → UInt8
  | "Outputs" => 1
  | "Inputs" => 2
  | "MBoxState" => 3
  | _ => 0xFF

/-- The generator's table of sync managers has these values. -/
theorem smType_eq (name : String) : smType name = syncManagerFunction name := by
  unfold smType syncManagerFunction
  split
  · rfl
  · rfl
  · rfl
  · rfl
  · next out input outputs inputs =>
    have absent (known : String) (other : name ≠ known) : (name == known) = false :=
      beq_eq_false_iff_ne.mpr other
    simp only [List.lookup_cons, absent _ out, absent _ input, absent _ outputs, absent _ inputs,
      List.lookup_nil, Option.getD_none]

/-- The generator's table of FMMUs has these values. -/
theorem fmmuValue_eq (name : Option String) : fmmuValue name = fmmuFunction (name.getD "") := by
  unfold fmmuValue fmmuFunction
  split
  · next same => rw [same]; rfl
  · next same => rw [same]; rfl
  · next same => rw [same]; rfl
  · next outputs inputs state =>
    have absent (known : String) (other : name.getD "" ≠ known) :
        (name.getD "" == known) = false :=
      beq_eq_false_iff_ne.mpr other
    simp only [List.lookup_cons, absent _ outputs, absent _ inputs, absent _ state,
      List.lookup_nil, Option.getD_none]

/-! ## Devices -/

/-- The type of a device has this product code and this revision. -/
def HasNumbers (productCode revisionNo : Int) (dev : Element) : Prop :=
  ∃ typ, dev.find ["Type"] = some typ ∧ parseInt (typ.get "ProductCode") = .ok productCode ∧
    parseInt (typ.get "RevisionNo") = .ok revisionNo

/-- The first device of the document with these numbers. -/
def FirstDevice (root : Element) (productCode revisionNo : Int) (dev : Element) : Prop :=
  ∃ before after, root.findall ["Descriptions", "Devices", "Device"] = before ++ dev :: after ∧
    HasNumbers productCode revisionNo dev ∧
    ∀ earlier ∈ before, ¬ HasNumbers productCode revisionNo earlier

/-- The generator's search stops at the first such device of a list. The induction is on the
list; a device that is passed over has no type or another number. -/
theorem findDeviceIn_first {productCode revisionNo : Int} {devices : List Element}
    {dev : Element} (found : findDeviceIn productCode revisionNo devices = .ok dev) :
    ∃ before after, devices = before ++ dev :: after ∧ HasNumbers productCode revisionNo dev ∧
      ∀ earlier ∈ before, ¬ HasNumbers productCode revisionNo earlier := by
  induction devices with
  | nil => cases found
  | cons first rest inductionHypothesis =>
    have later (passed : ¬ HasNumbers productCode revisionNo first)
        (found : findDeviceIn productCode revisionNo rest = .ok dev) :
        ∃ before after, first :: rest = before ++ dev :: after ∧
          HasNumbers productCode revisionNo dev ∧
          ∀ earlier ∈ before, ¬ HasNumbers productCode revisionNo earlier := by
      obtain ⟨before, after, rfl, numbers, others⟩ := inductionHypothesis found
      exact ⟨first :: before, after, rfl, numbers, List.forall_mem_cons.mpr ⟨passed, others⟩⟩
    rw [findDeviceIn] at found
    split at found
    · next untyped =>
      refine later ?_ found
      rintro ⟨typ, typed, -⟩
      rw [untyped] at typed
      cases typed
    · next typ typed =>
      obtain ⟨code, hasCode, found⟩ := Py.bind_eq_ok.mp found
      split at found
      · next sameCode =>
        obtain ⟨revision, hasRevision, found⟩ := Py.bind_eq_ok.mp found
        split at found
        · next sameRevision =>
          obtain rfl := Except.ok.inj found
          exact ⟨[], rest, rfl, ⟨typ, typed, sameCode ▸ hasCode, sameRevision ▸ hasRevision⟩,
            by simp⟩
        · next otherRevision =>
          refine later ?_ found
          rintro ⟨typ', typed', -, revision'⟩
          obtain rfl := Option.some.inj (typed.symm.trans typed')
          exact otherRevision (Except.ok.inj (hasRevision.symm.trans revision'))
      · next otherCode =>
        refine later ?_ found
        rintro ⟨typ', typed', code', -⟩
        obtain rfl := Option.some.inj (typed.symm.trans typed')
        exact otherCode (Except.ok.inj (hasCode.symm.trans code'))

/-- The device that the generator finds is the first one with its numbers. -/
theorem findDevice_first {root dev : Element} {productCode revisionNo : Int}
    (found : findDevice root productCode revisionNo = .ok dev) :
    FirstDevice root productCode revisionNo dev :=
  findDeviceIn_first found

/-- In a document of one device no other one is found. -/
theorem FirstDevice.only {root dev device : Element} {productCode revisionNo : Int}
    (first : FirstDevice root productCode revisionNo dev)
    (alone : root.findall ["Descriptions", "Devices", "Device"] = [device]) : dev = device := by
  obtain ⟨before, after, listed, -⟩ := first
  rw [alone] at listed
  have member : dev ∈ [device] := by
    rw [listed]
    simp
  exact List.mem_singleton.mp member

/-! ## Default modules -/

/-- The type of a module identifies it by this number. -/
def Identified (ident : Int) (module : Element) : Prop :=
  ∃ typ text, module.find ["Type"] = some typ ∧ typ.get "ModuleIdent" = some text ∧ text ≠ "" ∧
    parseInt (some text) = .ok ident

/-- The last one of these modules that is identified by this number. -/
def LastModule (modules : List Element) (ident : Int) (module : Element) : Prop :=
  ∃ before after, modules = before ++ module :: after ∧ Identified ident module ∧
    ∀ later ∈ after, ¬ Identified ident later

/-- A slot names the module of this number as its default one. -/
def DefaultOf (slot : Element) (ident : Int) : Prop :=
  ∃ named, slot.find ["ModuleIdent"] = some named ∧ named.get "Default" = some "1" ∧
    parseInt named.text = .ok ident

/-- The modules that slots hold by default, from a position on. What a slot adds to the indices
of its module grows with its position, whether the slots before it hold a module or not. -/
inductive SlotModules (modules : List Element) (indexIncrement pdoIncrement : Int) :
    Nat → List Element → List PdoSource → Prop
  | nil {position : Nat} : SlotModules modules indexIncrement pdoIncrement position [] []
  | holds {position : Nat} {slot module : Element} {ident : Int} {slots : List Element}
      {sources : List PdoSource} : DefaultOf slot ident → LastModule modules ident module →
      SlotModules modules indexIncrement pdoIncrement (position + 1) slots sources →
      SlotModules modules indexIncrement pdoIncrement position (slot :: slots)
        (⟨module, position * indexIncrement, position * pdoIncrement⟩ :: sources)
  | vacant {position : Nat} {slot : Element} {slots : List Element} {sources : List PdoSource} :
      (∀ ident module, DefaultOf slot ident → ¬ LastModule modules ident module) →
      SlotModules modules indexIncrement pdoIncrement (position + 1) slots sources →
      SlotModules modules indexIncrement pdoIncrement position (slot :: slots) sources

/-- The modules that a device has by default: none without slots, and else those of its slots
in order, taken from the modules of the document. -/
def DefaultModules (root dev : Element) (sources : List PdoSource) : Prop :=
  (dev.find ["Slots"] = none ∧ sources = []) ∨
    ∃ slots indexIncrement pdoIncrement, dev.find ["Slots"] = some slots ∧
      parseInt (slots.get "SlotIndexIncrement") = .ok indexIncrement ∧
      parseInt (slots.get "SlotPdoIncrement") = .ok pdoIncrement ∧
      SlotModules (root.findall ["Descriptions", "Modules", "Module"]) indexIncrement
        pdoIncrement 0 (slots.findall ["Slot"]) sources

/-- A device without slots has no modules. -/
theorem DefaultModules.slotless {root dev : Element} {sources : List PdoSource}
    (modules : DefaultModules root dev sources) (none : dev.find ["Slots"] = none) :
    sources = [] := by
  rcases modules with ⟨-, empty⟩ | ⟨slots, _, _, present, -⟩
  · exact empty
  · rw [none] at present
    cases present

/-- The text that the generator looks at is the number a module is identified by. -/
theorem identified_iff {module : Element} {ident : Int} {text : Option String}
    (read : orText ((module.find ["Type"]).bind fun typ => typ.get "ModuleIdent") none = text) :
    Identified ident module ↔ ∃ ident', text = some ident' ∧ parseInt (some ident') = .ok ident := by
  subst read
  constructor
  · rintro ⟨typ, ident', typed, given, filled, number⟩
    exact ⟨ident', by simp [typed, given, orText, filled], number⟩
  · rintro ⟨ident', chosen, number⟩
    cases typed : module.find ["Type"] with
    | none => simp [typed, orText] at chosen
    | some typ =>
      cases given : typ.get "ModuleIdent" with
      | none => simp [typed, given, orText] at chosen
      | some ident'' =>
        by_cases empty : ident'' = ""
        · simp [typed, given, orText, empty] at chosen
        · simp only [typed, Option.bind_some, given, orText, if_neg empty,
            Option.some.injEq] at chosen
          exact ⟨typ, ident', typed, chosen ▸ given, chosen ▸ empty, number⟩

/-- The generator's table of modules has for a number the last module that it identifies. -/
theorem moduleById_lookup {modules : List Element} {table : List (Int × Element)}
    (collected : moduleById modules = .ok table) (ident : Int) :
    (∀ module, table.lookup ident = some module → LastModule modules ident module) ∧
      (table.lookup ident = none → ∀ module ∈ modules, ¬ Identified ident module) := by
  induction modules generalizing table with
  | nil =>
    obtain rfl := Except.ok.inj collected
    simp
  | cons first rest inductionHypothesis =>
    rw [moduleById] at collected
    have later {module : Element} (last : LastModule rest ident module) :
        LastModule (first :: rest) ident module := by
      obtain ⟨before, after, rfl, identified, others⟩ := last
      exact ⟨first :: before, after, rfl, identified, others⟩
    split at collected
    · next missing =>
      obtain ⟨found, absent⟩ := inductionHypothesis collected
      refine ⟨fun module result => later (found module result), fun none => ?_⟩
      refine List.forall_mem_cons.mpr ⟨?_, absent none⟩
      rw [identified_iff missing]
      rintro ⟨_, ⟨⟩, -⟩
    · next text given =>
      obtain ⟨number, read, collected⟩ := Py.bind_eq_ok.mp collected
      obtain ⟨others, collectedRest, collected⟩ := Py.bind_eq_ok.mp collected
      obtain rfl := Except.ok.inj collected
      obtain ⟨found, absent⟩ := inductionHypothesis collectedRest
      rw [List.lookup_append]
      cases result : others.lookup ident with
      | some module =>
        refine ⟨fun module' same => ?_, fun none => by cases none⟩
        obtain rfl := Option.some.inj same
        exact later (found module result)
      | none =>
        have own : Identified ident first ↔ ident = number := by
          rw [identified_iff given]
          constructor
          · rintro ⟨_, same, read'⟩
            obtain rfl := Option.some.inj same
            exact Except.ok.inj (read'.symm.trans read)
          · rintro rfl
            exact ⟨text, rfl, read⟩
        by_cases same : ident = number
        · refine ⟨fun module last => ?_, fun none => by simp [same] at none⟩
          simp only [same, List.lookup_cons, beq_self_eq_true, Option.none_or,
            Option.some.injEq] at last
          subst last
          exact ⟨[], rest, rfl, own.mpr same, absent result⟩
        · have other : (ident == number) = false := beq_eq_false_iff_ne.mpr same
          refine ⟨fun module last => ?_, fun _ => ?_⟩
          · simp only [List.lookup_cons, other, List.lookup_nil, Option.none_or,
              reduceCtorEq] at last
          · exact List.forall_mem_cons.mpr
              ⟨fun identified => same (own.mp identified), absent result⟩

/-- There is no last module of a number that identifies none. -/
theorem LastModule.identifies {modules : List Element} {ident : Int} {module : Element}
    (last : LastModule modules ident module) :
    ∃ module ∈ modules, Identified ident module := by
  obtain ⟨before, after, rfl, identified, -⟩ := last
  exact ⟨module, by simp, identified⟩

/-- The generator collects the default modules of the slots from a position on. The induction
is on the slots; each of them holds nothing, or the module that its number leads to. -/
theorem defaultModules_slots {modules : List Element} {table : List (Int × Element)}
    (collected : moduleById modules = .ok table) {indexIncrement pdoIncrement : Int}
    (slots : List Element) {position : Nat} {sources : List PdoSource}
    (found : defaultModules table indexIncrement pdoIncrement position slots = .ok sources) :
    SlotModules modules indexIncrement pdoIncrement position slots sources := by
  induction slots generalizing position sources with
  | nil =>
    obtain rfl := Except.ok.inj found
    exact .nil
  | cons slot rest inductionHypothesis =>
    rw [defaultModules] at found
    split at found
    · next unnamed =>
      refine .vacant ?_ (inductionHypothesis found)
      rintro ident module ⟨named, present, -⟩
      rw [unnamed] at present
      cases present
    · next named present =>
      split at found
      · next optional =>
        refine .vacant ?_ (inductionHypothesis found)
        rintro ident module ⟨named', present', chosen, -⟩
        obtain rfl := Option.some.inj (present.symm.trans present')
        exact absurd chosen optional
      · next chosen =>
        obtain ⟨ident, number, found⟩ := Py.bind_eq_ok.mp found
        obtain ⟨others, foundRest, found⟩ := Py.bind_eq_ok.mp found
        obtain rfl := Except.ok.inj found
        have byDefault : DefaultOf slot ident := ⟨named, present, not_not.mp chosen, number⟩
        obtain ⟨leads, absent⟩ := moduleById_lookup collected ident
        cases result : table.lookup ident with
        | some module =>
          exact .holds byDefault (leads module result) (inductionHypothesis foundRest)
        | none =>
          refine .vacant ?_ (inductionHypothesis foundRest)
          rintro ident' module ⟨named', present', -, number'⟩ last
          obtain rfl := Option.some.inj (present.symm.trans present')
          obtain rfl := Except.ok.inj (number.symm.trans number')
          obtain ⟨other, member, identified⟩ := last.identifies
          exact absent result other member identified

/-- The modules that the generator finds for a device are its default ones. -/
theorem findDefaultModules_default {root dev : Element} {sources : List PdoSource}
    (found : findDefaultModules root dev = .ok sources) : DefaultModules root dev sources := by
  unfold findDefaultModules at found
  split at found
  · next none => exact .inl ⟨none, (Except.ok.inj found).symm⟩
  · next slots present =>
    obtain ⟨indexIncrement, hasIndex, found⟩ := Py.bind_eq_ok.mp found
    obtain ⟨pdoIncrement, hasPdo, found⟩ := Py.bind_eq_ok.mp found
    obtain ⟨table, collected, found⟩ := Py.bind_eq_ok.mp found
    exact .inr ⟨slots, indexIncrement, pdoIncrement, present, hasIndex, hasPdo,
      defaultModules_slots collected _ found⟩

end MoEcat
