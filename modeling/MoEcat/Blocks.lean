import Mathlib.Data.List.Forall2

/-!
# Blocks in a byte list

A block has a kind and a payload, written as three parts: the kind, the number of words
in the payload, and the payload. Words have two bytes, the least significant first.
Blocks follow one another without a gap, and a reserved kind marks the end of them. A
walk starts at the first block and goes from each to the next by the announced length;
it stops at the end marker, or where no room for the head of a block is left.

A walk over blocks that were laid out this way visits exactly these blocks, whatever
their payloads look like and whatever follows the marker.
-/

namespace MoEcat.Blocks

/-- The two bytes of a word. -/
def wordBytes (n : Nat) : List UInt8 := [UInt8.ofNat n, UInt8.ofNat (n / 256)]

/-- The word at an offset. -/
def wordAt (data : List UInt8) (offset : Nat) : Nat :=
  (data.getD offset 0).toNat + 256 * (data.getD (offset + 1) 0).toNat

/-- A word has two bytes. -/
@[simp] theorem length_wordBytes (n : Nat) : (wordBytes n).length = 2 := rfl

/-- A word is found where it was put. -/
theorem wordAt_append (front rest : List UInt8) {n : Nat} (small : n < 65536) :
    wordAt (front ++ (wordBytes n ++ rest)) front.length = n := by
  have low : (front ++ (wordBytes n ++ rest)).getD front.length 0 = UInt8.ofNat n := by
    simp [wordBytes]
  have high : (front ++ (wordBytes n ++ rest)).getD (front.length + 1) 0 =
      UInt8.ofNat (n / 256) := by
    simp [wordBytes]
  rw [wordAt, low, high, UInt8.toNat_ofNat', UInt8.toNat_ofNat']
  omega

/-- A block whose kind and length can be written in a word. -/
structure Block where
  kind : Nat
  payload : List UInt8
  kindFits : kind < 65536
  even : payload.length % 2 = 0
  lengthFits : payload.length / 2 < 65536

/-- A block as bytes: its kind, the number of its words, and its payload. -/
def Block.bytes (block : Block) : List UInt8 :=
  wordBytes block.kind ++ (wordBytes (block.payload.length / 2) ++ block.payload)

/-- A block is four bytes longer than its payload. -/
theorem Block.length_bytes (block : Block) : block.bytes.length = 4 + block.payload.length := by
  simp only [bytes, List.length_append, length_wordBytes]
  omega

/-- The kinds and offsets of the blocks that a walk has visited, and where it stopped. -/
structure Walk where
  visited : List (Nat × Nat)
  stopped : Nat
deriving DecidableEq, Repr

/-- Walk from an offset on. -/
def walk (marker : Nat) (data : List UInt8) (a : Nat) : Walk :=
  if a + 4 ≤ data.length then
    if wordAt data a = marker then ⟨[], a⟩
    else
      let rest := walk marker data (a + 4 + 2 * wordAt data (a + 2))
      ⟨(wordAt data a, a) :: rest.visited, rest.stopped⟩
  else ⟨[], a⟩
termination_by data.length - a

/-- A visited place holds a block. -/
structure Holds (data : List UInt8) (block : Block) (place : Nat × Nat) : Prop where
  kind : place.1 = block.kind
  inside : place.2 + 4 ≤ data.length
  length : wordAt data (place.2 + 2) = block.payload.length / 2
  payload : (data.drop (place.2 + 4)).take block.payload.length = block.payload

/-- The head of a block is read back where the block begins. -/
theorem heads (front rest : List UInt8) (block : Block) :
    let data := front ++ (block.bytes ++ rest)
    wordAt data front.length = block.kind ∧ Holds data block (block.kind, front.length) := by
  intro data
  have kind : data = front ++ (wordBytes block.kind ++
      (wordBytes (block.payload.length / 2) ++ (block.payload ++ rest))) := by
    simp [data, Block.bytes]
  have length : data = (front ++ wordBytes block.kind) ++
      (wordBytes (block.payload.length / 2) ++ (block.payload ++ rest)) := by
    simp [kind]
  have payload : data = (front ++ wordBytes block.kind ++
      wordBytes (block.payload.length / 2)) ++ (block.payload ++ rest) := by
    simp [kind]
  refine ⟨?_, rfl, ?_, ?_, ?_⟩
  · rw [kind]
    exact wordAt_append _ _ block.kindFits
  · rw [kind]
    simp only [List.length_append, length_wordBytes]
    omega
  · have found := wordAt_append (front ++ wordBytes block.kind) (block.payload ++ rest)
      block.lengthFits
    rw [← length] at found
    simpa using found
  · have offset : front.length + 4 = (front ++ wordBytes block.kind ++
        wordBytes (block.payload.length / 2)).length := by simp
    rw [payload, offset, List.drop_left, List.take_left]

/-- A walk over blocks up to the marker visits each of them where it is, and stops where
the marker is. The induction moves the first block to what lies behind the walk. -/
theorem walk_blocks {marker : Nat} (markerFits : marker < 65536) (front rest : List UInt8)
    (blocks : List Block) (regular : ∀ block ∈ blocks, block.kind ≠ marker) :
    let data := front ++ (blocks.flatMap Block.bytes ++ (wordBytes marker ++ rest))
    List.Forall₂ (Holds data) blocks (walk marker data front.length).visited ∧
      (walk marker data front.length).stopped =
        front.length + (blocks.flatMap Block.bytes).length := by
  induction blocks generalizing front with
  | nil =>
    intro data
    have stays : walk marker data front.length = ⟨[], front.length⟩ := by
      have found : wordAt data front.length = marker := wordAt_append front rest markerFits
      rw [walk, found, if_pos rfl, ite_self]
    rw [stays]
    exact ⟨.nil, rfl⟩
  | cons block blocks inductionHypothesis =>
    intro data
    obtain ⟨distinct, others⟩ := List.forall_mem_cons.mp regular
    obtain ⟨kind, holds⟩ := heads front
      (blocks.flatMap Block.bytes ++ (wordBytes marker ++ rest)) block
    have whole : data = front ++ (block.bytes ++
        (blocks.flatMap Block.bytes ++ (wordBytes marker ++ rest))) := by
      simp [data]
    have moved : data = (front ++ block.bytes) ++
        (blocks.flatMap Block.bytes ++ (wordBytes marker ++ rest)) := by
      simp [data]
    rw [← whole] at kind holds
    have next : front.length + 4 + 2 * wordAt data (front.length + 2) =
        (front ++ block.bytes).length := by
      rw [holds.length, List.length_append, Block.length_bytes]
      have even := block.even
      omega
    obtain ⟨visits, stops⟩ := inductionHypothesis (front ++ block.bytes) others
    rw [← moved, ← next] at visits stops
    rw [walk, if_pos holds.inside, kind, if_neg distinct]
    refine ⟨.cons holds visits, ?_⟩
    rw [stops, next]
    simp only [List.flatMap_cons, List.length_append]
    omega

/-! ## Looking a kind up -/

/-- Related lists agree in what related members agree in. -/
theorem map_eq_of_forall₂ {α β γ : Type} {R : α → β → Prop} {f : α → γ} {g : β → γ}
    (agree : ∀ a b, R a b → f a = g b) {first : List α} {second : List β}
    (related : List.Forall₂ R first second) : first.map f = second.map g := by
  induction related with
  | nil => rfl
  | cons head _ inductionHypothesis =>
    rw [List.map_cons, List.map_cons, agree _ _ head, inductionHypothesis]

/-- Every member of a list has a related one in a related list. -/
theorem exists_of_forall₂ {α β : Type} {R : α → β → Prop} {first : List α} {second : List β}
    (related : List.Forall₂ R first second) {a : α} (member : a ∈ first) :
    ∃ b ∈ second, R a b := by
  induction related with
  | nil => cases member
  | cons head _ inductionHypothesis =>
    rcases List.mem_cons.mp member with rfl | later
    · exact ⟨_, List.mem_cons_self, head⟩
    · obtain ⟨b, found, holds⟩ := inductionHypothesis later
      exact ⟨b, List.mem_cons_of_mem _ found, holds⟩

/-- Where the kinds are distinct, a kind is found at the block of that kind. -/
theorem lookup_holds {data : List UInt8} {blocks : List Block} {visited : List (Nat × Nat)}
    (visits : List.Forall₂ (Holds data) blocks visited)
    (distinct : (blocks.map Block.kind).Nodup) {block : Block} (member : block ∈ blocks) :
    ∃ offset, visited.lookup block.kind = some offset ∧ Holds data block (block.kind, offset) := by
  induction visits with
  | nil => cases member
  | @cons head place blocks visited holds visits inductionHypothesis =>
    obtain ⟨same, offset⟩ := place
    obtain rfl : same = head.kind := holds.kind
    obtain ⟨fresh, distinct⟩ := List.nodup_cons.mp distinct
    rcases List.mem_cons.mp member with rfl | later
    · exact ⟨offset, List.lookup_cons_self, holds⟩
    · obtain ⟨found, located, kept⟩ := inductionHypothesis distinct later
      refine ⟨found, ?_, kept⟩
      have skipped : (block.kind == head.kind) = false := by
        rw [beq_eq_false_iff_ne]
        intro clash
        exact fresh (clash ▸ List.mem_map_of_mem later)
      rw [List.lookup_cons, skipped]
      exact located

end MoEcat.Blocks
