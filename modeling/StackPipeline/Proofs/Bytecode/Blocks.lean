import StackPipeline.Bytecode.OfListing
import StackPipeline.Proofs.Listing.Interpreter
import StackPipeline.Proofs.Machine.Loading
import StackPipeline.Proofs.Placement

/-!
Where the instructions of a listing are in its stack code.

Each instruction becomes a block, and the blocks follow one another.  A block can be empty, so a
position in the listing and an index in the stack code differ by an amount that changes from position
to position.
-/

namespace StackPipeline.Bytecode

variable {listing : Listing}

/-- The index of the first stack instruction that belongs to a position of a listing. -/
def offset (listing : Listing) (position : Nat) : Nat :=
  (ofListing (listing.take position)).length

/-- The stack instruction at an index belongs to the instruction at a position. -/
def Belongs (listing : Listing) (index position : Nat) : Prop :=
  offset listing position ≤ index ∧ index < offset listing (position + 1)

@[simp] theorem offset_zero (listing : Listing) : offset listing 0 = 0 := by
  simp [offset, ofListing]

theorem ofListing_cons (instruction : Listing.Instruction) (rest : Listing) :
    ofListing (instruction :: rest) = ofInstruction instruction ++ ofListing rest := by
  simp [ofListing]

theorem ofListing_append (front rest : Listing) :
    ofListing (front ++ rest) = ofListing front ++ ofListing rest := by
  simp [ofListing]

theorem offset_succ {position : Nat} {instruction : Listing.Instruction}
    (h : listing[position]? = some instruction) :
    offset listing (position + 1) =
      offset listing position + (ofInstruction instruction).length := by
  rw [offset, offset, List.take_add_one, h, Option.toList_some, ofListing_append,
    List.length_append]
  simp [ofListing]

theorem offset_of_length_le {position : Nat} (h : listing.length ≤ position) :
    offset listing position = (ofListing listing).length := by
  rw [offset, List.take_of_length_le h]

theorem offset_mono (listing : Listing) {first last : Nat} (h : first ≤ last) :
    offset listing first ≤ offset listing last := by
  obtain ⟨extra, rfl⟩ := Nat.exists_eq_add_of_le h
  rw [offset, offset, List.take_add, ofListing_append, List.length_append]
  exact Nat.le_add_right _ _

/-- A stack instruction belongs to one position. -/
theorem Belongs.unique {index first last : Nat} (hfirst : Belongs listing index first)
    (hlast : Belongs listing index last) : first = last := by
  rcases Nat.lt_trichotomy first last with hlt | heq | hlt
  · have hle := offset_mono listing (Nat.succ_le_of_lt hlt)
    exact absurd (Nat.lt_of_lt_of_le hfirst.2 hle) (Nat.not_lt_of_le hlast.1)
  · exact heq
  · have hle := offset_mono listing (Nat.succ_le_of_lt hlt)
    exact absurd (Nat.lt_of_lt_of_le hlast.2 hle) (Nat.not_lt_of_le hfirst.1)

theorem offset_cons_succ (instruction : Listing.Instruction) (rest : Listing) (position : Nat) :
    offset (instruction :: rest) (position + 1) =
      (ofInstruction instruction).length + offset rest position := by
  rw [offset, List.take_succ_cons, ofListing_cons, List.length_append, offset]

/-- The position that a stack instruction belongs to. -/
def owner : Listing → Nat → Nat
  | [], _ => 0
  | instruction :: rest, index =>
    if index < (ofInstruction instruction).length then 0
    else owner rest (index - (ofInstruction instruction).length) + 1

theorem owner_of_belongs {index position : Nat} (h : Belongs listing index position) :
    owner listing index = position := by
  induction listing generalizing index position with
  | nil =>
      have hlt := h.2
      simp [offset, ofListing] at hlt
  | cons instruction rest ih =>
      obtain ⟨hle, hlt⟩ := h
      rw [offset_cons_succ] at hlt
      rw [owner]
      cases position with
      | zero =>
          rw [offset_zero, Nat.add_zero] at hlt
          exact if_pos hlt
      | succ position =>
          rw [offset_cons_succ] at hle
          rw [if_neg (by omega), ih]
          refine ⟨?_, ?_⟩
          · omega
          · omega

/-- The block of an instruction stands at the offset of its position. -/
theorem placed_ofInstruction {position : Nat} {instruction : Listing.Instruction}
    (h : listing[position]? = some instruction) :
    Placed (ofListing listing) (offset listing position) (ofInstruction instruction) := by
  obtain ⟨hlt, hget⟩ := List.getElem?_eq_some_iff.1 h
  refine ⟨ofListing (listing.take position), ofListing (listing.drop (position + 1)), ?_, rfl⟩
  have hsplit : listing = listing.take position ++ instruction :: listing.drop (position + 1) := by
    rw [← hget, ← List.drop_eq_getElem_cons hlt, List.take_append_drop]
  calc ofListing listing
      = ofListing (listing.take position ++ instruction :: listing.drop (position + 1)) := by
        rw [← hsplit]
    _ = _ := by rw [ofListing_append, ofListing_cons]

/-- An instruction that neither is a label nor goes to one. -/
def Instruction.IsPlain (instruction : Instruction) : Prop :=
  instruction.label? = none ∧ instruction.target? = none

theorem isPlain_ofOperand (operand : Listing.Operand) : (ofOperand operand).IsPlain := by
  cases operand <;> exact ⟨rfl, rfl⟩

/-- Only labels and jumps have labels or jumps in their blocks. -/
theorem isPlain_of_mem_ofInstruction {instruction : Listing.Instruction}
    (hlabel : instruction.label? = none) (htarget : instruction.target? = none)
    {inner : Instruction} (h : inner ∈ ofInstruction instruction) : inner.IsPlain := by
  cases instruction with
  | assign target source =>
      rcases List.mem_append.1 h with h | h
      · cases source with
        | operand value =>
            rw [List.mem_singleton.1 h]
            exact isPlain_ofOperand value
        | operation op left right =>
            simp only [ofSource, List.mem_cons, List.not_mem_nil, or_false] at h
            rcases h with rfl | rfl | rfl
            · exact isPlain_ofOperand left
            · exact isPlain_ofOperand right
            · exact ⟨rfl, rfl⟩
        | read prompt =>
            rw [List.mem_singleton.1 h]
            exact ⟨rfl, rfl⟩
      · rw [List.mem_singleton.1 h]
        exact ⟨rfl, rfl⟩
  | print text arguments =>
      rcases List.mem_append.1 h with h | h
      · rw [ofText] at h
        split at h
        · cases h
        · rw [List.mem_singleton.1 h]
          exact ⟨rfl, rfl⟩
      · obtain ⟨argument, _, h⟩ := List.mem_flatMap.1 h
        simp only [List.mem_cons, List.not_mem_nil, or_false] at h
        rcases h with rfl | rfl
        · exact isPlain_ofOperand argument
        · exact ⟨rfl, rfl⟩
  | ret value =>
      rcases List.mem_append.1 h with h | h
      · cases value with
        | none => cases h
        | some operand =>
            rw [List.mem_singleton.1 h]
            exact isPlain_ofOperand operand
      · rw [List.mem_singleton.1 h]
        exact ⟨rfl, rfl⟩
  | breakLoop =>
      rw [List.mem_singleton.1 h]
      exact ⟨rfl, rfl⟩
  | continueLoop =>
      rw [List.mem_singleton.1 h]
      exact ⟨rfl, rfl⟩
  | comment text => cases h
  | label name => cases hlabel
  | goto label => cases htarget
  | branch condition label => cases htarget

/-- A block defines the label of its instruction and no other. -/
theorem labels_ofInstruction (instruction : Listing.Instruction) :
    labels (ofInstruction instruction) = instruction.label?.toList := by
  cases htarget : instruction.target? with
  | none =>
      cases hlabel : instruction.label? with
      | none =>
          rw [labels, Option.toList_none, List.filterMap_eq_nil_iff]
          intro inner hinner
          exact (isPlain_of_mem_ofInstruction hlabel htarget hinner).1
      | some name =>
          cases instruction <;> cases hlabel
          rfl
  | some name =>
      cases instruction with
      | goto label => rfl
      | branch condition label =>
          rw [ofInstruction, labels_cons_of_label?_eq_none (isPlain_ofOperand condition).1]
          rfl
      | _ => cases htarget

/-- Generated code has the labels of the listing, in the same order. -/
theorem labels_ofListing (listing : Listing) :
    labels (ofListing listing) = Listing.labels listing := by
  induction listing with
  | nil => rfl
  | cons instruction rest ih =>
      have hcons : labels (ofListing (instruction :: rest)) =
          labels (ofInstruction instruction) ++ labels (ofListing rest) := by
        rw [ofListing_cons, labels, labels, labels, List.filterMap_append]
      rw [hcons, labels_ofInstruction, ih]
      cases hlabel : instruction.label? with
      | none => simp [Listing.labels, List.filterMap_cons_none hlabel]
      | some name => simp [Listing.labels, List.filterMap_cons_some hlabel]

/-- A block goes where its instruction goes. -/
theorem exists_target_ofInstruction_iff (instruction : Listing.Instruction) (name : String) :
    (∃ inner ∈ ofInstruction instruction, inner.target? = some name) ↔
      instruction.target? = some name := by
  cases htarget : instruction.target? with
  | none =>
      simp only [reduceCtorEq, iff_false, not_exists, not_and]
      intro inner hinner hname
      cases hlabel : instruction.label? with
      | none =>
          rw [(isPlain_of_mem_ofInstruction hlabel htarget hinner).2] at hname
          cases hname
      | some label =>
          cases instruction <;> cases hlabel
          rw [List.mem_singleton.1 hinner] at hname
          cases hname
  | some label =>
      cases instruction with
      | goto destination =>
          cases htarget
          simp [ofInstruction, Instruction.target?]
      | branch condition destination =>
          cases htarget
          simp only [ofInstruction, List.mem_cons, List.not_mem_nil, or_false, exists_eq_or_imp,
            (isPlain_ofOperand condition).2, reduceCtorEq, false_or, exists_eq_left]
          rfl
      | _ => cases htarget

/-- Generated code is well labelled exactly if the listing is. -/
theorem wellLabelled_ofListing_iff (listing : Listing) :
    WellLabelled (ofListing listing) ↔ Listing.WellLabelled listing := by
  have htargets : (∀ inner ∈ ofListing listing, ∀ name, inner.target? = some name →
        name ∈ Listing.labels listing) ↔
      ∀ instruction ∈ listing, ∀ name, instruction.target? = some name →
        name ∈ Listing.labels listing := by
    constructor
    · intro h instruction hmem name htarget
      obtain ⟨inner, hinner, hname⟩ :=
        (exists_target_ofInstruction_iff instruction name).2 htarget
      exact h inner (List.mem_flatMap.2 ⟨instruction, hmem, hinner⟩) name hname
    · intro h inner hmem name htarget
      obtain ⟨instruction, hinstruction, hinner⟩ := List.mem_flatMap.1 hmem
      exact h instruction hinstruction name
        ((exists_target_ofInstruction_iff instruction name).1 ⟨inner, hinner, htarget⟩)
  constructor
  · rintro ⟨hnodup, hdefined⟩
    rw [labels_ofListing] at hnodup hdefined
    exact ⟨hnodup, htargets.1 hdefined⟩
  · rintro ⟨hnodup, hdefined⟩
    refine ⟨?_, ?_⟩
    · rwa [labels_ofListing]
    · rw [labels_ofListing]
      exact htargets.2 hdefined

end StackPipeline.Bytecode
