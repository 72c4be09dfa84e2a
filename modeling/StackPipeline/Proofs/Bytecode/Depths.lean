import StackPipeline.Proofs.Bytecode.Blocks

/-!
How deep the stack is at every point of generated code.

The depth does not depend on the run.  Each block finds the stack empty and leaves it empty, also
where it is left in the middle, because a jump takes the last value with it.
-/

namespace StackPipeline.Bytecode

/-- The number of values after an instruction that finds so many.  Generated code never has more than
two, and none where it jumps or can be jumped to; elsewhere there is no answer. -/
def Instruction.depthAfter? (depth : Nat) : Instruction → Option Nat
  | .push _ | .load _ | .read _ => if depth < 2 then some (depth + 1) else none
  | .operate _ => if depth = 2 then some 1 else none
  | .store _ | .jumpIfNonzero _ | .printTop => if depth = 1 then some 0 else none
  | .ret => if depth < 2 then some 0 else none
  | .jump _ | .label _ | .printText _ | .breakLoop | .continueLoop =>
    if depth = 0 then some 0 else none

def depthThrough? : Bytecode → Nat → Option Nat
  | [], depth => some depth
  | instruction :: rest, depth => instruction.depthAfter? depth >>= depthThrough? rest

/-- The number of values in front of the instruction at an index. -/
def depthAt? (code : Bytecode) (index : Nat) : Option Nat :=
  depthThrough? (code.take index) 0

theorem Instruction.depthAfter?_le {instruction : Instruction} {depth after : Nat}
    (h : instruction.depthAfter? depth = some after) : after ≤ 2 := by
  unfold depthAfter? at h
  split at h
  all_goals
    obtain ⟨hfound, ⟨⟩⟩ := Option.ite_none_right_eq_some.1 h
    omega

theorem depthThrough?_append (front rest : Bytecode) (depth : Nat) :
    depthThrough? (front ++ rest) depth =
      depthThrough? front depth >>= depthThrough? rest := by
  induction front generalizing depth with
  | nil => rfl
  | cons instruction front ih =>
      cases hafter : instruction.depthAfter? depth with
      | none => simp [depthThrough?, hafter]
      | some after => simpa [depthThrough?, hafter] using ih after

theorem depthAt?_zero (code : Bytecode) : depthAt? code 0 = some 0 := by
  simp [depthAt?, depthThrough?]

theorem depthAt?_succ {code : Bytecode} {index : Nat} {instruction : Instruction}
    (h : code[index]? = some instruction) :
    depthAt? code (index + 1) = depthAt? code index >>= fun depth => instruction.depthAfter? depth := by
  rw [depthAt?, depthAt?, List.take_add_one, h, Option.toList_some, depthThrough?_append]
  cases depthThrough? (code.take index) 0 with
  | none => rfl
  | some depth => simp [depthThrough?]

theorem depthAt?_le {code : Bytecode} {index depth : Nat} (h : depthAt? code index = some depth) :
    depth ≤ 2 := by
  induction index generalizing depth with
  | zero =>
      rw [depthAt?_zero] at h
      cases h
      omega
  | succ index ih =>
      cases hfetch : code[index]? with
      | some instruction =>
          rw [depthAt?_succ hfetch] at h
          obtain ⟨before, _, hafter⟩ := Option.bind_eq_some_iff.1 h
          exact Instruction.depthAfter?_le hafter
      | none =>
          rw [depthAt?, List.take_add_one, hfetch, Option.toList_none, List.append_nil] at h
          exact ih h

/-- An operand adds one value where there is room. -/
theorem depthThrough?_ofOperand_cons (operand : Listing.Operand) (rest : Bytecode) {depth : Nat}
    (h : depth < 2) :
    depthThrough? (ofOperand operand :: rest) depth = depthThrough? rest (depth + 1) := by
  cases operand <;> simp [ofOperand, depthThrough?, Instruction.depthAfter?, h]

/-- A source adds one value to an empty stack. -/
theorem depthThrough?_ofSource (source : Listing.Source) :
    depthThrough? (ofSource source) 0 = some 1 := by
  cases source with
  | operand value => exact depthThrough?_ofOperand_cons value [] (by omega)
  | operation op left right =>
      rw [ofSource, depthThrough?_ofOperand_cons left _ (by omega),
        depthThrough?_ofOperand_cons right _ (by omega)]
      rfl
  | read prompt => rfl

/-- The arguments of a print are put on the stack and taken from it one by one. -/
theorem depthThrough?_arguments (arguments : List Listing.Operand) :
    depthThrough? (arguments.flatMap fun argument => [ofOperand argument, .printTop]) 0 =
      some 0 := by
  induction arguments with
  | nil => rfl
  | cons argument rest ih =>
      rw [List.flatMap_cons, List.cons_append,
        depthThrough?_ofOperand_cons argument _ (by omega)]
      exact ih

/-- A block finds the stack empty and leaves it empty. -/
theorem depthThrough?_ofInstruction (instruction : Listing.Instruction) :
    depthThrough? (ofInstruction instruction) 0 = some 0 := by
  cases instruction with
  | assign target source =>
      rw [ofInstruction, depthThrough?_append, depthThrough?_ofSource]
      rfl
  | branch condition label => exact depthThrough?_ofOperand_cons condition _ (by omega)
  | print text arguments =>
      rw [ofInstruction, depthThrough?_append, ofText]
      split
      · exact depthThrough?_arguments arguments
      · exact depthThrough?_arguments arguments
  | ret value =>
      rcases value with _ | operand
      · rfl
      · exact depthThrough?_ofOperand_cons operand [.ret] (by omega)
  | goto label => rfl
  | label name => rfl
  | breakLoop => rfl
  | continueLoop => rfl
  | comment text => rfl

theorem depthThrough?_ofListing (listing : Listing) :
    depthThrough? (ofListing listing) 0 = some 0 := by
  induction listing with
  | nil => rfl
  | cons instruction rest ih =>
      rw [ofListing_cons, depthThrough?_append, depthThrough?_ofInstruction]
      exact ih

/-- The code in front of a block belongs to the instructions in front of its instruction. -/
theorem take_offset (listing : Listing) (position : Nat) :
    (ofListing listing).take (offset listing position) = ofListing (listing.take position) := by
  have hsplit : ofListing listing =
      ofListing (listing.take position) ++ ofListing (listing.drop position) := by
    rw [← ofListing_append, List.take_append_drop]
  rw [hsplit, offset, List.take_left]

/-- The stack is empty in front of every block and at the end of the code. -/
theorem depthAt?_offset (listing : Listing) (position : Nat) :
    depthAt? (ofListing listing) (offset listing position) = some 0 := by
  rw [depthAt?, take_offset, depthThrough?_ofListing]

theorem depthAt?_of_length_le {listing : Listing} {index : Nat}
    (h : (ofListing listing).length ≤ index) : depthAt? (ofListing listing) index = some 0 := by
  rw [depthAt?, List.take_of_length_le h, depthThrough?_ofListing]

/-- Generated code has a depth everywhere. -/
theorem exists_depthAt? (listing : Listing) (index : Nat) :
    ∃ depth, depthAt? (ofListing listing) index = some depth := by
  have hwhole := depthThrough?_ofListing listing
  rw [← List.take_append_drop index (ofListing listing), depthThrough?_append] at hwhole
  obtain ⟨depth, hdepth, _⟩ := Option.bind_eq_some_iff.1 hwhole
  exact ⟨depth, hdepth⟩

/-- Every instruction of generated code finds a depth that suits it. -/
theorem exists_depthAfter? {listing : Listing} {index : Nat} {instruction : Instruction}
    (h : (ofListing listing)[index]? = some instruction) {depth : Nat}
    (hdepth : depthAt? (ofListing listing) index = some depth) :
    ∃ after, instruction.depthAfter? depth = some after ∧
      depthAt? (ofListing listing) (index + 1) = some after := by
  obtain ⟨after, hafter⟩ := exists_depthAt? listing (index + 1)
  have hsucc := hafter
  rw [depthAt?_succ h, hdepth] at hsucc
  exact ⟨after, hsucc, hafter⟩

/-- The stack is empty in front of a label. -/
theorem depthAt?_label {listing : Listing} {index : Nat} {name : String}
    (h : (ofListing listing)[index]? = some (.label name)) :
    depthAt? (ofListing listing) index = some 0 := by
  obtain ⟨depth, hdepth⟩ := exists_depthAt? listing index
  obtain ⟨after, hafter, _⟩ := exists_depthAfter? h hdepth
  rcases depth with _ | depth
  · exact hdepth
  · cases hafter

end StackPipeline.Bytecode
