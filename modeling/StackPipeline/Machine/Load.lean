import StackPipeline.Machine.Fault
import StackPipeline.Store

/-!
Loading: every label is defined once and every jump has somewhere to go.
-/

namespace StackPipeline.Machine

open Bytecode (Instruction)

/-- Code that can run, with the index of each label. -/
structure Loaded where
  code : Array Instruction
  labels : Store Nat

/-- Enter the labels of code that starts at an index; none may be defined already. -/
def enterLabels : Nat → Bytecode → Store Nat → Except LoadError (Store Nat)
  | _, [], labels => .ok labels
  | index, .label name :: rest, labels =>
    match labels.get? name with
    | some first => .error (.duplicateLabel name index first)
    | none => enterLabels (index + 1) rest (labels.set name index)
  | index, _ :: rest, labels => enterLabels (index + 1) rest labels

/-- The first jump whose label is not defined. -/
def firstDangling? (labels : Store Nat) : Nat → Bytecode → Option LoadError
  | _, [] => none
  | index, instruction :: rest =>
    match instruction.target? with
    | none => firstDangling? labels (index + 1) rest
    | some label =>
      match labels.get? label with
      | none => some (.undefinedLabel label index instruction)
      | some _ => firstDangling? labels (index + 1) rest

/-- Load code. -/
def load (code : Bytecode) : Except LoadError Loaded :=
  match enterLabels 0 code .empty with
  | .error problem => .error problem
  | .ok labels =>
    match firstDangling? labels 0 code with
    | some problem => .error problem
    | none => .ok ⟨code.toArray, labels⟩

end StackPipeline.Machine
