import StackPipeline.Bytecode.Basic
import StackPipeline.Listing.Basic

/-!
Stack code from a listing, one instruction after the other.  Labels and jumps keep their names.
-/

namespace StackPipeline.Bytecode

open Listing (Operand Source)

/-- Put an operand on the stack. -/
def ofOperand : Operand → Instruction
  | .number value => .push value
  | .name name => .load name

/-- Put the value of a source on the stack. -/
def ofSource : Source → Bytecode
  | .operand value => [ofOperand value]
  | .operation op left right => [ofOperand left, ofOperand right, .operate op]
  | .read prompt => [.read prompt]

/-- Print a text, unless it is empty. -/
def ofText (text : String) : Bytecode :=
  if text.isEmpty then [] else [.printText text]

def ofInstruction : Listing.Instruction → Bytecode
  | .assign target source => ofSource source ++ [.store target]
  | .branch condition label => [ofOperand condition, .jumpIfNonzero label]
  | .goto label => [.jump label]
  | .label name => [.label name]
  | .print text arguments =>
    ofText text ++ arguments.flatMap fun argument => [ofOperand argument, .printTop]
  | .breakLoop => [.breakLoop]
  | .continueLoop => [.continueLoop]
  | .ret value => (value.map ofOperand).toList ++ [.ret]
  | .comment _ => []

/-- The stack code of a listing. -/
def ofListing (listing : Listing) : Bytecode :=
  listing.flatMap ofInstruction

end StackPipeline.Bytecode
