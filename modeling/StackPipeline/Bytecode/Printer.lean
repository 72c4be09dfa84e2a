import StackPipeline.Bytecode.Basic
import StackPipeline.Number.Layout
import StackPipeline.Text.Blank
import StackPipeline.Text.Quoted

/-!
The text of stack code: one instruction a line, the name of the opcode and then its operand.
-/

namespace StackPipeline.Bytecode

open Text

def Instruction.operandChars : Instruction → Option (List Char)
  | .push value => some (Number.plain value)
  | .load name | .store name | .jumpIfNonzero name | .jump name | .label name => some name.toList
  | .printText text | .read text => some (Quoted.literal text)
  | _ => none

def Instruction.chars (instruction : Instruction) : List Char :=
  instruction.opcode.name.toList ++
    match instruction.operandChars with
    | none => []
    | some operand => ' ' :: operand

def Instruction.render (instruction : Instruction) : String :=
  String.ofList instruction.chars

def chars (code : Bytecode) : List Char :=
  joinLines (code.map Instruction.chars)

/-- The text of stack code. -/
def render (code : Bytecode) : String :=
  String.ofList (chars code)

end StackPipeline.Bytecode
