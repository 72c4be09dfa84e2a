import StackPipeline.Bytecode.Basic
import StackPipeline.Text.Blank
import StackPipeline.Text.Quoted

/-!
Reading stack code.  Blank lines and lines that start with `#` are skipped.
-/

namespace StackPipeline.Bytecode

open Text

/-- Why a line is not an instruction.  Lines count from one. -/
inductive ReadError
  | unknownOpcode (line : Nat) (mnemonic : String)
  | missingOperand (line : Nat) (opcode : Opcode)
  | invalidOperand (line : Nat) (opcode : Opcode) (operand : String)
deriving DecidableEq

def ReadError.message : ReadError → String
  | .unknownOpcode line mnemonic => s!"line {line}: unknown opcode `{mnemonic}`"
  | .missingOperand line opcode => s!"line {line}: `{opcode.name}` expects an operand"
  | .invalidOperand line opcode operand =>
    s!"line {line}: invalid operand `{operand}` for `{opcode.name}`"

/-- Read a quoted text with nothing but blanks after it. -/
def quotedOperand? (operand : List Char) : Option String :=
  match Quoted.split operand with
  | .ok (text, rest) => if (trim rest).isEmpty then some text else none
  | .error _ => none

/-- The instruction of an opcode with an operand, if the operand is of the opcode's kind. -/
def withOperand? (opcode : Opcode) (operand : List Char) : Option Instruction :=
  let name := String.ofList operand
  let isName := !operand.any isBlank
  match opcode with
  | .push => (Number.read? operand).map .push
  | .load => if isName then some (.load name) else none
  | .store => if isName then some (.store name) else none
  | .jumpIfNonzero => if isName then some (.jumpIfNonzero name) else none
  | .jump => if isName then some (.jump name) else none
  | .label => if isName then some (.label name) else none
  | .print => (quotedOperand? operand).map .printText
  | .read => (quotedOperand? operand).map .read
  | .operate _ | .breakLoop | .continueLoop | .ret => none

/-- The instruction of an opcode without an operand, if it can stand alone. -/
def withoutOperand? : Opcode → Option Instruction
  | .operate op => some (.operate op)
  | .print => some .printTop
  | .breakLoop => some .breakLoop
  | .continueLoop => some .continueLoop
  | .ret => some .ret
  | _ => none

/-- Cut a trimmed line into the name of the opcode and the operand after it. -/
def splitLine (text : List Char) : List Char × List Char :=
  match cut? isBlank text with
  | some (mnemonic, rest) => (mnemonic, trim rest)
  | none => (text, [])

def readLine (line : Nat) (text : List Char) : Except ReadError Instruction :=
  let (mnemonic, operand) := splitLine (trim text)
  match Opcode.ofName? (String.ofList mnemonic) with
  | none => .error (.unknownOpcode line (String.ofList mnemonic))
  | some opcode =>
    if operand.isEmpty then
      match withoutOperand? opcode with
      | some instruction => .ok instruction
      | none => .error (.missingOperand line opcode)
    else
      match withOperand? opcode operand with
      | some instruction => .ok instruction
      | none => .error (.invalidOperand line opcode (String.ofList operand))

/-- Whether a line holds an instruction: it is not blank and no comment. -/
def isCode (text : List Char) : Bool :=
  match trim text with
  | [] => false
  | c :: _ => c != '#'

/-- Read numbered lines up to the first one that is no instruction. -/
def readLines : List (Nat × List Char) → Except ReadError Bytecode
  | [] => .ok []
  | (number, text) :: rest =>
    match readLine number text with
    | .error problem => .error problem
    | .ok instruction =>
      match readLines rest with
      | .error problem => .error problem
      | .ok code => .ok (instruction :: code)

/-- Read stack code. -/
def read (text : String) : Except ReadError Bytecode :=
  readLines ((numbered 1 (lines text.toList)).filter fun line => isCode line.2)

end StackPipeline.Bytecode
