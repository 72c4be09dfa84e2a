import StackPipeline.Operator

/-!
Stack code.  Values pass between instructions on one stack; each instruction has at most one
operand.
-/

namespace StackPipeline.Bytecode

/-- The kind of operand an opcode takes. -/
inductive OperandKind
  | none
  | number
  | name
  /-- A quoted text that must be there. -/
  | text
  /-- A quoted text that may be left out. -/
  | optionalText
deriving DecidableEq

/-- What an instruction does, without its operand. -/
inductive Opcode
  | push
  | load
  | store
  | operate (op : Operator)
  | jumpIfNonzero
  | jump
  | label
  | print
  | read
  | breakLoop
  | continueLoop
  | ret
deriving DecidableEq

namespace Opcode

def all : List Opcode :=
  [push, load, store] ++ Operator.all.map operate ++
    [jumpIfNonzero, jump, label, print, read, breakLoop, continueLoop, ret]

def operatorName : Operator → String
  | .add => "ADD"
  | .sub => "SUB"
  | .mul => "MUL"
  | .div => "DIV"
  | .gt => "GT"
  | .lt => "LT"
  | .ge => "GE"
  | .le => "LE"
  | .eq => "EQ"
  | .ne => "NE"

def name : Opcode → String
  | push => "PUSH"
  | load => "LOAD"
  | store => "STORE"
  | operate op => operatorName op
  | jumpIfNonzero => "JNZ"
  | jump => "JMP"
  | label => "LABEL"
  | print => "PRINT"
  | read => "READ"
  | breakLoop => "BREAK"
  | continueLoop => "CONTINUE"
  | ret => "RETURN"

/-- The opcode with this name; case matters. -/
def ofName? (name : String) : Option Opcode :=
  all.find? fun opcode => opcode.name == name

def operandKind : Opcode → OperandKind
  | push => .number
  | load | store | jumpIfNonzero | jump | label => .name
  | read => .text
  | print => .optionalText
  | _ => .none

/-- The operator of an arithmetic or comparing opcode. -/
def operator? : Opcode → Option Operator
  | operate op => some op
  | _ => none

/-- Whether the opcode goes to a label. -/
def isJump : Opcode → Bool
  | jumpIfNonzero | jump => true
  | _ => false

/-- Whether the opcode leaves the code around it. -/
def isTransfer : Opcode → Bool
  | breakLoop | continueLoop | ret => true
  | _ => false

end Opcode

/-- An instruction of stack code. -/
inductive Instruction
  | push (value : Float)
  | load (name : String)
  | store (name : String)
  /-- Replace the two topmost values by the operator's result. -/
  | operate (op : Operator)
  /-- Take the topmost value and go to the label if it is not zero. -/
  | jumpIfNonzero (label : String)
  | jump (label : String)
  | label (name : String)
  | printText (text : String)
  /-- Take the topmost value and print it. -/
  | printTop
  | read (prompt : String)
  | breakLoop
  | continueLoop
  | ret
deriving DecidableEq

def Instruction.opcode : Instruction → Opcode
  | .push _ => .push
  | .load _ => .load
  | .store _ => .store
  | .operate op => .operate op
  | .jumpIfNonzero _ => .jumpIfNonzero
  | .jump _ => .jump
  | .label _ => .label
  | .printText _ => .print
  | .printTop => .print
  | .read _ => .read
  | .breakLoop => .breakLoop
  | .continueLoop => .continueLoop
  | .ret => .ret

/-- The label a jump goes to. -/
def Instruction.target? : Instruction → Option String
  | .jumpIfNonzero destination => some destination
  | .jump destination => some destination
  | _ => none

end StackPipeline.Bytecode

namespace StackPipeline

/-- A program for the stack machine. -/
abbrev Bytecode := List Bytecode.Instruction

end StackPipeline
