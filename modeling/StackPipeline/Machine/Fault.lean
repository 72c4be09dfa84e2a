import StackPipeline.Bytecode.Printer
import StackPipeline.Machine.Value
import StackPipeline.SystemError

/-!
What can go wrong with stack code, before and while it runs, and what is only noted.
-/

namespace StackPipeline.Machine

open Bytecode (Instruction)

/-- How far a machine is. -/
inductive Status
  | ready
  | finished
  | failed
deriving DecidableEq

def Status.name : Status → String
  | .ready => "Ready"
  | .finished => "Finished"
  | .failed => "Failed"

/-- Why code cannot be loaded.  Indices of instructions count from zero. -/
inductive LoadError
  | undefinedLabel (label : String) (index : Nat) (instruction : Instruction)
  | duplicateLabel (label : String) (index first : Nat)
deriving DecidableEq

def LoadError.message : LoadError → String
  | .undefinedLabel label index instruction =>
    s!"undefined label `{label}` referenced by `{instruction.render}` at index {index}"
  | .duplicateLabel label index first =>
    s!"label `{label}` at index {index} was already defined at index {first}"

/-- The instruction a load error points at. -/
def LoadError.index : LoadError → Nat
  | .undefinedLabel _ index _ => index
  | .duplicateLabel _ index _ => index

/-- Why a run fails. -/
inductive Fault
  | stackUnderflow (index : Nat) (instruction : Instruction)
  | stackOverflow (index limit : Nat)
  /-- A text decides a jump. -/
  | textCondition (index : Nat) (instruction : Instruction)
  /-- An operator that wants numbers gets a text. -/
  | textOperand (index : Nat) (op : Operator) (left right : Value)
  /-- A loop is left or continued outside of any. -/
  | unresolvedTransfer (index : Nat) (instruction : Instruction)
  | stepLimit (limit : Nat)
  | inputClosed (index : Nat)
  | system (error : SystemError)
  /-- The machine has run before. -/
  | notReady (status : Status)
deriving DecidableEq

def Fault.message : Fault → String
  | .stackUnderflow index instruction =>
    s!"stack underflow at index {index} (`{instruction.render}`)"
  | .stackOverflow index limit => s!"stack overflow at index {index}: depth limit {limit}"
  | .textCondition index instruction =>
    s!"type error at index {index} (`{instruction.render}`): condition must be a number"
  | .textOperand index op left right =>
    let instruction := Instruction.operate op
    let (left, right) := (String.ofList left.shown, String.ofList right.shown)
    s!"type error at index {index} (`{instruction.render}`): " ++
      s!"cannot apply `{op.symbol}` to {left} and {right}"
  | .unresolvedTransfer index instruction =>
    s!"`{instruction.render}` at index {index} has no enclosing handler"
  | .stepLimit limit => s!"execution exceeded the limit of {limit} steps"
  | .inputClosed index => s!"input closed while executing `READ` at index {index}"
  | .system error => s!"I/O error: {error.message}"
  | .notReady status =>
    s!"Invalid state: VM cannot run from status {status.name}; create a new instance"

/-- The instruction a fault points at, if it points at one. -/
def Fault.index? : Fault → Option Nat
  | .stackUnderflow index _ => some index
  | .stackOverflow index _ => some index
  | .textCondition index _ => some index
  | .textOperand index _ _ _ => some index
  | .unresolvedTransfer index _ => some index
  | .inputClosed index => some index
  | _ => none

/-- What is noted while a run goes on. -/
inductive Diagnostic
  | divisionByZero (index : Nat)
  /-- Nothing was there to print. -/
  | nothingToPrint (index : Nat)
deriving DecidableEq

def Diagnostic.message : Diagnostic → String
  | .divisionByZero index => s!"division by zero at index {index}, result is inf"
  | .nothingToPrint index => s!"PRINT on an empty stack at index {index}, skipped"

end StackPipeline.Machine
