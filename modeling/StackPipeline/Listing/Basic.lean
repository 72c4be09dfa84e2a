import StackPipeline.Operator

/-!
Three-address listings: every instruction has at most one operator and one target.
-/

namespace StackPipeline.Listing

/-- What an instruction reads: a literal or a name. -/
inductive Operand
  | number (value : Float)
  | name (name : String)
deriving DecidableEq

/-- Where an assigned value comes from. -/
inductive Source
  | operand (value : Operand)
  | operation (op : Operator) (left right : Operand)
  /-- One line of input, asked for with a prompt. -/
  | read (prompt : String)
deriving DecidableEq

/-- An instruction of a listing. -/
inductive Instruction
  | assign (target : String) (source : Source)
  | label (name : String)
  | goto (label : String)
  /-- Go to the label if the condition is not zero. -/
  | branch (condition : Operand) (label : String)
  /-- Print the text unless it is empty, and then each argument on a line of its own. -/
  | print (text : String) (arguments : List Operand)
  | breakLoop
  | continueLoop
  | ret (value : Option Operand)
  | comment (text : String)
deriving DecidableEq

def Operand.name? : Operand → Option String
  | .name x => some x
  | .number _ => none

def Operand.number? : Operand → Option Float
  | .number value => some value
  | .name _ => none

def Source.operands : Source → List Operand
  | .operand value => [value]
  | .operation _ left right => [left, right]
  | .read _ => []

/-- The names a source reads, from left to right. -/
def Source.uses : Source → List String
  | .operand value => value.name?.toList
  | .operation _ left right => left.name?.toList ++ right.name?.toList
  | .read _ => []

/-- Whether a source takes a line of input. -/
def Source.isRead : Source → Bool
  | .read _ => true
  | _ => false

/-- The names an instruction reads, from left to right. -/
def Instruction.uses : Instruction → List String
  | .assign _ source => source.uses
  | .branch condition _ => condition.name?.toList
  | .print _ arguments => arguments.filterMap Operand.name?
  | .ret value => value.toList.filterMap Operand.name?
  | _ => []

/-- The label an instruction can go to. -/
def Instruction.target? : Instruction → Option String
  | .goto destination => some destination
  | .branch _ destination => some destination
  | _ => none

end StackPipeline.Listing

namespace StackPipeline

/-- A program in three-address form. -/
abbrev Listing := List Listing.Instruction

end StackPipeline
