import StackPipeline.Number.Reader

/-!
The ten binary operators on numbers, with the symbols that name them in every written form.
-/

namespace StackPipeline

/-- A binary operator. -/
inductive Operator
  | add | sub | mul | div
  | gt | lt | ge | le | eq | ne
deriving DecidableEq

namespace Operator

/-- All operators. -/
def all : List Operator :=
  [add, sub, mul, div, gt, lt, ge, le, eq, ne]

/-- The symbol of an operator. -/
def symbol : Operator → String
  | add => "+"
  | sub => "-"
  | mul => "*"
  | div => "/"
  | gt => ">"
  | lt => "<"
  | ge => ">="
  | le => "<="
  | eq => "=="
  | ne => "!="

def ofSymbol? (symbol : String) : Option Operator :=
  all.find? fun op => op.symbol == symbol

/-- Whether the operator answers a question with one or zero. -/
def isComparison : Operator → Bool
  | add | sub | mul | div => false
  | _ => true

/-- One for true, zero for false. -/
def truth (holds : Bool) : Float :=
  if holds then 1 else 0

/-- The operator on two numbers.  Division by zero is infinity, whatever is divided. -/
def apply : Operator → Float → Float → Float
  | add, x, y => x + y
  | sub, x, y => x - y
  | mul, x, y => x * y
  | div, x, y => if y == 0 then Number.infinity else x / y
  | gt, x, y => truth (decide (x > y))
  | lt, x, y => truth (decide (x < y))
  | ge, x, y => truth (decide (x ≥ y))
  | le, x, y => truth (decide (x ≤ y))
  | eq, x, y => truth (x == y)
  | ne, x, y => truth (x != y)

end Operator

end StackPipeline
