import StackPipeline.Operator

/-!
Program trees: expressions and statements as a reader of source text hands them over.
-/

namespace StackPipeline.Tree

/-- An expression. -/
inductive Expr
  | number (value : Float)
  | boolean (value : Bool)
  | var (name : String)
  | binary (left : Expr) (op : Operator) (right : Expr)
  /-- One line of input, asked for with a prompt. -/
  | read (prompt : String)
deriving DecidableEq

mutual

/-- A statement. -/
inductive Stmt
  | declare (name : String) (value : Expr)
  | assign (name : String) (value : Expr)
  | print (text : String) (arguments : List Expr)
  /-- The first branch whose condition holds, else the last block if there is one. -/
  | choose (branches : List Branch) (otherwise : Option (List Stmt))
  | whileLoop (condition : Expr) (body : List Stmt)
  | doWhile (body : List Stmt) (condition : Expr)
  /-- The body with the counter at 0, 1, … below the count. -/
  | forLoop (counter : String) (count : Expr) (body : List Stmt)
  | breakLoop
  | continueLoop
  | ret (value : Option Expr)
  | block (statements : List Stmt)
  | importFile (path : String)

/-- A condition and the block it guards. -/
inductive Branch
  | mk (condition : Expr) (body : List Stmt)

end

def Branch.condition : Branch → Expr
  | .mk condition _ => condition

def Branch.body : Branch → List Stmt
  | .mk _ body => body

/-- A program. -/
structure Program where
  statements : List Stmt

end StackPipeline.Tree
