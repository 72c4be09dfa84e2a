import StackPipeline.Listing.Basic
import StackPipeline.Tree.Basic

/-!
Lowering: from trees to listings.

An expression becomes the instructions that compute it and the operand that then holds its value; a
statement becomes instructions.  Control flow becomes labels and jumps, and a break or continue a jump
to a label of the innermost loop.  Fresh labels and temporaries are numbered from zero; what is used
up stays used up when lowering fails.
-/

namespace StackPipeline.Lowering

open StackPipeline.Tree (Expr Stmt Branch Program)
open Listing (Operand Source Instruction)

/-- A statement that only has a meaning inside a loop stands outside of any. -/
inductive LoweringError
  | breakOutsideLoop
  | continueOutsideLoop
deriving DecidableEq

def LoweringError.message : LoweringError → String
  | .breakOutsideLoop => "`break` outside of a loop"
  | .continueOutsideLoop => "`continue` outside of a loop"

/-- Where a loop is continued and where it is left. -/
structure LoopLabels where
  continueLabel : String
  breakLabel : String
deriving DecidableEq

/-- What lowering keeps track of. -/
structure Context where
  /-- The labels handed out so far. -/
  labels : Nat
  /-- The temporaries handed out so far. -/
  temporaries : Nat
  /-- The loops around, the innermost first. -/
  loops : List LoopLabels
deriving DecidableEq

def Context.initial : Context := ⟨0, 0, []⟩

def labelName (number : Nat) : String :=
  String.ofList ('L' :: Nat.toDigits 10 number)

def temporaryName (number : Nat) : String :=
  String.ofList ('t' :: Nat.toDigits 10 number)

/-- Work that cannot fail. -/
abbrev Fresh := StateM Context

/-- Work that can fail and then keeps the context it has reached. -/
abbrev Lower := ExceptT LoweringError Fresh

/-- A label not handed out before. -/
def freshLabel : Fresh String := fun context =>
  (labelName context.labels, { context with labels := context.labels + 1 })

def freshLabels : Nat → Fresh (List String)
  | 0 => pure []
  | count + 1 => do
    let label ← freshLabel
    let rest ← freshLabels count
    pure (label :: rest)

/-- A temporary not handed out before. -/
def freshTemporary : Fresh String := fun context =>
  (temporaryName context.temporaries, { context with temporaries := context.temporaries + 1 })

/-- Do work inside one more loop. -/
def insideLoop {α : Type} (loop : LoopLabels) (work : Lower α) : Lower α := fun context =>
  let (result, after) := work { context with loops := loop :: context.loops }
  (result, { after with loops := after.loops.tail })

/-- The labels of the innermost loop. -/
def innermost (otherwise : LoweringError) : Lower LoopLabels := fun context =>
  match context.loops with
  | [] => (.error otherwise, context)
  | loop :: _ => (.ok loop, context)

/-- Lower an expression: its instructions and the operand that holds its value after them. -/
def lowerExpr : Expr → Fresh (Listing × Operand)
  | .number value => pure ([], .number value)
  | .boolean value => pure ([], .number (Operator.truth value))
  | .var name => pure ([], .name name)
  | .binary left op right => do
    let (leftCode, leftValue) ← lowerExpr left
    let (rightCode, rightValue) ← lowerExpr right
    let result ← freshTemporary
    pure (leftCode ++ rightCode ++ [.assign result (.operation op leftValue rightValue)],
      .name result)
  | .read prompt => do
    let result ← freshTemporary
    pure ([.assign result (.read prompt)], .name result)

def lowerExprs : List Expr → Fresh (Listing × List Operand)
  | [] => pure ([], [])
  | expr :: rest => do
    let (code, value) ← lowerExpr expr
    let (restCode, values) ← lowerExprs rest
    pure (code ++ restCode, value :: values)

/-- The conditions of branches: go to the branch's label at the first one that holds. -/
def lowerConditions : List Branch → List String → Fresh Listing
  | .mk condition _ :: branches, label :: labels => do
    let (code, value) ← lowerExpr condition
    let rest ← lowerConditions branches labels
    pure (code ++ .branch value label :: rest)
  | _, _ => pure []

/-- The bound of a counting loop.  A variable is copied, for the body may change it. -/
def lowerBound (count : Expr) : Fresh (Listing × Operand) := do
  let (code, bound) ← lowerExpr count
  match count with
  | .var _ => do
    let copy ← freshTemporary
    pure (code ++ [.assign copy (.operand bound)], .name copy)
  | _ => pure (code, bound)

mutual

/-- Lower a statement. -/
def lowerStmt : Stmt → Lower Listing
  | .declare name value => do
    let (code, operand) ← lowerExpr value
    pure (code ++ [.assign name (.operand operand)])
  | .assign name value => do
    let (code, operand) ← lowerExpr value
    pure (code ++ [.assign name (.operand operand)])
  | .print text arguments => do
    let (code, operands) ← lowerExprs arguments
    pure (code ++ [.print text operands])
  | .choose branches otherwise => do
    let last ← freshLabel
    let labels ← freshLabels branches.length
    match otherwise with
    | none => do
      let conditions ← lowerConditions branches labels
      let bodies ← lowerBranches last branches labels
      pure (conditions ++ .goto last :: (bodies ++ [.label last]))
    | some block => do
      let elseLabel ← freshLabel
      let conditions ← lowerConditions branches labels
      let bodies ← lowerBranches last branches labels
      let elseCode ← lowerBlock block
      pure (conditions ++ .goto elseLabel :: (bodies ++
        .label elseLabel :: (elseCode ++ [.goto last, .label last])))
  | .whileLoop condition body => do
    let start ← freshLabel
    let bodyLabel ← freshLabel
    let last ← freshLabel
    let (code, operand) ← lowerExpr condition
    let bodyCode ← insideLoop ⟨start, last⟩ (lowerBlock body)
    pure (.label start :: (code ++ .branch operand bodyLabel :: .goto last :: .label bodyLabel ::
      (bodyCode ++ [.goto start, .label last])))
  | .doWhile body condition => do
    let start ← freshLabel
    let test ← freshLabel
    let last ← freshLabel
    let bodyCode ← insideLoop ⟨test, last⟩ (lowerBlock body)
    let (code, operand) ← lowerExpr condition
    pure (.label start :: (bodyCode ++ .label test :: (code ++
      [.branch operand start, .label last])))
  | .forLoop counterName count body => do
    let (code, bound) ← lowerBound count
    let counter ← freshTemporary
    let start ← freshLabel
    let next ← freshLabel
    let last ← freshLabel
    let check ← freshTemporary
    let bodyCode ← insideLoop ⟨next, last⟩ (lowerBlock body)
    pure (code ++
      [.assign counter (.operand (.number 0)), .label start,
        .assign check (.operation .ge (.name counter) bound), .branch (.name check) last,
        .assign counterName (.operand (.name counter))] ++
      bodyCode ++
      [.label next, .assign counter (.operation .add (.name counter) (.number 1)), .goto start,
        .label last])
  | .breakLoop => do
    let loop ← innermost .breakOutsideLoop
    pure [.goto loop.breakLabel]
  | .continueLoop => do
    let loop ← innermost .continueOutsideLoop
    pure [.goto loop.continueLabel]
  | .ret none => pure [.ret none]
  | .ret (some value) => do
    let (code, operand) ← lowerExpr value
    pure (code ++ [.ret (some operand)])
  | .block statements => lowerBlock statements
  | .importFile path => pure [.comment ("import " ++ path)]

def lowerBlock : List Stmt → Lower Listing
  | [] => pure []
  | stmt :: rest => do
    let code ← lowerStmt stmt
    let restCode ← lowerBlock rest
    pure (code ++ restCode)

/-- The blocks of branches, each behind its label and with a jump to the end. -/
def lowerBranches (last : String) : List Branch → List String → Lower Listing
  | .mk _ body :: branches, label :: labels => do
    let code ← lowerBlock body
    let rest ← lowerBranches last branches labels
    pure (.label label :: (code ++ .goto last :: rest))
  | _, _ => pure []

end

def lowerProgram (program : Program) : Lower Listing :=
  lowerBlock program.statements

/-- Lower a program in a context of its own. -/
def lower (program : Program) : Except LoweringError Listing :=
  (lowerProgram program .initial).1

end StackPipeline.Lowering
