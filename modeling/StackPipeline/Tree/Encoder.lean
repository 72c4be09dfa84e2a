import StackPipeline.Json.Basic
import StackPipeline.Tree.Schema

/-!
JSON values from trees: every field is written, in the order of the schema, after the kind.
-/

namespace StackPipeline.Tree

open Json (Value)

/-- The node of a kind with these fields. -/
def node (kind : String) (fields : List (String × Value)) : Value :=
  .object (("kind", .string kind) :: fields)

def Expr.encode : Expr → Value
  | .number value => node ExprKind.number.name [("value", .number (.float value))]
  | .boolean value => node ExprKind.boolean.name [("value", .boolean value)]
  | .var name => node ExprKind.var.name [("name", .string name)]
  | .binary left op right =>
    node ExprKind.binary.name
      [("left", left.encode), ("op", .string op.symbol), ("right", right.encode)]
  | .read prompt => node ExprKind.read.name [("prompt", .string prompt)]

/-- The value of an expression that may be absent. -/
def encodeOptional : Option Expr → Value
  | none => .null
  | some expr => expr.encode

mutual

def Stmt.encode : Stmt → Value
  | .declare name value =>
    node StmtKind.declare.name [("name", .string name), ("expr", value.encode)]
  | .assign name value =>
    node StmtKind.assign.name [("name", .string name), ("expr", value.encode)]
  | .print text arguments =>
    node StmtKind.print.name
      [("text", .string text), ("args", .array (arguments.map Expr.encode))]
  | .choose branches none =>
    node StmtKind.choose.name
      [("branches", .array (encodeBranches branches)), ("else_block", .null)]
  | .choose branches (some block) =>
    node StmtKind.choose.name
      [("branches", .array (encodeBranches branches)),
        ("else_block", .array (encodeBlock block))]
  | .whileLoop condition body =>
    node StmtKind.whileLoop.name
      [("condition", condition.encode), ("block", .array (encodeBlock body))]
  | .doWhile body condition =>
    node StmtKind.doWhile.name
      [("block", .array (encodeBlock body)), ("condition", condition.encode)]
  | .forLoop counter count body =>
    node StmtKind.forLoop.name
      [("variable", .string counter), ("count", count.encode),
        ("block", .array (encodeBlock body))]
  | .breakLoop => node StmtKind.breakLoop.name []
  | .continueLoop => node StmtKind.continueLoop.name []
  | .ret value => node StmtKind.ret.name [("expr", encodeOptional value)]
  | .block statements => node StmtKind.block.name [("statements", .array (encodeBlock statements))]
  | .importFile path => node StmtKind.importFile.name [("path", .string path)]

def encodeBlock : List Stmt → List Value
  | [] => []
  | stmt :: rest => stmt.encode :: encodeBlock rest

def encodeBranches : List Branch → List Value
  | [] => []
  | .mk condition body :: rest =>
    .object [("condition", condition.encode), ("block", .array (encodeBlock body))] ::
      encodeBranches rest

end

def Program.encode (program : Program) : Value :=
  .object [("statements", .array (encodeBlock program.statements))]

end StackPipeline.Tree
