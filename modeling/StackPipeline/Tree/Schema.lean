import StackPipeline.Json.Basic
import StackPipeline.Tree.Basic

/-!
The shape of trees in documents: which kinds of nodes there are, and which fields each kind has, in
which order.
-/

namespace StackPipeline.Tree

/-- The shape of a field's value. -/
inductive Shape
  | text
  | number
  | boolean
  | operator
  | expr
  | stmt
  | branch
  | list (item : Shape)
deriving DecidableEq

/-- What a value of a shape becomes. -/
abbrev Shape.Carrier : Shape → Type
  | .text => String
  | .number => Float
  | .boolean => Bool
  | .operator => Operator
  | .expr => Expr
  | .stmt => Stmt
  | .branch => Branch
  | .list item => List item.Carrier

/-- Whether a field must be there. -/
inductive Presence (α : Type)
  | required
  /-- The value of a field that is not there. -/
  | defaulted (value : α)
  /-- A field that is not there, or null, is no value. -/
  | optional

/-- A field. -/
structure Field where
  name : String
  shape : Shape
  presence : Presence shape.Carrier

/-- A field that must be there. -/
def Field.required (name : String) (shape : Shape) : Field := ⟨name, shape, .required⟩

/-- What a field becomes. -/
abbrev Field.Carrier (field : Field) : Type :=
  match field.presence with
  | .required => field.shape.Carrier
  | .defaulted _ => field.shape.Carrier
  | .optional => Option field.shape.Carrier

/-- The field with this value. -/
def Field.accept (field : Field) (value : field.shape.Carrier) : field.Carrier :=
  match field with
  | ⟨_, _, .required⟩ => value
  | ⟨_, _, .defaulted _⟩ => value
  | ⟨_, _, .optional⟩ => some value

/-- The field when it is not there, if it may be missing. -/
def Field.missing? (field : Field) : Option field.Carrier :=
  match field with
  | ⟨_, _, .required⟩ => none
  | ⟨_, _, .defaulted value⟩ => some value
  | ⟨_, _, .optional⟩ => some none

/-- The field with this value, if null stands for no value there and this is null. -/
def Field.ofNull? (field : Field) (value : Json.Value) : Option field.Carrier :=
  match field, value with
  | ⟨_, _, .optional⟩, .null => some none
  | _, _ => none

/-- What fields become together. -/
abbrev Record : List Field → Type
  | [] => Unit
  | field :: fields => field.Carrier × Record fields

/-- Kinds of expressions. -/
inductive ExprKind
  | number
  | boolean
  | var
  | binary
  | read
deriving DecidableEq

namespace ExprKind

def all : List ExprKind := [number, boolean, var, binary, read]

def name : ExprKind → String
  | number => "NumberLiteral"
  | boolean => "BoolLiteral"
  | var => "Variable"
  | binary => "BinaryExpr"
  | read => "Read"

abbrev fields : ExprKind → List Field
  | number => [.required "value" .number]
  | boolean => [.required "value" .boolean]
  | var => [.required "name" .text]
  | binary => [.required "left" .expr, .required "op" .operator, .required "right" .expr]
  | read => [.required "prompt" .text]

def build : (kind : ExprKind) → Record kind.fields → Expr
  | number, (value, _) => .number value
  | boolean, (value, _) => .boolean value
  | var, (name, _) => .var name
  | binary, (left, op, right, _) => .binary left op right
  | read, (prompt, _) => .read prompt

end ExprKind

/-- Kinds of statements. -/
inductive StmtKind
  | declare
  | assign
  | print
  | choose
  | whileLoop
  | doWhile
  | forLoop
  | breakLoop
  | continueLoop
  | ret
  | block
  | importFile
deriving DecidableEq

namespace StmtKind

def all : List StmtKind :=
  [declare, assign, print, choose, whileLoop, doWhile, forLoop, breakLoop, continueLoop, ret, block,
    importFile]

def name : StmtKind → String
  | declare => "VarDecl"
  | assign => "Reassign"
  | print => "Print"
  | choose => "If"
  | whileLoop => "While"
  | doWhile => "DoWhile"
  | forLoop => "For"
  | breakLoop => "Break"
  | continueLoop => "Continue"
  | ret => "Return"
  | block => "Block"
  | importFile => "Import"

abbrev fields : StmtKind → List Field
  | declare => [.required "name" .text, .required "expr" .expr]
  | assign => [.required "name" .text, .required "expr" .expr]
  | print => [.required "text" .text, ⟨"args", .list .expr, .defaulted []⟩]
  | choose =>
    [.required "branches" (.list .branch), ⟨"else_block", .list .stmt, .optional⟩]
  | whileLoop => [.required "condition" .expr, .required "block" (.list .stmt)]
  | doWhile => [.required "block" (.list .stmt), .required "condition" .expr]
  | forLoop =>
    [.required "variable" .text, .required "count" .expr, .required "block" (.list .stmt)]
  | breakLoop => []
  | continueLoop => []
  | ret => [⟨"expr", .expr, .optional⟩]
  | block => [.required "statements" (.list .stmt)]
  | importFile => [.required "path" .text]

def build : (kind : StmtKind) → Record kind.fields → Stmt
  | declare, (name, value, _) => .declare name value
  | assign, (name, value, _) => .assign name value
  | print, (text, arguments, _) => .print text arguments
  | choose, (branches, otherwise, _) => .choose branches otherwise
  | whileLoop, (condition, body, _) => .whileLoop condition body
  | doWhile, (body, condition, _) => .doWhile body condition
  | forLoop, (counter, count, body, _) => .forLoop counter count body
  | breakLoop, _ => .breakLoop
  | continueLoop, _ => .continueLoop
  | ret, (value, _) => .ret value
  | block, (statements, _) => .block statements
  | importFile, (path, _) => .importFile path

end StmtKind

abbrev branchFields : List Field :=
  [.required "condition" .expr, .required "block" (.list .stmt)]

/-- A family of nodes that are told apart by a kind. -/
structure Family (κ : Type) where
  kinds : List κ
  name : κ → String
  /-- What is wanted where a node of the family must stand. -/
  wanted : String
  /-- The name of the family before the name of a kind. -/
  title : String

/-- Expressions. -/
def exprFamily : Family ExprKind :=
  ⟨ExprKind.all, ExprKind.name, "internally tagged enum Expr", "Expr"⟩

/-- Statements. -/
def stmtFamily : Family StmtKind :=
  ⟨StmtKind.all, StmtKind.name, "internally tagged enum Stmt", "Stmt"⟩

end StackPipeline.Tree
