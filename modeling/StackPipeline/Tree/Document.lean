import StackPipeline.Json.Reader
import StackPipeline.Tree.Decoder

/-!
Trees from documents.

A document is read and judged at once: the first problem met on the way from its start to its end is
the answer.  Only the members of an outermost node wait until the node is complete, except its kind,
which is judged where it stands.
-/

namespace StackPipeline.Tree

open Json (DocumentError Problem ReadError Reader Value)

/-- How deep arrays and objects may nest. -/
def maxDepth : Nat := 127

/-- What bounds the arrays and objects of a document: how many elements they have, and how deep they
nest from here on. -/
structure Bounds where
  size : Nat
  depth : Nat

/-- The bounds of a whole document: none of its arrays has as many elements as it has characters. -/
def Bounds.ofDocument (document : List Char) : Bounds := ⟨document.length + 1, maxDepth⟩

/-- The bounds within so many arrays and objects. -/
def Bounds.within (bounds : Bounds) (levels : Nat) : Bounds :=
  { bounds with depth := bounds.depth - levels }

def Bounds.readValue (bounds : Bounds) : Reader Value :=
  Json.readValue .kept bounds.size bounds.depth

/-- The fields of a node as they stand in a document. -/
inductive Fields
  | members (members : List (String × Value))
  | items (items : List Value)

/-- An outermost node: its kind and its fields, not yet judged. -/
structure Outline (κ : Type) where
  kind : κ
  fields : Fields

/-- Read the kind of an outermost node. -/
def Family.readKind {κ : Type} (family : Family κ) : Reader κ := fun text =>
  match Json.skipBlank text with
  | [] => .error .truncated
  | '"' :: rest =>
    match Json.readString .kept rest with
    | .error error => .error error
    | .ok (name, rest) =>
      match family.ofName name with
      | .ok kind => .ok (kind, rest)
      | .error problem => .error (.unfit problem rest)
  | start => .error (Json.mismatch "variant identifier" start)

/-- Read a member of an outermost node onto its kind, if that has been read, and the members before,
the last of them first. -/
def Family.readMember {κ : Type} (family : Family κ) (bounds : Bounds)
    (state : Option κ × List (String × Value)) (name : String) :
    Reader (Option κ × List (String × Value)) := fun text =>
  if name = "kind" then
    match state.1 with
    | some _ => .error (.unfit (.duplicateField "kind") (Json.skipBlank text))
    | none =>
      match Json.readColon text with
      | .error error => .error error
      | .ok rest =>
        match family.readKind rest with
        | .error error => .error error
        | .ok (kind, rest) => .ok ((some kind, state.2), rest)
  else
    match Json.pushMember bounds.readValue state.2 name text with
    | .error error => .error error
    | .ok (members, rest) => .ok ((state.1, members), rest)

/-- Read an outermost node; the bounds are those of what is in it. -/
def Family.readOutline {κ : Type} (family : Family κ) (bounds : Bounds) : Reader (Outline κ) :=
  fun text =>
    match Json.skipBlank text with
    | [] => .error .truncated
    | '\x7b' :: rest =>
      match Json.foldMembers .kept (family.readMember bounds) bounds.size true (none, []) rest with
      | .error error => .error error
      | .ok ((none, _), rest) => .error (.unfit (.missingField "kind") rest)
      | .ok ((some kind, members), rest) => .ok (⟨kind, .members members.reverse⟩, rest)
    | '[' :: rest =>
      match Json.nextElement true rest with
      | .error error => .error error
      | .ok (.inr rest) => .error (.unfit (.missingField "kind") rest)
      | .ok (.inl start) =>
        match family.readKind start with
        | .error error => .error error
        | .ok (kind, rest) =>
          match Json.foldElements (Json.pushElement bounds.readValue) bounds.size false []
              rest with
          | .error error => .error error
          | .ok (items, rest) => .ok (⟨kind, .items items.reverse⟩, rest)
    | start => .error (Json.mismatch family.wanted start)

/-- The record of an outermost node. -/
def Fields.record (title : String) (fields : List Field) :
    Fields → Except Problem (Record fields)
  | .members present => finishDraft (decodeMembers (.empty fields) present)
  | .items present => decodeItems title fields.length 0 fields present

def Outline.expr (outline : Outline ExprKind) : Except Problem Expr :=
  build outline.kind.build
    (outline.fields.record (exprFamily.variantTitle outline.kind) outline.kind.fields)

def Outline.stmt (outline : Outline StmtKind) : Except Problem Stmt :=
  build outline.kind.build
    (outline.fields.record (stmtFamily.variantTitle outline.kind) outline.kind.fields)

/-- Where a problem within an element of an array is noticed: behind what follows the element, a
closing bracket or a comma with blanks. -/
def behindElement (text : List Char) : List Char :=
  match Json.skipBlank text with
  | ']' :: rest => rest
  | ',' :: rest => Json.skipBlank rest
  | rest => rest

/-- Read one more statement onto those before, the last of them first. -/
def pushStmt (bounds : Bounds) (stmts : List Stmt) : Reader (List Stmt) := fun text =>
  match stmtFamily.readOutline bounds text with
  | .error error => .error error
  | .ok (outline, rest) =>
    match outline.stmt with
    | .ok stmt => .ok (stmt :: stmts, rest)
    | .error problem => .error (.unfit problem (behindElement rest))

/-- Read the statements of a program; the bounds are those of what is in a statement. -/
def readStatements (bounds : Bounds) : Reader (List Stmt) := fun text =>
  match Json.skipBlank text with
  | [] => .error .truncated
  | '[' :: rest =>
    match Json.foldElements (pushStmt bounds) bounds.size true [] rest with
    | .error error => .error error
    | .ok (stmts, rest) => .ok (stmts.reverse, rest)
  | start => .error (Json.mismatch (Shape.list .stmt).wanted start)

/-- Read a member of a program onto its statements, if those have been read. -/
def readProgramMember (bounds : Bounds) (found : Option (List Stmt)) (name : String) :
    Reader (Option (List Stmt)) := fun text =>
  if name = "statements" then
    match found with
    | some _ => .error (.unfit (.duplicateField "statements") (Json.skipBlank text))
    | none =>
      match Json.readColon text with
      | .error error => .error error
      | .ok rest =>
        match readStatements bounds rest with
        | .error error => .error error
        | .ok (stmts, rest) => .ok (some stmts, rest)
  else
    match Json.readColon text with
    | .error error => .error error
    | .ok rest =>
      match Json.skipValue rest with
      | .error error => .error error
      | .ok rest => .ok (found, rest)

/-- Read a program: an object with the member `statements`, or an array of nothing but the
statements. -/
def readProgram (bounds : Bounds) : Reader Program := fun text =>
  match Json.skipBlank text with
  | [] => .error .truncated
  | '\x7b' :: rest =>
    match Json.foldMembers .kept (readProgramMember (bounds.within 3)) bounds.size true none rest with
    | .error error => .error error
    | .ok (none, rest) => .error (.unfit (.missingField "statements") rest)
    | .ok (some stmts, rest) => .ok (⟨stmts⟩, rest)
  | '[' :: rest =>
    match Json.nextElement true rest with
    | .error error => .error error
    | .ok (.inr rest) =>
      .error (.unfit (.wrongLength 0 "struct Program with 1 element") rest)
    | .ok (.inl start) =>
      match readStatements (bounds.within 3) start with
      | .error error => .error error
      | .ok (stmts, rest) =>
        match Json.skipBlank rest with
        | [] => .error .truncated
        | ']' :: rest => .ok (⟨stmts⟩, rest)
        | _ => .error .grammar
  | start => .error (Json.mismatch "struct Program" start)

def readExpr (bounds : Bounds) : Reader Expr := fun text =>
  match exprFamily.readOutline (bounds.within 1) text with
  | .error error => .error error
  | .ok (outline, rest) =>
    match outline.expr with
    | .ok expr => .ok (expr, rest)
    | .error problem => .error (.unfit problem rest)

def readStmt (bounds : Bounds) : Reader Stmt := fun text =>
  match stmtFamily.readOutline (bounds.within 1) text with
  | .error error => .error error
  | .ok (outline, rest) =>
    match outline.stmt with
    | .ok stmt => .ok (stmt, rest)
    | .error problem => .error (.unfit problem rest)

/-- Read a document that holds one thing. -/
def readDocument {α : Type} (read : Bounds → Reader α) (document : String) :
    Except DocumentError α :=
  let text := document.toList
  let result :=
    match read (.ofDocument text) text with
    | .ok result => Json.finish result
    | .error error => .error error
  match result with
  | .ok value => .ok value
  | .error error => .error (error.within text)

/-- Read a program from its document. -/
def Program.ofDocument (document : String) : Except DocumentError Program :=
  readDocument readProgram document

def Expr.ofDocument (document : String) : Except DocumentError Expr :=
  readDocument readExpr document

def Stmt.ofDocument (document : String) : Except DocumentError Stmt :=
  readDocument readStmt document

end StackPipeline.Tree
