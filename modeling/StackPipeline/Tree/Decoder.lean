import StackPipeline.Json.Problem
import StackPipeline.Tree.Schema

/-!
Trees from JSON values.

A node is an object with a member `kind`, or an array whose first element is the kind and whose other
elements are the fields in order.  Members are judged in the order in which they stand; fields that
are not there are noticed last, in the order of the schema; members of other names do not count.
-/

namespace StackPipeline.Tree

open Json (Problem Value)

def Family.ofName {κ : Type} (family : Family κ) (name : String) : Except Problem κ :=
  match family.kinds.find? fun kind => family.name kind == name with
  | some kind => .ok kind
  | none => .error (.unknownVariant name (family.kinds.map family.name))

/-- The kind a value stands for: its name, or its number. -/
def Family.ofValue {κ : Type} (family : Family κ) : Value → Except Problem κ
  | .string name => family.ofName name
  | .number (.integer index) =>
    if index < 0 then .error (.wrongType (.number (.integer index)) "variant identifier")
    else match family.kinds[index.toNat]? with
      | some kind => .ok kind
      | none => .error (.unknownIndex index family.kinds.length)
  | value => .error (.wrongType value.found "variant identifier")

/-- The kind of a node that is written as an object. -/
def Family.ofMembers {κ : Type} (family : Family κ) :
    Option κ → List (String × Value) → Except Problem κ
  | none, [] => .error (.missingField "kind")
  | some kind, [] => .ok kind
  | found, (name, value) :: rest =>
    if name = "kind" then
      match found with
      | some _ => .error (.duplicateField "kind")
      | none =>
        match family.ofValue value with
        | .ok kind => family.ofMembers (some kind) rest
        | .error problem => .error problem
    else family.ofMembers found rest

def operatorOfName (symbol : String) : Except Problem Operator :=
  match Operator.ofSymbol? symbol with
  | some op => .ok op
  | none => .error (.unknownVariant symbol (Operator.all.map Operator.symbol))

/-- The operator of a value: its symbol, or an object with the symbol as its only name. -/
def operatorOfValue : Value → Except Problem Operator
  | .string symbol => operatorOfName symbol
  | .object [(symbol, value)] =>
    match operatorOfName symbol with
    | .error problem => .error problem
    | .ok op =>
      match value with
      | .null => .ok op
      | .object [] => .ok op
      | other => .error (.wrongType other.found "unit")
  | .object _ => .error .notSingle
  | value => .error (.wrongType value.found "string or map")

/-- Fields of which some have been read. -/
abbrev Draft : List Field → Type
  | [] => Unit
  | field :: fields => Option field.Carrier × Draft fields

def Draft.empty : (fields : List Field) → Draft fields
  | [] => ()
  | _ :: fields => (none, Draft.empty fields)

/-- Read the field with a name; a name that is no field's leaves the draft as it is. -/
def Draft.put (name : String) (read : (field : Field) → Except Problem field.Carrier) :
    {fields : List Field} → Draft fields → Except Problem (Draft fields)
  | [], draft => .ok draft
  | field :: _, (slot, rest) =>
    if field.name = name then
      match slot with
      | some _ => .error (.duplicateField name)
      | none =>
        match read field with
        | .ok value => .ok (some value, rest)
        | .error problem => .error problem
    else
      match Draft.put name read rest with
      | .ok rest => .ok (slot, rest)
      | .error problem => .error problem

/-- The record of a draft in which only fields that may be missing are not there. -/
def Draft.complete : {fields : List Field} → Draft fields → Except Problem (Record fields)
  | [], _ => .ok ()
  | field :: _, (slot, rest) =>
    match slot <|> field.missing? with
    | none => .error (.missingField field.name)
    | some value =>
      match Draft.complete rest with
      | .ok values => .ok (value, values)
      | .error problem => .error problem

/-- A number of things, with the plural where it is due. -/
def counted (count : Nat) (thing : String) : String :=
  if count = 1 then s!"{count} {thing}" else s!"{count} {thing}s"

/-- The record of the fields from the `index`-th on when no elements are left for them. -/
def Record.ofNothing (title : String) (size : Nat) :
    Nat → (fields : List Field) → Except Problem (Record fields)
  | _, [] => .ok ()
  | index, field :: fields =>
    match field.missing? with
    | none => .error (.wrongLength index (title ++ " with " ++ counted size "element"))
    | some value =>
      match Record.ofNothing title size (index + 1) fields with
      | .ok values => .ok (value, values)
      | .error problem => .error problem

/-- What is wanted in place of a value that is no node. -/
def Shape.wanted : Shape → String
  | .text => "a string"
  | .number => "f64"
  | .boolean => "a boolean"
  | .operator => "string or map"
  | .expr => exprFamily.wanted
  | .stmt => stmtFamily.wanted
  | .branch => "struct Branch"
  | .list _ => "a sequence"

/-- The text before the number of elements in messages about nodes. -/
def Family.variantTitle {κ : Type} (family : Family κ) (kind : κ) : String :=
  "struct variant " ++ family.title ++ "::" ++ family.name kind

/-- Apply a function to what was read. -/
def build {α β : Type} (f : α → β) : Except Problem α → Except Problem β
  | .ok value => .ok (f value)
  | .error problem => .error problem

/-- The record of what was drafted. -/
def finishDraft {fields : List Field} : Except Problem (Draft fields) →
    Except Problem (Record fields)
  | .ok draft => draft.complete
  | .error problem => .error problem

mutual

/-- Read a value of a shape. -/
def decode : (shape : Shape) → Value → Except Problem shape.Carrier
  | .text, .string text => .ok text
  | .number, .number numeral => .ok numeral.toFloat
  | .boolean, .boolean value => .ok value
  | .operator, value => operatorOfValue value
  | .expr, .object members =>
    match exprFamily.ofMembers none members with
    | .error problem => .error problem
    | .ok kind => build kind.build (finishDraft (decodeMembers (.empty kind.fields) members))
  | .expr, .array (tag :: items) =>
    match exprFamily.ofValue tag with
    | .error problem => .error problem
    | .ok kind =>
      build kind.build
        (decodeItems (exprFamily.variantTitle kind) kind.fields.length 0 kind.fields items)
  | .stmt, .object members =>
    match stmtFamily.ofMembers none members with
    | .error problem => .error problem
    | .ok kind => build kind.build (finishDraft (decodeMembers (.empty kind.fields) members))
  | .stmt, .array (tag :: items) =>
    match stmtFamily.ofValue tag with
    | .error problem => .error problem
    | .ok kind =>
      build kind.build
        (decodeItems (stmtFamily.variantTitle kind) kind.fields.length 0 kind.fields items)
  | .expr, .array [] => .error (.missingField "kind")
  | .stmt, .array [] => .error (.missingField "kind")
  | .branch, .object members =>
    build (fun record => .mk record.1 record.2.1)
      (finishDraft (decodeMembers (.empty branchFields) members))
  | .branch, .array items =>
    build (fun record => .mk record.1 record.2.1)
      (decodeItems "struct Branch" branchFields.length 0 branchFields items)
  | .list item, .array items => decodeList item items
  | shape, value => .error (.wrongType value.found shape.wanted)

def decodeList (shape : Shape) : List Value → Except Problem (List shape.Carrier)
  | [] => .ok []
  | value :: rest =>
    match decode shape value with
    | .error problem => .error problem
    | .ok first =>
      match decodeList shape rest with
      | .error problem => .error problem
      | .ok others => .ok (first :: others)

/-- Read members into a draft; the member `kind` has been read before. -/
def decodeMembers {fields : List Field} (draft : Draft fields) :
    List (String × Value) → Except Problem (Draft fields)
  | [] => .ok draft
  | (name, value) :: rest =>
    let read := fun field : Field =>
      match field.ofNull? value with
      | some value => .ok value
      | none => build field.accept (decode field.shape value)
    if name = "kind" then decodeMembers draft rest
    else match draft.put name read with
      | .error problem => .error problem
      | .ok draft => decodeMembers draft rest

/-- Read the fields from the `index`-th on from elements in the same order. -/
def decodeItems (title : String) (size index : Nat) :
    (fields : List Field) → List Value → Except Problem (Record fields)
  | [], [] => .ok ()
  | [], rest =>
    .error (.wrongLength (index + rest.length) (counted index "element" ++ " in sequence"))
  | fields, [] => Record.ofNothing title size index fields
  | field :: fields, value :: rest =>
    let read : Except Problem field.Carrier :=
      match field.ofNull? value with
      | some value => .ok value
      | none => build field.accept (decode field.shape value)
    match read with
    | .error problem => .error problem
    | .ok first =>
      match decodeItems title size (index + 1) fields rest with
      | .error problem => .error problem
      | .ok others => .ok (first, others)

end

end StackPipeline.Tree
