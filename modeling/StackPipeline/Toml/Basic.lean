/-!
Values and tables of TOML documents.
-/

namespace StackPipeline.Toml

/-- A value. -/
inductive Value
  | string (text : String)
  | integer (value : Int)
  | float (text : String)
  | boolean (value : Bool)
  /-- A date, a time or both. -/
  | moment (text : String)
  | array (items : List Value)
  | table (entries : List (String × Value))

/-- How a table came about. -/
structure Origin where
  /-- Not through a header of its own, but on the way to another table. -/
  implicit : Bool
  /-- Through a key with dots. -/
  dotted : Bool

/-- What a key stands for while a document is read. -/
inductive Item
  /-- A value, to which nothing can be added. -/
  | value (value : Value)
  | table (origin : Origin) (entries : List (String × Item))
  /-- Tables with headers between double brackets, the last of them first. -/
  | tables (elements : List (List (String × Item)))

/-- The entries of a table that is being read. -/
abbrev Entries := List (String × Item)

mutual

def Item.toValue : Item → Value
  | .value v => v
  | .table _ entries => .table (entriesToValues entries)
  | .tables elements => .array (elementsToValues elements).reverse

def entriesToValues : List (String × Item) → List (String × Value)
  | [] => []
  | (key, item) :: rest => (key, item.toValue) :: entriesToValues rest

def elementsToValues : List (List (String × Item)) → List Value
  | [] => []
  | entries :: rest => .table (entriesToValues entries) :: elementsToValues rest

end

def Entries.find? (entries : Entries) (key : String) : Option Item :=
  match entries with
  | [] => none
  | entry :: rest => if entry.1 = key then some entry.2 else Entries.find? rest key

def Entries.put (entries : Entries) (key : String) (item : Item) : Entries :=
  match entries with
  | [] => [(key, item)]
  | entry :: rest => if entry.1 = key then (key, item) :: rest else entry :: Entries.put rest key item

def Entries.remove (entries : Entries) (key : String) : Entries :=
  entries.filter fun entry => entry.1 != key

/-- Change the table at a path and answer with what the change gives.  Tables on the way are made if
they are not there; the last element of an array of tables stands for the array.  A path within a key
(`dotted`) leads only through tables that have no header. -/
def Entries.update {α : Type} (dotted : Bool) (change : Origin → Entries → Option (Entries × α)) :
    List String → Origin → Entries → Option (Entries × α)
  | [], origin, entries => change origin entries
  | key :: path, _, entries =>
    match entries.find? key with
    | none =>
      match Entries.update dotted change path ⟨true, dotted⟩ [] with
      | some (inner, result) => some (entries.put key (.table ⟨true, dotted⟩ inner), result)
      | none => none
    | some (.value _) => none
    | some (.tables []) => none
    | some (.tables (last :: before)) =>
      match Entries.update dotted change path ⟨false, false⟩ last with
      | some (inner, result) => some (entries.put key (.tables (inner :: before)), result)
      | none => none
    | some (.table origin inner) =>
      if dotted && !origin.implicit then none
      else match Entries.update dotted change path origin inner with
        | some (inner, result) => some (entries.put key (.table origin inner), result)
        | none => none

/-- Add an item under a key, which must be new.  With dots before it the key must lead to a table
made by dots. -/
def Entries.add (path : List String) (key : String) (item : Item) (entries : Entries) :
    Option Entries :=
  let change (origin : Origin) (entries : Entries) : Option (Entries × Unit) :=
    if origin.dotted == path.isEmpty then none
    else match entries.find? key with
      | some _ => none
      | none => some (entries.put key item, ())
  match Entries.update true change path ⟨false, false⟩ entries with
  | some (entries, _) => some entries
  | none => none

end StackPipeline.Toml
