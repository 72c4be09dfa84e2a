/-!
Finite maps from names, kept as a list of entries in which each name occurs once.
-/

namespace StackPipeline

/-- A finite map from names. -/
structure Store (α : Type) where
  entries : List (String × α)
deriving DecidableEq

namespace Store

variable {α : Type}

def empty : Store α := ⟨[]⟩

def findIn (name : String) : List (String × α) → Option α
  | [] => none
  | entry :: rest => if entry.1 = name then some entry.2 else findIn name rest

/-- Replace the entry of a name, or add one at the end. -/
def setIn (name : String) (value : α) : List (String × α) → List (String × α)
  | [] => [(name, value)]
  | entry :: rest =>
    if entry.1 = name then (name, value) :: rest else entry :: setIn name value rest

def get? (store : Store α) (name : String) : Option α :=
  findIn name store.entries

def set (store : Store α) (name : String) (value : α) : Store α :=
  ⟨setIn name value store.entries⟩

/-- Forget a name. -/
def erase (store : Store α) (name : String) : Store α :=
  ⟨store.entries.filter fun entry => entry.1 != name⟩

/-- The number of names that have a value. -/
def size (store : Store α) : Nat :=
  store.entries.length

@[simp] theorem get?_empty (name : String) : (empty : Store α).get? name = none := rfl

theorem findIn_setIn (name other : String) (value : α) (entries : List (String × α)) :
    findIn other (setIn name value entries) =
      if name = other then some value else findIn other entries := by
  induction entries with
  | nil => simp [setIn, findIn]
  | cons entry rest ih =>
    by_cases h : entry.1 = name
    · by_cases ho : name = other <;> simp_all [setIn, findIn]
    · by_cases ho : name = other <;> simp_all [setIn, findIn]

/-- After setting a name it has the new value and every other name the old one. -/
theorem get?_set (store : Store α) (name other : String) (value : α) :
    (store.set name value).get? other = if name = other then some value else store.get? other :=
  findIn_setIn name other value store.entries

theorem findIn_filter (name other : String) (entries : List (String × α)) :
    findIn other (entries.filter fun entry => entry.1 != name) =
      if name = other then none else findIn other entries := by
  induction entries with
  | nil => simp [findIn]
  | cons entry rest ih =>
    by_cases h : entry.1 = name
    · by_cases ho : name = other <;> simp_all [findIn]
    · by_cases ho : name = other <;> simp_all [findIn]

/-- A forgotten name has no value and every other name keeps its own. -/
theorem get?_erase (store : Store α) (name other : String) :
    (store.erase name).get? other = if name = other then none else store.get? other :=
  findIn_filter name other store.entries

end Store

end StackPipeline
