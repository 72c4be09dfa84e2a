import StackPipeline.Machine.Value

/-!
The stack of the machine, which knows its depth.
-/

namespace StackPipeline.Machine

/-- A stack of values, the topmost first. -/
structure Stack where
  values : List Value
  depth : Nat
  depth_eq : depth = values.length

namespace Stack

def empty : Stack := ⟨[], 0, rfl⟩

def push (stack : Stack) (value : Value) : Stack :=
  ⟨value :: stack.values, stack.depth + 1, by simp [stack.depth_eq]⟩

/-- The topmost value and the stack below it. -/
def pop? : Stack → Option (Value × Stack)
  | ⟨[], _, _⟩ => none
  | ⟨value :: rest, depth, h⟩ => some (value, ⟨rest, depth - 1, by simp [h]⟩)

/-- Stacks are equal as soon as their values are. -/
@[ext] theorem ext {a b : Stack} (h : a.values = b.values) : a = b := by
  cases a with
  | mk values depth depth_eq =>
    cases b with
    | mk others other other_eq =>
      subst depth_eq other_eq
      simp only at h
      subst h
      rfl

@[simp] theorem values_empty : empty.values = [] := rfl

@[simp] theorem values_push (stack : Stack) (value : Value) :
    (stack.push value).values = value :: stack.values := rfl

@[simp] theorem pop?_empty : empty.pop? = none := rfl

@[simp] theorem pop?_push (stack : Stack) (value : Value) :
    (stack.push value).pop? = some (value, stack) := rfl

end Stack

end StackPipeline.Machine
