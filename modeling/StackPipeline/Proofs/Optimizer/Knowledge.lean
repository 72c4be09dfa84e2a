import StackPipeline.Optimizer.ConstantFolding
import StackPipeline.Proofs.Listing.Interpreter

/-!
What constant folding knows, and that it is true.

What is known before an instruction comes from the instructions above it, not from those that run
before it.  It is true all the same wherever control can be, except at a label: there folding forgets
everything, so that nobody asks.
-/

namespace StackPipeline.Optimizer

open Listing (Operand Source Instruction)
open Machine (Value operate?)

/-- What is known at a position, from what is known at the start. -/
def Known.upTo (known : Known) (listing : Listing) (position : Nat) : Known :=
  (listing.take position).foldl Known.next known

def knownAt (listing : Listing) (position : Nat) : Known :=
  Known.upTo .empty listing position

theorem knownAt_succ {listing : Listing} {position : Nat} {instruction : Instruction}
    (h : listing[position]? = some instruction) :
    knownAt listing (position + 1) = (knownAt listing position).next instruction := by
  rw [knownAt, Known.upTo, List.take_add_one, h, Option.toList_some, List.foldl_append]
  rfl

theorem getElem?_foldListing (known : Known) (listing : Listing) (position : Nat) :
    (known.foldListing listing)[position]? =
      listing[position]?.map (known.upTo listing position).foldInstruction := by
  induction listing generalizing known position with
  | nil => rfl
  | cons instruction rest ih =>
      cases position with
      | zero => rfl
      | succ position =>
          rw [Known.foldListing, List.getElem?_cons_succ, List.getElem?_cons_succ, ih]
          rfl

/-- Folding rewrites the instruction at a position with what is known there. -/
theorem getElem?_foldConstants (listing : Listing) (position : Nat) :
    (foldConstants listing)[position]? =
      listing[position]?.map (knownAt listing position).foldInstruction :=
  getElem?_foldListing .empty listing position

section Labels

variable (known : Known)

theorem target?_foldInstruction (instruction : Instruction) :
    (known.foldInstruction instruction).target? = instruction.target? := by
  cases instruction <;> rfl

/-- Folding keeps whatever is not taken from an assignment. -/
theorem filterMap_foldListing {α : Type} {f : Instruction → Option α}
    (hassign : ∀ target source, f (.assign target source) = none) (listing : Listing) :
    (known.foldListing listing).filterMap f = listing.filterMap f := by
  induction listing generalizing known with
  | nil => rfl
  | cons instruction rest ih =>
      have hfold : f (known.foldInstruction instruction) = f instruction := by
        cases instruction with
        | assign target source => rw [hassign target source, Known.foldInstruction, hassign]
        | _ => rfl
      rw [Known.foldListing, List.filterMap_cons, List.filterMap_cons, hfold, ih]

theorem labels_foldListing (listing : Listing) :
    Listing.labels (known.foldListing listing) = Listing.labels listing :=
  filterMap_foldListing known (fun _ _ => rfl) listing

theorem idxOf?_foldListing (listing : Listing) (name : String) :
    (known.foldListing listing).idxOf? (.label name) = listing.idxOf? (.label name) := by
  induction listing generalizing known with
  | nil => rfl
  | cons instruction rest ih =>
      rw [Known.foldListing, List.idxOf?_cons, List.idxOf?_cons, ih]
      cases instruction <;> rfl

/-- Folding keeps labels and jumps as they are. -/
theorem wellLabelled_foldConstants {listing : Listing} (h : Listing.WellLabelled listing) :
    Listing.WellLabelled (foldConstants listing) := by
  have hlabels := labels_foldListing .empty listing
  refine ⟨?_, ?_⟩
  · rw [foldConstants, hlabels]
    exact h.nodup
  · intro folded hmem name htarget
    rw [foldConstants, hlabels]
    obtain ⟨position, hposition⟩ := List.mem_iff_getElem?.1 hmem
    rw [getElem?_foldConstants] at hposition
    obtain ⟨instruction, hinstruction, rfl⟩ := Option.map_eq_some_iff.1 hposition
    rw [target?_foldInstruction] at htarget
    exact h.defined instruction (List.mem_of_getElem? hinstruction) name htarget

end Labels

/-- The variables have the values that are known of them. -/
def Known.Describes (known : Known) (store : Store Value) : Prop :=
  ∀ name value, known.get? name = some value → store.get? name = some (.number value)

namespace Known

theorem describes_empty (store : Store Value) : Known.Describes .empty store := by
  intro name value h
  cases h

variable {known : Known} {world : World}

theorem value_substitute (h : known.Describes world.store) (operand : Operand) :
    (known.substitute operand).value world = operand.value world := by
  cases operand with
  | number value => rfl
  | name x =>
      rw [substitute]
      cases hknown : known.get? x with
      | none => rfl
      | some value =>
          change Value.number value = (world.store.get? x).getD .zero
          rw [h x value hknown]
          rfl

/-- Folding a source computes an operator or only substitutes. -/
theorem foldSource_operation (op : Operator) (left right : Operand) :
    (∃ a b, known.substitute left = .number a ∧ known.substitute right = .number b ∧
      known.foldSource (.operation op left right) = .operand (.number (op.apply a b))) ∨
    known.foldSource (.operation op left right) =
      .operation op (known.substitute left) (known.substitute right) := by
  rw [foldSource]
  cases hleft : known.substitute left with
  | name x => exact .inr rfl
  | number a =>
      cases hright : known.substitute right with
      | name y => exact .inr rfl
      | number b => exact .inl ⟨a, b, rfl, rfl, rfl⟩

/-- An assignment leaves its target known only if it was a literal. -/
theorem describes_assign (h : known.Describes world.store) {target : String} {source : Source}
    {value : Value}
    (hliteral : ∀ number, source = .operand (.number number) → value = .number number) :
    (known.assign target source).Describes (world.assign target value).store := by
  intro name number hname
  rw [World.assign, Store.get?_set]
  have herase : (Store.erase known target).get? name = some number →
      (if target = name then some value else world.store.get? name) = some (.number number) := by
    intro hget
    rw [Store.get?_erase] at hget
    by_cases heq : target = name
    · rw [if_pos heq] at hget
      cases hget
    · rw [if_neg heq] at hget ⊢
      exact h name number hget
  cases source with
  | operation op left right => exact herase hname
  | read prompt => exact herase hname
  | operand operand =>
      cases operand with
      | name x => exact herase hname
      | number literal =>
          rw [assign, Store.get?_set] at hname
          by_cases heq : target = name
          · rw [if_pos heq] at hname ⊢
            rw [hliteral literal rfl, Option.some.inj hname]
          · rw [if_neg heq] at hname ⊢
            exact h name number hname

end Known

end StackPipeline.Optimizer
