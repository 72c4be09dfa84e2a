import StackPipeline.Listing.Basic
import StackPipeline.Store

/-!
Constant propagation and folding in one pass from the first instruction to the last.

What is known is a map from names to numbers.  A name that is known is replaced by its number, an
operator between two numbers by its result.  Control can reach a label from anywhere, so nothing is
known after one.
-/

namespace StackPipeline.Optimizer

open Listing (Operand Source Instruction)

/-- The numbers that names are known to hold. -/
abbrev Known := Store Float

/-- How much a folding pass did. -/
structure FoldCounts where
  /-- Names replaced by numbers. -/
  substituted : Nat
  /-- Operators replaced by their results. -/
  folded : Nat
  /-- Known names given up at labels. -/
  invalidations : Nat
deriving DecidableEq

def FoldCounts.zero : FoldCounts := ⟨0, 0, 0⟩

def FoldCounts.add (a b : FoldCounts) : FoldCounts :=
  ⟨a.substituted + b.substituted, a.folded + b.folded, a.invalidations + b.invalidations⟩

/-- Replace a known name by its number. -/
def Known.substitute (known : Known) : Operand → Operand
  | .number value => .number value
  | .name x =>
    match known.get? x with
    | some value => .number value
    | none => .name x

/-- Substitute in a source, and compute an operator between two numbers. -/
def Known.foldSource (known : Known) : Source → Source
  | .operand value => .operand (known.substitute value)
  | .operation op left right =>
    match known.substitute left, known.substitute right with
    | .number a, .number b => .operand (.number (op.apply a b))
    | left, right => .operation op left right
  | .read prompt => .read prompt

/-- What is known after a name is assigned a folded source. -/
def Known.assign (known : Known) (target : String) : Source → Known
  | .operand (.number value) => known.set target value
  | _ => known.erase target

def Known.foldInstruction (known : Known) : Instruction → Instruction
  | .assign target source => .assign target (known.foldSource source)
  | instruction => instruction

/-- What is known after an instruction. -/
def Known.next (known : Known) : Instruction → Known
  | .assign target source => known.assign target (known.foldSource source)
  | .label _ => .empty
  | _ => known

/-- Fold a listing from what is known at its start. -/
def Known.foldListing (known : Known) : Listing → Listing
  | [] => []
  | instruction :: rest =>
    known.foldInstruction instruction :: (known.next instruction).foldListing rest

/-- Whether an operand is a known name. -/
def Known.replaces (known : Known) : Operand → Bool
  | .number _ => false
  | .name x => (known.get? x).isSome

/-- Whether a source is an operator whose result is known. -/
def Known.computes (known : Known) : Source → Bool
  | .operation _ left right =>
    (known.substitute left).number?.isSome && (known.substitute right).number?.isSome
  | _ => false

/-- What folding one instruction counts as. -/
def Known.countInstruction (known : Known) : Instruction → FoldCounts
  | .assign _ source =>
    ⟨source.operands.countP known.replaces, if known.computes source then 1 else 0, 0⟩
  | .label _ => ⟨0, 0, known.size⟩
  | _ => .zero

def Known.countListing (known : Known) : Listing → FoldCounts
  | [] => .zero
  | instruction :: rest =>
    (known.countInstruction instruction).add ((known.next instruction).countListing rest)

/-- Propagate and fold the constants of a listing. -/
def foldConstants (listing : Listing) : Listing :=
  Known.foldListing .empty listing

def foldCounts (listing : Listing) : FoldCounts :=
  Known.countListing .empty listing

end StackPipeline.Optimizer
