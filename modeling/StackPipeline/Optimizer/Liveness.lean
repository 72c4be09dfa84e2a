import StackPipeline.Listing.Basic
import StackPipeline.Store

/-!
Which names may still be read after each instruction.

Control falls through to the next instruction and may also go to the instruction's target.  The
names live after an instruction are those live before its successors; the ones live before it are
those and the names it reads itself, unless it is an assignment that will be dropped.  The sets start
empty, and scans from the last instruction to the first repeat until one of them changes nothing.
-/

namespace StackPipeline.Optimizer

open Listing (Instruction)

/-- A set of names, in ascending order and without repetition, so that equal sets are equal lists. -/
abbrev Names := List String

/-- The union of `x`, the names that `rest` adds, and a set; `x` comes before the names that `rest`
adds. -/
def unionWith (x : String) (rest : Names → Names) : Names → Names
  | [] => x :: rest []
  | y :: set =>
    if x < y then x :: rest (y :: set)
    else if x = y then x :: rest set
    else y :: unionWith x rest set

def Names.union : Names → Names → Names
  | [], set => set
  | x :: names, set => unionWith x (Names.union names) set

/-- The names of a set and of a list in any order. -/
def Names.addAll (set : Names) (names : List String) : Names :=
  names.foldr (fun name set => Names.union [name] set) set

theorem mem_unionWith {x name : String} {rest : Names → Names} {names : Names}
    (h : ∀ set, name ∈ rest set ↔ name ∈ names ∨ name ∈ set) (set : Names) :
    name ∈ unionWith x rest set ↔ name = x ∨ name ∈ names ∨ name ∈ set := by
  induction set with
  | nil => simp [unionWith, h]
  | cons y set ih =>
    by_cases hlt : x < y
    · simp [unionWith, hlt, h]
    · by_cases heq : x = y
      · subst heq
        simp only [unionWith, hlt, ↓reduceIte, List.mem_cons, h]
        constructor
        · rintro (hm | hm | hm)
          · exact .inl hm
          · exact .inr (.inl hm)
          · exact .inr (.inr (.inr hm))
        · rintro (hm | hm | hm | hm)
          · exact .inl hm
          · exact .inr (.inl hm)
          · exact .inl hm
          · exact .inr (.inr hm)
      · simp only [unionWith, hlt, heq, ↓reduceIte, List.mem_cons, ih]
        constructor
        · rintro (hm | hm | hm | hm)
          · exact .inr (.inr (.inl hm))
          · exact .inl hm
          · exact .inr (.inl hm)
          · exact .inr (.inr (.inr hm))
        · rintro (hm | hm | hm | hm)
          · exact .inr (.inl hm)
          · exact .inr (.inr (.inl hm))
          · exact .inl hm
          · exact .inr (.inr (.inr hm))

@[simp] theorem Names.mem_union (names set : Names) (name : String) :
    name ∈ names.union set ↔ name ∈ names ∨ name ∈ set := by
  induction names generalizing set with
  | nil => simp [Names.union]
  | cons x names ih =>
    rw [Names.union, mem_unionWith ih, List.mem_cons, or_assoc]

@[simp] theorem Names.mem_addAll (set : Names) (names : List String) (name : String) :
    name ∈ set.addAll names ↔ name ∈ names ∨ name ∈ set := by
  induction names with
  | nil => simp [Names.addAll]
  | cons head names ih =>
    rw [show set.addAll (head :: names) = Names.union [head] (set.addAll names) from rfl,
      Names.mem_union, ih, List.mem_singleton, List.mem_cons, or_assoc]

/-- Whether elimination keeps an instruction after which these names are live.  A read takes input
and stays; any other assignment stays only for a live target. -/
def isKept (after : Names) : Instruction → Bool
  | .assign target source => source.isRead || target ∈ after
  | _ => true

/-- The names live before an instruction, from those live after it. -/
def transfer (after : Names) (instruction : Instruction) : Names :=
  if isKept after instruction then after.addAll instruction.uses else after

/-- Where each label stands; of several definitions the last counts. -/
def labelIndices : Nat → Listing → Store Nat → Store Nat
  | _, [], table => table
  | index, .label name :: rest, table => labelIndices (index + 1) rest (table.set name index)
  | index, _ :: rest, table => labelIndices (index + 1) rest table

/-- The sets found so far, one for each instruction, and whether this scan changed any. -/
structure Scan where
  before : Array Names
  after : Array Names
  changed : Bool

/-- All sets empty. -/
def Scan.start (size : Nat) : Scan :=
  ⟨Array.replicate size [], Array.replicate size [], false⟩

/-- The names live before the instruction at an index; none past the end. -/
def Scan.liveAt (scan : Scan) (index : Nat) : Names :=
  (scan.before[index]?).getD []

/-- The names live before the target of an instruction; none if it has no target. -/
def Scan.liveAtTarget (scan : Scan) (labels : Store Nat) (instruction : Instruction) : Names :=
  match instruction.target? with
  | none => []
  | some label =>
    match labels.get? label with
    | none => []
    | some index => scan.liveAt index

/-- Bring the sets of one instruction up to date. -/
def Scan.visit (labels : Store Nat) (index : Nat) (instruction : Instruction) (scan : Scan) : Scan :=
  let after := (scan.liveAtTarget labels instruction).union (scan.liveAt (index + 1))
  let before := transfer after instruction
  if before = scan.liveAt index then
    { scan with after := scan.after.setIfInBounds index after }
  else
    ⟨scan.before.setIfInBounds index before, scan.after.setIfInBounds index after, true⟩

/-- Visit the first `count` instructions, the last of them first. -/
def Scan.sweep (labels : Store Nat) (code : Array Instruction) : Nat → Scan → Scan
  | 0, scan => scan
  | count + 1, scan =>
    match code[count]? with
    | none => Scan.sweep labels code count scan
    | some instruction => Scan.sweep labels code count (scan.visit labels count instruction)

/-- Sweep until nothing changes, at most `tries` times more; counts the sweeps. -/
def Scan.settle (labels : Store Nat) (code : Array Instruction) : Nat → Nat → Scan → Scan × Nat
  | 0, sweeps, scan => (scan, sweeps)
  | tries + 1, sweeps, scan =>
    let scan := Scan.sweep labels code code.size { scan with changed := false }
    if scan.changed then Scan.settle labels code tries (sweeps + 1) scan else (scan, sweeps + 1)

/-- Enough sweeps: each but the last adds a name that is read somewhere to some instruction's
set. -/
def sweepBound (listing : Listing) : Nat :=
  listing.length * (listing.flatMap Instruction.uses).length + 1

/-- The names live after each instruction, and the number of sweeps it took to find them. -/
def liveness (listing : Listing) : List Names × Nat :=
  let (scan, sweeps) :=
    Scan.settle (labelIndices 0 listing .empty) listing.toArray (sweepBound listing) 0
      (.start listing.length)
  (scan.after.toList, sweeps)

end StackPipeline.Optimizer
