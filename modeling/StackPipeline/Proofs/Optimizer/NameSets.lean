import Mathlib.Data.List.Sort
import StackPipeline.Optimizer.Liveness

/-!
Sets of names as ascending lists, and what an instruction makes of the set of live names.
-/

namespace StackPipeline.Optimizer

open Listing (Instruction)

/-- The names stand in ascending order and without repetition. -/
def Names.Ascending (set : Names) : Prop :=
  List.Pairwise (· < ·) set

theorem ascending_unionWith {x : String} {rest : Names → Names} {names : Names}
    (hmem : ∀ set name, name ∈ rest set ↔ name ∈ names ∨ name ∈ set)
    (hrest : ∀ set : Names, set.Ascending → (rest set).Ascending)
    (hfirst : ∀ name ∈ names, x < name) {set : Names} (hset : set.Ascending) :
    (unionWith x rest set).Ascending := by
  have hcons : ∀ set : Names, set.Ascending → (∀ name ∈ set, x < name) →
      Names.Ascending (x :: rest set) := by
    intro set hset hlt
    refine List.pairwise_cons.2 ⟨?_, hrest set hset⟩
    intro name hname
    rcases (hmem set name).1 hname with hname | hname
    · exact hfirst name hname
    · exact hlt name hname
  induction set with
  | nil => exact hcons [] hset (fun name hname => absurd hname List.not_mem_nil)
  | cons y set ih =>
      obtain ⟨hy, htail⟩ := List.pairwise_cons.1 hset
      rw [unionWith]
      by_cases hlt : x < y
      · rw [if_pos hlt]
        apply hcons _ hset
        intro name hname
        rcases List.mem_cons.1 hname with rfl | hname
        · exact hlt
        · exact String.lt_trans hlt (hy name hname)
      · rw [if_neg hlt]
        by_cases heq : x = y
        · subst heq
          rw [if_pos rfl]
          exact hcons set htail hy
        · rw [if_neg heq]
          have hyx : y < x := by
            apply String.not_le.1
            intro hle
            exact heq (String.le_antisymm hle (String.not_lt.1 hlt))
          refine List.pairwise_cons.2 ⟨?_, ih htail⟩
          intro name hname
          rcases (mem_unionWith (hmem · name) set).1 hname with rfl | hname | hname
          · exact hyx
          · exact String.lt_trans hyx (hfirst name hname)
          · exact hy name hname

namespace Names

theorem Ascending.union {names set : Names} (hnames : names.Ascending) (hset : set.Ascending) :
    (names.union set).Ascending := by
  induction names generalizing set with
  | nil => exact hset
  | cons x names ih =>
      obtain ⟨hfirst, hrest⟩ := List.pairwise_cons.1 hnames
      exact ascending_unionWith (fun set name => mem_union names set name)
        (fun set hset => ih hrest hset) hfirst hset

theorem Ascending.addAll {set : Names} (hset : set.Ascending) (names : List String) :
    (set.addAll names).Ascending := by
  induction names with
  | nil => exact hset
  | cons x names ih => exact Ascending.union (List.pairwise_singleton _ x) ih

/-- Ascending lists with the same names are equal. -/
theorem Ascending.eq_of_subset {set other : Names} (hset : set.Ascending) (hother : other.Ascending)
    (h : set ⊆ other) (hreverse : other ⊆ set) : set = other :=
  List.Subset.antisymm_of_pairwise hset hother h hreverse

end Names

theorem mem_transfer {after : Names} {instruction : Instruction} {name : String} :
    name ∈ transfer after instruction ↔
      name ∈ after ∨ isKept after instruction = true ∧ name ∈ instruction.uses := by
  rw [transfer]
  by_cases hkept : isKept after instruction = true
  · rw [if_pos hkept, Names.mem_addAll, or_comm]
    simp [hkept]
  · rw [if_neg hkept]
    simp [hkept]

theorem subset_transfer (after : Names) (instruction : Instruction) :
    after ⊆ transfer after instruction :=
  fun _ hname => mem_transfer.2 (.inl hname)

theorem isKept_mono {after later : Names} (h : after ⊆ later) {instruction : Instruction}
    (hkept : isKept after instruction = true) : isKept later instruction = true := by
  cases instruction with
  | assign target source =>
      simp only [isKept, Bool.or_eq_true, decide_eq_true_eq] at hkept ⊢
      rcases hkept with hread | hmem
      · exact .inl hread
      · exact .inr (h hmem)
  | _ => rfl

/-- The more is live after an instruction, the more is live before it. -/
theorem transfer_mono {after later : Names} (h : after ⊆ later) (instruction : Instruction) :
    transfer after instruction ⊆ transfer later instruction := by
  intro name hname
  rw [mem_transfer] at hname ⊢
  rcases hname with hmem | ⟨hkept, huses⟩
  · exact .inl (h hmem)
  · exact .inr ⟨isKept_mono h hkept, huses⟩

theorem ascending_transfer {after : Names} (h : after.Ascending) (instruction : Instruction) :
    (transfer after instruction).Ascending := by
  rw [transfer]
  split
  · exact h.addAll _
  · exact h

end StackPipeline.Optimizer
