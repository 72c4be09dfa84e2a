import StackPipeline.Optimizer.DeadCode
import StackPipeline.Proofs.Listing.Interpreter

/-!
Where the instructions that elimination keeps stand afterwards.
-/

namespace StackPipeline.Optimizer

open Listing (Instruction)

/-- The position that an instruction, or the next one that is kept, has among those kept. -/
def survivors : Listing → List Names → Nat → Nat
  | instruction :: rest, after :: live, position + 1 =>
    (if isKept after instruction then 1 else 0) + survivors rest live position
  | _, _, _ => 0

variable {listing : Listing} {live : List Names} {position : Nat} {instruction : Instruction}
  {after : Names}

theorem survivors_zero (listing : Listing) (live : List Names) : survivors listing live 0 = 0 := by
  cases listing <;> cases live <;> rfl

theorem survivors_succ (h : listing[position]? = some instruction)
    (hlive : live[position]? = some after) :
    survivors listing live (position + 1) =
      survivors listing live position + if isKept after instruction then 1 else 0 := by
  induction listing generalizing live position with
  | nil => simp at h
  | cons first rest ih =>
      cases live with
      | nil => simp at hlive
      | cons names live =>
          cases position with
          | zero =>
              obtain rfl := Option.some.inj h
              obtain rfl := Option.some.inj hlive
              rw [survivors, survivors_zero, survivors_zero, Nat.add_comm]
          | succ position =>
              rw [survivors, survivors, ih h hlive, Nat.add_assoc]

/-- A kept instruction stands where the survivors before it say. -/
theorem getElem?_keepLive (h : listing[position]? = some instruction)
    (hlive : live[position]? = some after) (hkept : isKept after instruction = true) :
    (keepLive listing live)[survivors listing live position]? = some instruction := by
  induction listing generalizing live position with
  | nil => simp at h
  | cons first rest ih =>
      cases live with
      | nil => simp at hlive
      | cons names live =>
          rw [keepLive]
          cases position with
          | zero =>
              obtain rfl := Option.some.inj h
              obtain rfl := Option.some.inj hlive
              rw [survivors_zero, if_pos hkept]
              rfl
          | succ position =>
              rw [survivors]
              by_cases hfirst : isKept names first = true
              · rw [if_pos hfirst, if_pos hfirst, Nat.add_comm]
                exact ih h hlive
              · rw [if_neg hfirst, if_neg hfirst, Nat.zero_add]
                exact ih h hlive

/-- What is left at some position was kept at a position with so many survivors before it. -/
theorem exists_kept_of_getElem?_keepLive {index : Nat}
    (h : (keepLive listing live)[index]? = some instruction) :
    ∃ position after, listing[position]? = some instruction ∧ live[position]? = some after ∧
      isKept after instruction = true ∧ survivors listing live position = index := by
  induction listing generalizing live index with
  | nil => simp [keepLive] at h
  | cons first rest ih =>
      cases live with
      | nil => simp [keepLive] at h
      | cons names live =>
          rw [keepLive] at h
          by_cases hkept : isKept names first = true
          · rw [if_pos hkept] at h
            cases index with
            | zero =>
                obtain rfl := Option.some.inj h
                exact ⟨0, names, rfl, rfl, hkept, survivors_zero _ _⟩
            | succ index =>
                obtain ⟨position, after, hposition, hlive, hstays, rfl⟩ := ih h
                refine ⟨position + 1, after, hposition, hlive, hstays, ?_⟩
                rw [survivors, if_pos hkept, Nat.add_comm]
          · rw [if_neg hkept] at h
            obtain ⟨position, after, hposition, hlive, hstays, rfl⟩ := ih h
            refine ⟨position + 1, after, hposition, hlive, hstays, ?_⟩
            rw [survivors, if_neg hkept, Nat.zero_add]

theorem survivors_mono (listing : Listing) (live : List Names) {first last : Nat}
    (h : first ≤ last) : survivors listing live first ≤ survivors listing live last := by
  induction listing generalizing live first last with
  | nil => exact Nat.le_refl 0
  | cons instruction rest ih =>
      cases live with
      | nil => exact Nat.le_refl 0
      | cons names live =>
          cases first with
          | zero => simp [survivors_zero]
          | succ first =>
              obtain ⟨last, rfl⟩ := Nat.exists_eq_add_of_le' h
              rw [← Nat.add_assoc]
              exact Nat.add_le_add_left (ih live (Nat.le_add_left first last)) _

/-- Where every instruction is kept nothing changes. -/
theorem keepLive_eq_self
    (h : ∀ (position : Nat) instruction, listing[position]? = some instruction →
      ∃ after, live[position]? = some after ∧ isKept after instruction = true) :
    keepLive listing live = listing := by
  induction listing generalizing live with
  | nil => rfl
  | cons first rest ih =>
      obtain ⟨after, hafter, hkept⟩ := h 0 first rfl
      cases live with
      | nil => simp at hafter
      | cons names live =>
          obtain rfl := Option.some.inj hafter
          rw [keepLive, if_pos hkept, ih (fun position instruction hposition =>
            h (position + 1) instruction hposition)]

theorem survivors_of_length_le (hlong : listing.length ≤ live.length)
    (h : listing.length ≤ position) :
    survivors listing live position = (keepLive listing live).length := by
  induction listing generalizing live position with
  | nil => rfl
  | cons first rest ih =>
      cases live with
      | nil => simp at hlong
      | cons names live =>
          cases position with
          | zero => simp at h
          | succ position =>
              rw [survivors, keepLive, ih (Nat.le_of_succ_le_succ hlong) (Nat.le_of_succ_le_succ h)]
              split
              · rw [List.length_cons, Nat.add_comm]
              · rw [Nat.zero_add]

theorem keepLive_sublist (listing : Listing) (live : List Names) :
    (keepLive listing live).Sublist listing := by
  induction listing generalizing live with
  | nil => exact List.Sublist.refl _
  | cons first rest ih =>
      cases live with
      | nil => exact List.nil_sublist _
      | cons names live =>
          rw [keepLive]
          split
          · exact (ih live).cons_cons first
          · exact (ih live).cons first

/-- Elimination keeps whatever is not taken from an assignment. -/
theorem filterMap_keepLive {α : Type} {f : Instruction → Option α}
    (hassign : ∀ target source, f (.assign target source) = none)
    (hlong : listing.length ≤ live.length) :
    (keepLive listing live).filterMap f = listing.filterMap f := by
  induction listing generalizing live with
  | nil => rfl
  | cons first rest ih =>
      cases live with
      | nil => simp at hlong
      | cons names live =>
          have hrest := ih (Nat.le_of_succ_le_succ hlong)
          rw [keepLive, List.filterMap_cons]
          by_cases hkept : isKept names first = true
          · rw [if_pos hkept, List.filterMap_cons, hrest]
          · rw [if_neg hkept, hrest]
            cases first with
            | assign target source => rw [hassign]
            | _ => exact absurd rfl hkept

theorem labels_keepLive (hlong : listing.length ≤ live.length) :
    Listing.labels (keepLive listing live) = Listing.labels listing :=
  filterMap_keepLive (fun _ _ => rfl) hlong

/-- Elimination keeps labels and jumps. -/
theorem wellLabelled_keepLive (hlong : listing.length ≤ live.length)
    (h : Listing.WellLabelled listing) : Listing.WellLabelled (keepLive listing live) := by
  refine ⟨?_, ?_⟩
  · rw [labels_keepLive hlong]
    exact h.nodup
  · intro instruction hmem name htarget
    rw [labels_keepLive hlong]
    exact h.defined instruction ((keepLive_sublist listing live).subset hmem) name htarget

end StackPipeline.Optimizer
