import StackPipeline.Optimizer.Passes
import StackPipeline.Proofs.Optimizer.Knowledge
import StackPipeline.Proofs.Optimizer.LeastLiveness
import StackPipeline.Proofs.Optimizer.Survivors

/-!
Optimizing what is optimized changes nothing.

Folding looks at the listing from above and elimination at where control can go, so each has to be
shown to leave nothing for the other.  Whatever is live at a position is live at every position above
it; so the assignments that are dropped above an instruction are to names it does not read, and neither
what is known there nor what is live there depends on them.
-/

namespace StackPipeline.Optimizer

open Listing (Operand Source Instruction)

section Folding

variable (known : Known)

@[simp] theorem substitute_substitute (operand : Operand) :
    known.substitute (known.substitute operand) = known.substitute operand := by
  cases operand with
  | number value => rfl
  | name x => cases hknown : known.get? x <;> simp [Known.substitute, hknown]

@[simp] theorem foldSource_foldSource (source : Source) :
    known.foldSource (known.foldSource source) = known.foldSource source := by
  cases source with
  | operand value => simp [Known.foldSource]
  | read prompt => rfl
  | operation op left right =>
      rcases Known.foldSource_operation op left right with ⟨a, b, -, -, hfold⟩ | hfold
      · rw [hfold]
        rfl
      · rw [hfold]
        simp only [Known.foldSource, substitute_substitute] at hfold ⊢
        exact hfold

@[simp] theorem foldInstruction_foldInstruction (instruction : Instruction) :
    known.foldInstruction (known.foldInstruction instruction) =
      known.foldInstruction instruction := by
  cases instruction <;> simp [Known.foldInstruction]

/-- Folding an instruction first does not change what is known after it. -/
@[simp] theorem next_foldInstruction (instruction : Instruction) :
    known.next (known.foldInstruction instruction) = known.next instruction := by
  cases instruction <;> simp [Known.foldInstruction, Known.next]

theorem foldListing_foldListing (listing : Listing) :
    known.foldListing (known.foldListing listing) = known.foldListing listing := by
  induction listing generalizing known with
  | nil => rfl
  | cons instruction rest ih => simp [Known.foldListing, ih]

end Folding

section Agreement

variable {known other : Known}

theorem substitute_congr {operand : Operand}
    (h : ∀ name, operand.name? = some name → other.get? name = known.get? name) :
    other.substitute operand = known.substitute operand := by
  cases operand with
  | number value => rfl
  | name x => rw [Known.substitute, Known.substitute, h x rfl]

theorem foldSource_congr {source : Source}
    (h : ∀ name ∈ source.uses, other.get? name = known.get? name) :
    other.foldSource source = known.foldSource source := by
  cases source with
  | read prompt => rfl
  | operand value =>
      rw [Known.foldSource, Known.foldSource, substitute_congr]
      intro name hname
      exact h name (by simp [Source.uses, hname])
  | operation op left right =>
      have hleft : other.substitute left = known.substitute left :=
        substitute_congr fun name hname => h name (by simp [Source.uses, hname])
      have hright : other.substitute right = known.substitute right :=
        substitute_congr fun name hname => h name (by simp [Source.uses, hname])
      rw [Known.foldSource, Known.foldSource, hleft, hright]

/-- Only what is known of the names that an instruction reads decides how it is folded. -/
theorem foldInstruction_congr {instruction : Instruction}
    (h : ∀ name ∈ instruction.uses, other.get? name = known.get? name) :
    other.foldInstruction instruction = known.foldInstruction instruction := by
  cases instruction with
  | assign target source => rw [Known.foldInstruction, Known.foldInstruction, foldSource_congr h]
  | _ => rfl

theorem get?_assign_congr (target : String) (source : Source) {name : String}
    (h : other.get? name = known.get? name) :
    (other.assign target source).get? name = (known.assign target source).get? name := by
  simp only [Known.assign]
  split <;> simp only [Store.get?_set, Store.get?_erase, h]

/-- What is known of a name after an instruction follows from what was known of it and of the names
that the instruction reads. -/
theorem get?_next_congr {instruction : Instruction} {name : String}
    (huses : ∀ read ∈ instruction.uses, other.get? read = known.get? read)
    (h : other.get? name = known.get? name) :
    (other.next instruction).get? name = (known.next instruction).get? name := by
  cases instruction with
  | assign target source =>
      rw [Known.next, Known.next, foldSource_congr huses]
      exact get?_assign_congr target _ h
  | label label => rfl
  | _ => exact h

/-- An assignment says nothing about other names. -/
theorem get?_next_assign_of_ne {target name : String} (h : target ≠ name) (source : Source) :
    (known.next (.assign target source)).get? name = known.get? name := by
  simp only [Known.next, Known.assign]
  split <;> simp only [Store.get?_set, Store.get?_erase, if_neg h]

end Agreement

section Elimination

variable {listing : Listing} {position : Nat} {instruction : Instruction} {name : String}

theorem getElem?_of_liveBefore (h : LiveBefore listing position name) :
    ∃ instruction, listing[position]? = some instruction := by
  cases h with
  | read hinstruction => exact ⟨_, hinstruction⟩
  | copied hinstruction => exact ⟨_, hinstruction⟩
  | passed hinstruction => exact ⟨_, hinstruction⟩
  | jumped hinstruction => exact ⟨_, hinstruction⟩

/-- Elimination keeps an instruction that stays wherever it stands, and an assignment whose target is
live after it. -/
def Keeps (listing : Listing) (position : Nat) (instruction : Instruction) : Prop :=
  isKept [] instruction = true ∨
    ∃ target source, instruction = .assign target source ∧ LiveBefore listing (position + 1) target

/-- The set that is found after an instruction decides whether it is kept. -/
theorem exists_liveness_of_getElem? (h : listing[position]? = some instruction) :
    ∃ after, (liveness listing).1[position]? = some after ∧
      (isKept after instruction = true ↔ Keeps listing position instruction) := by
  obtain ⟨after, hafter, hmem⟩ := mem_liveness_iff h
  refine ⟨after, hafter, ?_⟩
  cases instruction with
  | assign target source =>
      simp [isKept, Keeps, hmem, liveAfter_assign_iff]
  | _ => simp [isKept, Keeps]

/-- A kept instruction is there afterwards, and the next one stands behind it. -/
theorem getElem?_eliminateDead (h : listing[position]? = some instruction)
    (hkeeps : Keeps listing position instruction) :
    (eliminateDead listing)[survivors listing (liveness listing).1 position]? =
        some instruction ∧
      survivors listing (liveness listing).1 (position + 1) =
        survivors listing (liveness listing).1 position + 1 := by
  obtain ⟨after, hafter, hiff⟩ := exists_liveness_of_getElem? h
  have hkept := hiff.2 hkeeps
  exact ⟨getElem?_keepLive h hafter hkept, by rw [survivors_succ h hafter, if_pos hkept]⟩

/-- An instruction that is not kept makes room for the next one. -/
theorem survivors_succ_of_not_keeps (h : listing[position]? = some instruction)
    (hkeeps : ¬Keeps listing position instruction) :
    survivors listing (liveness listing).1 (position + 1) =
      survivors listing (liveness listing).1 position := by
  obtain ⟨after, hafter, hiff⟩ := exists_liveness_of_getElem? h
  rw [survivors_succ h hafter, if_neg (mt hiff.1 hkeeps)]
  rfl

/-- What is left after elimination was kept. -/
theorem exists_keeps_of_getElem?_eliminateDead {index : Nat}
    (h : (eliminateDead listing)[index]? = some instruction) :
    ∃ position, listing[position]? = some instruction ∧ Keeps listing position instruction ∧
      survivors listing (liveness listing).1 position = index := by
  obtain ⟨position, after, hposition, hafter, hkept, heq⟩ := exists_kept_of_getElem?_keepLive h
  obtain ⟨_, hlive, hiff⟩ := exists_liveness_of_getElem? hposition
  obtain rfl := Option.some.inj (hlive.symm.trans hafter)
  exact ⟨position, hposition, hiff.1 hkept, heq⟩

/-- Only assignments are dropped, and their targets are dead. -/
theorem exists_assign_of_not_keeps (hkeeps : ¬Keeps listing position instruction) :
    ∃ target source, instruction = .assign target source ∧
      ¬LiveBefore listing (position + 1) target := by
  cases instruction with
  | assign target source =>
      exact ⟨target, source, rfl, fun hlive => hkeeps (.inr ⟨target, source, rfl, hlive⟩)⟩
  | _ => exact absurd (.inl rfl) hkeeps

theorem liveBefore_of_keeps (h : listing[position]? = some instruction)
    (hkeeps : Keeps listing position instruction) (huses : name ∈ instruction.uses) :
    LiveBefore listing position name := by
  rcases hkeeps with hstays | ⟨target, source, rfl, hlive⟩
  · exact .read h hstays huses
  · exact .copied h hlive huses

theorem keeps_of_target {label : String} (htarget : instruction.target? = some label) :
    Keeps listing position instruction := by
  cases instruction with
  | assign target source => cases htarget
  | _ => exact .inl rfl

/-- The last definition of a label is still the last one. -/
theorem isLastLabel_eliminateDead {label : String} (h : IsLastLabel listing label position) :
    IsLastLabel (eliminateDead listing) label
      (survivors listing (liveness listing).1 position) := by
  refine ⟨(getElem?_eliminateDead h.1 (.inl rfl)).1, ?_⟩
  intro later hlater hlabel
  obtain ⟨other, hother, -, rfl⟩ := exists_keeps_of_getElem?_eliminateDead hlabel
  refine h.2 other ?_ hother
  apply Nat.lt_of_not_le
  intro hle
  exact absurd hlater (Nat.not_lt_of_le (survivors_mono _ _ hle))

/-- **What is live stays live.** -/
theorem liveBefore_eliminateDead (h : LiveBefore listing position name) :
    LiveBefore (eliminateDead listing) (survivors listing (liveness listing).1 position) name := by
  induction h with
  | read hinstruction hstays huses =>
      exact .read (getElem?_eliminateDead hinstruction (.inl hstays)).1 hstays huses
  | copied hinstruction hlive huses ih =>
      obtain ⟨hkept, hnext⟩ := getElem?_eliminateDead hinstruction (.inr ⟨_, _, rfl, hlive⟩)
      rw [hnext] at ih
      exact .copied hkept ih huses
  | @passed position instruction name hinstruction _ ih =>
      by_cases hkeeps : Keeps listing position instruction
      · obtain ⟨hkept, hnext⟩ := getElem?_eliminateDead hinstruction hkeeps
        rw [hnext] at ih
        exact .passed hkept ih
      · rwa [survivors_succ_of_not_keeps hinstruction hkeeps] at ih
  | jumped hinstruction htarget hlast _ ih =>
      exact .jumped (getElem?_eliminateDead hinstruction (keeps_of_target htarget)).1 htarget
        (isLastLabel_eliminateDead hlast) ih

/-- What was kept is kept again. -/
theorem keeps_eliminateDead {index : Nat}
    (h : (eliminateDead listing)[index]? = some instruction) :
    Keeps (eliminateDead listing) index instruction := by
  obtain ⟨position, hposition, hkeeps, rfl⟩ := exists_keeps_of_getElem?_eliminateDead h
  have hnext := (getElem?_eliminateDead hposition hkeeps).2
  rcases hkeeps with hstays | ⟨target, source, rfl, htarget⟩
  · exact .inl hstays
  · have hstill := liveBefore_eliminateDead htarget
    rw [hnext] at hstill
    exact .inr ⟨target, source, rfl, hstill⟩

/-- Elimination makes no other assignment dead. -/
theorem eliminateDead_eliminateDead (listing : Listing) :
    eliminateDead (eliminateDead listing) = eliminateDead listing := by
  rw [eliminateDead]
  apply keepLive_eq_self
  intro index instruction h
  obtain ⟨after, hafter, hiff⟩ := exists_liveness_of_getElem? h
  exact ⟨after, hafter, hiff.2 (keeps_eliminateDead h)⟩

/-- Of a live name the same is known after elimination. -/
theorem get?_knownAt_eliminateDead (h : LiveBefore listing position name) :
    (knownAt (eliminateDead listing) (survivors listing (liveness listing).1 position)).get? name =
      (knownAt listing position).get? name := by
  induction position generalizing name with
  | zero =>
      rw [survivors_zero]
      rfl
  | succ position ih =>
      obtain ⟨next, hnext⟩ := getElem?_of_liveBefore h
      have hlt : position < listing.length :=
        Nat.lt_of_succ_lt (List.getElem?_eq_some_iff.1 hnext).1
      have hinstruction := List.getElem?_eq_getElem hlt
      have hbefore := ih (.passed hinstruction h)
      rw [knownAt_succ hinstruction]
      by_cases hkeeps : Keeps listing position listing[position]
      · obtain ⟨hkept, hsucc⟩ := getElem?_eliminateDead hinstruction hkeeps
        rw [hsucc, knownAt_succ hkept]
        apply get?_next_congr _ hbefore
        intro read hread
        exact ih (liveBefore_of_keeps hinstruction hkeeps hread)
      · obtain ⟨target, source, heq, hdead⟩ := exists_assign_of_not_keeps hkeeps
        have hne : target ≠ name := by
          rintro rfl
          exact hdead h
        rw [survivors_succ_of_not_keeps hinstruction hkeeps, hbefore, heq,
          get?_next_assign_of_ne hne]

/-- Elimination gives folding nothing new to do. -/
theorem foldConstants_eliminateDead (h : foldConstants listing = listing) :
    foldConstants (eliminateDead listing) = eliminateDead listing := by
  apply List.ext_getElem?
  intro index
  rw [getElem?_foldConstants]
  cases hindex : (eliminateDead listing)[index]? with
  | none => rfl
  | some instruction =>
      obtain ⟨position, hposition, hkeeps, rfl⟩ :=
        exists_keeps_of_getElem?_eliminateDead hindex
      have hfixed : (knownAt listing position).foldInstruction instruction = instruction := by
        have hfold := getElem?_foldConstants listing position
        rw [h, hposition] at hfold
        exact (Option.some.inj hfold).symm
      rw [Option.map_some, foldInstruction_congr, hfixed]
      intro name huses
      exact get?_knownAt_eliminateDead (liveBefore_of_keeps hposition hkeeps huses)

end Elimination

/-- **Optimizing twice is optimizing once**, whatever the listing and the passes.  Dropping dead
assignments gives folding no new constant, and makes no other assignment dead. -/
theorem optimize_settles (listing : Listing) :
    (∀ passes, optimize passes (optimize passes listing) = optimize passes listing) ∧
      foldConstants (eliminateDead (foldConstants listing)) =
        eliminateDead (foldConstants listing) ∧
      eliminateDead (eliminateDead listing) = eliminateDead listing := by
  have hfold : foldConstants (foldConstants listing) = foldConstants listing :=
    foldListing_foldListing .empty listing
  have hboth := foldConstants_eliminateDead hfold
  refine ⟨?_, hboth, eliminateDead_eliminateDead listing⟩
  rintro ⟨folds, eliminates⟩
  cases folds <;> cases eliminates <;>
    simp [optimize, Passes.fold, Passes.eliminate, hfold, hboth, eliminateDead_eliminateDead]

end StackPipeline.Optimizer
