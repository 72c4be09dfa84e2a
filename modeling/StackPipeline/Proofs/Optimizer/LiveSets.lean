import Mathlib.Algebra.Order.BigOperators.Group.Finset
import StackPipeline.Proofs.Listing.Interpreter
import StackPipeline.Proofs.Optimizer.NameSets

/-!
The live sets that are found solve the equations of liveness.

A visit only ever adds names, so a sweep that changes something makes the sets larger.  They hold
nothing but names that are read somewhere, which is why the bound on the sweeps is never met before
one of them changes nothing.
-/

namespace StackPipeline.Optimizer

open Listing (Instruction)

section Labels

theorem get?_labelIndices_of_not_mem {listing : Listing} {name : String}
    (h : name ∉ Listing.labels listing) (index : Nat) (table : Store Nat) :
    (labelIndices index listing table).get? name = table.get? name := by
  induction listing generalizing index table with
  | nil => rfl
  | cons instruction rest ih =>
      rw [Listing.labels, List.filterMap_cons] at h
      cases instruction with
      | label other =>
          simp only [Instruction.label?, List.mem_cons, not_or] at h
          rw [labelIndices, ih h.2, Store.get?_set, if_neg (Ne.symm h.1)]
      | _ => exact ih h (index + 1) table

/-- If no label stands twice, the table has the position of each. -/
theorem get?_labelIndices {listing : Listing} (hnodup : (Listing.labels listing).Nodup)
    {position : Nat} {name : String} (h : listing[position]? = some (.label name)) (index : Nat)
    (table : Store Nat) :
    (labelIndices index listing table).get? name = some (index + position) := by
  induction listing generalizing index table position with
  | nil => simp at h
  | cons instruction rest ih =>
      have hrest : (Listing.labels rest).Nodup :=
        hnodup.sublist ((List.sublist_cons_self instruction rest).filterMap _)
      cases position with
      | zero =>
          obtain rfl := Option.some.inj h
          have hname : name ∉ Listing.labels rest := (List.nodup_cons.1 hnodup).1
          rw [labelIndices, get?_labelIndices_of_not_mem hname, Store.get?_set, if_pos rfl]
          rfl
      | succ position =>
          rw [← Nat.add_assoc, Nat.add_right_comm]
          cases instruction with
          | label other => exact ih hrest h (index + 1) _
          | _ => exact ih hrest h (index + 1) _

end Labels

namespace Scan

variable {labels : Store Nat} {index : Nat} {instruction : Instruction} {scan : Scan}

/-- The names live after an instruction, as the sets of its successors have them. -/
def liveAfter (labels : Store Nat) (index : Nat) (instruction : Instruction) (scan : Scan) :
    Names :=
  (scan.liveAtTarget labels instruction).union (scan.liveAt (index + 1))

theorem liveAtTarget_of_get? {label : String} {target : Nat}
    (htarget : instruction.target? = some label) (h : labels.get? label = some target) :
    scan.liveAtTarget labels instruction = scan.liveAt target := by
  simp only [liveAtTarget, htarget, h]

/-- The set of a target is the set of some instruction, or there is no target. -/
theorem liveAtTarget_cases (labels : Store Nat) (instruction : Instruction) :
    (∀ scan : Scan, scan.liveAtTarget labels instruction = []) ∨
      ∃ target, ∀ scan : Scan, scan.liveAtTarget labels instruction = scan.liveAt target := by
  cases htarget : instruction.target? with
  | none => exact .inl (fun scan => by simp only [liveAtTarget, htarget])
  | some label =>
      cases hlabel : labels.get? label with
      | none => exact .inl (fun scan => by simp only [liveAtTarget, htarget, hlabel])
      | some target => exact .inr ⟨target, fun scan => liveAtTarget_of_get? htarget hlabel⟩

theorem liveAfter_congr {other : Scan} (h : scan.before = other.before) :
    scan.liveAfter labels index instruction = other.liveAfter labels index instruction := by
  have hlive : ∀ position, scan.liveAt position = other.liveAt position := by
    intro position
    rw [liveAt, liveAt, h]
  rcases liveAtTarget_cases labels instruction with hnone | ⟨target, htarget⟩
  · rw [liveAfter, liveAfter, hnone, hnone, hlive]
  · rw [liveAfter, liveAfter, htarget, htarget, hlive, hlive]

theorem liveAfter_mono (labels : Store Nat) (index : Nat) (instruction : Instruction) {other : Scan}
    (h : ∀ position, scan.liveAt position ⊆ other.liveAt position) :
    scan.liveAfter labels index instruction ⊆ other.liveAfter labels index instruction := by
  intro name hname
  rw [liveAfter, Names.mem_union] at hname ⊢
  rcases hname with hname | hname
  · left
    rcases liveAtTarget_cases labels instruction with hnone | ⟨target, htarget⟩
    · rw [hnone] at hname
      cases hname
    · rw [htarget] at hname ⊢
      exact h target hname
  · exact .inr (h (index + 1) hname)

/-- A visit that reports nothing new has found the set it would have put. -/
theorem visit_of_changed_eq_false (h : (scan.visit labels index instruction).changed = false) :
    scan.changed = false ∧
      scan.liveAt index = transfer (scan.liveAfter labels index instruction) instruction ∧
      scan.visit labels index instruction = { scan with
        after := scan.after.setIfInBounds index (scan.liveAfter labels index instruction) } := by
  by_cases heq : transfer (scan.liveAfter labels index instruction) instruction = scan.liveAt index
  · have hvisit : scan.visit labels index instruction = { scan with
        after := scan.after.setIfInBounds index (scan.liveAfter labels index instruction) } :=
      if_pos heq
    rw [hvisit] at h
    exact ⟨h, heq.symm, hvisit⟩
  · have hvisit : scan.visit labels index instruction = ⟨_, _, true⟩ := if_neg heq
    rw [hvisit] at h
    cases h

/-- A visit gives its instruction the set that follows from the others. -/
theorem liveAt_visit (h : index < scan.before.size) (position : Nat) :
    (scan.visit labels index instruction).liveAt position =
      if position = index then transfer (scan.liveAfter labels index instruction) instruction
      else scan.liveAt position := by
  by_cases heq : transfer (scan.liveAfter labels index instruction) instruction = scan.liveAt index
  · have hvisit : scan.visit labels index instruction = { scan with
        after := scan.after.setIfInBounds index (scan.liveAfter labels index instruction) } :=
      if_pos heq
    rw [hvisit]
    by_cases hposition : position = index
    · rw [if_pos hposition, heq, hposition]
      rfl
    · rw [if_neg hposition]
      rfl
  · have hvisit : scan.visit labels index instruction = ⟨scan.before.setIfInBounds index
        (transfer (scan.liveAfter labels index instruction) instruction), _, true⟩ :=
      if_neg heq
    rw [hvisit, liveAt]
    by_cases hposition : position = index
    · rw [if_pos hposition, hposition]
      simp [h]
    · rw [if_neg hposition]
      simp [Array.getElem?_setIfInBounds_ne (Ne.symm hposition), liveAt]

theorem size_before_visit :
    (scan.visit labels index instruction).before.size = scan.before.size := by
  rw [visit]
  split
  · rfl
  · exact Array.size_setIfInBounds

theorem size_after_visit :
    (scan.visit labels index instruction).after.size = scan.after.size := by
  rw [visit]
  split
  · exact Array.size_setIfInBounds
  · exact Array.size_setIfInBounds

/-- A sweep that changes nothing leaves the sets as they are, and has found each instruction's set
to follow from the others.  The induction is on the instructions still to be visited. -/
theorem sweep_of_changed_eq_false {code : Array Instruction} {count : Nat}
    (hcount : count ≤ scan.after.size) (h : (scan.sweep labels code count).changed = false) :
    scan.changed = false ∧ (scan.sweep labels code count).before = scan.before ∧
      (∀ position, count ≤ position →
        (scan.sweep labels code count).after[position]? = scan.after[position]?) ∧
      ∀ position < count, ∀ instruction, code[position]? = some instruction →
        (scan.sweep labels code count).after[position]? =
          some (scan.liveAfter labels position instruction) ∧
        scan.liveAt position = transfer (scan.liveAfter labels position instruction) instruction := by
  induction count generalizing scan with
  | zero => exact ⟨h, rfl, fun _ _ => rfl, fun _ hlt => absurd hlt (Nat.not_lt_zero _)⟩
  | succ count ih =>
      rw [sweep] at h ⊢
      cases hcode : code[count]? with
      | none =>
          simp only [hcode] at h ⊢
          obtain ⟨hchanged, hbefore, hafter, hvisited⟩ := ih (Nat.le_of_succ_le hcount) h
          refine ⟨hchanged, hbefore, fun position hle => hafter position (Nat.le_of_succ_le hle), ?_⟩
          intro position hlt instruction hinstruction
          rcases Nat.lt_succ_iff_lt_or_eq.1 hlt with hlt | rfl
          · exact hvisited position hlt instruction hinstruction
          · cases hcode.symm.trans hinstruction
      | some visited =>
          simp only [hcode] at h ⊢
          have hsize : count ≤ (scan.visit labels count visited).after.size := by
            rw [size_after_visit]
            exact Nat.le_of_succ_le hcount
          obtain ⟨hchanged, hbefore, hafter, hvisited⟩ := ih hsize h
          obtain ⟨hscan, hlive, hvisit⟩ := visit_of_changed_eq_false hchanged
          have hsame : (scan.visit labels count visited).before = scan.before := by
            rw [hvisit]
          have hlookup : ∀ position, (scan.visit labels count visited).after[position]? =
              if count = position then some (scan.liveAfter labels count visited)
              else scan.after[position]? := by
            intro position
            rw [hvisit, Array.getElem?_setIfInBounds]
            split
            · rw [if_pos (by omega)]
            · rfl
          refine ⟨hscan, hbefore.trans hsame, ?_, ?_⟩
          · intro position hle
            rw [hafter position (Nat.le_of_succ_le hle), hlookup, if_neg (by omega)]
          · intro position hlt instruction hinstruction
            rcases Nat.lt_succ_iff_lt_or_eq.1 hlt with hlt | rfl
            · have hposition := hvisited position hlt instruction hinstruction
              rwa [liveAfter_congr hsame, liveAt, hsame] at hposition
            · obtain rfl := Option.some.inj (hcode.symm.trans hinstruction)
              refine ⟨?_, hlive⟩
              rw [hafter position (Nat.le_refl _), hlookup, if_pos rfl]

/-- What holds of the sets while sweeping: they are ascending, they have only names that are read
somewhere, and none has a name that does not follow from the others. -/
structure Growing (labels : Store Nat) (listing : Listing) (scan : Scan) : Prop where
  size_eq : scan.before.size = listing.length
  ascending : ∀ position, (scan.liveAt position).Ascending
  used : ∀ position, scan.liveAt position ⊆ listing.flatMap Instruction.uses
  grows : ∀ position instruction, listing[position]? = some instruction →
    scan.liveAt position ⊆ transfer (scan.liveAfter labels position instruction) instruction

def total (size : Nat) (scan : Scan) : Nat :=
  ∑ position ∈ Finset.range size, (scan.liveAt position).toFinset.card

namespace Growing

variable {listing : Listing} (h : Growing labels listing scan)

include h

/-- What is reported of earlier visits does not count. -/
theorem reset : Growing labels listing { scan with changed := false } :=
  ⟨h.size_eq, h.ascending, h.used, h.grows⟩

theorem ascending_liveAfter : (scan.liveAfter labels index instruction).Ascending := by
  apply Names.Ascending.union
  · rcases liveAtTarget_cases labels instruction with hnone | ⟨target, htarget⟩
    · rw [hnone]
      exact List.Pairwise.nil
    · rw [htarget]
      exact h.ascending target
  · exact h.ascending (index + 1)

theorem used_liveAfter :
    scan.liveAfter labels index instruction ⊆ listing.flatMap Instruction.uses := by
  intro name hname
  rw [liveAfter, Names.mem_union] at hname
  rcases hname with hname | hname
  · rcases liveAtTarget_cases labels instruction with hnone | ⟨target, htarget⟩
    · rw [hnone] at hname
      cases hname
    · rw [htarget] at hname
      exact h.used target hname
  · exact h.used (index + 1) hname

theorem liveAt_subset_visit (hinstruction : listing[index]? = some instruction)
    (position : Nat) :
    scan.liveAt position ⊆ (scan.visit labels index instruction).liveAt position := by
  have hlt : index < scan.before.size := by
    rw [h.size_eq]
    exact (List.getElem?_eq_some_iff.1 hinstruction).1
  rw [liveAt_visit hlt]
  by_cases hposition : position = index
  · rw [if_pos hposition, hposition]
    exact h.grows index instruction hinstruction
  · rw [if_neg hposition]
    exact fun _ hname => hname

/-- A visit keeps what holds while sweeping. -/
theorem visit (hinstruction : listing[index]? = some instruction) :
    Growing labels listing (scan.visit labels index instruction) := by
  have hlt : index < scan.before.size := by
    rw [h.size_eq]
    exact (List.getElem?_eq_some_iff.1 hinstruction).1
  have hsubset := h.liveAt_subset_visit hinstruction
  refine ⟨size_before_visit.trans h.size_eq, ?_, ?_, ?_⟩
  · intro position
    rw [liveAt_visit hlt]
    split
    · exact ascending_transfer h.ascending_liveAfter instruction
    · exact h.ascending position
  · intro position
    rw [liveAt_visit hlt]
    split
    · intro name hname
      rcases mem_transfer.1 hname with hname | ⟨_, hname⟩
      · exact h.used_liveAfter hname
      · exact List.mem_flatMap.2 ⟨instruction, List.mem_of_getElem? hinstruction, hname⟩
    · exact h.used position
  · intro position other hother name hname
    rw [liveAt_visit hlt] at hname
    by_cases hposition : position = index
    · rw [if_pos hposition] at hname
      rw [hposition] at hother ⊢
      obtain rfl := Option.some.inj (hinstruction.symm.trans hother)
      exact transfer_mono (liveAfter_mono labels index instruction hsubset) instruction hname
    · rw [if_neg hposition] at hname
      exact transfer_mono (liveAfter_mono labels position other hsubset) other
        (h.grows position other hother hname)

/-- A visit that reports something new has added a name. -/
theorem total_visit (hinstruction : listing[index]? = some instruction) :
    scan.total listing.length ≤ (scan.visit labels index instruction).total listing.length ∧
      ((scan.visit labels index instruction).changed = scan.changed ∨
        scan.total listing.length < (scan.visit labels index instruction).total listing.length) := by
  have hsubset := h.liveAt_subset_visit hinstruction
  have hle : ∀ position ∈ Finset.range listing.length, (scan.liveAt position).toFinset.card ≤
      ((scan.visit labels index instruction).liveAt position).toFinset.card := by
    intro position _
    apply Finset.card_le_card
    intro name hname
    exact List.mem_toFinset.2 (hsubset position (List.mem_toFinset.1 hname))
  refine ⟨Finset.sum_le_sum hle, ?_⟩
  obtain ⟨hlt, _⟩ := List.getElem?_eq_some_iff.1 hinstruction
  by_cases heq : transfer (scan.liveAfter labels index instruction) instruction = scan.liveAt index
  · left
    have hvisit : scan.visit labels index instruction = { scan with
        after := scan.after.setIfInBounds index (scan.liveAfter labels index instruction) } :=
      if_pos heq
    rw [hvisit]
  · right
    refine Finset.sum_lt_sum hle ⟨index, Finset.mem_range.2 hlt, ?_⟩
    rw [liveAt_visit (h.size_eq ▸ hlt), if_pos rfl]
    apply Finset.card_lt_card
    refine ⟨?_, ?_⟩
    · intro name hname
      exact List.mem_toFinset.2
        (h.grows index instruction hinstruction (List.mem_toFinset.1 hname))
    · intro hreverse
      apply heq
      apply Names.Ascending.eq_of_subset (ascending_transfer h.ascending_liveAfter instruction)
        (h.ascending index)
      · intro name hname
        exact List.mem_toFinset.1 (hreverse (List.mem_toFinset.2 hname))
      · exact h.grows index instruction hinstruction

/-- So does a sweep. -/
theorem sweep (count : Nat) :
    Growing labels listing (scan.sweep labels listing.toArray count) ∧
      scan.total listing.length ≤
        (scan.sweep labels listing.toArray count).total listing.length ∧
      ((scan.sweep labels listing.toArray count).changed = scan.changed ∨
        scan.total listing.length <
          (scan.sweep labels listing.toArray count).total listing.length) := by
  induction count generalizing scan with
  | zero => exact ⟨h, Nat.le_refl _, .inl rfl⟩
  | succ count ih =>
      rw [Scan.sweep]
      cases hcode : listing.toArray[count]? with
      | none => exact ih h
      | some instruction =>
          have hinstruction : listing[count]? = some instruction := by
            rwa [List.getElem?_toArray] at hcode
          obtain ⟨hle, hvisit⟩ := h.total_visit hinstruction
          obtain ⟨hgrowing, hmore, hsweep⟩ := ih (h.visit hinstruction)
          refine ⟨hgrowing, hle.trans hmore, ?_⟩
          rcases hsweep with heq | hlt
          · rcases hvisit with hsame | hlt
            · exact .inl (heq.trans hsame)
            · exact .inr (Nat.lt_of_lt_of_le hlt hmore)
          · exact .inr (Nat.lt_of_le_of_lt hle hlt)

/-- There are only so many names to add. -/
theorem total_le :
    scan.total listing.length ≤
      listing.length * (listing.flatMap Instruction.uses).length := by
  have hcard : ∀ position ∈ Finset.range listing.length, (scan.liveAt position).toFinset.card ≤
      (listing.flatMap Instruction.uses).length := by
    intro position _
    refine Nat.le_trans (Finset.card_le_card ?_) (List.toFinset_card_le _)
    intro name hname
    exact List.mem_toFinset.2 (h.used position (List.mem_toFinset.1 hname))
  have hsum := Finset.sum_le_card_nsmul _ _ _ hcard
  rw [Finset.card_range] at hsum
  exact hsum

end Growing

/-- Every set is what follows from the others, and so are the sets after the instructions. -/
def Settled (labels : Store Nat) (listing : Listing) (scan : Scan) : Prop :=
  ∀ position instruction, listing[position]? = some instruction →
    scan.after[position]? = some (scan.liveAfter labels position instruction) ∧
      scan.liveAt position = transfer (scan.liveAfter labels position instruction) instruction

theorem size_after_sweep (code : Array Instruction) (count : Nat) :
    (scan.sweep labels code count).after.size = scan.after.size := by
  induction count generalizing scan with
  | zero => rfl
  | succ count ih =>
      rw [sweep]
      cases code[count]? with
      | none => exact ih
      | some instruction => exact ih.trans size_after_visit

/-- A sweep that changes nothing leaves settled sets. -/
theorem settled_sweep {listing : Listing} (hsize : scan.after.size = listing.length)
    (h : (scan.sweep labels listing.toArray listing.toArray.size).changed = false) :
    Settled labels listing (scan.sweep labels listing.toArray listing.toArray.size) := by
  have hcount : listing.toArray.size ≤ scan.after.size := by
    rw [List.size_toArray]
    exact Nat.le_of_eq hsize.symm
  obtain ⟨_, hbefore, _, hvisited⟩ := sweep_of_changed_eq_false hcount h
  intro position instruction hinstruction
  obtain ⟨hlt, _⟩ := List.getElem?_eq_some_iff.1 hinstruction
  rw [← List.getElem?_toArray] at hinstruction
  have hposition := hvisited position hlt instruction hinstruction
  rw [liveAfter_congr hbefore, liveAt, hbefore]
  exact hposition

/-- Sweeping settles before the tries run out: each sweep that changes something adds a name. -/
theorem settled_settle {listing : Listing} {tries : Nat} (sweeps : Nat)
    (h : Growing labels listing scan) (hsize : scan.after.size = listing.length)
    (htries : listing.length * (listing.flatMap Instruction.uses).length <
      scan.total listing.length + tries) :
    Settled labels listing (scan.settle labels listing.toArray tries sweeps).1 := by
  induction tries generalizing sweeps scan with
  | zero => exact absurd h.total_le (Nat.not_le_of_lt htries)
  | succ tries ih =>
      obtain ⟨hgrowing, _, hchange⟩ := h.reset.sweep listing.toArray.size
      rw [settle]
      cases hchanged : (Scan.sweep labels listing.toArray listing.toArray.size
          { scan with changed := false }).changed with
      | true =>
          rw [if_pos rfl]
          apply ih _ hgrowing ((size_after_sweep _ _).trans hsize)
          rcases hchange with heq | hlt
          · cases heq.symm.trans hchanged
          · have hsame : ({ scan with changed := false } : Scan).total listing.length =
                scan.total listing.length := rfl
            omega
      | false =>
          rw [if_neg (by decide)]
          exact settled_sweep hsize hchanged

theorem growing_start (labels : Store Nat) (listing : Listing) :
    Growing labels listing (.start listing.length) := by
  have hempty : ∀ position, (Scan.start listing.length).liveAt position = [] := by
    intro position
    rw [liveAt, start]
    by_cases hlt : position < listing.length
    · simp [hlt]
    · simp [hlt]
  refine ⟨Array.size_replicate, ?_, ?_, ?_⟩
  · intro position
    rw [hempty]
    exact List.Pairwise.nil
  · intro position
    rw [hempty]
    exact List.nil_subset _
  · intro position instruction _
    rw [hempty]
    exact List.nil_subset _

end Scan

/-- The equations of liveness.  Live before an instruction is what the instruction makes of the names
live after it, and those are live after it that are live before the next instruction or before the
label it goes to. -/
def LiveSets (listing : Listing) (after : List Names) (before : Nat → Names) : Prop :=
  ∀ position instruction, listing[position]? = some instruction →
    ∃ live, after[position]? = some live ∧ before position = transfer live instruction ∧
      before (position + 1) ⊆ live ∧
      ∀ label target, instruction.target? = some label → listing[target]? = some (.label label) →
        before target ⊆ live

/-- **Liveness is a fixed point.** -/
theorem exists_liveSets {listing : Listing} (h : (Listing.labels listing).Nodup) :
    ∃ before, LiveSets listing (liveness listing).1 before := by
  have hgrowing := Scan.growing_start (labelIndices 0 listing .empty) listing
  have hsettled := Scan.settled_settle 0 hgrowing Array.size_replicate
    (Nat.lt_of_lt_of_le (Nat.lt_succ_self _) (Nat.le_add_left (sweepBound listing) _))
  refine ⟨(Scan.settle (labelIndices 0 listing .empty) listing.toArray (sweepBound listing) 0
    (.start listing.length)).1.liveAt, ?_⟩
  intro position instruction hinstruction
  obtain ⟨hafter, hbefore⟩ := hsettled position instruction hinstruction
  refine ⟨_, ?_, hbefore, ?_, ?_⟩
  · rw [liveness, Array.getElem?_toList]
    exact hafter
  · intro name hname
    exact (Names.mem_union _ _ _).2 (.inr hname)
  · intro label target htarget hlabel name hname
    have hindex := get?_labelIndices h hlabel 0 .empty
    rw [Nat.zero_add] at hindex
    rw [← Scan.liveAtTarget_of_get? htarget hindex] at hname
    exact (Names.mem_union _ _ _).2 (.inl hname)

end StackPipeline.Optimizer
