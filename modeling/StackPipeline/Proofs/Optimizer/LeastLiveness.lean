import StackPipeline.Proofs.Optimizer.LiveSets

/-!
Which names are live, said without sets and sweeps: those that an instruction which stays goes on to
read.  The sets that are found have these names and no others, whatever labels the listing repeats or
lacks.
-/

namespace StackPipeline.Optimizer

open Listing (Instruction)

section Labels

/-- The last definition of a label stands at this position. -/
def IsLastLabel (listing : Listing) (label : String) (position : Nat) : Prop :=
  listing[position]? = some (.label label) ∧
    ∀ later, position < later → listing[later]? ≠ some (.label label)

theorem isLastLabel_cons_zero {instruction : Instruction} {rest : Listing} {label : String} :
    IsLastLabel (instruction :: rest) label 0 ↔
      instruction = .label label ∧ label ∉ Listing.labels rest := by
  simp only [IsLastLabel, List.getElem?_cons_zero, Option.some.injEq, Listing.mem_labels_iff]
  refine and_congr_right fun _ => ⟨?_, ?_⟩
  · intro h hmem
    obtain ⟨position, hposition⟩ := List.mem_iff_getElem?.1 hmem
    exact h (position + 1) (Nat.succ_pos _) hposition
  · intro h later hlater hposition
    obtain ⟨position, rfl⟩ := Nat.exists_eq_add_of_le' hlater
    exact h (List.mem_of_getElem? hposition)

theorem isLastLabel_cons_succ {instruction : Instruction} {rest : Listing} {label : String}
    {position : Nat} :
    IsLastLabel (instruction :: rest) label (position + 1) ↔ IsLastLabel rest label position := by
  simp only [IsLastLabel, List.getElem?_cons_succ]
  refine and_congr_right fun _ => ⟨?_, ?_⟩
  · intro h later hlater
    exact h (later + 1) (Nat.succ_lt_succ hlater)
  · intro h later hlater
    cases later with
    | zero => exact absurd hlater (Nat.not_lt_zero _)
    | succ later => exact h later (Nat.lt_of_succ_lt_succ hlater)

/-- The table has the last definition of each label, and of other names what it had before. -/
theorem get?_labelIndices_iff (index : Nat) (listing : Listing) (table : Store Nat) (name : String)
    (found : Nat) :
    (labelIndices index listing table).get? name = some found ↔
      (∃ position, IsLastLabel listing name position ∧ found = index + position) ∨
        name ∉ Listing.labels listing ∧ table.get? name = some found := by
  induction listing generalizing index table with
  | nil => simp [labelIndices, Listing.labels, IsLastLabel]
  | cons instruction rest ih =>
      -- The last definition is the front, if the rest has none, or that of the rest.
      have hshift : (∃ position, IsLastLabel (instruction :: rest) name position ∧
            found = index + position) ↔
          (instruction = .label name ∧ name ∉ Listing.labels rest) ∧ found = index ∨
            ∃ position, IsLastLabel rest name position ∧ found = index + 1 + position := by
        constructor
        · rintro ⟨position, hlast, rfl⟩
          cases position with
          | zero => exact .inl ⟨isLastLabel_cons_zero.1 hlast, rfl⟩
          | succ position => exact .inr ⟨position, isLastLabel_cons_succ.1 hlast, by omega⟩
        · rintro (⟨hlast, rfl⟩ | ⟨position, hlast, rfl⟩)
          · exact ⟨0, isLastLabel_cons_zero.2 hlast, rfl⟩
          · exact ⟨position + 1, isLastLabel_cons_succ.2 hlast, by omega⟩
      have hlabels : name ∈ Listing.labels (instruction :: rest) ↔
          instruction = .label name ∨ name ∈ Listing.labels rest := by
        simp [Listing.mem_labels_iff, eq_comm]
      rw [hshift, hlabels]
      cases instruction with
      | label other =>
          rw [labelIndices, ih, Store.get?_set]
          by_cases hother : other = name
          · subst hother
            simp [eq_comm, and_comm, or_comm]
          · simp [hother]
      | _ => simp [labelIndices, ih]

end Labels

/-- A name is live before a position: an instruction from there on reads it, and is not itself an
assignment that only dead names call for. -/
inductive LiveBefore (listing : Listing) : Nat → String → Prop
  /-- An instruction that stays wherever it stands reads the name. -/
  | read {position : Nat} {instruction : Instruction} {name : String} :
      listing[position]? = some instruction → isKept [] instruction = true →
      name ∈ instruction.uses → LiveBefore listing position name
  /-- An assignment reads the name, and its target is live after it. -/
  | copied {position : Nat} {target name : String} {source : Listing.Source} :
      listing[position]? = some (.assign target source) →
      LiveBefore listing (position + 1) target → name ∈ source.uses →
      LiveBefore listing position name
  /-- The name is live before the next instruction. -/
  | passed {position : Nat} {instruction : Instruction} {name : String} :
      listing[position]? = some instruction → LiveBefore listing (position + 1) name →
      LiveBefore listing position name
  /-- The name is live where the instruction can go. -/
  | jumped {position destination : Nat} {instruction : Instruction} {label name : String} :
      listing[position]? = some instruction → instruction.target? = some label →
      IsLastLabel listing label destination → LiveBefore listing destination name →
      LiveBefore listing position name

/-- A name is live after an instruction: before the next one, or where the instruction can go. -/
def LiveAfter (listing : Listing) (position : Nat) (instruction : Instruction) (name : String) :
    Prop :=
  LiveBefore listing (position + 1) name ∨
    ∃ label destination, instruction.target? = some label ∧
      IsLastLabel listing label destination ∧ LiveBefore listing destination name

section Equations

variable {listing : Listing} {position : Nat} {instruction : Instruction} {name : String}

theorem liveBefore_of_liveAfter (h : listing[position]? = some instruction)
    (hlive : LiveAfter listing position instruction name) : LiveBefore listing position name := by
  rcases hlive with hnext | ⟨label, destination, htarget, hlast, hlive⟩
  · exact .passed h hnext
  · exact .jumped h htarget hlast hlive

theorem liveAfter_assign_iff {target : String} {source : Listing.Source} :
    LiveAfter listing position (.assign target source) name ↔
      LiveBefore listing (position + 1) name := by
  simp [LiveAfter, Instruction.target?]

/-- What a kept instruction reads is live before it. -/
theorem liveBefore_of_isKept {after : Names} (h : listing[position]? = some instruction)
    (hafter : ∀ other ∈ after, LiveAfter listing position instruction other)
    (hkept : isKept after instruction = true) (huses : name ∈ instruction.uses) :
    LiveBefore listing position name := by
  by_cases hstays : isKept [] instruction = true
  · exact .read h hstays huses
  · cases instruction with
    | assign target source =>
        simp only [isKept, Bool.or_eq_true, decide_eq_true_eq, not_or] at hkept hstays
        rcases hkept with hread | htarget
        · exact absurd hread hstays.1
        · exact .copied h (liveAfter_assign_iff.1 (hafter target htarget)) huses
    | _ => exact absurd rfl hstays

end Equations

namespace Scan

variable {listing : Listing} {scan : Scan}

/-- The sets of a scan have live names only. -/
def Justified (listing : Listing) (scan : Scan) : Prop :=
  ∀ position name, name ∈ scan.liveAt position → LiveBefore listing position name

theorem mem_liveAtTarget_iff {instruction : Instruction} {name : String} :
    name ∈ scan.liveAtTarget (labelIndices 0 listing .empty) instruction ↔
      ∃ label destination, instruction.target? = some label ∧
        IsLastLabel listing label destination ∧ name ∈ scan.liveAt destination := by
  have hindex : ∀ label destination,
      (labelIndices 0 listing .empty).get? label = some destination ↔
        IsLastLabel listing label destination := by
    intro label destination
    simp [get?_labelIndices_iff]
  constructor
  · intro hname
    simp only [liveAtTarget] at hname
    split at hname
    · cases hname
    · rename_i label htarget
      split at hname
      · cases hname
      · rename_i destination hdestination
        exact ⟨label, destination, htarget, (hindex _ _).1 hdestination, hname⟩
  · rintro ⟨label, destination, htarget, hlast, hname⟩
    rw [liveAtTarget_of_get? htarget ((hindex _ _).2 hlast)]
    exact hname

theorem mem_liveAfter_iff {position : Nat} {instruction : Instruction} {name : String} :
    name ∈ scan.liveAfter (labelIndices 0 listing .empty) position instruction ↔
      name ∈ scan.liveAt (position + 1) ∨
        ∃ label destination, instruction.target? = some label ∧
          IsLastLabel listing label destination ∧ name ∈ scan.liveAt destination := by
  rw [liveAfter, Names.mem_union, mem_liveAtTarget_iff, or_comm]

namespace Justified

theorem mem_liveAfter (h : Justified listing scan) {position : Nat} {instruction : Instruction}
    {name : String}
    (hname : name ∈ scan.liveAfter (labelIndices 0 listing .empty) position instruction) :
    LiveAfter listing position instruction name := by
  rcases mem_liveAfter_iff.1 hname with hnext | ⟨label, destination, htarget, hlast, hlive⟩
  · exact .inl (h _ _ hnext)
  · exact .inr ⟨label, destination, htarget, hlast, h _ _ hlive⟩

/-- A visit finds nothing but live names. -/
theorem visit (h : Justified listing scan) {position : Nat} {instruction : Instruction}
    (hinstruction : listing[position]? = some instruction)
    (hlt : position < scan.before.size) :
    Justified listing
      (scan.visit (labelIndices 0 listing .empty) position instruction) := by
  intro other name hname
  rw [liveAt_visit hlt] at hname
  by_cases heq : other = position
  · rw [if_pos heq] at hname
    rw [heq]
    rcases mem_transfer.1 hname with hname | ⟨hkept, huses⟩
    · exact liveBefore_of_liveAfter hinstruction (h.mem_liveAfter hname)
    · exact liveBefore_of_isKept hinstruction (fun _ hother => h.mem_liveAfter hother) hkept huses
  · rw [if_neg heq] at hname
    exact h other name hname

theorem sweep (h : Justified listing scan) (hsize : scan.before.size = listing.length)
    (count : Nat) :
    Justified listing
        (scan.sweep (labelIndices 0 listing .empty) listing.toArray count) ∧
      (scan.sweep (labelIndices 0 listing .empty) listing.toArray count).before.size =
        listing.length := by
  induction count generalizing scan with
  | zero => exact ⟨h, hsize⟩
  | succ count ih =>
      rw [Scan.sweep]
      cases hcode : listing.toArray[count]? with
      | none => exact ih h hsize
      | some instruction =>
          rw [List.getElem?_toArray] at hcode
          have hlt : count < scan.before.size := by
            rw [hsize]
            exact (List.getElem?_eq_some_iff.1 hcode).1
          exact ih (h.visit hcode hlt) (size_before_visit.trans hsize)

theorem settle (h : Justified listing scan) (hsize : scan.before.size = listing.length)
    (tries sweeps : Nat) :
    Justified listing
      (scan.settle (labelIndices 0 listing .empty) listing.toArray tries sweeps).1 := by
  induction tries generalizing scan sweeps with
  | zero => exact h
  | succ tries ih =>
      have hreset : Justified listing { scan with changed := false } := h
      obtain ⟨hswept, hsame⟩ := hreset.sweep hsize listing.toArray.size
      rw [Scan.settle]
      split
      · exact ih hswept hsame (sweeps + 1)
      · exact hswept

end Justified

/-- Settled sets have every live name. -/
theorem mem_liveAt_of_liveBefore (h : Settled (labelIndices 0 listing .empty) listing scan)
    {position : Nat} {name : String} (hlive : LiveBefore listing position name) :
    name ∈ scan.liveAt position := by
  induction hlive with
  | read hinstruction hstays huses =>
      rw [(h _ _ hinstruction).2, mem_transfer]
      exact .inr ⟨isKept_mono (List.nil_subset _) hstays, huses⟩
  | copied hinstruction _ huses ih =>
      rw [(h _ _ hinstruction).2, mem_transfer]
      refine .inr ⟨?_, huses⟩
      simp only [isKept, Bool.or_eq_true, decide_eq_true_eq]
      exact .inr (mem_liveAfter_iff.2 (.inl ih))
  | passed hinstruction _ ih =>
      rw [(h _ _ hinstruction).2, mem_transfer]
      exact .inl (mem_liveAfter_iff.2 (.inl ih))
  | jumped hinstruction htarget hlast _ ih =>
      rw [(h _ _ hinstruction).2, mem_transfer]
      exact .inl (mem_liveAfter_iff.2 (.inr ⟨_, _, htarget, hlast, ih⟩))

/-- A scan starts without names. -/
theorem liveAt_start (size position : Nat) : (Scan.start size).liveAt position = [] := by
  by_cases hlt : position < size <;> simp [liveAt, start, hlt]

theorem justified_start (listing : Listing) : Justified listing (.start listing.length) := by
  intro position name hname
  rw [liveAt_start] at hname
  cases hname

/-- The scan in which the sweeps end: settled, with live names only. -/
theorem exists_settled_scan (listing : Listing) :
    ∃ scan, Settled (labelIndices 0 listing .empty) listing scan ∧ Justified listing scan ∧
      (liveness listing).1 = scan.after.toList := by
  have hgrowing := growing_start (labelIndices 0 listing .empty) listing
  refine ⟨_, settled_settle 0 hgrowing Array.size_replicate ?_,
    (justified_start listing).settle hgrowing.size_eq (sweepBound listing) 0, rfl⟩
  exact Nat.lt_of_lt_of_le (Nat.lt_succ_self _) (Nat.le_add_left (sweepBound listing) _)

end Scan

/-- **The names that are found are the live ones.** -/
theorem mem_liveness_iff {listing : Listing} {position : Nat} {instruction : Instruction}
    (h : listing[position]? = some instruction) :
    ∃ after, (liveness listing).1[position]? = some after ∧
      ∀ name, name ∈ after ↔ LiveAfter listing position instruction name := by
  obtain ⟨scan, hsettled, hjustified, heq⟩ := Scan.exists_settled_scan listing
  refine ⟨scan.liveAfter (labelIndices 0 listing .empty) position instruction, ?_, ?_⟩
  · rw [heq, Array.getElem?_toList]
    exact (hsettled position instruction h).1
  · intro name
    refine ⟨hjustified.mem_liveAfter, ?_⟩
    rintro (hnext | ⟨label, destination, htarget, hlast, hlive⟩)
    · exact Scan.mem_liveAfter_iff.2 (.inl (Scan.mem_liveAt_of_liveBefore hsettled hnext))
    · exact Scan.mem_liveAfter_iff.2
        (.inr ⟨label, destination, htarget, hlast, Scan.mem_liveAt_of_liveBefore hsettled hlive⟩)

/-- There is a set for every instruction. -/
theorem length_le_liveness (listing : Listing) : listing.length ≤ (liveness listing).1.length := by
  apply Nat.le_of_not_lt
  intro hlt
  obtain ⟨after, hafter, -⟩ := mem_liveness_iff (List.getElem?_eq_getElem hlt)
  simp at hafter

end StackPipeline.Optimizer
