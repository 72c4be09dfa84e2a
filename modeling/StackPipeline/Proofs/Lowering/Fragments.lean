import StackPipeline.Proofs.Listing.Interpreter
import StackPipeline.Proofs.Lowering.Inversion
import StackPipeline.Proofs.Lowering.Names

/-!
The labels of lowered code: none stands twice, and every jump goes to one of them or to one of the
innermost loop around.
-/

namespace StackPipeline

namespace Listing

theorem labels_append (front rest : Listing) :
    labels (front ++ rest) = labels front ++ labels rest :=
  List.filterMap_append

theorem labels_cons (instruction : Instruction) (rest : Listing) :
    labels (instruction :: rest) = instruction.label?.toList ++ labels rest := by
  rw [labels, List.filterMap_cons]
  cases instruction.label? <;> rfl

/-- Jumps go only to names that are allowed. -/
def JumpsTo (allowed : String → Prop) (listing : Listing) : Prop :=
  ∀ instruction ∈ listing, ∀ name, instruction.target? = some name → allowed name

theorem JumpsTo.mono {allowed more : String → Prop} {listing : Listing}
    (h : JumpsTo allowed listing) (hmore : ∀ name, allowed name → more name) :
    JumpsTo more listing :=
  fun instruction hmem name htarget => hmore name (h instruction hmem name htarget)

@[simp] theorem jumpsTo_nil {allowed : String → Prop} : JumpsTo allowed [] :=
  fun _ hmem => absurd hmem List.not_mem_nil

@[simp] theorem jumpsTo_cons {allowed : String → Prop} {instruction : Instruction}
    {rest : Listing} :
    JumpsTo allowed (instruction :: rest) ↔
      (∀ name, instruction.target? = some name → allowed name) ∧ JumpsTo allowed rest := by
  simp [JumpsTo]

@[simp] theorem jumpsTo_append {allowed : String → Prop} {front rest : Listing} :
    JumpsTo allowed (front ++ rest) ↔ JumpsTo allowed front ∧ JumpsTo allowed rest := by
  simp only [JumpsTo, List.mem_append, or_imp, forall_and]

/-- Neither labels nor jumps. -/
def Straight (listing : Listing) : Prop :=
  ∀ instruction ∈ listing, instruction.label? = none ∧ instruction.target? = none

@[simp] theorem straight_nil : Straight [] :=
  fun _ hmem => absurd hmem List.not_mem_nil

@[simp] theorem straight_cons {instruction : Instruction} {rest : Listing} :
    Straight (instruction :: rest) ↔
      (instruction.label? = none ∧ instruction.target? = none) ∧ Straight rest := by
  simp [Straight]

@[simp] theorem straight_append {front rest : Listing} :
    Straight (front ++ rest) ↔ Straight front ∧ Straight rest :=
  List.forall_mem_append

theorem Straight.labels_eq {listing : Listing} (h : Straight listing) : labels listing = [] :=
  List.filterMap_eq_nil_iff.2 (fun instruction hmem => (h instruction hmem).1)

theorem Straight.jumpsTo {listing : Listing} (h : Straight listing) (allowed : String → Prop) :
    JumpsTo allowed listing := by
  intro instruction hmem name htarget
  rw [(h instruction hmem).2] at htarget
  cases htarget

end Listing

namespace Lowering

open StackPipeline.Tree (Expr Stmt Branch Program)
open Listing (Operand Source Instruction JumpsTo Straight)

/-- How often code defines the label with a number. -/
def labelCount (code : Listing) (number : Nat) : Nat :=
  (Listing.labels code).count (labelName number)

@[simp] theorem labelCount_append (front rest : Listing) (number : Nat) :
    labelCount (front ++ rest) number = labelCount front number + labelCount rest number := by
  rw [labelCount, Listing.labels_append, List.count_append]
  rfl

theorem labelCount_of_straight {code : Listing} (h : Straight code) (number : Nat) :
    labelCount code number = 0 := by
  rw [labelCount, h.labels_eq, List.count_nil]

/-- Code that computes a value: it has no control flow, and hands out temporaries only. -/
structure Computes (c c' : Context) (code : Listing) : Prop where
  straight : Straight code
  labels_eq : c'.labels = c.labels
  loops_eq : c'.loops = c.loops
  temporaries_le : c.temporaries ≤ c'.temporaries

theorem Computes.append {c c₁ c' : Context} {front rest : Listing} (hfront : Computes c c₁ front)
    (hrest : Computes c₁ c' rest) : Computes c c' (front ++ rest) :=
  ⟨Listing.straight_append.2 ⟨hfront.straight, hrest.straight⟩,
    hrest.labels_eq.trans hfront.labels_eq, hrest.loops_eq.trans hfront.loops_eq,
    Nat.le_trans hfront.temporaries_le hrest.temporaries_le⟩

theorem computes_refl (c : Context) : Computes c c [] :=
  ⟨Listing.straight_nil, rfl, rfl, Nat.le_refl _⟩

/-- An assignment to a fresh temporary computes its value. -/
theorem computes_assign (c : Context) (source : Source) :
    Computes c c.afterTemporary [.assign (temporaryName c.temporaries) source] :=
  ⟨by simp [Instruction.label?, Instruction.target?], rfl, rfl, Nat.le_succ _⟩

theorem computes_lowerExpr {expr : Expr} {c c' : Context} {code : Listing} {operand : Operand}
    (h : lowerExpr expr c = ((code, operand), c')) : Computes c c' code := by
  induction expr generalizing c c' code operand with
  | number x =>
      cases h
      exact computes_refl c
  | boolean b =>
      cases h
      exact computes_refl c
  | var name =>
      cases h
      exact computes_refl c
  | binary left op right ihLeft ihRight =>
      obtain ⟨leftCode, leftValue, c₁, rightCode, rightValue, c₂, hleft, hright, hout, rfl⟩ :=
        lowerExpr_binary h
      cases hout
      exact ((ihLeft hleft).append (ihRight hright)).append (computes_assign c₂ _)
  | read prompt =>
      obtain ⟨hout, rfl⟩ := lowerExpr_read h
      cases hout
      exact computes_assign c _

theorem computes_lowerExprs {exprs : List Expr} {c c' : Context} {code : Listing}
    {operands : List Operand} (h : lowerExprs exprs c = ((code, operands), c')) :
    Computes c c' code := by
  induction exprs generalizing c c' code operands with
  | nil =>
      cases h
      exact computes_refl c
  | cons expr rest ih =>
      obtain ⟨first, operand, c₁, restCode, restOperands, hfirst, hrest, rfl, rfl⟩ :=
        lowerExprs_cons h
      exact (computes_lowerExpr hfirst).append (ih hrest)

theorem computes_lowerBound {count : Expr} {c c' : Context} {code : Listing} {bound : Operand}
    (h : lowerBound count c = ((code, bound), c')) : Computes c c' code := by
  rcases lowerBound_cases h with ⟨name, -, rfl, -, rfl⟩ | ⟨-, hexpr⟩
  · exact computes_assign c _
  · exact computes_lowerExpr hexpr

/-- The names of the innermost loop's labels. -/
def Context.IsLoopLabel (c : Context) (name : String) : Prop :=
  ∃ loop rest, c.loops = loop :: rest ∧ (name = loop.continueLabel ∨ name = loop.breakLabel)

/-- Code that lowering makes on its way from one context to the other. -/
structure Fragment (c c' : Context) (code : Listing) : Prop where
  labels_le : c.labels ≤ c'.labels
  temporaries_le : c.temporaries ≤ c'.temporaries
  loops_eq : c'.loops = c.loops
  numbered : ∀ name ∈ Listing.labels code, ∃ number, name = labelName number
  once : ∀ number, labelCount code number ≤ if c.labels ≤ number ∧ number < c'.labels then 1 else 0
  jumps : JumpsTo (fun name => name ∈ Listing.labels code ∨ c.IsLoopLabel name) code

theorem Computes.fragment {c c' : Context} {code : Listing} (h : Computes c c' code) :
    Fragment c c' code := by
  refine ⟨Nat.le_of_eq h.labels_eq.symm, h.temporaries_le, h.loops_eq, ?_, ?_, h.straight.jumpsTo _⟩
  · intro name hname
    rw [h.straight.labels_eq] at hname
    cases hname
  · intro number
    rw [labelCount_of_straight h.straight]
    exact Nat.zero_le _

theorem Fragment.append {c c₁ c' : Context} {front rest : Listing} (hfront : Fragment c c₁ front)
    (hrest : Fragment c₁ c' rest) : Fragment c c' (front ++ rest) := by
  refine ⟨Nat.le_trans hfront.labels_le hrest.labels_le,
    Nat.le_trans hfront.temporaries_le hrest.temporaries_le, hrest.loops_eq.trans hfront.loops_eq, ?_, ?_, ?_⟩
  · intro name hname
    rw [Listing.labels_append] at hname
    rcases List.mem_append.1 hname with hname | hname
    · exact hfront.numbered name hname
    · exact hrest.numbered name hname
  · intro number
    have hfirst := hfront.once number
    have hlast := hrest.once number
    have hle := hfront.labels_le
    have hle' := hrest.labels_le
    rw [labelCount_append]
    split at hfirst <;> split at hlast <;> split <;> omega
  · rw [Listing.jumpsTo_append, Listing.labels_append]
    refine ⟨hfront.jumps.mono ?_, hrest.jumps.mono ?_⟩
    · rintro name (hname | hloop)
      · exact .inl (List.mem_append_left _ hname)
      · exact .inr hloop
    · rintro name (hname | hloop)
      · exact .inl (List.mem_append_right _ hname)
      · rw [Context.IsLoopLabel, hfront.loops_eq] at hloop
        exact .inr hloop

/-- An instruction without control flow needs nothing new. -/
theorem computes_single (c : Context) {instruction : Instruction}
    (hlabel : instruction.label? = none) (htarget : instruction.target? = none) :
    Computes c c [instruction] :=
  ⟨by simp [hlabel, htarget], rfl, rfl, Nat.le_refl _⟩

/-- So many labels handed out in a row. -/
def labelsFrom (start count : Nat) : List String :=
  (List.range' start count).map labelName

theorem labelsFrom_succ (start count : Nat) :
    labelsFrom start (count + 1) = labelsFrom start count ++ [labelName (start + count)] := by
  rw [labelsFrom, List.range'_concat, List.map_append, Nat.one_mul]
  rfl

theorem count_labelsFrom (start count number : Nat) :
    (labelsFrom start count).count (labelName number) =
      if start ≤ number ∧ number < start + count then 1 else 0 := by
  induction count generalizing start with
  | zero => simp [labelsFrom]
  | succ count ih =>
      rw [labelsFrom, List.range'_succ, List.map_cons, List.count_cons, ← labelsFrom, ih]
      simp only [beq_iff_eq, labelName_inj]
      grind

/-- Code that has some fresh labels and those of a fragment. -/
theorem fragment_of_perm {c c₁ c₂ c' : Context} {code inner : Listing} (count : Nat)
    (hinner : Fragment c₁ c₂ inner) (hstart : c₁.labels = c.labels + count)
    (hend : c'.labels = c₂.labels) (htemporaries : c.temporaries ≤ c'.temporaries)
    (hloops : c'.loops = c.loops)
    (hperm : (Listing.labels code).Perm (labelsFrom c.labels count ++ Listing.labels inner))
    (hjumps : JumpsTo (fun name => name ∈ Listing.labels code ∨ c.IsLoopLabel name) code) :
    Fragment c c' code := by
  have hle := hinner.labels_le
  refine ⟨by omega, htemporaries, hloops, ?_, ?_, hjumps⟩
  · intro name hname
    rcases List.mem_append.1 (hperm.mem_iff.1 hname) with hname | hname
    · obtain ⟨number, _, rfl⟩ := List.mem_map.1 hname
      exact ⟨number, rfl⟩
    · exact hinner.numbered name hname
  · intro number
    have hcount := hinner.once number
    rw [labelCount] at hcount
    rw [labelCount, hperm.count_eq, List.count_append, count_labelsFrom]
    grind

/-- A loop has three fresh labels and those of its body. -/
theorem fragment_loop {c c₁ c₂ c' : Context} {loop : LoopLabels} {code body : Listing}
    (hbody : Fragment (c₁.inside loop) c₂ body) (hlabels : c₁.labels = c.labels + 3)
    (htemporaries : c.temporaries ≤ c₁.temporaries) (hloops : c₁.loops = c.loops)
    (hlast : Computes c₂.outside c' [])
    (hperm : (Listing.labels code).Perm
      (labelName c.labels :: labelName (c.labels + 1) :: labelName (c.labels + 2) ::
        Listing.labels body))
    (hloop : ∀ name, name = loop.continueLabel ∨ name = loop.breakLabel →
      name ∈ Listing.labels code)
    (hjumps : JumpsTo (· ∈ Listing.labels code) body → JumpsTo (· ∈ Listing.labels code) code) :
    Fragment c c' code := by
  refine fragment_of_perm 3 hbody hlabels hlast.labels_eq
    (Nat.le_trans htemporaries (Nat.le_trans hbody.temporaries_le hlast.temporaries_le)) ?_ hperm ?_
  · rw [hlast.loops_eq, Context.outside, hbody.loops_eq]
    exact hloops
  · refine (hjumps (hbody.jumps.mono ?_)).mono (fun name hname => .inl hname)
    rintro name (hname | ⟨_, _, heq, hname⟩)
    · exact hperm.mem_iff.2 (List.mem_append_right (labelsFrom c.labels 3) hname)
    · cases heq
      exact hloop name hname

section Shapes

variable {allowed : String → Prop} {test body : Listing} {start inner next last : String}

theorem labels_whileCode (htest : Straight test) (condition : Operand) :
    Listing.labels (whileCode start inner last test condition body) =
      start :: inner :: (Listing.labels body ++ [last]) := by
  simp [whileCode, Listing.labels_cons, Listing.labels_append, Instruction.label?, htest.labels_eq]
  rfl

theorem jumpsTo_whileCode (htest : Straight test) (hstart : allowed start) (hinner : allowed inner)
    (hlast : allowed last) (hbody : JumpsTo allowed body) (condition : Operand) :
    JumpsTo allowed (whileCode start inner last test condition body) := by
  simp [whileCode, Instruction.target?, htest.jumpsTo, hstart, hinner, hlast, hbody]

theorem labels_doCode (htest : Straight test) (condition : Operand) :
    Listing.labels (doCode start next last test condition body) =
      start :: (Listing.labels body ++ [next, last]) := by
  simp [doCode, Listing.labels_cons, Listing.labels_append, Instruction.label?, htest.labels_eq]
  rfl

theorem jumpsTo_doCode (htest : Straight test) (hstart : allowed start)
    (hbody : JumpsTo allowed body) (condition : Operand) :
    JumpsTo allowed (doCode start next last test condition body) := by
  simp [doCode, Instruction.target?, htest.jumpsTo, hstart, hbody]

theorem labels_forCode (counter check name : String) (bound : Operand) :
    Listing.labels (forCode counter check name start next last bound body) =
      start :: (Listing.labels body ++ [next, last]) := by
  simp [forCode, Listing.labels_cons, Listing.labels_append, Instruction.label?]
  rfl

theorem jumpsTo_forCode (hstart : allowed start) (hlast : allowed last)
    (hbody : JumpsTo allowed body) (counter check name : String) (bound : Operand) :
    JumpsTo allowed (forCode counter check name start next last bound body) := by
  simp [forCode, Instruction.target?, hstart, hlast, hbody]

end Shapes

section Loops

variable {c c₁ c₂ c' : Context} {test body : Listing}

theorem fragment_whileCode (htest : Computes (c.afterLabels 3) c₁ test)
    (hbody : Fragment (c₁.inside ⟨labelName c.labels, labelName (c.labels + 2)⟩) c₂ body)
    (condition : Operand) :
    Fragment c c₂.outside (whileCode (labelName c.labels) (labelName (c.labels + 1))
      (labelName (c.labels + 2)) test condition body) := by
  apply fragment_loop hbody htest.labels_eq htest.temporaries_le htest.loops_eq (computes_refl _)
  · rw [labels_whileCode htest.straight]
    exact ((List.perm_append_singleton _ _).cons _).cons _
  · rw [labels_whileCode htest.straight]
    rintro name (rfl | rfl)
    · simp
    · simp
  · rw [labels_whileCode htest.straight]
    intro hjumps
    exact jumpsTo_whileCode htest.straight (by simp) (by simp) (by simp) hjumps condition

theorem fragment_doCode (hbody : Fragment ((c.afterLabels 3).inside
      ⟨labelName (c.labels + 1), labelName (c.labels + 2)⟩) c₁ body)
    (htest : Computes c₁.outside c' test) (condition : Operand) :
    Fragment c c' (doCode (labelName c.labels) (labelName (c.labels + 1))
      (labelName (c.labels + 2)) test condition body) := by
  have hnothing : Computes c₁.outside c' [] :=
    ⟨Listing.straight_nil, htest.labels_eq, htest.loops_eq, htest.temporaries_le⟩
  apply fragment_loop hbody rfl (Nat.le_refl _) rfl hnothing
  · rw [labels_doCode htest.straight]
    apply List.Perm.cons
    exact List.perm_append_comm
  · rw [labels_doCode htest.straight]
    rintro name (rfl | rfl)
    · simp
    · simp
  · rw [labels_doCode htest.straight]
    intro hjumps
    exact jumpsTo_doCode htest.straight (by simp) hjumps condition

theorem fragment_forCode (hbody : Fragment
      (((c.afterTemporary.afterLabels 3).afterTemporary).inside
        ⟨labelName (c.labels + 1), labelName (c.labels + 2)⟩) c₂ body)
    (counter check name : String) (bound : Operand) :
    Fragment c c₂.outside (forCode counter check name (labelName c.labels)
      (labelName (c.labels + 1)) (labelName (c.labels + 2)) bound body) := by
  have htemporaries : c.temporaries ≤ c.afterTemporary.afterTemporary.temporaries := by
    change c.temporaries ≤ c.temporaries + 1 + 1
    omega
  apply fragment_loop (c := c) hbody rfl htemporaries rfl (computes_refl _)
  · rw [labels_forCode]
    apply List.Perm.cons
    exact List.perm_append_comm
  · rw [labels_forCode]
    rintro name (rfl | rfl)
    · simp
    · simp
  · rw [labels_forCode]
    intro hjumps
    exact jumpsTo_forCode (by simp) (by simp) hjumps counter check name bound

end Loops

/-- The conditions of branches compute values and jump to the branches. -/
theorem lowerConditions_jumpsTo {branches : List Branch} {labels : List String} {c c' : Context}
    {code : Listing} (hlength : labels.length = branches.length)
    (h : lowerConditions branches labels c = (code, c')) :
    c'.labels = c.labels ∧ c'.loops = c.loops ∧ c.temporaries ≤ c'.temporaries ∧
      Listing.labels code = [] ∧ JumpsTo (· ∈ labels) code := by
  induction branches generalizing labels c c' code with
  | nil =>
      obtain rfl : labels = [] := List.length_eq_zero_iff.1 hlength
      cases h
      exact ⟨rfl, rfl, Nat.le_refl _, rfl, Listing.jumpsTo_nil⟩
  | cons branch branches ih =>
      obtain ⟨condition, body⟩ := branch
      cases labels with
      | nil => cases hlength
      | cons label labels =>
          obtain ⟨test, operand, c₁, rest, htest, hrest, rfl⟩ := lowerConditions_cons h
          have hcomputes := computes_lowerExpr htest
          obtain ⟨hlabels, hloops, htemporaries, hnone, hjumps⟩ :=
            ih (Nat.succ.inj hlength) hrest
          refine ⟨hlabels.trans hcomputes.labels_eq, hloops.trans hcomputes.loops_eq,
            Nat.le_trans hcomputes.temporaries_le htemporaries, ?_, ?_⟩
          · rw [Listing.labels_append, Listing.labels_cons, hcomputes.straight.labels_eq, hnone]
            rfl
          · rw [Listing.jumpsTo_append, Listing.jumpsTo_cons]
            refine ⟨hcomputes.straight.jumpsTo _, ?_, hjumps.mono ?_⟩
            · intro name hname
              cases hname
              exact List.mem_cons_self
            · exact fun name hname => List.mem_cons_of_mem _ hname

/-- Work whose code is a fragment. -/
def MakesFragments (work : Lower Listing) : Prop :=
  ∀ ⦃c c' : Context⦄ ⦃code : Listing⦄, work c = (.ok code, c') → Fragment c c' code

/-- The code of branches has a label for each, and otherwise what the code of their blocks has. -/
theorem lowerBranches_fragment {branches : List Branch} {last : String} {labels : List String}
    {c c' : Context} {code : Listing} (hlength : labels.length = branches.length)
    (hbodies : ∀ branch ∈ branches, MakesFragments (lowerBlock branch.body))
    (h : lowerBranches last branches labels c = (.ok code, c')) :
    ∃ bodies, Fragment c c' bodies ∧
      (Listing.labels code).Perm (labels ++ Listing.labels bodies) ∧
      ∀ allowed : String → Prop, allowed last → JumpsTo allowed bodies → JumpsTo allowed code := by
  induction branches generalizing labels c code with
  | nil =>
      obtain rfl : labels = [] := List.length_eq_zero_iff.1 hlength
      cases h
      exact ⟨[], (computes_refl _).fragment, List.Perm.refl _, fun _ _ hjumps => hjumps⟩
  | cons branch branches ih =>
      obtain ⟨condition, body⟩ := branch
      cases labels with
      | nil => cases hlength
      | cons label labels =>
          obtain ⟨bodyCode, c₁, rest, hbody, hrest, rfl⟩ := lowerBranches_cons h
          obtain ⟨bodies, hfragment, hperm, hjumps⟩ := ih (Nat.succ.inj hlength)
            (fun branch hmem => hbodies branch (List.mem_cons_of_mem _ hmem)) hrest
          refine ⟨bodyCode ++ bodies, (hbodies _ List.mem_cons_self hbody).append hfragment, ?_, ?_⟩
          · rw [Listing.labels_cons, Listing.labels_append, Listing.labels_cons,
              Listing.labels_append]
            apply List.Perm.cons
            exact (hperm.append_left _).trans (List.perm_append_comm_assoc _ _ _)
          · intro allowed hlast hboth
            rw [Listing.jumpsTo_append] at hboth
            simp [Instruction.target?, hlast, hboth.1, hjumps allowed hlast hboth.2]

theorem length_branchLabels (c : Context) (branches : List Branch) :
    (branchLabels c branches).length = branches.length := by
  rw [branchLabels, List.length_map, List.length_range']

/-- The code of branches, and behind it code with the remaining labels. -/
theorem fragment_choose {c c₁ c₂ c' : Context} {branches : List Branch} {count : Nat}
    {conditions bodies tail rest : Listing} {next last : String}
    (hblocks : ∀ branch ∈ branches, MakesFragments (lowerBlock branch.body))
    (hconditions : lowerConditions branches (branchLabels c branches) (c.afterLabels count) =
      (conditions, c₁))
    (hbodies : lowerBranches last branches (branchLabels c branches) c₁ = (.ok bodies, c₂))
    (hrest : Fragment c₂ c' rest)
    (hperm : (branchLabels c branches ++ Listing.labels tail).Perm
      (labelsFrom c.labels count ++ Listing.labels rest))
    (hnext : next ∈ Listing.labels tail) (hlast : last ∈ Listing.labels tail)
    (htail : ∀ allowed : String → Prop, (∀ name ∈ Listing.labels tail, allowed name) →
      JumpsTo allowed rest → JumpsTo allowed tail) :
    Fragment c c' (conditions ++ .goto next :: (bodies ++ tail)) := by
  obtain ⟨hlabels, hloops, htemporaries, hnone, hbranches⟩ :=
    lowerConditions_jumpsTo (length_branchLabels c branches) hconditions
  obtain ⟨inner, hinner, hinnerPerm, hjumps⟩ :=
    lowerBranches_fragment (length_branchLabels c branches) hblocks hbodies
  have hboth := hinner.append hrest
  have hcode : Listing.labels (conditions ++ .goto next :: (bodies ++ tail)) =
      Listing.labels bodies ++ Listing.labels tail := by
    simp only [Listing.labels_append, Listing.labels_cons, hnone, List.nil_append]
    rfl
  refine fragment_of_perm count hboth hlabels rfl
    (Nat.le_trans htemporaries hboth.temporaries_le) (hboth.loops_eq.trans hloops) ?_ ?_
  · rw [hcode, Listing.labels_append]
    calc (Listing.labels bodies ++ Listing.labels tail).Perm
          (branchLabels c branches ++ Listing.labels inner ++ Listing.labels tail) :=
          hinnerPerm.append_right _
      _ |>.Perm (Listing.labels inner ++ (branchLabels c branches ++ Listing.labels tail)) := by
          rw [← List.append_assoc]
          exact List.perm_append_comm.append_right _
      _ |>.Perm (Listing.labels inner ++ (labelsFrom c.labels count ++ Listing.labels rest)) :=
          hperm.append_left _
      _ |>.Perm (labelsFrom c.labels count ++ (Listing.labels inner ++ Listing.labels rest)) :=
          List.perm_append_comm_assoc _ _ _
  · rw [hcode]
    have hbranchLabel : ∀ name ∈ branchLabels c branches, name ∈ Listing.labels bodies :=
      fun name hname => hinnerPerm.mem_iff.2 (List.mem_append_left _ hname)
    have hinnerLabel : ∀ name ∈ Listing.labels inner, name ∈ Listing.labels bodies :=
      fun name hname => hinnerPerm.mem_iff.2 (List.mem_append_right _ hname)
    have hinside : ∀ name, c₁.IsLoopLabel name → c.IsLoopLabel name := by
      intro name hname
      rwa [Context.IsLoopLabel, hloops] at hname
    have hafter : ∀ name, c₂.IsLoopLabel name → c.IsLoopLabel name := by
      intro name hname
      rw [Context.IsLoopLabel, hinner.loops_eq] at hname
      exact hinside name hname
    rw [Listing.jumpsTo_append, Listing.jumpsTo_cons, Listing.jumpsTo_append]
    refine ⟨hbranches.mono ?_, ?_, hjumps _ ?_ (hinner.jumps.mono ?_),
      htail _ ?_ (hrest.jumps.mono ?_)⟩
    · exact fun name hname => .inl (List.mem_append_left _ (hbranchLabel name hname))
    · intro name hname
      cases hname
      exact .inl (List.mem_append_right _ hnext)
    · exact .inl (List.mem_append_right _ hlast)
    · rintro name (hname | hname)
      · exact .inl (List.mem_append_left _ (hinnerLabel name hname))
      · exact .inr (hinside name hname)
    · exact fun name hname => .inl (List.mem_append_right _ hname)
    · rintro name (hname | hname)
      · have hmem : name ∈ labelsFrom c.labels count ++ Listing.labels rest :=
          List.mem_append_right _ hname
        rcases List.mem_append.1 (hperm.mem_iff.2 hmem) with hname | hname
        · exact .inl (List.mem_append_left _ (hbranchLabel name hname))
        · exact .inl (List.mem_append_right _ hname)
      · exact .inr (hafter name hname)

theorem branchLabels_eq (c : Context) (branches : List Branch) :
    labelName c.labels :: branchLabels c branches = labelsFrom c.labels (1 + branches.length) := by
  rw [Nat.add_comm, labelsFrom, List.range'_succ]
  rfl

theorem fragment_choose_none {branches : List Branch}
    (hblocks : ∀ branch ∈ branches, MakesFragments (lowerBlock branch.body)) :
    MakesFragments (lowerStmt (.choose branches none)) := by
  intro c c' code h
  obtain ⟨conditions, c₁, bodies, hconditions, hbodies, rfl⟩ := lowerStmt_choose_none h
  apply fragment_choose hblocks hconditions hbodies (computes_refl c').fragment
  · rw [← branchLabels_eq]
    change (branchLabels c branches ++ [labelName c.labels]).Perm
      (labelName c.labels :: branchLabels c branches ++ [])
    rw [List.append_nil]
    exact List.perm_append_singleton _ _
  · exact List.mem_singleton_self _
  · exact List.mem_singleton_self _
  · intro allowed hallowed _
    simp [Instruction.target?]

theorem fragment_choose_some {branches : List Branch} {block : List Stmt}
    (hblocks : ∀ branch ∈ branches, MakesFragments (lowerBlock branch.body))
    (hblock : MakesFragments (lowerBlock block)) :
    MakesFragments (lowerStmt (.choose branches (some block))) := by
  intro c c' code h
  obtain ⟨conditions, c₁, bodies, c₂, otherwise, hconditions, hbodies, hotherwise, rfl⟩ :=
    lowerStmt_choose_some h
  apply fragment_choose hblocks hconditions hbodies (hblock hotherwise)
  · have hcount : labelsFrom c.labels (2 + branches.length) =
        labelName c.labels :: branchLabels c branches ++
          [labelName (c.labels + 1 + branches.length)] := by
      have hsucc : 2 + branches.length = 1 + branches.length + 1 := by omega
      rw [branchLabels_eq, hsucc, labelsFrom_succ, Nat.add_assoc]
    rw [hcount, List.perm_iff_count]
    intro name
    have hlabels : Listing.labels (.label (labelName (c.labels + 1 + branches.length)) ::
        (otherwise ++ [.goto (labelName c.labels), .label (labelName c.labels)])) =
          labelName (c.labels + 1 + branches.length) ::
            (Listing.labels otherwise ++ [labelName c.labels]) := by
      rw [Listing.labels_cons, Listing.labels_append]
      rfl
    rw [hlabels]
    simp only [List.count_append, List.count_cons, List.count_nil]
    omega
  · exact List.mem_cons_self
  · simp [Listing.labels_cons, Listing.labels_append, Instruction.label?]
  · intro allowed hallowed hjumps
    have hlast := hallowed (labelName c.labels)
      (by simp [Listing.labels_cons, Listing.labels_append, Instruction.label?])
    simp [Instruction.target?, hjumps, hlast]

/-- A jump to a label of the innermost loop. -/
theorem fragment_goto {c : Context} {loop : LoopLabels} {rest : List LoopLabels} {name : String}
    (hloops : c.loops = loop :: rest) (hname : name = loop.continueLabel ∨ name = loop.breakLabel) :
    Fragment c c [.goto name] := by
  refine ⟨Nat.le_refl _, Nat.le_refl _, rfl, ?_, fun _ => Nat.zero_le _, ?_⟩
  · intro _ hmem
    cases hmem
  · intro instruction hmem target htarget
    rw [List.mem_singleton.1 hmem] at htarget
    cases htarget
    exact .inr ⟨loop, rest, hloops, hname⟩

mutual

/-- The code of a statement is a fragment. -/
theorem fragment_lowerStmt : (stmt : Stmt) → MakesFragments (lowerStmt stmt)
  | .declare name value => by
      intro c c' code h
      obtain ⟨valueCode, operand, hvalue, rfl⟩ := lowerStmt_declare h
      exact ((computes_lowerExpr hvalue).append (computes_single c' rfl rfl)).fragment
  | .assign name value => by
      intro c c' code h
      obtain ⟨valueCode, operand, hvalue, rfl⟩ := lowerStmt_assign h
      exact ((computes_lowerExpr hvalue).append (computes_single c' rfl rfl)).fragment
  | .print text arguments => by
      intro c c' code h
      obtain ⟨argumentCode, operands, harguments, rfl⟩ := lowerStmt_print h
      exact ((computes_lowerExprs harguments).append (computes_single c' rfl rfl)).fragment
  | .choose branches none => fragment_choose_none (fragment_lowerBranches branches)
  | .choose branches (some block) =>
      fragment_choose_some (fragment_lowerBranches branches) (fragment_lowerBlock block)
  | .whileLoop condition body => by
      intro c c' code h
      obtain ⟨test, operand, c₁, bodyCode, c₂, htest, hbody, rfl, rfl⟩ := lowerStmt_whileLoop h
      exact fragment_whileCode (computes_lowerExpr htest) (fragment_lowerBlock body hbody) operand
  | .doWhile body condition => by
      intro c c' code h
      obtain ⟨bodyCode, c₁, test, operand, hbody, htest, rfl⟩ := lowerStmt_doWhile h
      exact fragment_doCode (fragment_lowerBlock body hbody) (computes_lowerExpr htest) operand
  | .forLoop name count body => by
      intro c c' code h
      obtain ⟨boundCode, bound, c₁, bodyCode, c₂, hbound, hbody, rfl, rfl⟩ := lowerStmt_forLoop h
      exact (computes_lowerBound hbound).fragment.append
        (fragment_forCode (fragment_lowerBlock body hbody) _ _ name bound)
  | .breakLoop => by
      intro c c' code h
      obtain ⟨loop, rest, hloops, rfl, rfl⟩ := lowerStmt_breakLoop h
      exact fragment_goto hloops (.inr rfl)
  | .continueLoop => by
      intro c c' code h
      obtain ⟨loop, rest, hloops, rfl, rfl⟩ := lowerStmt_continueLoop h
      exact fragment_goto hloops (.inl rfl)
  | .ret none => by
      intro c c' code h
      cases h
      exact (computes_single c rfl rfl).fragment
  | .ret (some value) => by
      intro c c' code h
      obtain ⟨valueCode, operand, hvalue, rfl⟩ := lowerStmt_ret_some h
      exact ((computes_lowerExpr hvalue).append (computes_single c' rfl rfl)).fragment
  | .block statements => by
      intro c c' code h
      rw [lowerStmt] at h
      exact fragment_lowerBlock statements h
  | .importFile path => by
      intro c c' code h
      cases h
      exact (computes_single c rfl rfl).fragment

/-- The code of a block is a fragment. -/
theorem fragment_lowerBlock : (block : List Stmt) → MakesFragments (lowerBlock block)
  | [] => by
      intro c c' code h
      cases h
      exact (computes_refl c).fragment
  | stmt :: rest => by
      intro c c' code h
      obtain ⟨first, c₁, restCode, hfirst, hrest, rfl⟩ := lowerBlock_cons h
      exact (fragment_lowerStmt stmt hfirst).append (fragment_lowerBlock rest hrest)

/-- The code of each branch's block is a fragment. -/
theorem fragment_lowerBranches :
    (branches : List Branch) → ∀ branch ∈ branches, MakesFragments (lowerBlock branch.body)
  | [], _, hmem => absurd hmem List.not_mem_nil
  | .mk condition body :: rest, branch, hmem => by
      rcases List.mem_cons.1 hmem with rfl | hmem
      · exact fragment_lowerBlock body
      · exact fragment_lowerBranches rest branch hmem

end

/-- The labels of a fragment have the numbers that were handed out for it. -/
theorem Fragment.exists_number {c c' : Context} {code : Listing} (h : Fragment c c' code)
    {name : String} (hname : name ∈ Listing.labels code) :
    ∃ number, c.labels ≤ number ∧ number < c'.labels ∧ name = labelName number := by
  obtain ⟨number, rfl⟩ := h.numbered name hname
  have honce := h.once number
  have hpos : 0 < labelCount code number := List.count_pos_iff.2 hname
  split at honce
  · rename_i hinside
    exact ⟨number, hinside.1, hinside.2, rfl⟩
  · omega

/-- No label stands twice in a fragment. -/
theorem Fragment.nodup {c c' : Context} {code : Listing} (h : Fragment c c' code) :
    (Listing.labels code).Nodup := by
  rw [List.nodup_iff_count]
  intro name
  by_cases hmem : name ∈ Listing.labels code
  · obtain ⟨number, rfl⟩ := h.numbered name hmem
    have honce := h.once number
    rw [labelCount] at honce
    split at honce <;> omega
  · rw [List.count_eq_zero.2 hmem]
    exact Nat.zero_le 1

/-- Lowered programs are well labelled. -/
theorem wellLabelled_lower {program : Program} {listing : Listing}
    (h : lower program = .ok listing) : Listing.WellLabelled listing := by
  have hblock := lowerBlock_of_lower h
  have hfragment := fragment_lowerBlock program.statements hblock
  refine ⟨hfragment.nodup, ?_⟩
  intro instruction hmem name htarget
  rcases hfragment.jumps instruction hmem name htarget with hlabel | ⟨loop, rest, hloops, _⟩
  · exact hlabel
  · cases hloops

end Lowering

end StackPipeline
