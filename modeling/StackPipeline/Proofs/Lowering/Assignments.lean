import StackPipeline.Proofs.Lowering.Fragments
import StackPipeline.Proofs.Tree.Evaluation

/-!
What lowered code assigns: the names that the program assigns, in the same order, and the temporaries
that were handed out.  It leaves or continues a loop by way of a label only.
-/

namespace StackPipeline

namespace Listing

def Instruction.assigned? : Instruction → Option String
  | .assign target _ => some target
  | _ => none

def assigned (listing : Listing) : List String :=
  listing.filterMap Instruction.assigned?

theorem assigned_append (front rest : Listing) :
    assigned (front ++ rest) = assigned front ++ assigned rest :=
  List.filterMap_append

/-- No loop is left or continued without a label. -/
def Resolved (listing : Listing) : Prop :=
  ∀ instruction ∈ listing, instruction ≠ .breakLoop ∧ instruction ≠ .continueLoop

theorem resolved_append {front rest : Listing} :
    Resolved (front ++ rest) ↔ Resolved front ∧ Resolved rest :=
  List.forall_mem_append

end Listing

namespace Tree

mutual

/-- The names that a statement assigns, in order. -/
def assignedByStmt : Stmt → List String
  | .declare name _ => [name]
  | .assign name _ => [name]
  | .choose branches none => assignedByBranches branches
  | .choose branches (some block) => assignedByBranches branches ++ assignedByBlock block
  | .whileLoop _ body => assignedByBlock body
  | .doWhile body _ => assignedByBlock body
  | .forLoop name _ body => name :: assignedByBlock body
  | .block statements => assignedByBlock statements
  | _ => []

def assignedByBlock : List Stmt → List String
  | [] => []
  | stmt :: rest => assignedByStmt stmt ++ assignedByBlock rest

def assignedByBranches : List Branch → List String
  | [] => []
  | .mk _ body :: rest => assignedByBlock body ++ assignedByBranches rest

end

def Program.assigned (program : Program) : List String :=
  assignedByBlock program.statements

/-- What the parts assign are variables of the parts. -/
theorem append_subset_append {own more names others : List String} (hown : own ⊆ names)
    (hmore : more ⊆ others) : own ++ more ⊆ names ++ others :=
  List.append_subset.2 ⟨List.subset_append_of_subset_left _ hown,
    List.subset_append_of_subset_right _ hmore⟩

mutual

/-- What a statement assigns is a variable of it. -/
theorem assignedByStmt_subset : (stmt : Stmt) → assignedByStmt stmt ⊆ namesOfStmt stmt
  | .declare name value => by simp [assignedByStmt, namesOfStmt]
  | .assign name value => by simp [assignedByStmt, namesOfStmt]
  | .choose branches none => assignedByBranches_subset branches
  | .choose branches (some block) =>
      append_subset_append (assignedByBranches_subset branches) (assignedByBlock_subset block)
  | .whileLoop condition body =>
      List.subset_append_of_subset_right _ (assignedByBlock_subset body)
  | .doWhile body condition =>
      List.subset_append_of_subset_left _ (assignedByBlock_subset body)
  | .forLoop name count body =>
      List.cons_subset_cons _
        (List.subset_append_of_subset_right _ (assignedByBlock_subset body))
  | .block statements => assignedByBlock_subset statements
  | .print _ _ | .breakLoop | .continueLoop | .ret _ | .importFile _ => List.nil_subset _

/-- What a block assigns is a variable of it. -/
theorem assignedByBlock_subset : (block : List Stmt) → assignedByBlock block ⊆ namesOfBlock block
  | [] => List.nil_subset _
  | stmt :: rest =>
      append_subset_append (assignedByStmt_subset stmt) (assignedByBlock_subset rest)

/-- What branches assign is a variable of them. -/
theorem assignedByBranches_subset :
    (branches : List Branch) → assignedByBranches branches ⊆ namesOfBranches branches
  | [] => List.nil_subset _
  | .mk _ body :: rest =>
      append_subset_append
        (List.subset_append_of_subset_right _ (assignedByBlock_subset body))
        (assignedByBranches_subset rest)

end

/-- What a program assigns is a variable of it. -/
theorem Program.assigned_subset (program : Program) : program.assigned ⊆ program.names :=
  assignedByBlock_subset program.statements

end Tree

namespace Lowering

open StackPipeline.Tree (Expr Stmt Branch Program)
open Listing (Operand Source Instruction Resolved)

/-- A temporary from among those with these numbers. -/
def IsTemporary (first last : Nat) (name : String) : Prop :=
  ∃ number, first ≤ number ∧ number < last ∧ name = temporaryName number

/-- Code that assigns names of its own, in their order, and each of these temporaries once more than
that.  Whoever looks away from the temporaries sees the own names. -/
structure Writes (first last : Nat) (own : List String) (code : Listing) : Prop where
  resolved : Resolved code
  le : first ≤ last
  sublist : own.Sublist (Listing.assigned code)
  count_lt : ∀ name, IsTemporary first last name →
    own.count name < (Listing.assigned code).count name
  filter_eq : ∀ seen : String → Bool, (∀ name, IsTemporary first last name → seen name = false) →
    (Listing.assigned code).filter seen = own.filter seen

theorem isTemporary_append {first middle last : Nat} (hfirst : first ≤ middle)
    (hlast : middle ≤ last) {name : String} :
    IsTemporary first last name ↔ IsTemporary first middle name ∨ IsTemporary middle last name := by
  constructor
  · rintro ⟨number, hle, hlt, rfl⟩
    by_cases h : number < middle
    · exact .inl ⟨number, hle, h, rfl⟩
    · exact .inr ⟨number, Nat.le_of_not_lt h, hlt, rfl⟩
  · rintro (⟨number, hle, hlt, rfl⟩ | ⟨number, hle, hlt, rfl⟩)
    · exact ⟨number, hle, by omega, rfl⟩
    · exact ⟨number, by omega, hlt, rfl⟩

theorem isTemporary_single {number : Nat} {name : String} :
    IsTemporary number (number + 1) name ↔ name = temporaryName number := by
  constructor
  · rintro ⟨other, hle, hlt, rfl⟩
    obtain rfl : other = number := by omega
    rfl
  · rintro rfl
    exact ⟨number, Nat.le_refl _, Nat.lt_succ_self _, rfl⟩

theorem not_isTemporary_self {number : Nat} {name : String} : ¬IsTemporary number number name := by
  rintro ⟨other, hle, hlt, -⟩
  omega

theorem Writes.append {first middle last : Nat} {own more : List String} {front rest : Listing}
    (hfront : Writes first middle own front) (hrest : Writes middle last more rest) :
    Writes first last (own ++ more) (front ++ rest) where
  resolved := Listing.resolved_append.2 ⟨hfront.resolved, hrest.resolved⟩
  le := Nat.le_trans hfront.le hrest.le
  sublist := by
    rw [Listing.assigned_append]
    exact hfront.sublist.append hrest.sublist
  count_lt name hname := by
    have hfirst := hfront.sublist.count_le name
    have hlast := hrest.sublist.count_le name
    rw [Listing.assigned_append, List.count_append, List.count_append]
    rcases (isTemporary_append hfront.le hrest.le).1 hname with hname | hname
    · exact Nat.add_lt_add_of_lt_of_le (hfront.count_lt name hname) hlast
    · exact Nat.add_lt_add_of_le_of_lt hfirst (hrest.count_lt name hname)
  filter_eq seen hseen := by
    have hboth (name : String)
        (h : IsTemporary first middle name ∨ IsTemporary middle last name) :
        IsTemporary first last name := (isTemporary_append hfront.le hrest.le).2 h
    rw [Listing.assigned_append, List.filter_append, List.filter_append,
      hfront.filter_eq seen (fun name h => hseen name (hboth name (.inl h))),
      hrest.filter_eq seen (fun name h => hseen name (hboth name (.inr h)))]

@[simp] theorem writes_nil (number : Nat) : Writes number number [] [] where
  resolved _ hmem := absurd hmem List.not_mem_nil
  le := Nat.le_refl _
  sublist := .refl _
  count_lt _ hname := absurd hname not_isTemporary_self
  filter_eq _ _ := rfl

/-- Code without assignments behind other code. -/
theorem Writes.append_nothing {first last : Nat} {own : List String} {front rest : Listing}
    (hfront : Writes first last own front) (hrest : Writes last last [] rest) :
    Writes first last own (front ++ rest) := by
  have hboth := hfront.append hrest
  rwa [List.append_nil] at hboth

/-- An instruction in front that assigns nothing. -/
theorem writes_cons_iff (instruction : Instruction) (hassigned : instruction.assigned? = none)
    (hresolved : instruction ≠ .breakLoop ∧ instruction ≠ .continueLoop) {first last : Nat}
    {own : List String} {rest : Listing} :
    Writes first last own (instruction :: rest) ↔ Writes first last own rest := by
  have hsame : Listing.assigned (instruction :: rest) = Listing.assigned rest :=
    List.filterMap_cons_none hassigned
  have hboth : Resolved (instruction :: rest) ↔ Resolved rest := by
    rw [Resolved, List.forall_mem_cons, and_iff_right hresolved]
    rfl
  constructor
  · rintro ⟨hresolved, hle, hsublist, hcount, hfilter⟩
    rw [hsame] at hsublist hcount hfilter
    exact ⟨hboth.1 hresolved, hle, hsublist, hcount, hfilter⟩
  · rintro ⟨hresolved, hle, hsublist, hcount, hfilter⟩
    rw [← hsame] at hsublist hcount hfilter
    exact ⟨hboth.2 hresolved, hle, hsublist, hcount, hfilter⟩

section Control

variable {first last : Nat} {own : List String} {rest : Listing}

@[simp] theorem writes_label_cons {name : String} :
    Writes first last own (.label name :: rest) ↔ Writes first last own rest :=
  writes_cons_iff (.label name) rfl ⟨nofun, nofun⟩

@[simp] theorem writes_goto_cons {label : String} :
    Writes first last own (.goto label :: rest) ↔ Writes first last own rest :=
  writes_cons_iff (.goto label) rfl ⟨nofun, nofun⟩

@[simp] theorem writes_branch_cons {condition : Operand} {label : String} :
    Writes first last own (.branch condition label :: rest) ↔ Writes first last own rest :=
  writes_cons_iff (.branch condition label) rfl ⟨nofun, nofun⟩

end Control

/-- An assignment of the program. -/
theorem writes_own (number : Nat) (name : String) (source : Source) :
    Writes number number [name] [.assign name source] where
  resolved := List.forall_mem_singleton.2 ⟨nofun, nofun⟩
  le := Nat.le_refl _
  sublist := .refl _
  count_lt _ hname := absurd hname not_isTemporary_self
  filter_eq _ _ := rfl

/-- A fresh temporary is assigned. -/
theorem writes_temporary (number : Nat) (source : Source) :
    Writes number (number + 1) [] [.assign (temporaryName number) source] where
  resolved := List.forall_mem_singleton.2 ⟨nofun, nofun⟩
  le := Nat.le_succ _
  sublist := List.nil_sublist _
  count_lt name hname := by
    rw [isTemporary_single.1 hname]
    simp [Listing.assigned, Instruction.assigned?]
  filter_eq seen hseen := by
    have hnot := hseen _ (isTemporary_single.2 rfl)
    simp [Listing.assigned, Instruction.assigned?, hnot]

/-- A temporary is assigned once more. -/
theorem Writes.again {first last number : Nat} {own : List String} {code : Listing}
    (h : Writes first last own code) (hle : first ≤ number) (hlt : number < last)
    (source : Source) : Writes first last own (code ++ [.assign (temporaryName number) source]) where
  resolved := Listing.resolved_append.2 ⟨h.resolved, List.forall_mem_singleton.2 ⟨nofun, nofun⟩⟩
  le := h.le
  sublist := by
    rw [Listing.assigned_append]
    exact h.sublist.trans (List.sublist_append_left _ _)
  count_lt name hname := by
    rw [Listing.assigned_append, List.count_append]
    exact Nat.lt_add_right _ (h.count_lt name hname)
  filter_eq seen hseen := by
    have hnot := hseen _ ⟨number, hle, hlt, rfl⟩
    rw [Listing.assigned_append, List.filter_append, h.filter_eq seen hseen]
    simp [Listing.assigned, Instruction.assigned?, hnot]

theorem writes_lowerExpr {expr : Expr} {c c' : Context} {code : Listing} {operand : Operand}
    (h : lowerExpr expr c = ((code, operand), c')) :
    Writes c.temporaries c'.temporaries [] code := by
  induction expr generalizing c c' code operand with
  | number x =>
      cases h
      exact writes_nil _
  | boolean b =>
      cases h
      exact writes_nil _
  | var name =>
      cases h
      exact writes_nil _
  | binary left op right ihLeft ihRight =>
      obtain ⟨leftCode, leftValue, c₁, rightCode, rightValue, c₂, hleft, hright, hout, rfl⟩ :=
        lowerExpr_binary h
      cases hout
      exact ((ihLeft hleft).append (ihRight hright)).append (writes_temporary c₂.temporaries _)
  | read prompt =>
      obtain ⟨hout, rfl⟩ := lowerExpr_read h
      cases hout
      exact writes_temporary c.temporaries _

theorem writes_lowerExprs {exprs : List Expr} {c c' : Context} {code : Listing}
    {operands : List Operand} (h : lowerExprs exprs c = ((code, operands), c')) :
    Writes c.temporaries c'.temporaries [] code := by
  induction exprs generalizing c c' code operands with
  | nil =>
      cases h
      exact writes_nil _
  | cons expr rest ih =>
      obtain ⟨first, operand, c₁, restCode, restOperands, hfirst, hrest, rfl, rfl⟩ :=
        lowerExprs_cons h
      exact (writes_lowerExpr hfirst).append (ih hrest)

theorem writes_lowerBound {count : Expr} {c c' : Context} {code : Listing} {bound : Operand}
    (h : lowerBound count c = ((code, bound), c')) :
    Writes c.temporaries c'.temporaries [] code := by
  rcases lowerBound_cases h with ⟨name, -, rfl, -, rfl⟩ | ⟨-, hexpr⟩
  · exact writes_temporary c.temporaries _
  · exact writes_lowerExpr hexpr

theorem writes_lowerConditions {branches : List Branch} {labels : List String} {c c' : Context}
    {code : Listing} (h : lowerConditions branches labels c = (code, c')) :
    Writes c.temporaries c'.temporaries [] code := by
  induction branches generalizing labels c c' code with
  | nil =>
      cases h
      exact writes_nil _
  | cons branch branches ih =>
      obtain ⟨condition, body⟩ := branch
      rcases labels with _ | ⟨label, labels⟩
      · cases h
        exact writes_nil _
      · obtain ⟨test, operand, c₁, rest, htest, hrest, rfl⟩ := lowerConditions_cons h
        exact (writes_lowerExpr htest).append (writes_branch_cons.2 (ih hrest))

section Loops

variable {first middle last : Nat} {own : List String} {test body : Listing}

theorem writes_whileCode (htest : Writes first middle [] test) (hbody : Writes middle last own body)
    (start inner out : String) (condition : Operand) :
    Writes first last own (whileCode start inner out test condition body) := by
  rw [whileCode, writes_label_cons]
  refine htest.append ?_
  simp only [writes_branch_cons, writes_goto_cons, writes_label_cons]
  exact hbody.append_nothing (by simp)

theorem writes_doCode (hbody : Writes first middle own body) (htest : Writes middle last [] test)
    (start next out : String) (condition : Operand) :
    Writes first last own (doCode start next out test condition body) := by
  have hend : Writes middle last []
      (.label next :: (test ++ [.branch condition start, .label out])) :=
    writes_label_cons.2 (htest.append_nothing (by simp))
  rw [doCode, writes_label_cons, ← List.append_nil own]
  exact hbody.append hend

/-- A counting loop assigns its variable, and counts and checks in two temporaries. -/
theorem writes_forCode (hbody : Writes (first + 2) last own body) (name start next out : String)
    (bound : Operand) :
    Writes first last (name :: own) (forCode (temporaryName first) (temporaryName (first + 1)) name
      start next out bound body) := by
  have hround : Writes (first + 1) last (name :: own)
      (.label start :: .assign (temporaryName (first + 1))
          (.operation .ge (.name (temporaryName first)) bound) ::
        .branch (.name (temporaryName (first + 1))) out ::
        .assign name (.operand (.name (temporaryName first))) :: (body ++ [.label next])) :=
    writes_label_cons.2 ((writes_temporary (first + 1) _).append (writes_branch_cons.2
      ((writes_own (first + 2) name _).append (hbody.append_nothing (by simp)))))
  have hstart := (writes_temporary first (.operand (.number 0))).append hround
  -- The counter is assigned in two places but handed out once.
  have hcount := hstart.again (Nat.le_refl first) (Nat.lt_of_succ_le hround.le)
    (.operation .add (.name (temporaryName first)) (.number 1))
  have hend : Writes last last [] [.goto start, .label out] := by simp
  simpa [forCode] using hcount.append_nothing hend

end Loops

/-- Work whose code writes these names. -/
def MakesWrites (own : List String) (work : Lower Listing) : Prop :=
  ∀ ⦃c c' : Context⦄ ⦃code : Listing⦄, work c = (.ok code, c') →
    Writes c.temporaries c'.temporaries own code

theorem writes_lowerBranches {branches : List Branch} {out : String} {labels : List String}
    {c c' : Context} {code : Listing} (hlength : labels.length = branches.length)
    (hbodies : ∀ branch ∈ branches,
      MakesWrites (Tree.assignedByBlock branch.body) (lowerBlock branch.body))
    (h : lowerBranches out branches labels c = (.ok code, c')) :
    Writes c.temporaries c'.temporaries (Tree.assignedByBranches branches) code := by
  induction branches generalizing labels c code with
  | nil =>
      obtain rfl : labels = [] := List.length_eq_zero_iff.1 hlength
      cases h
      exact writes_nil _
  | cons branch branches ih =>
      obtain ⟨condition, body⟩ := branch
      rcases labels with _ | ⟨label, labels⟩
      · cases hlength
      · obtain ⟨bodyCode, c₁, rest, hbody, hrest, rfl⟩ := lowerBranches_cons h
        have hfirst := hbodies _ List.mem_cons_self hbody
        have hothers := ih (Nat.succ.inj hlength)
          (fun branch hmem => hbodies branch (List.mem_cons_of_mem _ hmem)) hrest
        exact writes_label_cons.2 (hfirst.append (writes_goto_cons.2 hothers))

mutual

/-- The code of a statement writes what the statement assigns. -/
theorem writes_lowerStmt :
    (stmt : Stmt) → MakesWrites (Tree.assignedByStmt stmt) (lowerStmt stmt)
  | .declare name value => by
      intro c c' code h
      obtain ⟨valueCode, operand, hvalue, rfl⟩ := lowerStmt_declare h
      exact (writes_lowerExpr hvalue).append (writes_own _ name _)
  | .assign name value => by
      intro c c' code h
      obtain ⟨valueCode, operand, hvalue, rfl⟩ := lowerStmt_assign h
      exact (writes_lowerExpr hvalue).append (writes_own _ name _)
  | .print text arguments => by
      intro c c' code h
      obtain ⟨argumentCode, operands, harguments, rfl⟩ := lowerStmt_print h
      exact (writes_lowerExprs harguments).append_nothing
        ((writes_cons_iff (.print text operands) rfl ⟨nofun, nofun⟩).2 (writes_nil _))
  | .choose branches none => by
      intro c c' code h
      obtain ⟨conditions, c₁, bodies, hconditions, hbodies, rfl⟩ := lowerStmt_choose_none h
      have hblocks := writes_lowerBranches (length_branchLabels c branches)
        (writes_lowerBlocks branches) hbodies
      exact (writes_lowerConditions hconditions).append
        (writes_goto_cons.2 (hblocks.append_nothing (by simp)))
  | .choose branches (some block) => by
      intro c c' code h
      obtain ⟨conditions, c₁, bodies, c₂, otherwise, hconditions, hbodies, hotherwise, rfl⟩ :=
        lowerStmt_choose_some h
      have hblocks := writes_lowerBranches (length_branchLabels c branches)
        (writes_lowerBlocks branches) hbodies
      have hend : Writes c'.temporaries c'.temporaries []
          [.goto (labelName c.labels), .label (labelName c.labels)] := by simp
      have hlast := (writes_lowerBlock block hotherwise).append_nothing hend
      exact (writes_lowerConditions hconditions).append
        (writes_goto_cons.2 (hblocks.append (writes_label_cons.2 hlast)))
  | .whileLoop condition body => by
      intro c c' code h
      obtain ⟨test, operand, c₁, bodyCode, c₂, htest, hbody, rfl, rfl⟩ := lowerStmt_whileLoop h
      have hinside := writes_lowerBlock body hbody
      exact writes_whileCode (writes_lowerExpr htest) hinside _ _ _ operand
  | .doWhile body condition => by
      intro c c' code h
      obtain ⟨bodyCode, c₁, test, operand, hbody, htest, rfl⟩ := lowerStmt_doWhile h
      have hlast := writes_lowerExpr htest
      exact writes_doCode (writes_lowerBlock body hbody) hlast _ _ _ operand
  | .forLoop name count body => by
      intro c c' code h
      obtain ⟨boundCode, bound, c₁, bodyCode, c₂, hbound, hbody, rfl, rfl⟩ := lowerStmt_forLoop h
      exact (writes_lowerBound hbound).append
        (writes_forCode (writes_lowerBlock body hbody) name _ _ _ bound)
  | .breakLoop => by
      intro c c' code h
      obtain ⟨loop, rest, hloops, rfl, rfl⟩ := lowerStmt_breakLoop h
      exact writes_goto_cons.2 (writes_nil _)
  | .continueLoop => by
      intro c c' code h
      obtain ⟨loop, rest, hloops, rfl, rfl⟩ := lowerStmt_continueLoop h
      exact writes_goto_cons.2 (writes_nil _)
  | .ret none => by
      intro c c' code h
      cases h
      exact (writes_cons_iff (.ret none) rfl ⟨nofun, nofun⟩).2 (writes_nil _)
  | .ret (some value) => by
      intro c c' code h
      obtain ⟨valueCode, operand, hvalue, rfl⟩ := lowerStmt_ret_some h
      exact (writes_lowerExpr hvalue).append_nothing
        ((writes_cons_iff (.ret (some operand)) rfl ⟨nofun, nofun⟩).2 (writes_nil _))
  | .block statements => by
      intro c c' code h
      rw [lowerStmt] at h
      exact writes_lowerBlock statements h
  | .importFile path => by
      intro c c' code h
      cases h
      exact (writes_cons_iff (.comment ("import " ++ path)) rfl ⟨nofun, nofun⟩).2 (writes_nil _)

/-- The code of a block writes what the block assigns. -/
theorem writes_lowerBlock :
    (block : List Stmt) → MakesWrites (Tree.assignedByBlock block) (lowerBlock block)
  | [] => by
      intro c c' code h
      cases h
      exact writes_nil _
  | stmt :: rest => by
      intro c c' code h
      obtain ⟨first, c₁, restCode, hfirst, hrest, rfl⟩ := lowerBlock_cons h
      exact (writes_lowerStmt stmt hfirst).append (writes_lowerBlock rest hrest)

/-- The code of each branch's block writes what the block assigns. -/
theorem writes_lowerBlocks :
    (branches : List Branch) → ∀ branch ∈ branches,
      MakesWrites (Tree.assignedByBlock branch.body) (lowerBlock branch.body)
  | [], _, hmem => absurd hmem List.not_mem_nil
  | .mk condition body :: rest, branch, hmem => by
      rcases List.mem_cons.1 hmem with rfl | hmem
      · exact writes_lowerBlock body
      · exact writes_lowerBlocks rest branch hmem

end

def temporaryCount (program : Program) : Nat :=
  (lowerProgram program .initial).2.temporaries

theorem writes_lower {program : Program} {listing : Listing} (h : lower program = .ok listing) :
    Writes 0 (temporaryCount program) program.assigned listing :=
  writes_lowerBlock program.statements (lowerBlock_of_lower h)

end Lowering

end StackPipeline
