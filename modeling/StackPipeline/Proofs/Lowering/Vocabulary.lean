import StackPipeline.Proofs.Listing.WrittenForm
import StackPipeline.Proofs.Lowering.Allotment
import StackPipeline.Proofs.Lowering.Fragments

/-!
The words of lowered code: which names it has, and which comments.

A name is one of the program, or was made up for a temporary or a label.  Each import leaves a comment
with its path, and there are no other comments.
-/

namespace StackPipeline

namespace Listing

def Instruction.comment? : Instruction → Option String
  | .comment text => some text
  | _ => none

def comments (listing : Listing) : List String :=
  listing.filterMap Instruction.comment?

theorem mem_comments_iff {listing : Listing} {text : String} :
    text ∈ comments listing ↔ .comment text ∈ listing := by
  rw [comments, List.mem_filterMap]
  constructor
  · rintro ⟨instruction, hmem, htext⟩
    cases instruction with
    | comment other =>
        cases htext
        exact hmem
    | _ => cases htext
  · exact fun hmem => ⟨_, hmem, rfl⟩

@[simp] theorem comments_nil : comments [] = [] :=
  rfl

@[simp] theorem comments_append (front rest : Listing) :
    comments (front ++ rest) = comments front ++ comments rest :=
  List.filterMap_append

@[simp] theorem comments_cons (instruction : Instruction) (rest : Listing) :
    comments (instruction :: rest) = instruction.comment?.toList ++ comments rest := by
  rw [comments, List.filterMap_cons]
  cases instruction.comment? <;> rfl

/-- A name that can stand anywhere in the text of a listing. -/
def IsPlain (name : String) : Prop :=
  isIdentifier name = true ∧ name ∉ keywords

instance (name : String) : Decidable (IsPlain name) :=
  inferInstanceAs (Decidable (_ ∧ _))

/-- A name is assigned, read, defined as a label or jumped to. -/
theorem Instruction.names_cases {instruction : Instruction} {name : String}
    (h : name ∈ instruction.names) :
    instruction.assigned? = some name ∨ name ∈ instruction.uses ∨
      instruction.label? = some name ∨ instruction.target? = some name := by
  cases instruction with
  | assign target source =>
      rcases List.mem_cons.1 h with rfl | h
      · exact .inl rfl
      · refine .inr (.inl ?_)
        cases source with
        | operand value => simpa [Source.operands, Instruction.uses, Source.uses] using h
        | operation op left right =>
            obtain ⟨operand, hmem, hname⟩ := List.mem_filterMap.1 h
            rw [Instruction.uses, Source.uses, List.mem_append, Option.mem_toList, Option.mem_toList]
            rcases List.mem_pair.1 hmem with rfl | rfl
            · exact .inl hname
            · exact .inr hname
        | read prompt => exact absurd h List.not_mem_nil
  | label other =>
      rw [List.mem_singleton.1 h]
      exact .inr (.inr (.inl rfl))
  | goto destination =>
      rw [List.mem_singleton.1 h]
      exact .inr (.inr (.inr rfl))
  | branch condition destination =>
      rcases List.mem_cons.1 h with rfl | h
      · exact .inr (.inr (.inr rfl))
      · exact .inr (.inl h)
  | print text arguments => exact .inr (.inl h)
  | ret value => exact .inr (.inl h)
  | breakLoop | continueLoop | comment => exact absurd h List.not_mem_nil

end Listing

namespace Tree

mutual

/-- The paths that a statement imports, in order. -/
def importsOfStmt : Stmt → List String
  | .choose branches none => importsOfBranches branches
  | .choose branches (some block) => importsOfBranches branches ++ importsOfBlock block
  | .whileLoop _ body => importsOfBlock body
  | .doWhile body _ => importsOfBlock body
  | .forLoop _ _ body => importsOfBlock body
  | .block statements => importsOfBlock statements
  | .importFile path => [path]
  | _ => []

def importsOfBlock : List Stmt → List String
  | [] => []
  | stmt :: rest => importsOfStmt stmt ++ importsOfBlock rest

def importsOfBranches : List Branch → List String
  | [] => []
  | .mk _ body :: rest => importsOfBlock body ++ importsOfBranches rest

end

def Program.imports (program : Program) : List String :=
  importsOfBlock program.statements

end Tree

namespace Lowering

open StackPipeline.Tree (Expr Stmt Branch Program)
open Listing (Operand Source Instruction comments comments_append comments_cons)

section Names

open Listing (IsPlain isIdentifier keywords)

/-- A letter and a number make an identifier. -/
theorem isIdentifier_numbered {c : Char} (hc : c.isAlpha = true) (number : Nat) :
    isIdentifier (String.ofList (c :: Nat.toDigits 10 number)) = true := by
  rw [isIdentifier, String.toList_ofList]
  simp only [hc, Bool.true_or, Bool.true_and, List.all_eq_true]
  intro d hd
  have hdigit : d.isDigit = true := Nat.isDigit_of_mem_toDigits (by decide) (by decide) hd
  simp [Listing.isIdentifierChar, Char.isAlphanum, hdigit]

/-- If no keyword starts with the letter then they make none. -/
theorem numbered_not_mem_keywords {c : Char}
    (hc : ∀ keyword ∈ keywords, keyword.toList.head? ≠ some c) (number : Nat) :
    String.ofList (c :: Nat.toDigits 10 number) ∉ keywords := by
  intro hmem
  apply hc _ hmem
  rw [String.toList_ofList]
  rfl

theorem isPlain_temporaryName (number : Nat) : IsPlain (temporaryName number) :=
  ⟨isIdentifier_numbered (by decide) number, numbered_not_mem_keywords (by decide) number⟩

theorem isPlain_labelName (number : Nat) : IsPlain (labelName number) :=
  ⟨isIdentifier_numbered (by decide) number, numbered_not_mem_keywords (by decide) number⟩

/-- If the names of a program are plain then so are those of its code. -/
theorem isPlain_names_lower {program : Program} {listing : Listing}
    (h : lower program = .ok listing) (hplain : ∀ name ∈ program.names, IsPlain name) :
    ∀ instruction ∈ listing, ∀ name ∈ instruction.names, IsPlain name := by
  have hblock := lowerBlock_of_lower h
  have hfragment := fragment_lowerBlock program.statements hblock
  have hallots := allots_lowerBlock program.statements
    (fun name (hname : name ∈ program.names) => hname) hblock
  have hknown : ∀ {first last : Nat} {name : String},
      Known (· ∈ program.names) first last name → IsPlain name := by
    rintro first last name (hname | ⟨number, -, -, rfl⟩)
    · exact hplain name hname
    · exact isPlain_temporaryName number
  have hlabel : ∀ name ∈ Listing.labels listing, IsPlain name := by
    intro name hname
    obtain ⟨number, rfl⟩ := hfragment.numbered name hname
    exact isPlain_labelName number
  intro instruction hmem name hname
  rcases Instruction.names_cases hname with hassigned | huses | hdefined | htarget
  · exact hknown (hallots.writes name (List.mem_filterMap.2 ⟨instruction, hmem, hassigned⟩))
  · exact hknown (hallots.reads name (List.mem_flatMap.2 ⟨instruction, hmem, huses⟩))
  · exact hlabel name (List.mem_filterMap.2 ⟨instruction, hmem, hdefined⟩)
  · exact hlabel name ((wellLabelled_lower h).defined instruction hmem name htarget)

end Names

section Comments

variable {c c' : Context} {code : Listing}

theorem comments_lowerExpr {expr : Expr} {operand : Operand}
    (h : lowerExpr expr c = ((code, operand), c')) : comments code = [] := by
  induction expr generalizing c c' code operand with
  | number | boolean | var =>
      cases h
      rfl
  | binary left op right ihLeft ihRight =>
      obtain ⟨leftCode, leftValue, c₁, rightCode, rightValue, c₂, hleft, hright, hout, -⟩ :=
        lowerExpr_binary h
      cases hout
      rw [comments_append, comments_append, ihLeft hleft, ihRight hright]
      rfl
  | read prompt =>
      obtain ⟨hout, -⟩ := lowerExpr_read h
      cases hout
      rfl

theorem comments_lowerExprs {exprs : List Expr} {operands : List Operand}
    (h : lowerExprs exprs c = ((code, operands), c')) : comments code = [] := by
  induction exprs generalizing c c' code operands with
  | nil =>
      cases h
      rfl
  | cons expr rest ih =>
      obtain ⟨first, operand, c₁, restCode, restOperands, hfirst, hrest, rfl, -⟩ := lowerExprs_cons h
      rw [comments_append, comments_lowerExpr hfirst, ih hrest]
      rfl

theorem comments_lowerBound {count : Expr} {bound : Operand}
    (h : lowerBound count c = ((code, bound), c')) : comments code = [] := by
  rcases lowerBound_cases h with ⟨name, -, rfl, -, -⟩ | ⟨-, hexpr⟩
  · rfl
  · exact comments_lowerExpr hexpr

theorem comments_lowerConditions {branches : List Branch} {labels : List String}
    (h : lowerConditions branches labels c = (code, c')) : comments code = [] := by
  induction branches generalizing labels c c' code with
  | nil =>
      cases h
      rfl
  | cons branch branches ih =>
      obtain ⟨condition, body⟩ := branch
      rcases labels with _ | ⟨label, labels⟩
      · cases h
        rfl
      · obtain ⟨test, operand, c₁, rest, htest, hrest, rfl⟩ := lowerConditions_cons h
        rw [comments_append, comments_lowerExpr htest, comments_cons, ih hrest]
        rfl

def importComments (paths : List String) : List String :=
  paths.map ("import " ++ ·)

/-- Work whose code has these paths in its comments. -/
def MakesComments (paths : List String) (work : Lower Listing) : Prop :=
  ∀ ⦃c c' : Context⦄ ⦃code : Listing⦄, work c = (.ok code, c') →
    comments code = importComments paths

theorem comments_lowerBranches {branches : List Branch} {last : String} {labels : List String}
    (hlength : labels.length = branches.length)
    (hbodies : ∀ branch ∈ branches,
      MakesComments (Tree.importsOfBlock branch.body) (lowerBlock branch.body))
    (h : lowerBranches last branches labels c = (.ok code, c')) :
    comments code = importComments (Tree.importsOfBranches branches) := by
  induction branches generalizing labels c code with
  | nil =>
      cases h
      rfl
  | cons branch branches ih =>
      obtain ⟨condition, body⟩ := branch
      cases labels with
      | nil => cases hlength
      | cons label labels =>
          rw [List.forall_mem_cons] at hbodies
          obtain ⟨bodyCode, c₁, rest, hbody, hrest, rfl⟩ := lowerBranches_cons h
          have hfirst := hbodies.1 hbody
          have hothers := ih (Nat.succ.inj hlength) hbodies.2 hrest
          simp [Instruction.comment?, hfirst, hothers, importComments, Tree.importsOfBranches,
            Branch.body]

mutual

/-- The code of a statement has a comment for each of its imports. -/
theorem comments_lowerStmt : (stmt : Stmt) → MakesComments (Tree.importsOfStmt stmt) (lowerStmt stmt)
  | .declare name value => by
      intro c c' code h
      obtain ⟨valueCode, operand, hvalue, rfl⟩ := lowerStmt_declare h
      rw [comments_append, comments_lowerExpr hvalue]
      rfl
  | .assign name value => by
      intro c c' code h
      obtain ⟨valueCode, operand, hvalue, rfl⟩ := lowerStmt_assign h
      rw [comments_append, comments_lowerExpr hvalue]
      rfl
  | .print text arguments => by
      intro c c' code h
      obtain ⟨argumentCode, operands, harguments, rfl⟩ := lowerStmt_print h
      rw [comments_append, comments_lowerExprs harguments]
      rfl
  | .choose branches none => by
      intro c c' code h
      obtain ⟨conditions, c₁, bodies, hconditions, hbodies, rfl⟩ := lowerStmt_choose_none h
      have hblocks := comments_lowerBranches (length_branchLabels c branches)
        (comments_lowerBlocks branches) hbodies
      simp [comments_lowerConditions hconditions, hblocks, Instruction.comment?,
        Tree.importsOfStmt]
  | .choose branches (some block) => by
      intro c c' code h
      obtain ⟨conditions, c₁, bodies, c₂, otherwise, hconditions, hbodies, hotherwise, rfl⟩ :=
        lowerStmt_choose_some h
      have hblocks := comments_lowerBranches (length_branchLabels c branches)
        (comments_lowerBlocks branches) hbodies
      simp [comments_lowerConditions hconditions, hblocks, comments_lowerBlock block hotherwise,
        Instruction.comment?, Tree.importsOfStmt, importComments]
  | .whileLoop condition body => by
      intro c c' code h
      obtain ⟨test, operand, c₁, bodyCode, c₂, htest, hbody, rfl, -⟩ := lowerStmt_whileLoop h
      simp [whileCode, comments_lowerExpr htest, comments_lowerBlock body hbody,
        Instruction.comment?, Tree.importsOfStmt]
  | .doWhile body condition => by
      intro c c' code h
      obtain ⟨bodyCode, c₁, test, operand, hbody, htest, rfl⟩ := lowerStmt_doWhile h
      simp [doCode, comments_lowerExpr htest, comments_lowerBlock body hbody,
        Instruction.comment?, Tree.importsOfStmt]
  | .forLoop name count body => by
      intro c c' code h
      obtain ⟨boundCode, bound, c₁, bodyCode, c₂, hbound, hbody, rfl, -⟩ := lowerStmt_forLoop h
      simp [forCode, comments_lowerBound hbound, comments_lowerBlock body hbody,
        Instruction.comment?, Tree.importsOfStmt]
  | .breakLoop => by
      intro c c' code h
      obtain ⟨loop, rest, -, rfl, -⟩ := lowerStmt_breakLoop h
      rfl
  | .continueLoop => by
      intro c c' code h
      obtain ⟨loop, rest, -, rfl, -⟩ := lowerStmt_continueLoop h
      rfl
  | .ret none => by
      intro c c' code h
      cases h
      rfl
  | .ret (some value) => by
      intro c c' code h
      obtain ⟨valueCode, operand, hvalue, rfl⟩ := lowerStmt_ret_some h
      rw [comments_append, comments_lowerExpr hvalue]
      rfl
  | .block statements => by
      intro c c' code h
      rw [lowerStmt] at h
      exact comments_lowerBlock statements h
  | .importFile path => by
      intro c c' code h
      cases h
      rfl

/-- The code of a block has a comment for each of its imports. -/
theorem comments_lowerBlock :
    (block : List Stmt) → MakesComments (Tree.importsOfBlock block) (lowerBlock block)
  | [] => by
      intro c c' code h
      cases h
      rfl
  | stmt :: rest => by
      intro c c' code h
      obtain ⟨first, c₁, restCode, hfirst, hrest, rfl⟩ := lowerBlock_cons h
      rw [comments_append, comments_lowerStmt stmt hfirst, comments_lowerBlock rest hrest]
      exact List.map_append.symm

/-- The code of each branch's block has a comment for each of its imports. -/
theorem comments_lowerBlocks : (branches : List Branch) → ∀ branch ∈ branches,
    MakesComments (Tree.importsOfBlock branch.body) (lowerBlock branch.body)
  | [], _, hmem => absurd hmem List.not_mem_nil
  | .mk condition body :: rest, branch, hmem => by
      rcases List.mem_cons.1 hmem with rfl | hmem
      · exact comments_lowerBlock body
      · exact comments_lowerBlocks rest branch hmem

end

/-- The comments of the code of a program are those of its imports. -/
theorem comments_lower {program : Program} {listing : Listing} (h : lower program = .ok listing) :
    comments listing = importComments program.imports :=
  comments_lowerBlock program.statements (lowerBlock_of_lower h)

end Comments

end Lowering

end StackPipeline
