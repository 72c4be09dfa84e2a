import StackPipeline.Lowering

/-!
What lowering has done when it has succeeded, construct by construct.
-/

namespace StackPipeline.Lowering

open StackPipeline.Tree (Expr Stmt Branch Program)
open Listing (Operand Source Instruction)

def Context.afterLabels (context : Context) (count : Nat) : Context :=
  { context with labels := context.labels + count }

def Context.afterTemporary (context : Context) : Context :=
  { context with temporaries := context.temporaries + 1 }

def Context.inside (context : Context) (loop : LoopLabels) : Context :=
  { context with loops := loop :: context.loops }

def Context.outside (context : Context) : Context :=
  { context with loops := context.loops.tail }

section Monad

variable {α β : Type} {c c' : Context}

theorem bind_eq_ok {x : Lower α} {f : α → Lower β} {b : β} :
    (x >>= f) c = (.ok b, c') ↔ ∃ a c₁, x c = (.ok a, c₁) ∧ f a c₁ = (.ok b, c') := by
  change (ExceptT.bindCont f (x c).1 (x c).2) = _ ↔ _
  constructor
  · intro h
    cases hx : x c with
    | mk result c₁ =>
        rw [hx] at h
        cases result with
        | error e => cases h
        | ok a => exact ⟨a, c₁, rfl, h⟩
  · rintro ⟨a, c₁, hx, hf⟩
    rw [hx]
    exact hf

theorem lift_eq_ok {x : Fresh α} {a : α} :
    (liftM x : Lower α) c = (.ok a, c') ↔ x c = (a, c') := by
  change ((Except.ok (x c).1 : Except LoweringError α), (x c).2) = _ ↔ _
  rw [Prod.ext_iff, Prod.ext_iff]
  simp

theorem pure_eq_ok {a b : α} : (pure a : Lower α) c = (.ok b, c') ↔ a = b ∧ c = c' := by
  change ((Except.ok a : Except LoweringError α), c) = _ ↔ _
  simp

theorem fresh_bind_eq {x : Fresh α} {f : α → Fresh β} {b : β} :
    (x >>= f) c = (b, c') ↔ ∃ a c₁, x c = (a, c₁) ∧ f a c₁ = (b, c') := by
  change f (x c).1 (x c).2 = _ ↔ _
  constructor
  · intro h
    exact ⟨(x c).1, (x c).2, rfl, h⟩
  · rintro ⟨a, c₁, hx, hf⟩
    rw [hx]
    exact hf

theorem fresh_pure_eq {a b : α} : (pure a : Fresh α) c = (b, c') ↔ a = b ∧ c = c' := by
  change (a, c) = _ ↔ _
  simp

theorem freshLabel_eq {name : String} :
    freshLabel c = (name, c') ↔ name = labelName c.labels ∧ c' = c.afterLabels 1 := by
  rw [freshLabel, Prod.mk.injEq, eq_comm, @eq_comm _ _ c']
  rfl

theorem freshTemporary_eq {name : String} :
    freshTemporary c = (name, c') ↔ name = temporaryName c.temporaries ∧ c' = c.afterTemporary := by
  rw [freshTemporary, Prod.mk.injEq, eq_comm, @eq_comm _ _ c']
  rfl

theorem freshLabels_eq {count : Nat} {names : List String}
    (h : freshLabels count c = (names, c')) :
    names = (List.range' c.labels count).map labelName ∧ c' = c.afterLabels count := by
  induction count generalizing c names with
  | zero =>
      cases h
      exact ⟨rfl, rfl⟩
  | succ count ih =>
      simp only [freshLabels, fresh_bind_eq, fresh_pure_eq, freshLabel_eq] at h
      obtain ⟨_, _, ⟨rfl, rfl⟩, rest, _, hrest, rfl, rfl⟩ := h
      obtain ⟨rfl, rfl⟩ := ih hrest
      refine ⟨rfl, ?_⟩
      simp only [Context.afterLabels, Nat.add_assoc, Nat.add_comm 1 count]

theorem insideLoop_eq_ok {loop : LoopLabels} {work : Lower α} {a : α} :
    insideLoop loop work c = (.ok a, c') ↔
      ∃ c₁, work (c.inside loop) = (.ok a, c₁) ∧ c' = c₁.outside := by
  change ((work (c.inside loop)).1, (work (c.inside loop)).2.outside) = _ ↔ _
  constructor
  · intro h
    cases hwork : work (c.inside loop) with
    | mk result c₁ =>
        rw [hwork] at h
        cases h
        exact ⟨c₁, rfl, rfl⟩
  · rintro ⟨c₁, hwork, rfl⟩
    rw [hwork]

theorem innermost_eq_ok {otherwise : LoweringError} {loop : LoopLabels} :
    innermost otherwise c = (.ok loop, c') ↔ (∃ rest, c.loops = loop :: rest) ∧ c' = c := by
  rw [innermost]
  constructor
  · intro h
    cases hloops : c.loops with
    | nil =>
        simp only [hloops] at h
        cases h
    | cons first rest =>
        simp only [hloops] at h
        cases h
        exact ⟨⟨rest, rfl⟩, rfl⟩
  · rintro ⟨⟨rest, hloops⟩, rfl⟩
    simp only [hloops]

end Monad

/-- The code of a loop that is tested first. -/
def whileCode (start inner last : String) (test : Listing) (condition : Operand) (body : Listing) :
    Listing :=
  .label start :: (test ++ .branch condition inner :: .goto last :: .label inner ::
    (body ++ [.goto start, .label last]))

/-- The code of a loop that is tested last. -/
def doCode (start next last : String) (test : Listing) (condition : Operand) (body : Listing) :
    Listing :=
  .label start :: (body ++ .label next :: (test ++ [.branch condition start, .label last]))

/-- The code of a counting loop, after that of its bound. -/
def forCode (counter check name start next last : String) (bound : Operand) (body : Listing) :
    Listing :=
  .assign counter (.operand (.number 0)) :: .label start ::
    .assign check (.operation .ge (.name counter) bound) :: .branch (.name check) last ::
    .assign name (.operand (.name counter)) ::
    (body ++ [.label next, .assign counter (.operation .add (.name counter) (.number 1)),
      .goto start, .label last])

section Expressions

variable {c c' : Context} {out : Listing × Operand}

theorem lowerExpr_binary {left right : Expr} {op : Operator}
    (h : lowerExpr (.binary left op right) c = (out, c')) :
    ∃ leftCode leftValue c₁ rightCode rightValue c₂,
      lowerExpr left c = ((leftCode, leftValue), c₁) ∧
      lowerExpr right c₁ = ((rightCode, rightValue), c₂) ∧
      out = (leftCode ++ rightCode ++
        [.assign (temporaryName c₂.temporaries) (.operation op leftValue rightValue)],
          .name (temporaryName c₂.temporaries)) ∧
      c' = c₂.afterTemporary := by
  simp only [lowerExpr, fresh_bind_eq, fresh_pure_eq, freshTemporary_eq] at h
  obtain ⟨⟨leftCode, leftValue⟩, c₁, hleft, ⟨rightCode, rightValue⟩, c₂, hright, _, _, ⟨rfl, rfl⟩,
    rfl, rfl⟩ := h
  exact ⟨_, _, _, _, _, _, hleft, hright, rfl, rfl⟩

theorem lowerExpr_read {prompt : String} (h : lowerExpr (.read prompt) c = (out, c')) :
    out = ([.assign (temporaryName c.temporaries) (.read prompt)],
      .name (temporaryName c.temporaries)) ∧ c' = c.afterTemporary := by
  simp only [lowerExpr, fresh_bind_eq, fresh_pure_eq, freshTemporary_eq] at h
  obtain ⟨_, _, ⟨rfl, rfl⟩, rfl, rfl⟩ := h
  exact ⟨rfl, rfl⟩

theorem lowerExprs_cons {expr : Expr} {rest : List Expr} {code : Listing} {operands : List Operand}
    (h : lowerExprs (expr :: rest) c = ((code, operands), c')) :
    ∃ first operand c₁ restCode restOperands,
      lowerExpr expr c = ((first, operand), c₁) ∧
      lowerExprs rest c₁ = ((restCode, restOperands), c') ∧
      code = first ++ restCode ∧ operands = operand :: restOperands := by
  simp only [lowerExprs, fresh_bind_eq, fresh_pure_eq] at h
  obtain ⟨⟨first, operand⟩, c₁, hfirst, ⟨restCode, restOperands⟩, _, hrest, hout, rfl⟩ := h
  cases hout
  exact ⟨_, _, _, _, _, hfirst, hrest, rfl, rfl⟩

theorem lowerConditions_cons {condition : Expr} {body : List Stmt} {branches : List Branch}
    {label : String} {labels : List String} {code : Listing}
    (h : lowerConditions (.mk condition body :: branches) (label :: labels) c = (code, c')) :
    ∃ test operand c₁ rest, lowerExpr condition c = ((test, operand), c₁) ∧
      lowerConditions branches labels c₁ = (rest, c') ∧
      code = test ++ .branch operand label :: rest := by
  simp only [lowerConditions, fresh_bind_eq, fresh_pure_eq] at h
  obtain ⟨⟨test, operand⟩, c₁, htest, rest, _, hrest, rfl, rfl⟩ := h
  exact ⟨_, _, _, _, htest, hrest, rfl⟩

/-- A bound is a copy of a variable or the value of another expression. -/
theorem lowerBound_cases {count : Expr} {code : Listing} {bound : Operand}
    (h : lowerBound count c = ((code, bound), c')) :
    (∃ name, count = .var name ∧
      code = [.assign (temporaryName c.temporaries) (.operand (.name name))] ∧
      bound = .name (temporaryName c.temporaries) ∧ c' = c.afterTemporary) ∨
    ((∀ name, count ≠ .var name) ∧ lowerExpr count c = ((code, bound), c')) := by
  cases count with
  | var name =>
      simp only [lowerBound, lowerExpr, fresh_bind_eq, fresh_pure_eq, freshTemporary_eq] at h
      obtain ⟨_, _, ⟨rfl, rfl⟩, _, _, ⟨rfl, rfl⟩, hout, rfl⟩ := h
      cases hout
      exact .inl ⟨name, rfl, rfl, rfl, rfl⟩
  | _ => exact .inr ⟨nofun, h⟩

end Expressions

section Statements

variable {c c' : Context} {code : Listing}

theorem lowerStmt_declare {name : String} {value : Expr}
    (h : lowerStmt (.declare name value) c = (.ok code, c')) :
    ∃ valueCode operand, lowerExpr value c = ((valueCode, operand), c') ∧
      code = valueCode ++ [.assign name (.operand operand)] := by
  simp only [lowerStmt, bind_eq_ok, lift_eq_ok, pure_eq_ok] at h
  obtain ⟨⟨valueCode, operand⟩, _, hvalue, rfl, rfl⟩ := h
  exact ⟨_, _, hvalue, rfl⟩

theorem lowerStmt_assign {name : String} {value : Expr}
    (h : lowerStmt (.assign name value) c = (.ok code, c')) :
    ∃ valueCode operand, lowerExpr value c = ((valueCode, operand), c') ∧
      code = valueCode ++ [.assign name (.operand operand)] := by
  simp only [lowerStmt, bind_eq_ok, lift_eq_ok, pure_eq_ok] at h
  obtain ⟨⟨valueCode, operand⟩, _, hvalue, rfl, rfl⟩ := h
  exact ⟨_, _, hvalue, rfl⟩

theorem lowerStmt_print {text : String} {arguments : List Expr}
    (h : lowerStmt (.print text arguments) c = (.ok code, c')) :
    ∃ argumentCode operands, lowerExprs arguments c = ((argumentCode, operands), c') ∧
      code = argumentCode ++ [.print text operands] := by
  simp only [lowerStmt, bind_eq_ok, lift_eq_ok, pure_eq_ok] at h
  obtain ⟨⟨argumentCode, operands⟩, _, harguments, rfl, rfl⟩ := h
  exact ⟨_, _, harguments, rfl⟩

/-- The labels of branches: they follow that of the end. -/
def branchLabels (c : Context) (branches : List Branch) : List String :=
  (List.range' (c.labels + 1) branches.length).map labelName

theorem lowerStmt_choose_none {branches : List Branch}
    (h : lowerStmt (.choose branches none) c = (.ok code, c')) :
    ∃ conditions c₁ bodies,
      lowerConditions branches (branchLabels c branches) (c.afterLabels (1 + branches.length)) =
        (conditions, c₁) ∧
      lowerBranches (labelName c.labels) branches (branchLabels c branches) c₁ =
        (.ok bodies, c') ∧
      code = conditions ++ .goto (labelName c.labels) ::
        (bodies ++ [.label (labelName c.labels)]) := by
  simp only [lowerStmt, bind_eq_ok, lift_eq_ok, pure_eq_ok, freshLabel_eq] at h
  obtain ⟨_, _, ⟨rfl, rfl⟩, labels, _, hlabels, conditions, c₁, hconditions, bodies, _, hbodies,
    rfl, rfl⟩ := h
  obtain ⟨rfl, rfl⟩ := freshLabels_eq hlabels
  refine ⟨conditions, c₁, bodies, ?_, hbodies, rfl⟩
  rw [← hconditions]
  simp only [Context.afterLabels, Nat.add_assoc, branchLabels]

theorem lowerStmt_choose_some {branches : List Branch} {block : List Stmt}
    (h : lowerStmt (.choose branches (some block)) c = (.ok code, c')) :
    ∃ conditions c₁ bodies c₂ otherwise,
      lowerConditions branches (branchLabels c branches) (c.afterLabels (2 + branches.length)) =
        (conditions, c₁) ∧
      lowerBranches (labelName c.labels) branches (branchLabels c branches) c₁ =
        (.ok bodies, c₂) ∧
      lowerBlock block c₂ = (.ok otherwise, c') ∧
      code = conditions ++ .goto (labelName (c.labels + 1 + branches.length)) ::
        (bodies ++ .label (labelName (c.labels + 1 + branches.length)) ::
          (otherwise ++ [.goto (labelName c.labels), .label (labelName c.labels)])) := by
  simp only [lowerStmt, bind_eq_ok, lift_eq_ok, pure_eq_ok, freshLabel_eq] at h
  obtain ⟨_, _, ⟨rfl, rfl⟩, labels, _, hlabels, _, _, ⟨rfl, rfl⟩, conditions, c₁, hconditions,
    bodies, c₂, hbodies, otherwise, _, hotherwise, rfl, rfl⟩ := h
  obtain ⟨rfl, rfl⟩ := freshLabels_eq hlabels
  refine ⟨conditions, c₁, bodies, c₂, otherwise, ?_, hbodies, hotherwise, rfl⟩
  rw [← hconditions]
  have hcount : c.labels + (2 + branches.length) = c.labels + (1 + (branches.length + 1)) := by
    omega
  simp only [Context.afterLabels, Nat.add_assoc, branchLabels, hcount]

theorem lowerStmt_whileLoop {condition : Expr} {body : List Stmt}
    (h : lowerStmt (.whileLoop condition body) c = (.ok code, c')) :
    ∃ test operand c₁ bodyCode c₂,
      lowerExpr condition (c.afterLabels 3) = ((test, operand), c₁) ∧
      lowerBlock body (c₁.inside ⟨labelName c.labels, labelName (c.labels + 2)⟩) =
        (.ok bodyCode, c₂) ∧
      code = whileCode (labelName c.labels) (labelName (c.labels + 1)) (labelName (c.labels + 2))
        test operand bodyCode ∧
      c' = c₂.outside := by
  simp only [lowerStmt, bind_eq_ok, lift_eq_ok, pure_eq_ok, freshLabel_eq, insideLoop_eq_ok] at h
  obtain ⟨_, _, ⟨rfl, rfl⟩, _, _, ⟨rfl, rfl⟩, _, _, ⟨rfl, rfl⟩, ⟨test, operand⟩, c₁, htest, bodyCode,
    _, ⟨c₂, hbody, rfl⟩, rfl, rfl⟩ := h
  exact ⟨test, operand, c₁, bodyCode, c₂, htest, hbody, rfl, rfl⟩

theorem lowerStmt_doWhile {body : List Stmt} {condition : Expr}
    (h : lowerStmt (.doWhile body condition) c = (.ok code, c')) :
    ∃ bodyCode c₁ test operand,
      lowerBlock body ((c.afterLabels 3).inside
        ⟨labelName (c.labels + 1), labelName (c.labels + 2)⟩) = (.ok bodyCode, c₁) ∧
      lowerExpr condition c₁.outside = ((test, operand), c') ∧
      code = doCode (labelName c.labels) (labelName (c.labels + 1)) (labelName (c.labels + 2))
        test operand bodyCode := by
  simp only [lowerStmt, bind_eq_ok, lift_eq_ok, pure_eq_ok, freshLabel_eq, insideLoop_eq_ok] at h
  obtain ⟨_, _, ⟨rfl, rfl⟩, _, _, ⟨rfl, rfl⟩, _, _, ⟨rfl, rfl⟩, bodyCode, _, ⟨c₁, hbody, rfl⟩,
    ⟨test, operand⟩, _, htest, rfl, rfl⟩ := h
  exact ⟨bodyCode, c₁, test, operand, hbody, htest, rfl⟩

theorem lowerStmt_forLoop {name : String} {count : Expr} {body : List Stmt}
    (h : lowerStmt (.forLoop name count body) c = (.ok code, c')) :
    ∃ boundCode bound c₁ bodyCode c₂,
      lowerBound count c = ((boundCode, bound), c₁) ∧
      lowerBlock body (((c₁.afterTemporary.afterLabels 3).afterTemporary).inside
        ⟨labelName (c₁.labels + 1), labelName (c₁.labels + 2)⟩) = (.ok bodyCode, c₂) ∧
      code = boundCode ++ forCode (temporaryName c₁.temporaries)
        (temporaryName (c₁.temporaries + 1)) name (labelName c₁.labels) (labelName (c₁.labels + 1))
        (labelName (c₁.labels + 2)) bound bodyCode ∧
      c' = c₂.outside := by
  simp only [lowerStmt, bind_eq_ok, lift_eq_ok, pure_eq_ok, freshLabel_eq, freshTemporary_eq,
    insideLoop_eq_ok] at h
  obtain ⟨⟨boundCode, bound⟩, c₁, hbound, _, _, ⟨rfl, rfl⟩, _, _, ⟨rfl, rfl⟩, _, _, ⟨rfl, rfl⟩, _,
    _, ⟨rfl, rfl⟩, _, _, ⟨rfl, rfl⟩, bodyCode, _, ⟨c₂, hbody, rfl⟩, rfl, rfl⟩ := h
  refine ⟨boundCode, bound, c₁, bodyCode, c₂, hbound, hbody, ?_, rfl⟩
  simp only [forCode, List.append_assoc, List.cons_append, List.nil_append]
  rfl

theorem lowerStmt_breakLoop (h : lowerStmt .breakLoop c = (.ok code, c')) :
    ∃ loop rest, c.loops = loop :: rest ∧ code = [.goto loop.breakLabel] ∧ c' = c := by
  simp only [lowerStmt, bind_eq_ok, pure_eq_ok, innermost_eq_ok] at h
  obtain ⟨loop, _, ⟨⟨rest, hloops⟩, rfl⟩, rfl, rfl⟩ := h
  exact ⟨loop, rest, hloops, rfl, rfl⟩

theorem lowerStmt_continueLoop (h : lowerStmt .continueLoop c = (.ok code, c')) :
    ∃ loop rest, c.loops = loop :: rest ∧ code = [.goto loop.continueLabel] ∧ c' = c := by
  simp only [lowerStmt, bind_eq_ok, pure_eq_ok, innermost_eq_ok] at h
  obtain ⟨loop, _, ⟨⟨rest, hloops⟩, rfl⟩, rfl, rfl⟩ := h
  exact ⟨loop, rest, hloops, rfl, rfl⟩

theorem lowerStmt_ret_some {value : Expr}
    (h : lowerStmt (.ret (some value)) c = (.ok code, c')) :
    ∃ valueCode operand, lowerExpr value c = ((valueCode, operand), c') ∧
      code = valueCode ++ [.ret (some operand)] := by
  simp only [lowerStmt, bind_eq_ok, lift_eq_ok, pure_eq_ok] at h
  obtain ⟨⟨valueCode, operand⟩, _, hvalue, rfl, rfl⟩ := h
  exact ⟨_, _, hvalue, rfl⟩

theorem lowerBlock_cons {stmt : Stmt} {rest : List Stmt}
    (h : lowerBlock (stmt :: rest) c = (.ok code, c')) :
    ∃ first c₁ restCode, lowerStmt stmt c = (.ok first, c₁) ∧
      lowerBlock rest c₁ = (.ok restCode, c') ∧ code = first ++ restCode := by
  simp only [lowerBlock, bind_eq_ok, pure_eq_ok] at h
  obtain ⟨first, c₁, hfirst, restCode, _, hrest, rfl, rfl⟩ := h
  exact ⟨first, c₁, restCode, hfirst, hrest, rfl⟩

theorem lowerBranches_cons {last : String} {condition : Expr} {body : List Stmt}
    {branches : List Branch} {label : String} {labels : List String}
    (h : lowerBranches last (.mk condition body :: branches) (label :: labels) c = (.ok code, c')) :
    ∃ bodyCode c₁ rest, lowerBlock body c = (.ok bodyCode, c₁) ∧
      lowerBranches last branches labels c₁ = (.ok rest, c') ∧
      code = .label label :: (bodyCode ++ .goto last :: rest) := by
  simp only [lowerBranches, bind_eq_ok, pure_eq_ok] at h
  obtain ⟨bodyCode, c₁, hbody, rest, _, hrest, rfl, rfl⟩ := h
  exact ⟨bodyCode, c₁, rest, hbody, hrest, rfl⟩

end Statements

theorem lowerBlock_of_lower {program : Program} {listing : Listing}
    (h : lower program = .ok listing) : lowerBlock program.statements .initial =
      (.ok listing, (lowerBlock program.statements .initial).2) := by
  rw [← h]
  rfl

end StackPipeline.Lowering
