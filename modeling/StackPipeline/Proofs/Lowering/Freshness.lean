import StackPipeline.Proofs.Lowering.Allotment

/-!
One lowerer that is asked again and again.

Its numbers go up with every request, also with one that it refuses, so what it hands out belongs to one
request only; and a request that it refuses inside of a loop leaves it outside of all loops again.
-/

namespace StackPipeline.Lowering

open StackPipeline.Tree (Expr Stmt Branch Program)
open Listing (Operand Source Instruction)

/-- Numbers have been handed out, and the loops around are the same. -/
structure Context.GrowsTo (c c' : Context) : Prop where
  labels_le : c.labels ≤ c'.labels
  temporaries_le : c.temporaries ≤ c'.temporaries
  loops_eq : c'.loops = c.loops

theorem Context.growsTo_refl (c : Context) : c.GrowsTo c :=
  ⟨Nat.le_refl _, Nat.le_refl _, rfl⟩

theorem Context.GrowsTo.trans {c c₁ c' : Context} (hfirst : c.GrowsTo c₁) (hlast : c₁.GrowsTo c') :
    c.GrowsTo c' :=
  ⟨Nat.le_trans hfirst.labels_le hlast.labels_le,
    Nat.le_trans hfirst.temporaries_le hlast.temporaries_le, hlast.loops_eq.trans hfirst.loops_eq⟩

theorem Computes.growsTo {c c' : Context} {code : Listing} (h : Computes c c' code) :
    c.GrowsTo c' :=
  ⟨Nat.le_of_eq h.labels_eq.symm, h.temporaries_le, h.loops_eq⟩

/-- No code is a fragment, whatever numbers it has used up. -/
theorem Context.GrowsTo.fragment {c c' : Context} (h : c.GrowsTo c') : Fragment c c' [] :=
  ⟨h.labels_le, h.temporaries_le, h.loops_eq, fun _ hname => absurd hname List.not_mem_nil,
    fun _ => Nat.zero_le _, Listing.jumpsTo_nil⟩

/-- Work that leaves the context grown, whether it succeeds or fails. -/
def Grows {α : Type} (work : Lower α) : Prop :=
  ∀ c : Context, c.GrowsTo (work c).2

section Grows

variable {α β : Type}

theorem grows_pure (a : α) : Grows (pure a : Lower α) :=
  fun c => c.growsTo_refl

theorem grows_bind {work : Lower α} {rest : α → Lower β} (hwork : Grows work)
    (hrest : ∀ a, Grows (rest a)) : Grows (work >>= rest) := by
  intro c
  have hfirst := hwork c
  change c.GrowsTo (ExceptT.bindCont rest (work c).1 (work c).2).2
  cases (work c).1 with
  | error problem => exact hfirst
  | ok a => exact hfirst.trans (hrest a _)

theorem grows_lift {work : Fresh α} (h : ∀ c : Context, c.GrowsTo (work c).2) :
    Grows (liftM work : Lower α) :=
  h

theorem grows_insideLoop {work : Lower α} (loop : LoopLabels) (h : Grows work) :
    Grows (insideLoop loop work) := by
  intro c
  obtain ⟨hlabels, htemporaries, hloops⟩ := h (c.inside loop)
  exact ⟨hlabels, htemporaries, congrArg List.tail hloops⟩

theorem grows_innermost (otherwise : LoweringError) : Grows (innermost otherwise) := by
  intro c
  rw [innermost]
  split
  · exact c.growsTo_refl
  · exact c.growsTo_refl

end Grows

section Fresh

theorem growsTo_freshLabel (c : Context) : c.GrowsTo (freshLabel c).2 :=
  ⟨Nat.le_succ _, Nat.le_refl _, rfl⟩

theorem growsTo_freshLabels (count : Nat) (c : Context) : c.GrowsTo (freshLabels count c).2 := by
  rw [(freshLabels_eq rfl).2]
  exact ⟨Nat.le_add_right _ _, Nat.le_refl _, rfl⟩

theorem growsTo_freshTemporary (c : Context) : c.GrowsTo (freshTemporary c).2 :=
  ⟨Nat.le_refl _, Nat.le_succ _, rfl⟩

theorem growsTo_lowerExpr (expr : Expr) (c : Context) : c.GrowsTo (lowerExpr expr c).2 :=
  (computes_lowerExpr rfl).growsTo

theorem growsTo_lowerExprs (exprs : List Expr) (c : Context) : c.GrowsTo (lowerExprs exprs c).2 :=
  (computes_lowerExprs rfl).growsTo

theorem growsTo_lowerBound (count : Expr) (c : Context) : c.GrowsTo (lowerBound count c).2 :=
  (computes_lowerBound rfl).growsTo

theorem growsTo_lowerConditions (branches : List Branch) (labels : List String) (c : Context) :
    c.GrowsTo (lowerConditions branches labels c).2 := by
  induction branches generalizing labels c with
  | nil => exact c.growsTo_refl
  | cons branch branches ih =>
      obtain ⟨condition, body⟩ := branch
      cases labels with
      | nil => exact c.growsTo_refl
      | cons label labels => exact (growsTo_lowerExpr condition c).trans (ih labels _)

end Fresh

mutual

/-- Lowering a statement leaves the context grown, also if it fails. -/
theorem grows_lowerStmt : (stmt : Stmt) → Grows (lowerStmt stmt)
  | .declare name value => by
      rw [lowerStmt]
      exact grows_bind (grows_lift (growsTo_lowerExpr value)) fun _ => grows_pure _
  | .assign name value => by
      rw [lowerStmt]
      exact grows_bind (grows_lift (growsTo_lowerExpr value)) fun _ => grows_pure _
  | .print text arguments => by
      rw [lowerStmt]
      exact grows_bind (grows_lift (growsTo_lowerExprs arguments)) fun _ => grows_pure _
  | .choose branches none => by
      rw [lowerStmt]
      refine grows_bind (grows_lift growsTo_freshLabel) fun last => ?_
      refine grows_bind (grows_lift (growsTo_freshLabels _)) fun labels => ?_
      refine grows_bind (grows_lift (growsTo_lowerConditions branches labels)) fun _ => ?_
      exact grows_bind (grows_lowerBranches last branches labels) fun _ => grows_pure _
  | .choose branches (some block) => by
      rw [lowerStmt]
      refine grows_bind (grows_lift growsTo_freshLabel) fun last => ?_
      refine grows_bind (grows_lift (growsTo_freshLabels _)) fun labels => ?_
      refine grows_bind (grows_lift growsTo_freshLabel) fun _ => ?_
      refine grows_bind (grows_lift (growsTo_lowerConditions branches labels)) fun _ => ?_
      refine grows_bind (grows_lowerBranches last branches labels) fun _ => ?_
      exact grows_bind (grows_lowerBlock block) fun _ => grows_pure _
  | .whileLoop condition body => by
      rw [lowerStmt]
      refine grows_bind (grows_lift growsTo_freshLabel) fun _ => ?_
      refine grows_bind (grows_lift growsTo_freshLabel) fun _ => ?_
      refine grows_bind (grows_lift growsTo_freshLabel) fun _ => ?_
      refine grows_bind (grows_lift (growsTo_lowerExpr condition)) fun _ => ?_
      exact grows_bind (grows_insideLoop _ (grows_lowerBlock body)) fun _ => grows_pure _
  | .doWhile body condition => by
      rw [lowerStmt]
      refine grows_bind (grows_lift growsTo_freshLabel) fun _ => ?_
      refine grows_bind (grows_lift growsTo_freshLabel) fun _ => ?_
      refine grows_bind (grows_lift growsTo_freshLabel) fun _ => ?_
      refine grows_bind (grows_insideLoop _ (grows_lowerBlock body)) fun _ => ?_
      exact grows_bind (grows_lift (growsTo_lowerExpr condition)) fun _ => grows_pure _
  | .forLoop name count body => by
      rw [lowerStmt]
      refine grows_bind (grows_lift (growsTo_lowerBound count)) fun _ => ?_
      refine grows_bind (grows_lift growsTo_freshTemporary) fun _ => ?_
      refine grows_bind (grows_lift growsTo_freshLabel) fun _ => ?_
      refine grows_bind (grows_lift growsTo_freshLabel) fun _ => ?_
      refine grows_bind (grows_lift growsTo_freshLabel) fun _ => ?_
      refine grows_bind (grows_lift growsTo_freshTemporary) fun _ => ?_
      exact grows_bind (grows_insideLoop _ (grows_lowerBlock body)) fun _ => grows_pure _
  | .breakLoop => by
      rw [lowerStmt]
      exact grows_bind (grows_innermost _) fun _ => grows_pure _
  | .continueLoop => by
      rw [lowerStmt]
      exact grows_bind (grows_innermost _) fun _ => grows_pure _
  | .ret none => by
      rw [lowerStmt]
      exact grows_pure _
  | .ret (some value) => by
      rw [lowerStmt]
      exact grows_bind (grows_lift (growsTo_lowerExpr value)) fun _ => grows_pure _
  | .block statements => by
      rw [lowerStmt]
      exact grows_lowerBlock statements
  | .importFile path => by
      rw [lowerStmt]
      exact grows_pure _

/-- Lowering a block leaves the context grown. -/
theorem grows_lowerBlock : (block : List Stmt) → Grows (lowerBlock block)
  | [] => by
      rw [lowerBlock]
      exact grows_pure _
  | stmt :: rest => by
      rw [lowerBlock]
      refine grows_bind (grows_lowerStmt stmt) fun _ => ?_
      exact grows_bind (grows_lowerBlock rest) fun _ => grows_pure _

/-- Lowering the blocks of branches leaves the context grown. -/
theorem grows_lowerBranches (last : String) :
    (branches : List Branch) → (labels : List String) → Grows (lowerBranches last branches labels)
  | [], _ => by
      rw [lowerBranches]
      · exact grows_pure _
      · exact nofun
  | .mk _ _ :: _, [] => by
      rw [lowerBranches]
      · exact grows_pure _
      · exact nofun
  | .mk _ body :: branches, label :: labels => by
      rw [lowerBranches]
      refine grows_bind (grows_lowerBlock body) fun _ => ?_
      exact grows_bind (grows_lowerBranches last branches labels) fun _ => grows_pure _

end

/-- What a lowerer is asked to lower. -/
inductive Request
  | program (tree : Program)
  | stmt (tree : Stmt)
  | expr (tree : Expr)

def Request.names : Request → List String
  | .program tree => tree.names
  | .stmt tree => Tree.namesOfStmt tree
  | .expr tree => Tree.namesOfExpr tree

/-- Code, and for an expression the operand that holds its value. -/
structure Answer where
  code : Listing
  value : Option Operand

def Answer.names (answer : Answer) : List String :=
  Listing.assigned answer.code ++ Listing.uses answer.code ++
    (answer.value.bind Operand.name?).toList

def Request.lower : Request → Lower Answer
  | .program tree => do
    let code ← lowerProgram tree
    pure ⟨code, none⟩
  | .stmt tree => do
    let code ← lowerStmt tree
    pure ⟨code, none⟩
  | .expr tree => do
    let (code, value) ← lowerExpr tree
    pure ⟨code, some value⟩

/-- A request that has been served: the context it met, what came back, and the context it left. -/
structure Call where
  before : Context
  result : Except LoweringError Answer
  after : Context

/-- Serve requests one after the other, each in the context that the one before it left. -/
def serve (c : Context) : List Request → List Call
  | [] => []
  | request :: rest =>
    let (result, after) := request.lower c
    ⟨c, result, after⟩ :: serve after rest

/-- The code that came back; none if the request was refused. -/
def Call.code (call : Call) : Listing :=
  match call.result with
  | .ok answer => answer.code
  | .error _ => []

def Call.names (call : Call) : List String :=
  match call.result with
  | .ok answer => answer.names
  | .error _ => []

def returned (calls : List Call) : Listing :=
  calls.flatMap Call.code

/-- No tree has a variable that is called like a temporary. -/
def Clean (requests : List Request) : Prop :=
  ∀ request ∈ requests, ∀ name ∈ request.names, looksTemporary name = false

section Requests

variable {request : Request} {c c' : Context} {answer : Answer}

theorem grows_lower (request : Request) : Grows request.lower := by
  cases request with
  | program tree =>
      rw [Request.lower]
      exact grows_bind (grows_lowerBlock tree.statements) fun _ => grows_pure _
  | stmt tree =>
      rw [Request.lower]
      exact grows_bind (grows_lowerStmt tree) fun _ => grows_pure _
  | expr tree =>
      rw [Request.lower]
      exact grows_bind (grows_lift (growsTo_lowerExpr tree)) fun _ => grows_pure _

theorem fragment_lower (h : request.lower c = (.ok answer, c')) : Fragment c c' answer.code := by
  cases request with
  | program tree =>
      simp only [Request.lower, bind_eq_ok, pure_eq_ok] at h
      obtain ⟨code, _, hcode, rfl, rfl⟩ := h
      exact fragment_lowerBlock tree.statements hcode
  | stmt tree =>
      simp only [Request.lower, bind_eq_ok, pure_eq_ok] at h
      obtain ⟨code, _, hcode, rfl, rfl⟩ := h
      exact fragment_lowerStmt tree hcode
  | expr tree =>
      simp only [Request.lower, bind_eq_ok, lift_eq_ok, pure_eq_ok] at h
      obtain ⟨⟨code, value⟩, _, hcode, rfl, rfl⟩ := h
      exact (computes_lowerExpr hcode).fragment

theorem allots_lower {own : String → Prop} (hown : ∀ name ∈ request.names, own name)
    (h : request.lower c = (.ok answer, c')) :
    Allots own c.temporaries c.temporaries c'.temporaries answer.code ∧
      ∀ name ∈ (answer.value.bind Operand.name?).toList,
        Known own c.temporaries c'.temporaries name := by
  cases request with
  | program tree =>
      simp only [Request.lower, bind_eq_ok, pure_eq_ok] at h
      obtain ⟨code, _, hcode, rfl, rfl⟩ := h
      refine ⟨allots_lowerBlock tree.statements hown hcode, ?_⟩
      exact fun _ hname => absurd hname List.not_mem_nil
  | stmt tree =>
      simp only [Request.lower, bind_eq_ok, pure_eq_ok] at h
      obtain ⟨code, _, hcode, rfl, rfl⟩ := h
      refine ⟨allots_lowerStmt tree hown hcode, ?_⟩
      exact fun _ hname => absurd hname List.not_mem_nil
  | expr tree =>
      simp only [Request.lower, bind_eq_ok, lift_eq_ok, pure_eq_ok] at h
      obtain ⟨⟨code, value⟩, _, hcode, rfl, rfl⟩ := h
      exact allots_lowerExpr hown hcode

end Requests

/-- What came back belongs to this call: its labels and temporaries have the numbers handed out in it, and
each of these temporaries is assigned as it was allotted. -/
structure Call.Fresh (call : Call) : Prop where
  grows : call.before.GrowsTo call.after
  fragment : Fragment call.before call.after call.code
  names : ∀ name ∈ call.names,
    Known (looksTemporary · = false) call.before.temporaries call.after.temporaries name
  allotted : ∀ answer, call.result = .ok answer → ∀ name,
    IsTemporary call.before.temporaries call.after.temporaries name → Allotted call.code name

theorem looksTemporary_of_isTemporary {first last : Nat} {name : String}
    (h : IsTemporary first last name) : looksTemporary name = true := by
  obtain ⟨number, -, -, rfl⟩ := h
  exact looksTemporary_temporaryName number

section Calls

variable {requests : List Request} {c : Context}

theorem fresh_of_lower {request : Request}
    (hclean : ∀ name ∈ request.names, looksTemporary name = false) (c : Context) :
    Call.Fresh ⟨c, (request.lower c).1, (request.lower c).2⟩ := by
  have hgrows := grows_lower request c
  cases hlower : request.lower c with
  | mk result after =>
      rw [hlower] at hgrows
      cases result with
      | error problem =>
          exact ⟨hgrows, hgrows.fragment, fun _ hname => absurd hname List.not_mem_nil,
            fun _ h => nomatch h⟩
      | ok answer =>
          obtain ⟨hallots, hvalue⟩ := allots_lower hclean hlower
          refine ⟨hgrows, fragment_lower hlower, ?_, ?_⟩
          · refine List.forall_mem_append.2 ⟨List.forall_mem_append.2 ⟨?_, ?_⟩, hvalue⟩
            · exact hallots.writes
            · exact hallots.reads
          · intro _ _ name hname
            refine hallots.allotted name hname ?_
            rw [looksTemporary_of_isTemporary hname]
            exact Bool.noConfusion

/-- Every call of a lowerer is fresh, and meets what earlier calls have handed out. -/
theorem fresh_of_mem_serve (hclean : Clean requests) :
    ∀ call ∈ serve c requests, call.Fresh ∧ c.GrowsTo call.before := by
  induction requests generalizing c with
  | nil => exact fun _ hmem => absurd hmem List.not_mem_nil
  | cons request rest ih =>
      obtain ⟨hfirst, hrest⟩ := List.forall_mem_cons.1 hclean
      have hfresh := fresh_of_lower hfirst c
      refine List.forall_mem_cons.2 ⟨⟨hfresh, c.growsTo_refl⟩, ?_⟩
      intro call hmem
      obtain ⟨hcall, hbefore⟩ := ih hrest call hmem
      exact ⟨hcall, hfresh.grows.trans hbefore⟩

/-- A call starts with what all earlier calls have left. -/
theorem pairwise_serve (hclean : Clean requests) :
    (serve c requests).Pairwise fun first second => first.after.GrowsTo second.before := by
  induction requests generalizing c with
  | nil => exact .nil
  | cons request rest ih =>
      obtain ⟨hfirst, hrest⟩ := List.forall_mem_cons.1 hclean
      refine .cons ?_ (ih hrest)
      exact fun call hmem => (fresh_of_mem_serve hrest call hmem).2

/-- All code that came back is one fragment. -/
theorem fragment_returned (hclean : Clean requests) :
    ∃ last, Fragment c last (returned (serve c requests)) := by
  induction requests generalizing c with
  | nil => exact ⟨c, c.growsTo_refl.fragment⟩
  | cons request rest ih =>
      obtain ⟨hfirst, hrest⟩ := List.forall_mem_cons.1 hclean
      obtain ⟨last, hlast⟩ := ih hrest (c := (request.lower c).2)
      exact ⟨last, (fresh_of_lower hfirst c).fragment.append hlast⟩

/-- A call does not mention what another one hands out. -/
theorem Call.Fresh.not_mem_names {call : Call} (h : call.Fresh) {first last : Nat} {name : String}
    (hname : IsTemporary first last name)
    (hapart : call.after.temporaries ≤ first ∨ last ≤ call.before.temporaries) :
    name ∉ call.names := by
  intro hmem
  rcases h.names name hmem with hlooks | hother
  · rw [looksTemporary_of_isTemporary hname] at hlooks
    cases hlooks
  · obtain ⟨number, hle, hlt, rfl⟩ := hname
    obtain ⟨other, hotherLe, hotherLt, heq⟩ := hother
    rw [temporaryName_inj] at heq
    omega

theorem Call.assigned_subset_names (call : Call) : Listing.assigned call.code ⊆ call.names := by
  intro name hname
  rw [Call.code] at hname
  rw [Call.names]
  cases hresult : call.result with
  | error problem =>
      rw [hresult] at hname
      cases hname
  | ok answer =>
      rw [hresult] at hname
      exact List.mem_append_left _ (List.mem_append_left _ hname)

/-- What is in no call's names is not assigned by the code that came back. -/
theorem not_mem_assigned_returned {calls : List Call} {name : String}
    (h : ∀ call ∈ calls, name ∉ call.names) : name ∉ Listing.assigned (returned calls) := by
  induction calls with
  | nil => exact List.not_mem_nil
  | cons call rest ih =>
      obtain ⟨hfirst, hrest⟩ := List.forall_mem_cons.1 h
      rw [returned, List.flatMap_cons, Listing.assigned_append, List.mem_append]
      rintro (hmem | hmem)
      · exact hfirst (call.assigned_subset_names hmem)
      · exact ih hrest hmem

/-- A temporary that was handed out in a call is assigned as it was allotted there, and by no other
call's code. -/
theorem allotted_returned (hclean : Clean requests) {call : Call}
    (hmem : call ∈ serve c requests) {answer : Answer} (hresult : call.result = .ok answer)
    {name : String} (hname : IsTemporary call.before.temporaries call.after.temporaries name) :
    Allotted (returned (serve c requests)) name := by
  have hfresh := fresh_of_mem_serve (c := c) hclean
  have hpairwise := pairwise_serve (c := c) hclean
  obtain ⟨front, rest, heq⟩ := List.append_of_mem hmem
  rw [heq] at hfresh hpairwise ⊢
  rw [List.pairwise_append, List.pairwise_cons] at hpairwise
  obtain ⟨-, ⟨hlater, -⟩, hearlier⟩ := hpairwise
  have hfront : ∀ other ∈ front, name ∉ other.names := fun other hother =>
    (hfresh other (List.mem_append_left _ hother)).1.not_mem_names hname
      (.inl (hearlier other hother call List.mem_cons_self).temporaries_le)
  have hrest : ∀ other ∈ rest, name ∉ other.names := fun other hother =>
    (hfresh other (List.mem_append_right _ (List.mem_cons_of_mem _ hother))).1.not_mem_names hname
      (.inr (hlater other hother).temporaries_le)
  have hown := (hfresh call (by simp)).1.allotted answer hresult name hname
  have hall := hown.around (not_mem_assigned_returned hfront) (not_mem_assigned_returned hrest)
  simpa [returned] using hall

end Calls

/-- **Freshness.**  However a lowerer is used, and whatever it refuses in between: a call leaves the loops
around as they were and the numbers not lower than before; what it hands out has numbers of this call
only, so no label stands twice in all the code that comes back and no temporary comes back from two
calls; and each temporary that was handed out for code that came back is assigned by one instruction,
unless a loop counts in it: then the loop sets it and advances it, and nothing else assigns it. -/
theorem names_fresh_over_life (requests : List Request) (hclean : Clean requests) :
    (∀ call ∈ serve .initial requests,
      call.after.loops = call.before.loops ∧
      call.before.labels ≤ call.after.labels ∧
      call.before.temporaries ≤ call.after.temporaries ∧
      (∀ label ∈ Listing.labels call.code, ∃ number, call.before.labels ≤ number ∧
        number < call.after.labels ∧ label = labelName number) ∧
      ∀ name ∈ call.names, looksTemporary name = true →
        IsTemporary call.before.temporaries call.after.temporaries name) ∧
    (serve .initial requests).Pairwise (fun first second =>
      first.after.labels ≤ second.before.labels ∧
      first.after.temporaries ≤ second.before.temporaries ∧
      ∀ name ∈ first.names, name ∈ second.names → looksTemporary name = false) ∧
    (Listing.labels (returned (serve .initial requests))).Nodup ∧
    ∀ call ∈ serve .initial requests, ∀ answer, call.result = .ok answer →
      ∀ name, IsTemporary call.before.temporaries call.after.temporaries name →
        (IsCounter (returned (serve .initial requests)) name →
          Listing.assignments (returned (serve .initial requests)) name =
            [startOf name, advanceOf name]) ∧
        (¬IsCounter (returned (serve .initial requests)) name →
          ∃ instruction, Listing.assignments (returned (serve .initial requests)) name =
            [instruction]) := by
  have hfresh := fresh_of_mem_serve (c := .initial) hclean
  refine ⟨?_, ?_, ?_, ?_⟩
  · intro call hmem
    obtain ⟨hcall, -⟩ := hfresh call hmem
    refine ⟨hcall.grows.loops_eq, hcall.grows.labels_le, hcall.grows.temporaries_le,
      fun label hlabel => hcall.fragment.exists_number hlabel, ?_⟩
    intro name hname hlooks
    rcases hcall.names name hname with hnot | htemporary
    · rw [hnot] at hlooks
      cases hlooks
    · exact htemporary
  · refine (pairwise_serve hclean).imp_of_mem ?_
    intro first second hfirst hsecond hgrows
    refine ⟨hgrows.labels_le, hgrows.temporaries_le, ?_⟩
    intro name hname hother
    rcases (hfresh first hfirst).1.names name hname with hnot | htemporary
    · exact hnot
    · exact absurd hother
        ((hfresh second hsecond).1.not_mem_names htemporary (.inr hgrows.temporaries_le))
  · obtain ⟨last, hfragment⟩ := fragment_returned (c := .initial) hclean
    exact hfragment.nodup
  · intro call hmem answer hresult name hname
    exact (allotted_returned hclean hmem hresult hname).cases

/-- Requests of all three kinds, one of which is refused. -/
def errands : List Request :=
  [.stmt (.whileLoop (.binary (.var "x") .lt (.number 3)) [.continueLoop]),
    .stmt (.block [.doWhile [.assign "x" (.binary (.var "x") .add (.number 1))] (.var "x"),
      .breakLoop]),
    .program ⟨[.forLoop "i" (.var "x") [.print "" [.var "i"]]]⟩,
    .expr (.binary (.var "x") .add (.number 1))]

theorem clean_errands : Clean errands := by
  unfold Clean
  decide

/-- The refused request uses up three labels and a temporary that never come back. -/
theorem names_fresh_over_life_errands :
    Clean errands ∧
    (serve .initial errands).map (fun call =>
        (call.code.length, call.after.labels, call.after.temporaries)) =
      [(8, 3, 1), (0, 6, 2), (11, 9, 5), (1, 9, 6)] ∧
    (∀ call ∈ serve .initial errands, call.after.loops = call.before.loops) ∧
    (Listing.labels (returned (serve .initial errands))).Nodup := by
  obtain ⟨hcalls, -, hnodup, -⟩ := names_fresh_over_life errands clean_errands
  exact ⟨clean_errands, by decide +kernel, fun call hmem => (hcalls call hmem).1, hnodup⟩

end StackPipeline.Lowering
