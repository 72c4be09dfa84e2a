import StackPipeline.Proofs.Lowering.Freshness

/-!
Which programs are refused: those with a break or a continue that stands in no loop.

Lowering only knows the loops around the statement it is at, and it has to leave each of them again,
also after a refusal.  So whether it refuses, and for which statement, is a matter of the tree alone.
-/

namespace StackPipeline

namespace Tree

/-- What a statement can stand in. -/
inductive Enclosure
  | whileLoop
  | doWhile
  | forLoop
  /-- The block of a condition. -/
  | branch
  /-- The block for when no condition holds. -/
  | otherwise
  | block
deriving DecidableEq

/-- Whether a break or continue can act on it. -/
def Enclosure.isLoop : Enclosure → Bool
  | .whileLoop | .doWhile | .forLoop => true
  | .branch | .otherwise | .block => false

/-- The two statements that act on the innermost loop around them. -/
inductive TransferKind
  | breakLoop
  | continueLoop
deriving DecidableEq

/-- A break or continue, and what it stands in, the innermost first. -/
structure Transfer where
  kind : TransferKind
  around : List Enclosure
deriving DecidableEq

def Transfer.InLoop (transfer : Transfer) : Prop :=
  ∃ enclosure ∈ transfer.around, enclosure.isLoop = true

instance (transfer : Transfer) : Decidable transfer.InLoop :=
  inferInstanceAs (Decidable (∃ enclosure ∈ transfer.around, enclosure.isLoop = true))

mutual

/-- The breaks and continues of a statement that stands in something, in the order of the source. -/
def transfersOfStmt (around : List Enclosure) : Stmt → List Transfer
  | .breakLoop => [⟨.breakLoop, around⟩]
  | .continueLoop => [⟨.continueLoop, around⟩]
  | .choose branches none => transfersOfBranches (.branch :: around) branches
  | .choose branches (some block) =>
    transfersOfBranches (.branch :: around) branches ++
      transfersOfBlock (.otherwise :: around) block
  | .whileLoop _ body => transfersOfBlock (.whileLoop :: around) body
  | .doWhile body _ => transfersOfBlock (.doWhile :: around) body
  | .forLoop _ _ body => transfersOfBlock (.forLoop :: around) body
  | .block statements => transfersOfBlock (.block :: around) statements
  | .declare _ _ | .assign _ _ | .print _ _ | .ret _ | .importFile _ => []

def transfersOfBlock (around : List Enclosure) : List Stmt → List Transfer
  | [] => []
  | stmt :: rest => transfersOfStmt around stmt ++ transfersOfBlock around rest

def transfersOfBranches (around : List Enclosure) : List Branch → List Transfer
  | [] => []
  | .mk _ body :: rest => transfersOfBlock around body ++ transfersOfBranches around rest

end

def Program.transfers (program : Program) : List Transfer :=
  transfersOfBlock [] program.statements

end Tree

namespace Lowering

open StackPipeline.Tree (Expr Stmt Branch Program Enclosure TransferKind Transfer transfersOfStmt
  transfersOfBlock transfersOfBranches)

def strayError : TransferKind → LoweringError
  | .breakLoop => .breakOutsideLoop
  | .continueLoop => .continueOutsideLoop

/-- The error for the first of these that stands in no loop, if one does. -/
def firstStray? (transfers : List Transfer) : Option LoweringError :=
  (transfers.find? fun transfer => ¬transfer.InLoop).map fun transfer => strayError transfer.kind

theorem firstStray?_append (first rest : List Transfer) :
    firstStray? (first ++ rest) = (firstStray? first).or (firstStray? rest) := by
  rw [firstStray?, List.find?_append, Option.map_or]
  rfl

theorem firstStray?_single (kind : TransferKind) (around : List Enclosure) :
    firstStray? [⟨kind, around⟩] =
      if around.any Enclosure.isLoop then none else some (strayError kind) := by
  have hloop : Transfer.InLoop ⟨kind, around⟩ ↔ around.any Enclosure.isLoop = true := by
    rw [List.any_eq_true]
    rfl
  by_cases h : around.any Enclosure.isLoop = true <;> simp [firstStray?, hloop, h]

theorem firstStray?_eq_none_iff {transfers : List Transfer} :
    firstStray? transfers = none ↔ ∀ transfer ∈ transfers, transfer.InLoop := by
  simp [firstStray?]

theorem firstStray?_eq_some_iff {transfers : List Transfer} {problem : LoweringError} :
    firstStray? transfers = some problem ↔
      ∃ before transfer after, transfers = before ++ transfer :: after ∧
        (∀ earlier ∈ before, earlier.InLoop) ∧ ¬transfer.InLoop ∧
        problem = strayError transfer.kind := by
  rw [firstStray?, Option.map_eq_some_iff]
  constructor
  · rintro ⟨transfer, hfound, rfl⟩
    obtain ⟨hstray, before, after, rfl, hbefore⟩ := List.find?_eq_some_iff_append.1 hfound
    refine ⟨before, transfer, after, rfl, ?_, of_decide_eq_true hstray, rfl⟩
    intro earlier hearlier
    simpa using hbefore earlier hearlier
  · rintro ⟨before, transfer, after, rfl, hbefore, hstray, rfl⟩
    refine ⟨transfer, List.find?_eq_some_iff_append.2 ⟨decide_eq_true hstray, before, after, rfl, ?_⟩,
      rfl⟩
    intro earlier hearlier
    simpa using hbefore earlier hearlier

/-- What work has failed with, if it has failed. -/
def problem? {α : Type} : Except LoweringError α → Option LoweringError
  | .ok _ => none
  | .error problem => some problem

/-- A context knows of a loop exactly if one is around. -/
def Context.StandsIn (c : Context) (around : List Enclosure) : Prop :=
  c.loops.isEmpty = !around.any Enclosure.isLoop

/-- Work that stands in something fails with this problem; it succeeds if there is none. -/
def Reports {α : Type} (around : List Enclosure) (work : Lower α)
    (problem : Option LoweringError) : Prop :=
  ∀ c : Context, c.StandsIn around → problem? (work c).1 = problem

section Reports

variable {α β : Type} {around : List Enclosure} {first second : Option LoweringError}

theorem Context.StandsIn.of_growsTo {c c' : Context} (h : c.StandsIn around) (hgrows : c.GrowsTo c') :
    c'.StandsIn around := by
  rw [StandsIn, hgrows.loops_eq]
  exact h

theorem reports_pure (a : α) : Reports around (pure a : Lower α) none :=
  fun _ _ => rfl

/-- The first problem of work that goes on is the one that is reported. -/
theorem reports_bind {work : Lower α} {rest : α → Lower β} (hgrows : Grows work)
    (hwork : Reports around work first) (hrest : ∀ a, Reports around (rest a) second) :
    Reports around (work >>= rest) (first.or second) := by
  intro c hc
  have hfirst := hwork c hc
  have hafter := hc.of_growsTo (hgrows c)
  change problem? (ExceptT.bindCont rest (work c).1 (work c).2).1 = _
  cases hresult : (work c).1 with
  | error problem =>
      rw [hresult] at hfirst
      rw [← hfirst]
      rfl
  | ok a =>
      rw [hresult] at hfirst
      rw [← hfirst]
      exact hrest a _ hafter

/-- Work after which there is nothing to fail. -/
theorem reports_bind_pure {work : Lower α} {rest : α → β} (hwork : Reports around work first) :
    Reports around (work >>= fun a => pure (rest a)) first := by
  intro c hc
  rw [← hwork c hc]
  change problem? (ExceptT.bindCont (m := Fresh) (fun a => pure (rest a)) (work c).1 (work c).2).1 = _
  cases (work c).1 <;> rfl

/-- Work that cannot fail comes first. -/
theorem reports_lift_bind {work : Fresh α} {rest : α → Lower β}
    (hgrows : ∀ c : Context, c.GrowsTo (work c).2)
    (hrest : ∀ c, Reports around (rest (work c).1) first) :
    Reports around (liftM work >>= rest) first :=
  fun c hc => hrest c _ (hc.of_growsTo (hgrows c))

theorem length_freshLabels (count : Nat) (c : Context) :
    (freshLabels count c).1.length = count := by
  rw [(freshLabels_eq rfl).1, List.length_map, List.length_range']

theorem reports_insideLoop {work : Lower α} (loop : LoopLabels) {enclosure : Enclosure}
    (hloop : enclosure.isLoop = true) (hwork : Reports (enclosure :: around) work first) :
    Reports around (insideLoop loop work) first := by
  intro c _
  refine hwork (c.inside loop) ?_
  rw [Context.StandsIn, List.any_cons, hloop]
  rfl

/-- What is no loop does not count. -/
theorem Reports.of_not_loop {work : Lower α} {enclosure : Enclosure}
    (hwork : Reports (enclosure :: around) work first) (hloop : enclosure.isLoop = false) :
    Reports around work first := by
  intro c hc
  refine hwork c ?_
  rw [Context.StandsIn, List.any_cons, hloop]
  exact hc

theorem reports_innermost (kind : TransferKind) (around : List Enclosure) :
    Reports around (innermost (strayError kind)) (firstStray? [⟨kind, around⟩]) := by
  intro c hc
  rw [innermost, firstStray?_single]
  cases hloops : c.loops with
  | nil =>
      rw [Context.StandsIn, hloops] at hc
      rw [if_neg (by simpa using hc.symm)]
      rfl
  | cons loop rest =>
      rw [Context.StandsIn, hloops] at hc
      rw [if_pos (by simpa using hc.symm)]
      rfl

end Reports

mutual

/-- Lowering a statement fails for its first break or continue that stands in no loop. -/
theorem reports_lowerStmt (around : List Enclosure) :
    (stmt : Stmt) → Reports around (lowerStmt stmt) (firstStray? (transfersOfStmt around stmt))
  | .declare name value => by
      rw [lowerStmt]
      exact reports_lift_bind (growsTo_lowerExpr value) fun _ => reports_pure _
  | .assign name value => by
      rw [lowerStmt]
      exact reports_lift_bind (growsTo_lowerExpr value) fun _ => reports_pure _
  | .print text arguments => by
      rw [lowerStmt]
      exact reports_lift_bind (growsTo_lowerExprs arguments) fun _ => reports_pure _
  | .choose branches none => by
      rw [lowerStmt, transfersOfStmt]
      refine reports_lift_bind growsTo_freshLabel fun c => ?_
      refine reports_lift_bind (growsTo_freshLabels _) fun c' => ?_
      refine reports_lift_bind (growsTo_lowerConditions branches _) fun _ => ?_
      have hlabels := length_freshLabels branches.length c'
      exact reports_bind_pure ((reports_lowerBranches _ _ branches _ hlabels).of_not_loop rfl)
  | .choose branches (some block) => by
      rw [lowerStmt, transfersOfStmt, firstStray?_append]
      refine reports_lift_bind growsTo_freshLabel fun c => ?_
      refine reports_lift_bind (growsTo_freshLabels _) fun c' => ?_
      refine reports_lift_bind growsTo_freshLabel fun _ => ?_
      refine reports_lift_bind (growsTo_lowerConditions branches _) fun _ => ?_
      have hlabels := length_freshLabels branches.length c'
      refine reports_bind (grows_lowerBranches _ branches _)
        ((reports_lowerBranches _ _ branches _ hlabels).of_not_loop rfl) fun _ => ?_
      exact reports_bind_pure ((reports_lowerBlock _ block).of_not_loop rfl)
  | .whileLoop condition body => by
      rw [lowerStmt, transfersOfStmt]
      refine reports_lift_bind growsTo_freshLabel fun _ => ?_
      refine reports_lift_bind growsTo_freshLabel fun _ => ?_
      refine reports_lift_bind growsTo_freshLabel fun _ => ?_
      refine reports_lift_bind (growsTo_lowerExpr condition) fun _ => ?_
      exact reports_bind_pure (reports_insideLoop _ rfl (reports_lowerBlock _ body))
  | .doWhile body condition => by
      rw [lowerStmt, transfersOfStmt, ← Option.or_none (o := firstStray? _)]
      refine reports_lift_bind growsTo_freshLabel fun _ => ?_
      refine reports_lift_bind growsTo_freshLabel fun _ => ?_
      refine reports_lift_bind growsTo_freshLabel fun _ => ?_
      refine reports_bind (grows_insideLoop _ (grows_lowerBlock body))
        (reports_insideLoop _ rfl (reports_lowerBlock _ body)) fun _ => ?_
      exact reports_lift_bind (growsTo_lowerExpr condition) fun _ => reports_pure _
  | .forLoop name count body => by
      rw [lowerStmt, transfersOfStmt]
      refine reports_lift_bind (growsTo_lowerBound count) fun _ => ?_
      refine reports_lift_bind growsTo_freshTemporary fun _ => ?_
      refine reports_lift_bind growsTo_freshLabel fun _ => ?_
      refine reports_lift_bind growsTo_freshLabel fun _ => ?_
      refine reports_lift_bind growsTo_freshLabel fun _ => ?_
      refine reports_lift_bind growsTo_freshTemporary fun _ => ?_
      exact reports_bind_pure (reports_insideLoop _ rfl (reports_lowerBlock _ body))
  | .breakLoop => by
      rw [lowerStmt]
      exact reports_bind_pure (reports_innermost .breakLoop around)
  | .continueLoop => by
      rw [lowerStmt]
      exact reports_bind_pure (reports_innermost .continueLoop around)
  | .ret none => by
      rw [lowerStmt]
      exact reports_pure _
  | .ret (some value) => by
      rw [lowerStmt]
      exact reports_lift_bind (growsTo_lowerExpr value) fun _ => reports_pure _
  | .block statements => by
      rw [lowerStmt, transfersOfStmt]
      exact (reports_lowerBlock _ statements).of_not_loop rfl
  | .importFile path => by
      rw [lowerStmt]
      exact reports_pure _

/-- Lowering a block fails for its first break or continue that stands in no loop. -/
theorem reports_lowerBlock (around : List Enclosure) :
    (block : List Stmt) → Reports around (lowerBlock block) (firstStray? (transfersOfBlock around block))
  | [] => by
      rw [lowerBlock]
      exact reports_pure _
  | stmt :: rest => by
      rw [lowerBlock, transfersOfBlock, firstStray?_append]
      refine reports_bind (grows_lowerStmt stmt) (reports_lowerStmt around stmt) fun _ => ?_
      exact reports_bind_pure (reports_lowerBlock around rest)

/-- Lowering the blocks of branches, each with its label, fails for the first break or continue in them
that stands in no loop. -/
theorem reports_lowerBranches (around : List Enclosure) (last : String) :
    (branches : List Branch) → (labels : List String) → labels.length = branches.length →
      Reports around (lowerBranches last branches labels)
        (firstStray? (transfersOfBranches around branches))
  | [], labels, _ => by
      rw [lowerBranches]
      · exact reports_pure _
      · exact nofun
  | .mk _ body :: branches, label :: labels, hlength => by
      rw [lowerBranches, transfersOfBranches, firstStray?_append]
      refine reports_bind (grows_lowerBlock body) (reports_lowerBlock around body) fun _ => ?_
      have hrest : labels.length = branches.length := Nat.succ.inj hlength
      exact reports_bind_pure (reports_lowerBranches around last branches labels hrest)

end

/-- A program is refused for its first break or continue that stands in no loop. -/
theorem problem?_lower (program : Program) :
    problem? (lower program) = firstStray? program.transfers :=
  reports_lowerBlock [] program.statements .initial rfl

/-- **Exactly the programs with a stray break or continue are refused**, for the first one in the order of
the source. -/
theorem lower_refuses_first_stray (program : Program) :
    ((∃ listing, lower program = .ok listing) ↔
      ∀ transfer ∈ program.transfers, transfer.InLoop) ∧
    ∀ problem, lower program = .error problem ↔
      ∃ before transfer after, program.transfers = before ++ transfer :: after ∧
        (∀ earlier ∈ before, earlier.InLoop) ∧ ¬transfer.InLoop ∧
        problem = strayError transfer.kind := by
  have hproblem := problem?_lower program
  constructor
  · rw [← firstStray?_eq_none_iff, ← hproblem]
    cases lower program <;> simp [problem?]
  · intro problem
    rw [← firstStray?_eq_some_iff, ← hproblem]
    cases lower program <;> simp [problem?]

/-- A loop that has ended is no longer around, whatever stood in it. -/
example : problem? (lower ⟨[.whileLoop (.boolean true) [.block [.breakLoop]],
    .choose [.mk (.boolean true) [.doWhile [.continueLoop] (.boolean false)]] (some [.continueLoop]),
    .breakLoop]⟩) = some .continueOutsideLoop := by
  decide +kernel

end Lowering

end StackPipeline
