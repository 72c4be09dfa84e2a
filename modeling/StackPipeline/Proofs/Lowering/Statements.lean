import StackPipeline.Proofs.Lowering.Arrivals

/-!
The code of statements without loops of their own carries them out.

Branches are taken on together with the code of their blocks: the conditions stand before all of the
blocks, and behind each block is a jump to the end.
-/

namespace StackPipeline.Lowering

open StackPipeline.System (Walk Ends)
open StackPipeline.Tree (Expr Stmt Branch Scene Result evalExpr evalExprs execStmt execBlock
  execBranches goOn withValue namesOfExpr namesOfBranches)
open Listing (Operand Source Instruction WellLabelled execute interpreter)

/-- The code that this work makes carries out what is executed, wherever it stands. -/
def CarriesOut (work : Lower Listing) (exec : Nat → Scene → Result) : Prop :=
  ∀ ⦃c c' : Context⦄ ⦃code : Listing⦄, work c = (.ok code, c') →
    ∀ ⦃whole : Listing⦄, WellLabelled whole → ∀ ⦃position : Nat⦄, Placed whole position code →
      ∀ (fuel : Nat) ⦃scene : Scene⦄ ⦃state : Listing.State⦄, state.position = position →
        Mirrors scene state →
          Carries whole c.temporaries c.loops (position + code.length) state fuel (exec fuel scene)

section Simple

variable {whole : Listing} {c c' : Context} {position fuel : Nat} {scene : Scene}
  {state : Listing.State}

/-- Code that computes a value and puts it into a variable. -/
theorem carries_store {name : String} {value : Expr} {code : Listing} {operand : Operand}
    (hvalue : lowerExpr value c = ((code, operand), c'))
    (hnames : ∀ x ∈ name :: namesOfExpr value, IsVariable x)
    (hplaced : Placed whole position (code ++ [Instruction.assign name (.operand operand)]))
    (hposition : state.position = position) (hmirrors : Mirrors scene state) :
    Carries whole c.temporaries c.loops
      (position + (code ++ [Instruction.assign name (.operand operand)]).length) state fuel
      (withValue (fun scene value => goOn (scene.assign name value)) (evalExpr value scene)) := by
  subst hposition
  have hname : IsVariable name := hnames name List.mem_cons_self
  have hruns := comesTo_lowerExpr hvalue (fun x hx => hnames x (List.mem_cons_of_mem _ hx))
    hplaced.left hmirrors
  apply carries_withValue hruns
  intro after x next hnext hafter hx
  have hwalk := walk_assign hnext hplaced.right.head
  rw [hx] at hwalk
  refine ⟨1, _, hwalk, ?_, ⟨agreeOn_assign_variable hafter.agree name x, hafter.divisions_eq⟩,
    kept_assign_variable _ _ hname _⟩
  rw [List.length_append, Nat.add_assoc]
  rfl

theorem carries_print {text : String} {arguments : List Expr} {code : Listing}
    {operands : List Operand} (harguments : lowerExprs arguments c = ((code, operands), c'))
    (hnames : ∀ x ∈ arguments.flatMap namesOfExpr, IsVariable x)
    (hplaced : Placed whole position (code ++ [Instruction.print text operands]))
    (hposition : state.position = position) (hmirrors : Mirrors scene state) :
    Carries whole c.temporaries c.loops
      (position + (code ++ [Instruction.print text operands]).length) state fuel
      (execStmt (.print text arguments) fuel scene) := by
  subst hposition
  rw [execStmt]
  apply carries_withValue (comesTo_lowerExprs harguments hnames hplaced.left hmirrors)
  intro after values next hnext hafter hvalues
  subst hvalues
  have hstep := Listing.interpreter_of_getElem? (hnext ▸ hplaced.right.head)
  have hwrite := hafter.agree.writeLines
    (printedLines text (operands.map (Operand.value next.world)))
  rw [execute] at hstep
  rw [Scene.print]
  cases hworld : after.world.writeLines
      (printedLines text (operands.map (Operand.value next.world))) with
  | failed world trouble =>
      rw [hworld] at hwrite
      obtain ⟨other, hother, hagree⟩ := hwrite.of_failed
      rw [hother] at hstep
      exact ⟨_, .of_stopped hstep, hagree, hafter.divisions_eq⟩
  | done world =>
      rw [hworld] at hwrite
      obtain ⟨other, hother, hagree⟩ := hwrite.of_done
      rw [hother] at hstep
      refine ⟨1, _, .single hstep, ?_, ⟨hagree, hafter.divisions_eq⟩,
        .of_store_eq (World.store_of_writeLines hother) _⟩
      rw [List.length_append, ← Nat.add_assoc, ← hnext]
      rfl

theorem carries_return {value : Expr} {code : Listing} {operand : Operand}
    (hvalue : lowerExpr value c = ((code, operand), c'))
    (hnames : ∀ x ∈ namesOfExpr value, IsVariable x)
    (hplaced : Placed whole position (code ++ [Instruction.ret (some operand)]))
    (hposition : state.position = position) (hmirrors : Mirrors scene state) (exit : Nat) :
    Carries whole c.temporaries c.loops exit state fuel
      (execStmt (.ret (some value)) fuel scene) := by
  subst hposition
  rw [execStmt]
  apply carries_withValue (comesTo_lowerExpr hvalue hnames hplaced.left hmirrors)
  intro after x next hnext hafter hx
  subst hx
  have hstep := Listing.interpreter_of_getElem? (hnext ▸ hplaced.right.head)
  exact ⟨next, .of_stopped hstep, hafter⟩

/-- A jump to a label comes there. -/
theorem arrivesAtLabel_goto (hgood : WellLabelled whole) (hposition : state.position = position)
    {name : String} (hfetch : whole[position]? = some (.goto name)) (hmirrors : Mirrors scene state)
    (bound : Nat) : ArrivesAtLabel whole bound state scene name := by
  obtain ⟨target, htarget, _⟩ := hgood.exists_target (List.mem_of_getElem? hfetch) rfl
  exact ⟨target, htarget, 1, state.movedTo target, walk_goto hgood hposition hfetch htarget, rfl,
    hmirrors.movedTo _, .refl _ _⟩

end Simple

section Choices

variable {whole : Listing} {bound exit fuel : Nat} {loops : List LoopLabels}

/-- The conditions of branches and, somewhere else, their blocks. -/
theorem carries_branches (hgood : WellLabelled whole) {branches : List Branch}
    (hblocks : ∀ branch ∈ branches, CarriesOut (lowerBlock branch.body) (execBlock branch.body))
    (hnames : ∀ name ∈ namesOfBranches branches, IsVariable name) {last : String}
    (hlast : whole[exit]? = some (.label last)) {labels : List String} {c c' d d' : Context}
    {conditions bodies : Listing} (hlength : labels.length = branches.length)
    (hconditions : lowerConditions branches labels c = (conditions, c'))
    (hbodies : lowerBranches last branches labels d = (.ok bodies, d'))
    (hc : bound ≤ c.temporaries) (hd : bound ≤ d.temporaries) (hloops : d.loops = loops)
    {position start : Nat} (hplaced : Placed whole position conditions)
    (hplacedBodies : Placed whole start bodies) {otherwise : Nat → Scene → Result}
    (hotherwise : ∀ scene next, next.position = position + conditions.length →
      Mirrors scene next → Carries whole bound loops (exit + 1) next fuel (otherwise fuel scene))
    {scene : Scene} {state : Listing.State} (hposition : state.position = position)
    (hmirrors : Mirrors scene state) :
    Carries whole bound loops (exit + 1) state fuel
      (execBranches branches otherwise fuel scene) := by
  induction branches generalizing labels c d conditions bodies position start scene state with
  | nil =>
      obtain rfl : labels = [] := List.length_eq_zero_iff.1 hlength
      cases hconditions
      exact hotherwise scene state hposition hmirrors
  | cons branch branches ih =>
      obtain ⟨condition, body⟩ := branch
      cases labels with
      | nil => cases hlength
      | cons label labels =>
          obtain ⟨test, operand, c₁, rest, htest, hrest, rfl⟩ := lowerConditions_cons hconditions
          obtain ⟨bodyCode, d₁, restBodies, hbody, hrestBodies, rfl⟩ := lowerBranches_cons hbodies
          have hfragment := fragment_lowerBlock body hbody
          rw [namesOfBranches] at hnames
          have htestNames : ∀ name ∈ namesOfExpr condition, IsVariable name := fun name hname =>
            hnames name (List.mem_append_left _ (List.mem_append_left _ hname))
          have hdecides := decides_test hgood htest htestNames hplaced hplacedBodies.head hposition
            hmirrors
          rw [execBranches]
          apply carries_ifElse (hdecides.mono hc)
          · intro middle next hnext hmiddle
            apply Carries.of_walk (walk_label hnext hplacedBodies.head) (.refl _ _) _
              (Nat.le_add_left _ _)
            have hcarries := hblocks _ List.mem_cons_self hbody hgood hplacedBodies.tail.left fuel
              rfl (hmiddle.movedTo (start + 1))
            rw [hloops] at hcarries
            exact (hcarries.mono hd).extend
              (fun _ hbehind => ⟨2, walk_past hgood hbehind hplacedBodies.tail.right.head hlast⟩)
          · intro middle next hnext hmiddle
            refine ih (fun other hmem => hblocks other (List.mem_cons_of_mem _ hmem))
              (fun name hname => hnames name (List.mem_append_right _ hname))
              (Nat.succ.inj hlength) hrest hrestBodies
              (Nat.le_trans hc (computes_lowerExpr htest).temporaries_le)
              (Nat.le_trans hd hfragment.temporaries_le) (hfragment.loops_eq.trans hloops)
              hplaced.right.tail hplacedBodies.tail.right.tail ?_ hnext hmiddle
            intro after last hposition hlast
            refine hotherwise after last (hposition.trans ?_) hlast
            rw [List.length_append, List.length_cons]
            omega

theorem carriesOut_choose_none {branches : List Branch}
    (hblocks : ∀ branch ∈ branches, CarriesOut (lowerBlock branch.body) (execBlock branch.body))
    (hnames : ∀ name ∈ namesOfBranches branches, IsVariable name) :
    CarriesOut (lowerStmt (.choose branches none)) (execStmt (.choose branches none)) := by
  intro c c' code h whole hgood position hplaced fuel scene state hposition hmirrors
  obtain ⟨conditions, c₁, bodies, hconditions, hbodies, rfl⟩ := lowerStmt_choose_none h
  obtain ⟨-, hloops, htemporaries, -, -⟩ :=
    lowerConditions_jumpsTo (length_branchLabels c branches) hconditions
  have hlast := hplaced.right.tail.right.head
  have hexit : position + (conditions ++ Instruction.goto (labelName c.labels) ::
      (bodies ++ [.label (labelName c.labels)])).length =
        position + conditions.length + 1 + bodies.length + 1 := by
    simp only [List.length_append, List.length_cons, List.length_nil]
    omega
  rw [execStmt, hexit]
  refine carries_branches hgood hblocks hnames hlast (length_branchLabels c branches) hconditions
    hbodies (Nat.le_refl _) htemporaries hloops hplaced.left hplaced.right.tail.left ?_ hposition
    hmirrors
  intro after next hnext hafter
  exact ⟨2, _, walk_past hgood hnext hplaced.right.head hlast, rfl, hafter.movedTo _, .refl _ _⟩

theorem carriesOut_choose_some {branches : List Branch} {block : List Stmt}
    (hblocks : ∀ branch ∈ branches, CarriesOut (lowerBlock branch.body) (execBlock branch.body))
    (hnames : ∀ name ∈ namesOfBranches branches, IsVariable name)
    (hblock : CarriesOut (lowerBlock block) (execBlock block)) :
    CarriesOut (lowerStmt (.choose branches (some block)))
      (execStmt (.choose branches (some block))) := by
  intro c c' code h whole hgood position hplaced fuel scene state hposition hmirrors
  obtain ⟨conditions, c₁, bodies, c₂, otherwise, hconditions, hbodies, hotherwise, rfl⟩ :=
    lowerStmt_choose_some h
  obtain ⟨-, hloops, htemporaries, -, -⟩ :=
    lowerConditions_jumpsTo (length_branchLabels c branches) hconditions
  obtain ⟨inner, hinner, -, -⟩ := lowerBranches_fragment (length_branchLabels c branches)
    (fragment_lowerBranches branches) hbodies
  have hlabel := hplaced.right.tail.right.head
  have hplacedBlock := hplaced.right.tail.right.tail
  have hlast := hplacedBlock.right.tail.head
  have hexit : position + (conditions ++
      Instruction.goto (labelName (c.labels + 1 + branches.length)) :: (bodies ++
        .label (labelName (c.labels + 1 + branches.length)) ::
          (otherwise ++ [.goto (labelName c.labels), .label (labelName c.labels)]))).length =
        position + conditions.length + 1 + bodies.length + 1 + otherwise.length + 1 + 1 := by
    simp only [List.length_append, List.length_cons, List.length_nil]
    omega
  rw [execStmt, hexit]
  refine carries_branches hgood hblocks hnames hlast (length_branchLabels c branches) hconditions
    hbodies (Nat.le_refl _) htemporaries hloops hplaced.left hplaced.right.tail.left ?_ hposition
    hmirrors
  intro after next hnext hafter
  apply Carries.of_walk (walk_past hgood hnext hplaced.right.head hlabel) (.refl _ _) _
    (Nat.le_add_left _ _)
  have hcarries := hblock hotherwise hgood hplacedBlock.left fuel rfl (hafter.movedTo _)
  rw [hinner.loops_eq, hloops] at hcarries
  exact (hcarries.mono (Nat.le_trans htemporaries hinner.temporaries_le)).extend
    (fun _ hbehind => ⟨2, walk_past hgood hbehind hplacedBlock.right.head hlast⟩)

end Choices

end StackPipeline.Lowering
