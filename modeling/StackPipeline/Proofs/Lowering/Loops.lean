import StackPipeline.Proofs.Lowering.Statements

/-!
The code of loops carries them out, provided the code of their bodies does.

Each of the proofs is by induction on the fuel.  A round takes one unit of it and at least one step,
that from the label at the start; so a loop that goes on forever has code that goes on forever.
-/

namespace StackPipeline.Lowering

open StackPipeline.System (Walk Ends)
open StackPipeline.Tree (Expr Stmt Scene evalExpr execStmt execBlock whileFrom doFrom forFrom
  namesOfExpr)
open Listing (Operand Source Instruction WellLabelled execute interpreter)
open Machine (Value operate? dividesByZero)

theorem carries_zero {whole : Listing} {bound exit : Nat} {loops : List LoopLabels}
    (state : Listing.State) : Carries whole bound loops exit state 0 none :=
  ⟨0, state, Nat.le_refl 0, .refl state⟩

section Tested

variable {whole : Listing} {c c₁ c₂ : Context} {condition : Expr} {body : List Stmt}
  {test bodyCode : Listing} {operand : Operand} {start inner next last : String} {position : Nat}
  {scene : Scene} {state : Listing.State}

/-- A loop that is tested first, from the label at its start. -/
theorem carries_whileFrom (hgood : WellLabelled whole)
    (htest : lowerExpr condition c = ((test, operand), c₁))
    (hnames : ∀ name ∈ namesOfExpr condition, IsVariable name)
    (hbody : CarriesOut (lowerBlock body) (execBlock body))
    (hlower : lowerBlock body (c₁.inside ⟨start, last⟩) = (.ok bodyCode, c₂))
    (hplaced : Placed whole position (whileCode start inner last test operand bodyCode))
    (fuel : Nat) (hposition : state.position = position) (hmirrors : Mirrors scene state) :
    Carries whole c.temporaries c.loops
      (position + (whileCode start inner last test operand bodyCode).length) state fuel
      (whileFrom condition (execBlock body) fuel scene) := by
  have htail := hplaced.tail
  have hinner := htail.right.tail.tail.head
  have hplacedBody := htail.right.tail.tail.tail
  have hlast := hplacedBody.right.tail.head
  have hexit : position + (whileCode start inner last test operand bodyCode).length =
      position + 1 + test.length + 1 + 1 + 1 + bodyCode.length + 1 + 1 := by
    simp only [whileCode, List.length_append, List.length_cons, List.length_nil]
    omega
  have hcomputes := computes_lowerExpr htest
  rw [hexit]
  induction fuel generalizing scene state with
  | zero => exact carries_zero state
  | succ fuel ih =>
      have hstart := walk_label hposition hplaced.head
      refine Carries.of_walk hstart (.refl _ _) ?_ (Nat.le_of_eq (Nat.add_comm fuel 1))
      have hdecides := decides_test hgood htest hnames htail hinner rfl
        (hmirrors.movedTo (position + 1))
      rw [whileFrom]
      apply carries_ifElse hdecides
      · intro middle state₁ hstate₁ hmiddle
        apply Carries.of_walk (walk_label hstate₁ hinner) (.refl _ _) _ (Nat.le_add_left _ _)
        have hcarries := hbody hlower hgood hplacedBody.left fuel rfl (hmiddle.movedTo _)
        rw [Context.inside, hcomputes.loops_eq] at hcarries
        apply carries_afterBody hgood hcarries hcomputes.temporaries_le hplaced.head hlast
        -- Behind the body there is a jump to the start, and a continue goes there at once.
        rintro after state₂ (hbehind | hcontinued) hafter _
        · have hgoto := walk_goto hgood hbehind hplacedBody.right.head hplaced.head
          exact (ih rfl (hafter.movedTo position)).of_walk hgoto (.refl _ _)
            (Nat.le_add_left _ _)
        · exact ih hcontinued hafter
      · intro middle state₁ hstate₁ hmiddle
        exact ⟨2, _, walk_past hgood hstate₁ htail.right.tail.head hlast, rfl, hmiddle.movedTo _,
          .refl _ _⟩

/-- A loop that is tested last, from the label at its start. -/
theorem carries_doFrom (hgood : WellLabelled whole)
    (hbody : CarriesOut (lowerBlock body) (execBlock body))
    (hlower : lowerBlock body (c.inside ⟨next, last⟩) = (.ok bodyCode, c₁))
    (htest : lowerExpr condition c₁.outside = ((test, operand), c₂))
    (hnames : ∀ name ∈ namesOfExpr condition, IsVariable name)
    (hplaced : Placed whole position (doCode start next last test operand bodyCode))
    (fuel : Nat) (hposition : state.position = position) (hmirrors : Mirrors scene state) :
    Carries whole c.temporaries c.loops
      (position + (doCode start next last test operand bodyCode).length) state fuel
      (doFrom (execBlock body) condition fuel scene) := by
  have hplacedBody := hplaced.tail
  have hnext := hplacedBody.right.head
  have htail := hplacedBody.right.tail
  have hlast := htail.right.tail.head
  have hexit : position + (doCode start next last test operand bodyCode).length =
      position + 1 + bodyCode.length + 1 + test.length + 1 + 1 := by
    simp only [doCode, List.length_append, List.length_cons, List.length_nil]
    omega
  have hle : c.temporaries ≤ c₁.temporaries := (fragment_lowerBlock body hlower).temporaries_le
  rw [hexit]
  induction fuel generalizing scene state with
  | zero => exact carries_zero state
  | succ fuel ih =>
      have hstart := walk_label hposition hplaced.head
      refine Carries.of_walk hstart (.refl _ _) ?_ (Nat.le_of_eq (Nat.add_comm fuel 1))
      have hcarries := hbody hlower hgood hplacedBody.left fuel rfl (hmirrors.movedTo _)
      rw [doFrom]
      apply carries_afterBody hgood hcarries (Nat.le_refl _) hnext hlast
      intro middle state₁ hstate₁ hmiddle _
      -- Here a continue goes where the body ends.
      have hposition₁ : state₁.position = position + 1 + bodyCode.length := hstate₁.elim id id
      apply Carries.of_walk (walk_label hposition₁ hnext) (.refl _ _) _ (Nat.le_add_left _ _)
      have hdecides := decides_test hgood htest hnames htail hplaced.head rfl (hmiddle.movedTo _)
      apply carries_ifElse (hdecides.mono hle)
      · intro after state₂ hstate₂ hafter
        exact ih hstate₂ hafter
      · intro after state₂ hstate₂ hafter
        exact ⟨1, _, walk_label hstate₂ hlast, rfl, hafter.movedTo _, .refl _ _⟩

end Tested

/-- The program cannot change the bound of a loop that counts to it. -/
theorem frozen_lowerBound {count : Expr} {c c' : Context} {code : Listing} {bound : Operand}
    (h : lowerBound count c = ((code, bound), c')) : Frozen c'.temporaries bound := by
  rcases lowerBound_cases h with ⟨name, -, -, rfl, rfl⟩ | ⟨hvar, hexpr⟩
  · exact ⟨c.temporaries, Nat.lt_succ_self _, rfl⟩
  · exact frozen_lowerExpr hexpr hvar

theorem comesTo_lowerBound {whole : Listing} {count : Expr} {c c' : Context} {code : Listing}
    {bound : Operand} (h : lowerBound count c = ((code, bound), c'))
    (hnames : ∀ name ∈ namesOfExpr count, IsVariable name) {position : Nat}
    (hplaced : Placed whole position code) {scene : Scene} {state : Listing.State}
    (hposition : state.position = position) (hmirrors : Mirrors scene state) :
    ComesTo whole c.temporaries (position + code.length) state
      (fun world value => bound.value world = value) (evalExpr count scene) := by
  rcases lowerBound_cases h with ⟨name, rfl, rfl, rfl, rfl⟩ | ⟨-, hexpr⟩
  · have hvalue := hmirrors.agree.value_eq name (hnames name List.mem_cons_self)
    refine ⟨1, _, walk_assign hposition hplaced.head, rfl,
      ⟨agreeOn_assign_temporary hmirrors.agree _ _, hmirrors.divisions_eq⟩,
      kept_assign_temporary _ _ (Nat.le_refl _) _, ?_⟩
    exact (World.valueOf_assign _ _ _ _).trans ((if_pos rfl).trans hvalue)
  · subst hposition
    exact comesTo_lowerExpr hexpr hnames hplaced hmirrors

section Counted

variable {whole : Listing} {number : Nat} {x : Float} {position : Nat} {scene : Scene}
  {state : Listing.State}

/-- Whether the counter has reached the bound decides where to go. -/
theorem walk_counterTest (hgood : WellLabelled whole) {start last : String} {bound : Operand}
    {rest : Listing} (hplaced : Placed whole position (.label start ::
      .assign (temporaryName (number + 1)) (.operation .ge (.name (temporaryName number)) bound) ::
      .branch (.name (temporaryName (number + 1))) last :: rest)) {exit : Nat}
    (hlast : whole[exit]? = some (.label last)) {reached : Float}
    (hreached : operate? .ge (state.world.valueOf (temporaryName number))
      (bound.value state.world) = some reached)
    (hposition : state.position = position) (hmirrors : Mirrors scene state) :
    ∃ next, (interpreter whole).Walk 3 state next ∧
      next.position = (if reached != 0 then exit else position + 3) ∧ Mirrors scene next ∧
      Kept (number + 1) state.world next.world := by
  have hstart := walk_label hposition hplaced.head
  have hmoved : (state.movedTo (position + 1)).position = position + 1 := rfl
  have htest := walk_operation hmoved hplaced.tail.head hreached (by decide)
  have hcheck : (Operand.name (temporaryName (number + 1))).value
      (state.world.assign (temporaryName (number + 1)) (.number reached)) = .number reached :=
    (World.valueOf_assign _ _ _ _).trans (if_pos rfl)
  have hjump := hplaced.tail.tail.head
  refine ⟨_, (hstart.trans htest).trans (walk_branch hgood rfl hjump hlast hcheck), rfl, ?_, ?_⟩
  · exact ⟨agreeOn_assign_temporary hmirrors.agree _ _, hmirrors.divisions_eq⟩
  · exact kept_assign_temporary _ _ (Nat.le_refl _) _

/-- The variable gets the value of the counter before each round. -/
theorem walk_enterRound {name : String} (hname : IsVariable name)
    (hfetch : whole[position]? = some (.assign name (.operand (.name (temporaryName number)))))
    (hcounter : state.world.valueOf (temporaryName number) = .number x)
    (hposition : state.position = position) (hmirrors : Mirrors scene state) :
    ∃ entered, (interpreter whole).Walk 1 state entered ∧ entered.position = position + 1 ∧
      Mirrors (scene.assign name (.number x)) entered ∧
      ∀ bound, Kept bound state.world entered.world := by
  have hassign := walk_assign hposition hfetch
  change (interpreter whole).Walk 1 state { state with
    position := position + 1
    world := state.world.assign name (state.world.valueOf (temporaryName number)) } at hassign
  rw [hcounter] at hassign
  exact ⟨_, hassign, rfl, ⟨agreeOn_assign_variable hmirrors.agree name _, hmirrors.divisions_eq⟩,
    fun bound => kept_assign_variable bound _ hname _⟩

/-- The counter goes up by one before the next round. -/
theorem walk_nextRound (hgood : WellLabelled whole) {next start : String} {rest : Listing}
    (hplaced : Placed whole position (.label next ::
      .assign (temporaryName number) (.operation .add (.name (temporaryName number)) (.number 1)) ::
      .goto start :: rest)) {again : Nat} (hstart : whole[again]? = some (.label start))
    (hcounter : state.world.valueOf (temporaryName number) = .number x)
    (hposition : state.position = position) (hmirrors : Mirrors scene state) :
    ∃ after, (interpreter whole).Walk 3 state after ∧ after.position = again ∧
      Mirrors scene after ∧ Kept number state.world after.world ∧
      after.world.valueOf (temporaryName number) = .number (Operator.add.apply x 1) := by
  have hlabel := walk_label hposition hplaced.head
  have hmoved : (state.movedTo (position + 1)).position = position + 1 := rfl
  have hsum : operate? .add (state.world.valueOf (temporaryName number)) (.number 1) =
      some (Operator.add.apply x 1) := by
    rw [hcounter]
    rfl
  have hadd := walk_operation hmoved hplaced.tail.head hsum (by decide)
  refine ⟨_, (hlabel.trans hadd).trans (walk_goto hgood rfl hplaced.tail.tail.head hstart), rfl,
    ?_, ?_, ?_⟩
  · exact ⟨agreeOn_assign_temporary hmirrors.agree _ _, hmirrors.divisions_eq⟩
  · exact kept_assign_temporary _ _ (Nat.le_refl _) _
  · exact (World.valueOf_assign _ _ _ _).trans (if_pos rfl)

section Rounds

variable {c c' : Context} {name start next last : String} {labels : Nat} {body : List Stmt}
  {bodyCode : Listing} (hname : IsVariable name)
  (hbody : CarriesOut (lowerBlock body) (execBlock body))
  (hlower : lowerBlock body (((c.afterTemporary.afterLabels labels).afterTemporary).inside
    ⟨next, last⟩) = (.ok bodyCode, c'))

include hname hbody hlower

/-- A round of a counting loop, from giving the variable its value to the label at the start.  The
body has not been given the temporary of the counter. -/
theorem carries_countedRound (hgood : WellLabelled whole)
    (hplaced : Placed whole position (.assign name (.operand (.name (temporaryName c.temporaries))) ::
      (bodyCode ++ [.label next, .assign (temporaryName c.temporaries)
        (.operation .add (.name (temporaryName c.temporaries)) (.number 1)), .goto start,
        .label last])))
    {again : Nat} (hstart : whole[again]? = some (.label start))
    (hcounter : state.world.valueOf (temporaryName c.temporaries) = .number x)
    (hposition : state.position = position) (hmirrors : Mirrors scene state)
    {fuel : Nat} {round : Scene → Tree.Result}
    (hround : ∀ after reached, reached.position = again → Mirrors after reached →
      Kept c.temporaries state.world reached.world →
      reached.world.valueOf (temporaryName c.temporaries) = .number (Operator.add.apply x 1) →
        Carries whole c.temporaries c.loops (position + 1 + bodyCode.length + 3 + 1) reached fuel
          (round after)) :
    Carries whole c.temporaries c.loops (position + 1 + bodyCode.length + 3 + 1) state fuel
      (Tree.afterBody round (execBlock body fuel (scene.assign name (.number x)))) := by
  have hplacedBody := hplaced.tail
  have hnext := hplacedBody.right.head
  have hlast := hplacedBody.right.tail.tail.tail.head
  obtain ⟨entered, henter, hentered, hmirrorsEntered, hkeptEntered⟩ :=
    walk_enterRound hname hplaced.head hcounter hposition hmirrors
  have hcarries := hbody hlower hgood hplacedBody.left fuel hentered hmirrorsEntered
  have hle : c.temporaries ≤ c.temporaries + 2 := Nat.le_add_right _ _
  apply Carries.of_walk henter (hkeptEntered _) _ (Nat.le_add_left _ _)
  apply carries_afterBody hgood hcarries hle hnext hlast
  intro after behind hbehind hafter hkeptBody
  have hcounterBehind : behind.world.valueOf (temporaryName c.temporaries) = .number x := by
    have hlt : c.temporaries < c.temporaries + 2 := by omega
    exact (hkeptBody c.temporaries hlt).trans
      ((hkeptEntered _ c.temporaries hlt).trans hcounter)
  obtain ⟨reached, hwalk, hreached, hmirrorsReached, hkeptReached, hcounterReached⟩ :=
    walk_nextRound hgood hplacedBody.right hstart hcounterBehind (hbehind.elim id id) hafter
  have hkept := ((hkeptEntered _).trans (hkeptBody.mono hle)).trans hkeptReached
  exact (hround after reached hreached hmirrorsReached hkept hcounterReached).of_walk hwalk
    hkeptReached (Nat.le_add_left _ _)

/-- A counting loop, from the label at its start. -/
theorem carries_forFrom (hgood : WellLabelled whole) {bound : Operand}
    (hfrozen : Frozen c.temporaries bound)
    (hplaced : Placed whole position (forCode (temporaryName c.temporaries)
      (temporaryName (c.temporaries + 1)) name start next last bound bodyCode))
    (fuel : Nat) (hposition : state.position = position + 1) (hmirrors : Mirrors scene state)
    (hcounter : state.world.valueOf (temporaryName c.temporaries) = .number x) :
    Carries whole c.temporaries c.loops
      (position + (forCode (temporaryName c.temporaries) (temporaryName (c.temporaries + 1)) name
        start next last bound bodyCode).length) state fuel
      (forFrom name (bound.value state.world) (execBlock body) fuel x scene) := by
  have hround := hplaced.tail.tail.tail.tail
  have hlast := hround.tail.right.tail.tail.tail.head
  have hexit : position + (forCode (temporaryName c.temporaries) (temporaryName (c.temporaries + 1))
      name start next last bound bodyCode).length =
        position + 1 + 1 + 1 + 1 + 1 + bodyCode.length + 3 + 1 := by
    simp only [forCode, List.length_append, List.length_cons, List.length_nil]
    omega
  rw [hexit]
  induction fuel generalizing scene state x with
  | zero => exact carries_zero state
  | succ fuel ih =>
      rw [forFrom]
      cases hreached : operate? .ge (.number x) (bound.value state.world) with
      | none =>
          rw [← hcounter] at hreached ⊢
          have hstart := walk_label hposition hplaced.tail.head
          have hmoved : (state.movedTo (position + 2)).position = position + 2 := rfl
          have hstop := interpreter_of_operate_none hmoved hplaced.tail.tail.head hreached
          exact Finishes.of_walk ⟨_, .of_stopped hstop, hmirrors.movedTo _⟩ hstart
      | some reached =>
          rw [← hcounter] at hreached
          obtain ⟨tested, hwalk, htested, hmirrorsTested, hkept⟩ :=
            walk_counterTest hgood hplaced.tail hlast hreached hposition hmirrors
          have hkeptBound := hkept.mono (Nat.le_succ c.temporaries)
          dsimp only
          cases hover : reached != 0 with
          | true =>
              rw [hover] at htested
              have hbehind := walk_label htested hlast
              exact ⟨_, _, hwalk.trans hbehind, rfl, hmirrorsTested.movedTo _, hkeptBound⟩
          | false =>
              rw [hover] at htested
              have hcounterTested := (hkept c.temporaries (Nat.lt_succ_self _)).trans hcounter
              apply Carries.of_walk hwalk hkeptBound _ (by omega : fuel + 1 ≤ 3 + fuel)
              apply carries_countedRound hname hbody hlower hgood hround hplaced.tail.head
                hcounterTested htested hmirrorsTested
              intro after again hagain hafter hkeptRound hcounterAgain
              -- The bound is made of temporaries that the loop has not been given.
              rw [← hfrozen.value_eq (hkeptBound.trans hkeptRound)]
              exact ih hagain hafter hcounterAgain

end Rounds

end Counted

section Loops

variable {body : List Stmt} (hbody : CarriesOut (lowerBlock body) (execBlock body))

include hbody

theorem carriesOut_whileLoop {condition : Expr}
    (hnames : ∀ name ∈ namesOfExpr condition, IsVariable name) :
    CarriesOut (lowerStmt (.whileLoop condition body)) (execStmt (.whileLoop condition body)) := by
  intro c c' code h whole hgood position hplaced fuel scene state hposition hmirrors
  obtain ⟨test, operand, c₁, bodyCode, c₂, htest, hlower, rfl, -⟩ := lowerStmt_whileLoop h
  rw [execStmt]
  exact carries_whileFrom hgood htest hnames hbody hlower hplaced fuel hposition hmirrors

theorem carriesOut_doWhile {condition : Expr}
    (hnames : ∀ name ∈ namesOfExpr condition, IsVariable name) :
    CarriesOut (lowerStmt (.doWhile body condition)) (execStmt (.doWhile body condition)) := by
  intro c c' code h whole hgood position hplaced fuel scene state hposition hmirrors
  obtain ⟨bodyCode, c₁, test, operand, hlower, htest, rfl⟩ := lowerStmt_doWhile h
  rw [execStmt]
  exact carries_doFrom hgood hbody hlower htest hnames hplaced fuel hposition hmirrors

theorem carriesOut_forLoop {name : String} {count : Expr} (hname : IsVariable name)
    (hnames : ∀ name ∈ namesOfExpr count, IsVariable name) :
    CarriesOut (lowerStmt (.forLoop name count body)) (execStmt (.forLoop name count body)) := by
  intro c c' code h whole hgood position hplaced fuel scene state hposition hmirrors
  obtain ⟨boundCode, bound, c₁, bodyCode, c₂, hbound, hlower, rfl, -⟩ := lowerStmt_forLoop h
  have hcomputes := computes_lowerBound hbound
  rw [execStmt]
  apply carries_withValue (comesTo_lowerBound hbound hnames hplaced.left hposition hmirrors)
  intro middle value next hnext hmiddle hvalue
  have hassign := walk_assign hnext hplaced.right.head
  have hkept : Kept c₁.temporaries next.world
      (next.world.assign (temporaryName c₁.temporaries) (.number 0)) :=
    kept_assign_temporary _ _ (Nat.le_refl _) _
  have hstarted : Mirrors middle
      { next with
        position := position + boundCode.length + 1
        world := next.world.assign (temporaryName c₁.temporaries) (.number 0) } :=
    ⟨agreeOn_assign_temporary hmiddle.agree _ _, hmiddle.divisions_eq⟩
  have hcounter : (next.world.assign (temporaryName c₁.temporaries) (.number 0)).valueOf
      (temporaryName c₁.temporaries) = .number 0 := (World.valueOf_assign _ _ _ _).trans (if_pos rfl)
  have hfrozen := frozen_lowerBound hbound
  have hcarries := carries_forFrom hname hbody hlower hgood hfrozen hplaced.right fuel rfl hstarted
    hcounter
  rw [hfrozen.value_eq hkept, hvalue, hcomputes.loops_eq] at hcarries
  rw [List.length_append, ← Nat.add_assoc]
  exact (hcarries.mono hcomputes.temporaries_le).of_walk hassign
    (hkept.mono hcomputes.temporaries_le) (Nat.le_add_left _ _)

end Loops

end StackPipeline.Lowering
