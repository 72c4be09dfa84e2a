import StackPipeline.Proofs.Lowering.Fragments
import StackPipeline.Proofs.Tree.Evaluation

/-!
The code of an expression computes its value.

A running listing mirrors a scene if the two agree on the variables of the program; the temporaries
are the listing's own.  Code only writes temporaries that it has been given, so those handed out
earlier keep their values.
-/

namespace StackPipeline.Lowering

open StackPipeline.System (Walk)
open StackPipeline.Tree (Expr Scene evalExpr evalExprs namesOfExpr)
open Listing (Ending Operand Source Instruction execute interpreter)
open Machine (Value operate? dividesByZero)

/-- The listing has the variables, input and output of the scene, and has divided by zero as often. -/
structure Mirrors (scene : Scene) (state : Listing.State) : Prop where
  agree : scene.world.AgreeOn IsVariable state.world
  divisions_eq : state.notes.length = scene.divisions

/-- The temporaries with numbers below the bound have kept their values. -/
def Kept (bound : Nat) (world after : World) : Prop :=
  ∀ number < bound, after.valueOf (temporaryName number) = world.valueOf (temporaryName number)

theorem Kept.refl (bound : Nat) (world : World) : Kept bound world world :=
  fun _ _ => rfl

theorem Kept.trans {bound : Nat} {first middle last : World} (h : Kept bound first middle)
    (hlast : Kept bound middle last) : Kept bound first last :=
  fun number hlt => (hlast number hlt).trans (h number hlt)

theorem Kept.mono {bound less : Nat} {world after : World} (h : Kept bound world after)
    (hle : less ≤ bound) : Kept less world after :=
  fun number hlt => h number (Nat.lt_of_lt_of_le hlt hle)

theorem Kept.of_store_eq {world after : World} (h : after.store = world.store) (bound : Nat) :
    Kept bound world after := by
  intro number _
  rw [World.valueOf, World.valueOf, h]

theorem kept_assign_temporary (bound : Nat) (world : World) {number : Nat} (hle : bound ≤ number)
    (value : Value) : Kept bound world (world.assign (temporaryName number) value) := by
  intro other hlt
  rw [World.valueOf_assign, if_neg]
  rw [temporaryName_inj]
  omega

theorem kept_assign_variable (bound : Nat) (world : World) {name : String} (hname : IsVariable name)
    (value : Value) : Kept bound world (world.assign name value) := by
  intro other _
  rw [World.valueOf_assign, if_neg (hname other)]

/-- A temporary is no variable. -/
theorem agreeOn_assign_temporary {world other : World} (h : world.AgreeOn IsVariable other)
    (number : Nat) (value : Value) :
    world.AgreeOn IsVariable (other.assign (temporaryName number) value) := by
  refine ⟨h.input_eq, h.sink_eq, ?_⟩
  intro name hname
  rw [World.get?_assign, if_neg (Ne.symm (hname number))]
  exact h.get?_eq name hname

theorem agreeOn_assign_variable {world other : World} (h : world.AgreeOn IsVariable other)
    (name : String) (value : Value) :
    (world.assign name value).AgreeOn IsVariable (other.assign name value) :=
  (h.assign name value).mono (fun _ hname => .inr hname)

/-- Only the temporaries below the bound decide the value of the operand. -/
def Frozen (bound : Nat) : Operand → Prop
  | .number _ => True
  | .name x => ∃ number < bound, x = temporaryName number

theorem Frozen.value_eq {bound : Nat} {operand : Operand} (h : Frozen bound operand)
    {world after : World} (hkept : Kept bound world after) :
    operand.value after = operand.value world := by
  cases operand with
  | number value => rfl
  | name x =>
      obtain ⟨number, hlt, rfl⟩ := h
      exact hkept number hlt

/-- The listing ends like this, and by then the scene is this. -/
def Finishes (whole : Listing) (state : Listing.State) (scene : Scene) (ending : Ending) : Prop :=
  ∃ last, (interpreter whole).Ends state (last, ending) ∧ Mirrors scene last

theorem Finishes.of_walk {whole : Listing} {count : Nat} {state middle : Listing.State}
    {scene : Scene} {ending : Ending} (h : Finishes whole middle scene ending)
    (hwalk : (interpreter whole).Walk count state middle) : Finishes whole state scene ending := by
  obtain ⟨last, hends, hmirrors⟩ := h
  exact ⟨last, (hwalk.ends_iff _).2 hends, hmirrors⟩

/-- What code that computes a value comes to: past its end with the value in place, or to the same
trouble as the evaluation. -/
def ComesTo {α : Type} (whole : Listing) (bound exit : Nat) (state : Listing.State)
    (hasValue : World → α → Prop) : Trial Scene α → Prop
  | .done scene value =>
    ∃ count next, (interpreter whole).Walk count state next ∧ next.position = exit ∧
      Mirrors scene next ∧ Kept bound state.world next.world ∧ hasValue next.world value
  | .failed scene trouble => Finishes whole state scene (.failed trouble)

theorem ComesTo.of_walk {α : Type} {whole : Listing} {bound exit count : Nat}
    {state middle : Listing.State} {hasValue : World → α → Prop} {trial : Trial Scene α}
    (hwalk : (interpreter whole).Walk count state middle)
    (hkept : Kept bound state.world middle.world)
    (h : ComesTo whole bound exit middle hasValue trial) :
    ComesTo whole bound exit state hasValue trial := by
  cases trial with
  | failed scene trouble => exact Finishes.of_walk h hwalk
  | done scene value =>
      obtain ⟨more, next, hmore, hposition, hmirrors, hkeptMore, hvalue⟩ := h
      exact ⟨count + more, next, hwalk.trans hmore, hposition, hmirrors, hkept.trans hkeptMore,
        hvalue⟩

/-- An expression that is no variable has its value in a temporary. -/
theorem frozen_lowerExpr {expr : Expr} {c c' : Context} {code : Listing} {operand : Operand}
    (h : lowerExpr expr c = ((code, operand), c')) (hvar : ∀ name, expr ≠ .var name) :
    Frozen c'.temporaries operand := by
  cases expr with
  | var name => exact absurd rfl (hvar name)
  | number x =>
      cases h
      exact trivial
  | boolean b =>
      cases h
      exact trivial
  | binary left op right =>
      obtain ⟨_, _, _, _, _, c₂, _, _, hout, rfl⟩ := lowerExpr_binary h
      cases hout
      exact ⟨c₂.temporaries, Nat.lt_succ_self _, rfl⟩
  | read prompt =>
      obtain ⟨hout, rfl⟩ := lowerExpr_read h
      cases hout
      exact ⟨c.temporaries, Nat.lt_succ_self _, rfl⟩

/-- An operand keeps its value while another expression is computed. -/
theorem value_of_lowerExpr {expr : Expr} {c c' : Context} {code : Listing} {operand : Operand}
    (h : lowerExpr expr c = ((code, operand), c'))
    (hnames : ∀ name ∈ namesOfExpr expr, IsVariable name) {scene after : Scene}
    {state next : Listing.State} (hmirrors : Mirrors scene state) (hafter : Mirrors after next)
    (hstore : after.world.store = scene.world.store)
    (hkept : Kept c'.temporaries state.world next.world) :
    operand.value next.world = operand.value state.world := by
  by_cases hvar : ∃ name, expr = .var name
  · obtain ⟨name, rfl⟩ := hvar
    cases h
    have hname := hnames name List.mem_cons_self
    change next.world.valueOf name = state.world.valueOf name
    rw [hafter.agree.value_eq name hname, hmirrors.agree.value_eq name hname, World.valueOf,
      World.valueOf, hstore]
  · exact (frozen_lowerExpr h (fun name heq => hvar ⟨name, heq⟩)).value_eq hkept

section Steps

variable {whole : Listing} {scene : Scene} {state : Listing.State}

/-- The instruction of an operator. -/
theorem comesTo_operation (hmirrors : Mirrors scene state) {number bound : Nat}
    (hle : bound ≤ number) {op : Operator} {left right : Operand}
    (hfetch : whole[state.position]? =
      some (.assign (temporaryName number) (.operation op left right))) :
    ComesTo whole bound (state.position + 1) state
      (fun world value => world.valueOf (temporaryName number) = value)
      (scene.operate op (left.value state.world) (right.value state.world)) := by
  have hstep := Listing.interpreter_of_getElem? hfetch
  rw [Scene.operate]
  cases hresult : operate? op (left.value state.world) (right.value state.world) with
  | none =>
      rw [execute, Listing.State.assign_of_none hresult] at hstep
      exact ⟨state, .of_stopped hstep, hmirrors⟩
  | some result =>
      rw [execute, Listing.State.assign_of_some hresult] at hstep
      refine ⟨1, _, .single hstep, rfl, ⟨agreeOn_assign_temporary hmirrors.agree number _, ?_⟩,
        kept_assign_temporary bound _ hle _, ?_⟩
      · dsimp only
        rw [Listing.State.notesIf, ← hmirrors.divisions_eq]
        cases dividesByZero op (left.value state.world) (right.value state.world) with
        | true => simp
        | false => rfl
      · exact (World.valueOf_assign _ _ _ _).trans (if_pos rfl)

/-- The instruction of a read. -/
theorem comesTo_read (hmirrors : Mirrors scene state) {number bound : Nat} (hle : bound ≤ number)
    {prompt : String}
    (hfetch : whole[state.position]? = some (.assign (temporaryName number) (.read prompt))) :
    ComesTo whole bound (state.position + 1) state
      (fun world value => world.valueOf (temporaryName number) = value)
      (evalExpr (.read prompt) scene) := by
  have hstep := Listing.interpreter_of_getElem? hfetch
  have hread := hmirrors.agree.readLine prompt
  rw [execute, Listing.State.assign] at hstep
  rw [evalExpr]
  cases hscene : scene.world.readLine prompt with
  | failed world trouble =>
      rw [hscene] at hread
      obtain ⟨other, hother, hagree⟩ := hread.of_failed
      rw [hother] at hstep
      exact ⟨_, .of_stopped hstep, hagree, hmirrors.divisions_eq⟩
  | done world value =>
      rw [hscene] at hread
      obtain ⟨other, hother, hagree⟩ := hread.of_done
      rw [hother] at hstep
      refine ⟨1, _, .single hstep, rfl,
        ⟨agreeOn_assign_temporary hagree number _, hmirrors.divisions_eq⟩, ?_, ?_⟩
      · exact (Kept.of_store_eq (World.store_of_readLine hother) bound).trans
          (kept_assign_temporary bound _ hle _)
      · exact (World.valueOf_assign other _ _ value).trans (if_pos rfl)

end Steps

/-- **The code of an expression computes its value.** -/
theorem comesTo_lowerExpr {whole : Listing} {expr : Expr} {c c' : Context} {code : Listing}
    {operand : Operand} (h : lowerExpr expr c = ((code, operand), c'))
    (hnames : ∀ name ∈ namesOfExpr expr, IsVariable name) {scene : Scene} {state : Listing.State}
    (hplaced : Placed whole state.position code) (hmirrors : Mirrors scene state) :
    ComesTo whole c.temporaries (state.position + code.length) state
      (fun world value => operand.value world = value) (evalExpr expr scene) := by
  induction expr generalizing c c' code operand scene state with
  | number x =>
      cases h
      exact ⟨0, state, .refl _, rfl, hmirrors, Kept.refl _ _, rfl⟩
  | boolean b =>
      cases h
      exact ⟨0, state, .refl _, rfl, hmirrors, Kept.refl _ _, rfl⟩
  | var name =>
      cases h
      exact ⟨0, state, .refl _, rfl, hmirrors, Kept.refl _ _,
        hmirrors.agree.value_eq name (hnames name List.mem_cons_self)⟩
  | read prompt =>
      obtain ⟨hout, rfl⟩ := lowerExpr_read h
      cases hout
      exact comesTo_read hmirrors (Nat.le_refl _) hplaced.head
  | binary left op right ihLeft ihRight =>
      obtain ⟨leftCode, leftValue, c₁, rightCode, rightValue, c₂, hleft, hright, hout, rfl⟩ :=
        lowerExpr_binary h
      cases hout
      have hleftNames : ∀ name ∈ namesOfExpr left, IsVariable name :=
        fun name hname => hnames name (List.mem_append_left _ hname)
      have hrightNames : ∀ name ∈ namesOfExpr right, IsVariable name :=
        fun name hname => hnames name (List.mem_append_right _ hname)
      have hleftRuns := ihLeft hleft hleftNames hplaced.left.left hmirrors
      rw [evalExpr]
      cases hleftEval : evalExpr left scene with
      | failed middle trouble =>
          rw [hleftEval] at hleftRuns
          exact hleftRuns
      | done middle a =>
          rw [hleftEval] at hleftRuns
          obtain ⟨m, first, hwalkLeft, hfirst, hmiddle, hkeptLeft, hvalueLeft⟩ := hleftRuns
          have hplacedRight := hplaced.left.right
          rw [← hfirst] at hplacedRight
          have hrightRuns := ihRight hright hrightNames hplacedRight hmiddle
          have hle := (computes_lowerExpr hleft).temporaries_le
          refine ComesTo.of_walk hwalkLeft hkeptLeft ?_
          dsimp only
          cases hrightEval : evalExpr right middle with
          | failed last trouble =>
              rw [hrightEval] at hrightRuns
              exact hrightRuns
          | done last b =>
              rw [hrightEval] at hrightRuns
              obtain ⟨n, second, hwalkRight, hsecond, hlast, hkeptRight, hvalueRight⟩ := hrightRuns
              refine ComesTo.of_walk hwalkRight (hkeptRight.mono hle) ?_
              dsimp only
              -- The right operand has not touched the temporary of the left one.
              have hvalue : leftValue.value second.world = a := by
                rw [← hvalueLeft]
                exact value_of_lowerExpr hleft hleftNames hmiddle hlast
                  (Tree.store_of_evalExpr hrightEval) hkeptRight
              have hposition : state.position + (leftCode ++ rightCode).length =
                  second.position := by
                rw [hsecond, hfirst, List.length_append, Nat.add_assoc]
              have hfetch := hplaced.right.head
              rw [hposition] at hfetch
              have hoperation := comesTo_operation hlast
                (Nat.le_trans hle (computes_lowerExpr hright).temporaries_le) hfetch
              rw [hvalue, hvalueRight] at hoperation
              rw [List.length_append, ← Nat.add_assoc, hposition]
              exact hoperation

/-- The code of expressions computes their values, one after the other. -/
theorem comesTo_lowerExprs {whole : Listing} {exprs : List Expr} {c c' : Context} {code : Listing}
    {operands : List Operand} (h : lowerExprs exprs c = ((code, operands), c'))
    (hnames : ∀ name ∈ exprs.flatMap namesOfExpr, IsVariable name) {scene : Scene}
    {state : Listing.State} (hplaced : Placed whole state.position code)
    (hmirrors : Mirrors scene state) :
    ComesTo whole c.temporaries (state.position + code.length) state
      (fun world values => operands.map (Operand.value world) = values) (evalExprs exprs scene) := by
  induction exprs generalizing c c' code operands scene state with
  | nil =>
      cases h
      exact ⟨0, state, .refl _, rfl, hmirrors, Kept.refl _ _, rfl⟩
  | cons expr rest ih =>
      obtain ⟨firstCode, operand, c₁, restCode, restOperands, hfirst, hrest, rfl, rfl⟩ :=
        lowerExprs_cons h
      have hfirstNames : ∀ name ∈ namesOfExpr expr, IsVariable name :=
        fun name hname => hnames name (List.mem_append_left _ hname)
      have hrestNames : ∀ name ∈ rest.flatMap namesOfExpr, IsVariable name :=
        fun name hname => hnames name (List.mem_append_right _ hname)
      have hfirstRuns := comesTo_lowerExpr hfirst hfirstNames hplaced.left hmirrors
      rw [evalExprs]
      cases hfirstEval : evalExpr expr scene with
      | failed middle trouble =>
          rw [hfirstEval] at hfirstRuns
          exact hfirstRuns
      | done middle value =>
          rw [hfirstEval] at hfirstRuns
          obtain ⟨m, next, hwalk, hposition, hmiddle, hkept, hvalue⟩ := hfirstRuns
          have hplacedRest := hplaced.right
          rw [← hposition] at hplacedRest
          have hrestRuns := ih hrest hrestNames hplacedRest hmiddle
          refine ComesTo.of_walk hwalk hkept ?_
          dsimp only
          cases hrestEval : evalExprs rest middle with
          | failed last trouble =>
              rw [hrestEval] at hrestRuns
              exact hrestRuns
          | done last values =>
              rw [hrestEval] at hrestRuns
              obtain ⟨n, after, hwalkRest, hafter, hlast, hkeptRest, hvalues⟩ := hrestRuns
              refine ⟨n, after, hwalkRest, ?_, hlast,
                hkeptRest.mono (computes_lowerExpr hfirst).temporaries_le, ?_⟩
              · rw [hafter, hposition, List.length_append, Nat.add_assoc]
              · have hsame := value_of_lowerExpr hfirst hfirstNames hmiddle hlast
                  (Tree.store_of_evalExprs hrestEval) hkeptRest
                change operand.value after.world :: restOperands.map (Operand.value after.world) = _
                rw [hsame, hvalue, hvalues]

end StackPipeline.Lowering
