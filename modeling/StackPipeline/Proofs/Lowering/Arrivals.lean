import StackPipeline.Proofs.Lowering.Expressions

/-!
Where running code goes.

Code carries out a statement if it comes past its end when the statement leaves off normally, to a
label of the innermost loop when the loop is left or continued, and ends when the statement ends the
program.  If the statement runs out of fuel, then the code has at least as many steps to go.
-/

namespace StackPipeline

namespace Listing

def State.movedTo (state : State) (position : Nat) : State := { state with position }

end Listing

namespace Lowering

open StackPipeline.System (Walk Ends)
open StackPipeline.Tree (Expr Scene Control Result evalExpr evalTest namesOfExpr)
open Listing (Ending Operand Source Instruction WellLabelled execute interpreter)
open Machine (Value operate? dividesByZero)

theorem Mirrors.movedTo {scene : Scene} {state : Listing.State} (h : Mirrors scene state)
    (position : Nat) : Mirrors scene (state.movedTo position) :=
  ⟨h.agree, h.divisions_eq⟩

section Moves

variable {whole : Listing} {state : Listing.State} {position : Nat} {name : String}

theorem walk_label (hposition : state.position = position)
    (hfetch : whole[position]? = some (.label name)) :
    (interpreter whole).Walk 1 state (state.movedTo (position + 1)) := by
  subst hposition
  exact .single (Listing.interpreter_of_getElem? hfetch)

theorem jump_eq (hgood : WellLabelled whole) {target : Nat}
    (htarget : whole[target]? = some (.label name)) (state : Listing.State) :
    state.jump whole name = state.movedTo target := by
  rw [Listing.State.jump, Listing.idxOf?_label hgood.nodup htarget]
  rfl

theorem walk_goto (hgood : WellLabelled whole) (hposition : state.position = position)
    (hfetch : whole[position]? = some (.goto name)) {target : Nat}
    (htarget : whole[target]? = some (.label name)) :
    (interpreter whole).Walk 1 state (state.movedTo target) := by
  subst hposition
  have hstep := Listing.interpreter_of_getElem? hfetch
  rw [execute, jump_eq hgood htarget] at hstep
  exact .single hstep

/-- A jump and the label that it goes to. -/
theorem walk_past (hgood : WellLabelled whole) (hposition : state.position = position)
    (hfetch : whole[position]? = some (.goto name)) {target : Nat}
    (htarget : whole[target]? = some (.label name)) :
    (interpreter whole).Walk 2 state (state.movedTo (target + 1)) :=
  (walk_goto hgood hposition hfetch htarget).trans (walk_label rfl htarget)

theorem walk_assign (hposition : state.position = position) {operand : Operand}
    (hfetch : whole[position]? = some (.assign name (.operand operand))) :
    (interpreter whole).Walk 1 state
      { state with
        position := position + 1
        world := state.world.assign name (operand.value state.world) } := by
  subst hposition
  exact .single (Listing.interpreter_of_getElem? hfetch)

/-- A conditional jump on a number. -/
theorem walk_branch (hgood : WellLabelled whole) (hposition : state.position = position)
    {condition : Operand} (hfetch : whole[position]? = some (.branch condition name)) {target : Nat}
    (htarget : whole[target]? = some (.label name)) {x : Float}
    (hvalue : condition.value state.world = .number x) :
    (interpreter whole).Walk 1 state
      (state.movedTo (if x != 0 then target else position + 1)) := by
  subst hposition
  have hstep := Listing.interpreter_of_getElem? hfetch
  rw [execute, hvalue, jump_eq hgood htarget] at hstep
  refine .single (hstep.trans ?_)
  dsimp only
  split
  · rfl
  · rfl

/-- An operator that does not divide. -/
theorem walk_operation (hposition : state.position = position) {op : Operator}
    {left right : Operand}
    (hfetch : whole[position]? = some (.assign name (.operation op left right))) {result : Float}
    (hresult : operate? op (left.value state.world) (right.value state.world) = some result)
    (hdivides : op ≠ .div) :
    (interpreter whole).Walk 1 state
      { state with
        position := position + 1
        world := state.world.assign name (.number result) } := by
  subst hposition
  have hstep := Listing.interpreter_of_getElem? hfetch
  rw [execute, Listing.State.assign_of_some hresult] at hstep
  have hdivided : dividesByZero op (left.value state.world) (right.value state.world) = false := by
    cases op <;> first | rfl | exact absurd rfl hdivides
  rw [hdivided] at hstep
  exact .single hstep

/-- An operator that cannot be applied. -/
theorem interpreter_of_operate_none (hposition : state.position = position) {op : Operator}
    {left right : Operand}
    (hfetch : whole[position]? = some (.assign name (.operation op left right)))
    (hresult : operate? op (left.value state.world) (right.value state.world) = none) :
    interpreter whole state = .stopped (state,
      .failed (.textOperand op (left.value state.world) (right.value state.world))) := by
  subst hposition
  rw [Listing.interpreter_of_getElem? hfetch, execute, Listing.State.assign_of_none hresult]
  rfl

end Moves

/-- The code has so many steps to go. -/
def Lasts (whole : Listing) (fuel : Nat) (state : Listing.State) : Prop :=
  ∃ count last, fuel ≤ count ∧ (interpreter whole).Walk count state last

/-- The code comes to a position, and by then the scene is this. -/
def Arrives (whole : Listing) (bound : Nat) (state : Listing.State) (scene : Scene)
    (position : Nat) : Prop :=
  ∃ count next, (interpreter whole).Walk count state next ∧ next.position = position ∧
    Mirrors scene next ∧ Kept bound state.world next.world

def ArrivesAtLabel (whole : Listing) (bound : Nat) (state : Listing.State) (scene : Scene)
    (name : String) : Prop :=
  ∃ position, whole[position]? = some (.label name) ∧ Arrives whole bound state scene position

/-- The code goes to one of two positions. -/
def Decides (whole : Listing) (bound yes no : Nat) (state : Listing.State) :
    Trial Scene Bool → Prop
  | .failed scene trouble => Finishes whole state scene (.failed trouble)
  | .done scene true => Arrives whole bound state scene yes
  | .done scene false => Arrives whole bound state scene no

/-- The code goes where control goes. -/
def Carries (whole : Listing) (bound : Nat) (loops : List LoopLabels) (exit : Nat)
    (state : Listing.State) (fuel : Nat) : Result → Prop
  | none => Lasts whole fuel state
  | some (scene, .normal) => Arrives whole bound state scene exit
  | some (scene, .left) =>
    ∃ loop ∈ loops.head?, ArrivesAtLabel whole bound state scene loop.breakLabel
  | some (scene, .continued) =>
    ∃ loop ∈ loops.head?, ArrivesAtLabel whole bound state scene loop.continueLabel
  | some (scene, .returned value) => Finishes whole state scene (.completed (.returned value))
  | some (scene, .failed trouble) => Finishes whole state scene (.failed trouble)

/-- What holds of where one state goes carries over to another. -/
theorem Carries.imp {whole : Listing} {bound less exit fuel more : Nat} {loops : List LoopLabels}
    {state other : Listing.State} {result : Result}
    (h : Carries whole bound loops exit state fuel result)
    (hlasts : Lasts whole fuel state → Lasts whole more other)
    (harrives : ∀ {scene position}, Arrives whole bound state scene position →
      Arrives whole less other scene position)
    (hfinishes : ∀ {scene ending}, Finishes whole state scene ending →
      Finishes whole other scene ending) : Carries whole less loops exit other more result := by
  rcases result with _ | ⟨scene, control⟩
  · exact hlasts h
  · cases control with
    | normal => exact harrives h
    | left =>
        obtain ⟨loop, hloop, position, hlabel, hposition⟩ := h
        exact ⟨loop, hloop, position, hlabel, harrives hposition⟩
    | continued =>
        obtain ⟨loop, hloop, position, hlabel, hposition⟩ := h
        exact ⟨loop, hloop, position, hlabel, harrives hposition⟩
    | returned value => exact hfinishes h
    | failed trouble => exact hfinishes h

section Walks

variable {whole : Listing} {count bound less : Nat} {state middle : Listing.State}

theorem Lasts.of_walk (hwalk : (interpreter whole).Walk count state middle) {fuel more : Nat}
    (h : Lasts whole fuel middle) (hle : more ≤ count + fuel) : Lasts whole more state := by
  obtain ⟨rest, last, hrest, hlast⟩ := h
  exact ⟨count + rest, last, by omega, hwalk.trans hlast⟩

theorem Arrives.of_walk (hwalk : (interpreter whole).Walk count state middle)
    (hkept : Kept bound state.world middle.world) {scene : Scene} {position : Nat}
    (h : Arrives whole bound middle scene position) : Arrives whole bound state scene position := by
  obtain ⟨rest, next, hnext, hposition, hmirrors, hrest⟩ := h
  exact ⟨count + rest, next, hwalk.trans hnext, hposition, hmirrors, hkept.trans hrest⟩

theorem Arrives.mono {scene : Scene} {position : Nat}
    (h : Arrives whole bound state scene position) (hle : less ≤ bound) :
    Arrives whole less state scene position := by
  obtain ⟨count, next, hwalk, hposition, hmirrors, hkept⟩ := h
  exact ⟨count, next, hwalk, hposition, hmirrors, hkept.mono hle⟩

theorem Decides.mono {yes no : Nat} {trial : Trial Scene Bool}
    (h : Decides whole bound yes no state trial) (hle : less ≤ bound) :
    Decides whole less yes no state trial := by
  cases trial with
  | failed scene trouble => exact h
  | done scene holds =>
      cases holds with
      | true => exact Arrives.mono h hle
      | false => exact Arrives.mono h hle

variable {loops : List LoopLabels} {exit fuel : Nat} {result : Result}

theorem Carries.of_walk (hwalk : (interpreter whole).Walk count state middle)
    (hkept : Kept bound state.world middle.world) {more : Nat}
    (h : Carries whole bound loops exit middle fuel result) (hle : more ≤ count + fuel) :
    Carries whole bound loops exit state more result :=
  h.imp (fun hlasts => hlasts.of_walk hwalk hle) (fun harrives => harrives.of_walk hwalk hkept)
    (fun hfinishes => hfinishes.of_walk hwalk)

theorem Carries.mono (h : Carries whole bound loops exit state fuel result) (hle : less ≤ bound) :
    Carries whole less loops exit state fuel result :=
  h.imp id (fun harrives => harrives.mono hle) id

end Walks

section Composition

variable {whole : Listing} {bound exit fuel : Nat} {loops : List LoopLabels}
  {state : Listing.State}

/-- Code that goes on from where other code arrives. -/
theorem Arrives.carries {scene : Scene} {position : Nat} {result : Result}
    (h : Arrives whole bound state scene position)
    (hnext : ∀ next, next.position = position → Mirrors scene next →
      Kept bound state.world next.world → Carries whole bound loops exit next fuel result) :
    Carries whole bound loops exit state fuel result := by
  obtain ⟨count, next, hwalk, hposition, hmirrors, hkept⟩ := h
  exact (hnext next hposition hmirrors hkept).of_walk hwalk hkept (Nat.le_add_left _ _)

theorem carries_andThen {middle : Nat} {result : Result}
    (h : Carries whole bound loops middle state fuel result) {rest : Scene → Result}
    (hrest : ∀ scene next, next.position = middle → Mirrors scene next →
      Carries whole bound loops exit next fuel (rest scene)) :
    Carries whole bound loops exit state fuel (Tree.andThen rest result) := by
  rcases result with _ | ⟨scene, control⟩
  · exact h
  · cases control with
    | normal =>
        exact Arrives.carries h (fun next hposition hmirrors _ => hrest scene next hposition hmirrors)
    | left => exact h
    | continued => exact h
    | returned value => exact h
    | failed trouble => exact h

/-- Control does not change on the way from one position to another. -/
theorem Carries.extend {middle : Nat} {result : Result}
    (h : Carries whole bound loops middle state fuel result)
    (hmore : ∀ next : Listing.State, next.position = middle →
      ∃ count, (interpreter whole).Walk count next (next.movedTo exit)) :
    Carries whole bound loops exit state fuel result := by
  rw [← Tree.andThen_goOn result]
  apply carries_andThen h
  intro scene next hposition hmirrors
  obtain ⟨count, hwalk⟩ := hmore next hposition
  exact ⟨count, _, hwalk, rfl, hmirrors.movedTo exit, .refl _ _⟩

theorem carries_withValue {α : Type} {middle : Nat} {hasValue : World → α → Prop}
    {trial : Trial Scene α} (h : ComesTo whole bound middle state hasValue trial)
    {use : Scene → α → Result}
    (huse : ∀ scene value next, next.position = middle → Mirrors scene next →
      hasValue next.world value → Carries whole bound loops exit next fuel (use scene value)) :
    Carries whole bound loops exit state fuel (Tree.withValue use trial) := by
  cases trial with
  | failed scene trouble => exact h
  | done scene value =>
      obtain ⟨count, next, hwalk, hposition, hmirrors, hkept, hvalue⟩ := h
      exact (huse scene value next hposition hmirrors hvalue).of_walk hwalk hkept
        (Nat.le_add_left _ _)

theorem carries_ifElse {yes no : Nat} {trial : Trial Scene Bool}
    (h : Decides whole bound yes no state trial) {first second : Scene → Result}
    (hfirst : ∀ scene next, next.position = yes → Mirrors scene next →
      Carries whole bound loops exit next fuel (first scene))
    (hsecond : ∀ scene next, next.position = no → Mirrors scene next →
      Carries whole bound loops exit next fuel (second scene)) :
    Carries whole bound loops exit state fuel (Tree.ifElse first second trial) := by
  cases trial with
  | failed scene trouble => exact h
  | done scene holds =>
      cases holds with
      | true =>
          exact Arrives.carries h
            (fun next hposition hmirrors _ => hfirst scene next hposition hmirrors)
      | false =>
          exact Arrives.carries h
            (fun next hposition hmirrors _ => hsecond scene next hposition hmirrors)

/-- The body of a loop that goes on at one of two positions and is left to its last label. -/
theorem carries_afterBody (hgood : WellLabelled whole) {loop : LoopLabels} {inner behind again : Nat}
    {result : Result} (h : Carries whole inner (loop :: loops) behind state fuel result)
    (hle : bound ≤ inner) (hagain : whole[again]? = some (.label loop.continueLabel))
    (hbreak : whole[exit]? = some (.label loop.breakLabel)) {round : Scene → Result}
    (hround : ∀ scene next, next.position = behind ∨ next.position = again → Mirrors scene next →
      Kept inner state.world next.world →
        Carries whole bound loops (exit + 1) next fuel (round scene)) :
    Carries whole bound loops (exit + 1) state fuel (Tree.afterBody round result) := by
  rcases result with _ | ⟨scene, control⟩
  · exact h
  · cases control with
    | normal =>
        obtain ⟨count, next, hwalk, hposition, hmirrors, hkept⟩ := h
        exact (hround scene next (.inl hposition) hmirrors hkept).of_walk hwalk (hkept.mono hle)
          (Nat.le_add_left _ _)
    | continued =>
        obtain ⟨found, hfound, position, hlabel, count, next, hwalk, rfl, hmirrors, hkept⟩ := h
        obtain rfl : loop = found := Option.some.inj hfound
        have hposition := index_unique_of_nodup hgood.nodup hlabel hagain rfl rfl
        exact (hround scene next (.inr hposition) hmirrors hkept).of_walk hwalk (hkept.mono hle)
          (Nat.le_add_left _ _)
    | left =>
        obtain ⟨found, hfound, position, hlabel, count, next, hwalk, rfl, hmirrors, hkept⟩ := h
        obtain rfl : loop = found := Option.some.inj hfound
        have hposition := index_unique_of_nodup hgood.nodup hlabel hbreak rfl rfl
        exact ⟨count + 1, next.movedTo (exit + 1), hwalk.trans (walk_label hposition hbreak), rfl,
          hmirrors.movedTo _, hkept.mono hle⟩
    | returned value => exact h
    | failed trouble => exact h

end Composition

/-- The code of a condition and the jump behind it. -/
theorem decides_test {whole : Listing} (hgood : WellLabelled whole) {condition : Expr}
    {c c' : Context} {test : Listing} {operand : Operand}
    (htest : lowerExpr condition c = ((test, operand), c'))
    (hnames : ∀ name ∈ namesOfExpr condition, IsVariable name) {position yes : Nat} {label : String}
    {rest : Listing} (hplaced : Placed whole position (test ++ .branch operand label :: rest))
    (hyes : whole[yes]? = some (.label label)) {scene : Scene} {state : Listing.State}
    (hposition : state.position = position) (hmirrors : Mirrors scene state) :
    Decides whole c.temporaries yes (position + test.length + 1) state
      (evalTest condition scene) := by
  subst hposition
  have hruns := comesTo_lowerExpr htest hnames hplaced.left hmirrors
  rw [evalTest]
  cases heval : evalExpr condition scene with
  | failed middle trouble =>
      rw [heval] at hruns
      exact hruns
  | done middle value =>
      rw [heval] at hruns
      obtain ⟨count, next, hwalk, hnext, hmiddle, hkept, hvalue⟩ := hruns
      cases value with
      | text line =>
          refine Finishes.of_walk ⟨next, .of_stopped ?_, hmiddle⟩ hwalk
          rw [Listing.interpreter_of_getElem? (hnext ▸ hplaced.right.head), execute, hvalue]
          rfl
      | number x =>
          have hbranch := walk_branch hgood hnext hplaced.right.head hyes hvalue
          dsimp only
          cases hx : x != 0 with
          | true =>
              rw [hx] at hbranch
              exact ⟨_, _, hwalk.trans hbranch, rfl, hmiddle.movedTo _, hkept⟩
          | false =>
              rw [hx] at hbranch
              exact ⟨_, _, hwalk.trans hbranch, rfl, hmiddle.movedTo _, hkept⟩

end Lowering

end StackPipeline
