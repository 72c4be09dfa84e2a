import StackPipeline.Proofs.World
import StackPipeline.Tree.Basic

/-!
What a tree means, by walking over it.

Loops can go on forever, so statements are executed with fuel.  Each time round a loop takes one unit,
and nothing comes of an execution that runs out of it.  With enough fuel, more of it makes no
difference.
-/

namespace StackPipeline.Tree

open Machine (Value Input Sink operate? dividesByZero)

/-- What a tree works on, and how often it has divided by zero. -/
structure Scene where
  world : World
  divisions : Nat

/-- How a statement leaves off. -/
inductive Control
  /-- What follows is next. -/
  | normal
  /-- The innermost loop is left. -/
  | left
  /-- The innermost loop goes on with its next round. -/
  | continued
  | returned (value : Option Value)
  | failed (trouble : Trouble)
deriving DecidableEq

/-- The scene after a statement and how it leaves off; nothing if the fuel has run out. -/
abbrev Result := Option (Scene × Control)

def Scene.start (input : Input) (sink : Sink) : Scene := ⟨.start input sink, 0⟩

def Scene.inWorld (scene : Scene) (world : World) : Scene := { scene with world }

def Scene.assign (scene : Scene) (name : String) (value : Value) : Scene :=
  scene.inWorld (scene.world.assign name value)

def Scene.operate (scene : Scene) (op : Operator) (left right : Value) : Trial Scene Value :=
  match operate? op left right with
  | some result =>
    .done { scene with divisions := scene.divisions + (dividesByZero op left right).toNat }
      (.number result)
  | none => .failed scene (.textOperand op left right)

/-- Evaluate an expression, operands from left to right. -/
def evalExpr : Expr → Scene → Trial Scene Value
  | .number value, scene => .done scene (.number value)
  | .boolean value, scene => .done scene (.number (Operator.truth value))
  | .var name, scene => .done scene (scene.world.valueOf name)
  | .binary left op right, scene =>
    match evalExpr left scene with
    | .failed scene trouble => .failed scene trouble
    | .done scene a =>
      match evalExpr right scene with
      | .failed scene trouble => .failed scene trouble
      | .done scene b => scene.operate op a b
  | .read prompt, scene =>
    match scene.world.readLine prompt with
    | .failed world trouble => .failed (scene.inWorld world) trouble
    | .done world value => .done (scene.inWorld world) value

def evalExprs : List Expr → Scene → Trial Scene (List Value)
  | [], scene => .done scene []
  | expr :: rest, scene =>
    match evalExpr expr scene with
    | .failed scene trouble => .failed scene trouble
    | .done scene value =>
      match evalExprs rest scene with
      | .failed scene trouble => .failed scene trouble
      | .done scene values => .done scene (value :: values)

/-- Whether a condition holds. -/
def evalTest (condition : Expr) (scene : Scene) : Trial Scene Bool :=
  match evalExpr condition scene with
  | .failed scene trouble => .failed scene trouble
  | .done scene (.text _) => .failed scene .textCondition
  | .done scene (.number x) => .done scene (x != 0)

/-- Go on unless control has gone elsewhere. -/
def andThen (next : Scene → Result) : Result → Result
  | some (scene, .normal) => next scene
  | result => result

/-- Go round again after the body of a loop, unless it says otherwise. -/
def afterBody (again : Scene → Result) : Result → Result
  | none => none
  | some (scene, .normal) => again scene
  | some (scene, .continued) => again scene
  | some (scene, .left) => some (scene, .normal)
  | some (scene, .returned value) => some (scene, .returned value)
  | some (scene, .failed trouble) => some (scene, .failed trouble)

def withValue {α : Type} (use : Scene → α → Result) : Trial Scene α → Result
  | .failed scene trouble => some (scene, .failed trouble)
  | .done scene value => use scene value

def ifElse (yes no : Scene → Result) : Trial Scene Bool → Result
  | .failed scene trouble => some (scene, .failed trouble)
  | .done scene true => yes scene
  | .done scene false => no scene

def goOn (scene : Scene) : Result := some (scene, .normal)

def Scene.print (scene : Scene) (lines : List String) : Result :=
  match scene.world.writeLines lines with
  | .done world () => goOn (scene.inWorld world)
  | .failed world trouble => some (scene.inWorld world, .failed trouble)

/-- The body as long as the condition holds. -/
def whileFrom (condition : Expr) (body : Nat → Scene → Result) : Nat → Scene → Result
  | 0, _ => none
  | fuel + 1, scene =>
    ifElse (fun scene => afterBody (whileFrom condition body fuel) (body fuel scene)) goOn
      (evalTest condition scene)

/-- The body once, and then as long as the condition holds. -/
def doFrom (body : Nat → Scene → Result) (condition : Expr) : Nat → Scene → Result
  | 0, _ => none
  | fuel + 1, scene =>
    afterBody (fun scene => ifElse (doFrom body condition fuel) goOn (evalTest condition scene))
      (body fuel scene)

/-- The body with a variable at `counter`, `counter + 1`, … until the bound is reached.  The body can
change the variable, but not the counter. -/
def forFrom (name : String) (bound : Value) (body : Nat → Scene → Result) :
    Nat → Float → Scene → Result
  | 0, _, _ => none
  | fuel + 1, counter, scene =>
    match operate? .ge (.number counter) bound with
    | none => some (scene, .failed (.textOperand .ge (.number counter) bound))
    | some reached =>
      if reached != 0 then goOn scene
      else
        afterBody (forFrom name bound body fuel (Operator.add.apply counter 1))
          (body fuel (scene.assign name (.number counter)))

mutual

/-- Execute a statement. -/
def execStmt : Stmt → Nat → Scene → Result
  | .declare name value, _, scene =>
    withValue (fun scene value => goOn (scene.assign name value)) (evalExpr value scene)
  | .assign name value, _, scene =>
    withValue (fun scene value => goOn (scene.assign name value)) (evalExpr value scene)
  | .print text arguments, _, scene =>
    withValue (fun scene values => scene.print (printedLines text values))
      (evalExprs arguments scene)
  | .choose branches none, fuel, scene =>
    execBranches branches (fun _ => goOn) fuel scene
  | .choose branches (some block), fuel, scene =>
    execBranches branches (execBlock block) fuel scene
  | .whileLoop condition body, fuel, scene => whileFrom condition (execBlock body) fuel scene
  | .doWhile body condition, fuel, scene => doFrom (execBlock body) condition fuel scene
  | .forLoop name count body, fuel, scene =>
    withValue (fun scene bound => forFrom name bound (execBlock body) fuel 0 scene)
      (evalExpr count scene)
  | .breakLoop, _, scene => some (scene, .left)
  | .continueLoop, _, scene => some (scene, .continued)
  | .ret none, _, scene => some (scene, .returned none)
  | .ret (some value), _, scene =>
    withValue (fun scene value => some (scene, .returned (some value))) (evalExpr value scene)
  | .block statements, fuel, scene => execBlock statements fuel scene
  | .importFile _, _, scene => goOn scene

def execBlock : List Stmt → Nat → Scene → Result
  | [], _, scene => goOn scene
  | stmt :: rest, fuel, scene =>
    andThen (fun scene => execBlock rest fuel scene) (execStmt stmt fuel scene)

/-- Execute the block of the first branch whose condition holds. -/
def execBranches : List Branch → (Nat → Scene → Result) → Nat → Scene → Result
  | [], otherwise, fuel, scene => otherwise fuel scene
  | .mk condition body :: rest, otherwise, fuel, scene =>
    ifElse (fun scene => execBlock body fuel scene)
      (fun scene => execBranches rest otherwise fuel scene) (evalTest condition scene)

end

/-- The program evaluates to this scene and leaves off like this, however long it takes. -/
def Evaluates (program : Program) (input : Input) (sink : Sink) (result : Scene × Control) : Prop :=
  ∃ fuel, execBlock program.statements fuel (.start input sink) = some result

def namesOfExpr : Expr → List String
  | .var name => [name]
  | .binary left _ right => namesOfExpr left ++ namesOfExpr right
  | _ => []

mutual

def namesOfStmt : Stmt → List String
  | .declare name value => name :: namesOfExpr value
  | .assign name value => name :: namesOfExpr value
  | .print _ arguments => arguments.flatMap namesOfExpr
  | .choose branches none => namesOfBranches branches
  | .choose branches (some block) => namesOfBranches branches ++ namesOfBlock block
  | .whileLoop condition body => namesOfExpr condition ++ namesOfBlock body
  | .doWhile body condition => namesOfBlock body ++ namesOfExpr condition
  | .forLoop name count body => name :: (namesOfExpr count ++ namesOfBlock body)
  | .ret (some value) => namesOfExpr value
  | .block statements => namesOfBlock statements
  | _ => []

def namesOfBlock : List Stmt → List String
  | [] => []
  | stmt :: rest => namesOfStmt stmt ++ namesOfBlock rest

def namesOfBranches : List Branch → List String
  | [] => []
  | .mk condition body :: rest =>
    namesOfExpr condition ++ namesOfBlock body ++ namesOfBranches rest

end

def Program.names (program : Program) : List String :=
  namesOfBlock program.statements

/-- Evaluating an expression leaves the variables alone. -/
theorem store_of_evalExpr {expr : Expr} {scene after : Scene} {value : Value}
    (h : evalExpr expr scene = .done after value) : after.world.store = scene.world.store := by
  induction expr generalizing scene after value with
  | number x =>
      cases h
      rfl
  | boolean b =>
      cases h
      rfl
  | var name =>
      cases h
      rfl
  | binary left op right ihLeft ihRight =>
      rw [evalExpr] at h
      cases hleft : evalExpr left scene with
      | failed middle trouble => simp [hleft] at h
      | done middle a =>
          cases hright : evalExpr right middle with
          | failed last trouble => simp [hleft, hright] at h
          | done last b =>
              simp only [hleft, hright, Scene.operate] at h
              split at h
              · cases h
                exact (ihRight hright).trans (ihLeft hleft)
              · cases h
  | read prompt =>
      rw [evalExpr] at h
      cases hread : scene.world.readLine prompt with
      | failed world trouble => simp [hread] at h
      | done world x =>
          simp only [hread] at h
          cases h
          exact World.store_of_readLine hread

theorem store_of_evalExprs {exprs : List Expr} {scene after : Scene} {values : List Value}
    (h : evalExprs exprs scene = .done after values) : after.world.store = scene.world.store := by
  induction exprs generalizing scene values with
  | nil =>
      cases h
      rfl
  | cons expr rest ih =>
      rw [evalExprs] at h
      cases hfirst : evalExpr expr scene with
      | failed middle trouble => simp [hfirst] at h
      | done middle value =>
          cases hrest : evalExprs rest middle with
          | failed last trouble => simp [hfirst, hrest] at h
          | done last others =>
              simp only [hfirst, hrest] at h
              cases h
              exact (ih hrest).trans (store_of_evalExpr hfirst)

/-- To go on with nothing changes nothing. -/
theorem andThen_goOn (result : Result) : andThen goOn result = result := by
  rcases result with _ | ⟨scene, control⟩
  · rfl
  · cases control <;> rfl

/-- With more fuel the result is the same, if there was one. -/
def Extends (result more : Result) : Prop :=
  ∀ ending, result = some ending → more = some ending

theorem Extends.refl (result : Result) : Extends result result :=
  fun _ h => h

theorem extends_none (more : Result) : Extends none more :=
  fun _ h => nomatch h

section Extends

variable {next next' : Scene → Result} (hnext : ∀ scene, Extends (next scene) (next' scene))

include hnext

theorem extends_andThen {result result' : Result} (h : Extends result result') :
    Extends (andThen next result) (andThen next' result') := by
  rcases result with _ | ⟨scene, control⟩
  · exact extends_none _
  · rw [h _ rfl]
    cases control with
    | normal => exact hnext scene
    | _ => exact .refl _

theorem extends_afterBody {result result' : Result} (h : Extends result result') :
    Extends (afterBody next result) (afterBody next' result') := by
  rcases result with _ | ⟨scene, control⟩
  · exact extends_none _
  · rw [h _ rfl]
    cases control with
    | normal => exact hnext scene
    | continued => exact hnext scene
    | _ => exact .refl _

theorem extends_ifElse {no no' : Scene → Result} (hno : ∀ scene, Extends (no scene) (no' scene))
    (trial : Trial Scene Bool) : Extends (ifElse next no trial) (ifElse next' no' trial) := by
  cases trial with
  | failed scene trouble => exact .refl _
  | done scene holds =>
      cases holds with
      | true => exact hnext scene
      | false => exact hno scene

end Extends

/-- One more unit of fuel makes no difference. -/
def Settles (exec : Nat → Scene → Result) : Prop :=
  ∀ fuel scene, Extends (exec fuel scene) (exec (fuel + 1) scene)

theorem settles_whileFrom (condition : Expr) {body : Nat → Scene → Result} (hbody : Settles body) :
    Settles (whileFrom condition body) := by
  intro fuel
  induction fuel with
  | zero => exact fun scene => extends_none _
  | succ fuel ih =>
      intro scene
      exact extends_ifElse (fun middle => extends_afterBody ih (hbody fuel middle))
        (fun _ => .refl _) _

theorem settles_doFrom {body : Nat → Scene → Result} (hbody : Settles body) (condition : Expr) :
    Settles (doFrom body condition) := by
  intro fuel
  induction fuel with
  | zero => exact fun scene => extends_none _
  | succ fuel ih =>
      intro scene
      exact extends_afterBody (fun middle => extends_ifElse ih (fun _ => .refl _) _)
        (hbody fuel scene)

theorem settles_forFrom (name : String) (bound : Value) {body : Nat → Scene → Result}
    (hbody : Settles body) (fuel : Nat) (counter : Float) (scene : Scene) :
    Extends (forFrom name bound body fuel counter scene)
      (forFrom name bound body (fuel + 1) counter scene) := by
  induction fuel generalizing counter scene with
  | zero => exact extends_none _
  | succ fuel ih =>
      rw [forFrom, forFrom]
      cases operate? .ge (.number counter) bound with
      | none => exact .refl _
      | some reached =>
          dsimp only
          split
          · exact .refl _
          · exact extends_afterBody (ih _) (hbody fuel _)

mutual

theorem settles_execStmt : (stmt : Stmt) → Settles (execStmt stmt)
  | .declare name value => fun _ _ => .refl _
  | .assign name value => fun _ _ => .refl _
  | .print text arguments => fun _ _ => .refl _
  | .choose branches none => settles_execBranches branches (fun _ _ => .refl _)
  | .choose branches (some block) => settles_execBranches branches (settles_execBlock block)
  | .whileLoop condition body => settles_whileFrom condition (settles_execBlock body)
  | .doWhile body condition => settles_doFrom (settles_execBlock body) condition
  | .forLoop name count body => by
      intro fuel scene
      rw [execStmt, execStmt]
      cases evalExpr count scene with
      | failed middle trouble => exact .refl _
      | done middle bound => exact settles_forFrom name bound (settles_execBlock body) fuel 0 middle
  | .breakLoop => fun _ _ => .refl _
  | .continueLoop => fun _ _ => .refl _
  | .ret none => fun _ _ => .refl _
  | .ret (some value) => fun _ _ => .refl _
  | .block statements => settles_execBlock statements
  | .importFile path => fun _ _ => .refl _

theorem settles_execBlock : (block : List Stmt) → Settles (execBlock block)
  | [] => fun _ _ => .refl _
  | stmt :: rest => fun fuel scene =>
      extends_andThen (settles_execBlock rest fuel) (settles_execStmt stmt fuel scene)

theorem settles_execBranches : (branches : List Branch) → {otherwise : Nat → Scene → Result} →
    Settles otherwise → Settles (execBranches branches otherwise)
  | [], _, hotherwise => hotherwise
  | .mk condition body :: rest, _, hotherwise => fun fuel scene =>
      extends_ifElse (settles_execBlock body fuel) (settles_execBranches rest hotherwise fuel)
        (evalTest condition scene)

end

/-- A program leaves off in one way only. -/
theorem Evaluates.unique {program : Program} {input : Input} {sink : Sink}
    {result other : Scene × Control} (h : Evaluates program input sink result)
    (hother : Evaluates program input sink other) : result = other := by
  have hmore : ∀ {fuel : Nat} {ending : Scene × Control} (more : Nat),
      execBlock program.statements fuel (.start input sink) = some ending →
        execBlock program.statements (fuel + more) (.start input sink) = some ending := by
    intro fuel ending more hfuel
    induction more with
    | zero => exact hfuel
    | succ more ih => exact settles_execBlock program.statements _ _ _ ih
  obtain ⟨fuel, hfuel⟩ := h
  obtain ⟨more, hmoreFuel⟩ := hother
  have hleft := hmore more hfuel
  have hright := hmore fuel hmoreFuel
  rw [Nat.add_comm] at hright
  exact Option.some.inj (hleft.symm.trans hright)

end StackPipeline.Tree
