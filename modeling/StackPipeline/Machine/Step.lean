import StackPipeline.Machine.Channel
import StackPipeline.Machine.Load
import StackPipeline.Machine.Stack

/-!
One step of the machine.
-/

namespace StackPipeline.Machine

open Bytecode (Instruction)

/-- The limits of a run. -/
structure Limits where
  maxStackDepth : Nat
  /-- No bound on the steps if absent. -/
  maxSteps : Option Nat
deriving DecidableEq

/-- Everything that changes while a program runs. -/
structure State where
  /-- The index of the next instruction. -/
  pc : Nat
  /-- The instructions executed so far. -/
  steps : Nat
  stack : Stack
  /-- The values of the names set so far. -/
  store : Store Value
  diagnostics : Array Diagnostic
  input : Input
  sink : Sink

/-- The state before the first step. -/
def State.start (input : Input) (sink : Sink) : State :=
  ⟨0, 0, .empty, .empty, #[], input, sink⟩

/-- How a run ends well. -/
inductive Completion
  /-- After the last instruction. -/
  | normal
  /-- At a return, with the topmost value if there is one. -/
  | returned (value : Option Value)
deriving DecidableEq

/-- How a run ends. -/
inductive Outcome
  | completed (completion : Completion)
  | failed (fault : Fault)
deriving DecidableEq

/-- What a step leads to. -/
inductive Progress
  | running (state : State)
  | stopped (state : State) (outcome : Outcome)

def Progress.state : Progress → State
  | .running state => state
  | .stopped state _ => state

def State.fail (state : State) (fault : Fault) : Progress :=
  .stopped state (.failed fault)

def State.note (state : State) (diagnostic : Diagnostic) : State :=
  { state with diagnostics := state.diagnostics.push diagnostic }

/-- The value of a name; zero if it was never set. -/
def State.valueOf (state : State) (name : String) : Value :=
  (state.store.get? name).getD .zero

/-- Put a value on the stack unless it is full. -/
def State.push (state : State) (limits : Limits) (index : Nat) (value : Value) : Progress :=
  if limits.maxStackDepth ≤ state.stack.depth then
    state.fail (.stackOverflow index limits.maxStackDepth)
  else .running { state with stack := state.stack.push value }

def State.write (state : State) (text : String) : Progress :=
  let written := { state with sink := state.sink.write text }
  if state.sink.hasRoom text.utf8ByteSize then .running written
  else written.fail (.system .outputFull)

def State.jump (state : State) (loaded : Loaded) (label : String) : State :=
  match loaded.labels.get? label with
  | some index => { state with pc := index }
  | none => state

/-- The result of an operator on two values; nothing if a text stands where a number must. -/
def operate? (op : Operator) : Value → Value → Option Float
  | .number x, .number y => some (op.apply x y)
  | .text a, .text b =>
    match op with
    | .eq => some (Operator.truth (a == b))
    | .ne => some (Operator.truth (a != b))
    | _ => none
  | _, _ =>
    match op with
    | .eq => some 0
    | .ne => some 1
    | _ => none

/-- Whether an operator on two values is a division by zero. -/
def dividesByZero : Operator → Value → Value → Bool
  | .div, .number _, .number y => y == 0
  | _, _, _ => false

/-- Replace the two topmost values by the operator's result. -/
def State.operate (state : State) (index : Nat) (op : Operator) : Progress :=
  match state.stack.pop? with
  | none => state.fail (.stackUnderflow index (.operate op))
  | some (right, below) =>
    match below.pop? with
    | none => state.fail (.stackUnderflow index (.operate op))
    | some (left, rest) =>
      let state :=
        if dividesByZero op left right then state.note (.divisionByZero index) else state
      match operate? op left right with
      | some result => .running { state with stack := rest.push (.number result) }
      | none => { state with stack := rest }.fail (.textOperand index op left right)

/-- Read a line: write the prompt, then take the line and put its value on the stack. -/
def State.readLine (state : State) (limits : Limits) (index : Nat) (prompt : String) : Progress :=
  match state.write prompt with
  | .stopped state outcome => .stopped state outcome
  | .running state =>
    match state.input.takeLine with
    | (.closed, _) => state.fail (.inputClosed index)
    | (.failed error, input) => { state with input }.fail (.system error)
    | (.line text, input) => { state with input }.push limits index (.ofLine text)

/-- Execute an instruction.  The state counts it already and points at the next one. -/
def execute (loaded : Loaded) (limits : Limits) (index : Nat) (state : State) :
    Instruction → Progress
  | .push value => state.push limits index (.number value)
  | .load name => state.push limits index (state.valueOf name)
  | .store name =>
    match state.stack.pop? with
    | none => state.fail (.stackUnderflow index (.store name))
    | some (value, rest) =>
      .running { state with stack := rest, store := state.store.set name value }
  | .operate op => state.operate index op
  | .jumpIfNonzero label =>
    match state.stack.pop? with
    | none => state.fail (.stackUnderflow index (.jumpIfNonzero label))
    | some (.text _, rest) =>
      { state with stack := rest }.fail (.textCondition index (.jumpIfNonzero label))
    | some (.number x, rest) =>
      if x != 0 then .running ({ state with stack := rest }.jump loaded label)
      else .running { state with stack := rest }
  | .jump label => .running (state.jump loaded label)
  | .label _ => .running state
  | .printText text => state.write (text ++ "\n")
  | .printTop =>
    match state.stack.pop? with
    | none => .running (state.note (.nothingToPrint index))
    | some (value, rest) => { state with stack := rest }.write (value.render ++ "\n")
  | .read prompt => state.readLine limits index prompt
  | .breakLoop => state.fail (.unresolvedTransfer index .breakLoop)
  | .continueLoop => state.fail (.unresolvedTransfer index .continueLoop)
  | .ret =>
    match state.stack.pop? with
    | none => .stopped state (.completed (.returned none))
    | some (value, rest) => .stopped { state with stack := rest } (.completed (.returned value))

/-- Whether a run has used up its steps. -/
def Limits.exhausted? (limits : Limits) (steps : Nat) : Option Nat :=
  match limits.maxSteps with
  | none => none
  | some limit => if limit ≤ steps then some limit else none

/-- One step: stop after the last instruction or at the step limit, else execute. -/
def step (loaded : Loaded) (limits : Limits) (state : State) : Progress :=
  match loaded.code[state.pc]? with
  | none => .stopped state (.completed .normal)
  | some instruction =>
    match limits.exhausted? state.steps with
    | some limit => state.fail (.stepLimit limit)
    | none =>
      execute loaded limits state.pc { state with pc := state.pc + 1, steps := state.steps + 1 }
        instruction

end StackPipeline.Machine
