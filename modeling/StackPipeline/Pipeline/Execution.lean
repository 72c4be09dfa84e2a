import StackPipeline.Machine.Run
import StackPipeline.Pipeline.Failure

/-!
Execution: load stack code, run it, and report.
-/

namespace StackPipeline.Pipeline

open Machine (Completion Diagnostic Input Limits Outcome Sink State Value)

/-- What is left of a run that ended well. -/
structure Report where
  completion : Completion
  /-- The values of the names at the end. -/
  store : Store Value
  diagnostics : Array Diagnostic
  steps : Nat

def Report.returned? (report : Report) : Option Value :=
  match report.completion with
  | .returned value => value
  | .normal => none

/-- The report of a run that has stopped.  A failure names the instruction before the next one. -/
def reportOf (state : State) : Outcome → Except Failure Report
  | .completed completion =>
    .ok ⟨completion, state.store, state.diagnostics, state.steps⟩
  | .failed fault =>
    .error ((Cause.fault fault).during s!"Execution failed at instruction {state.pc - 1}")

/-- Load stack code, or say that loading failed. -/
def loadCode (code : Bytecode) : Except Failure Machine.Loaded :=
  match Machine.load code with
  | .ok loaded => .ok loaded
  | .error error => .error ((Cause.load error).during "Failed to load bytecode")

/-- Execute stack code: the report, and the output also of a run that failed.  There is no answer
without enough fuel. -/
def execute (fuel : Nat) (limits : Limits) (code : Bytecode) (input : Input) (sink : Sink) :
    Option (Except Failure Report × Sink) :=
  match loadCode code with
  | .error failure => some (.error failure, sink)
  | .ok loaded =>
    match Machine.run loaded limits fuel (.start input sink) with
    | none => none
    | some (state, outcome) => some (reportOf state outcome, state.sink)

end StackPipeline.Pipeline
