import StackPipeline.Bytecode.Printer
import StackPipeline.Log.Basic
import StackPipeline.Settings.Basic

/-!
What a run writes into the log.
-/

namespace StackPipeline.Machine

open Bytecode (Instruction)
open Log (Entry)

/-- Write a text with spaces after it, so that it is at least this wide. -/
def padRight (width : Nat) (text : List Char) : List Char :=
  text ++ List.replicate (width - text.length) ' '

/-- Write a number with zeros before it, so that it is at least four digits wide. -/
def fourDigits (n : Nat) : List Char :=
  let digits := Nat.toDigits 10 n
  List.replicate (4 - digits.length) '0' ++ digits

/-- Values between brackets, the bottom of the stack first. -/
def shownStack (stack : Stack) : List Char :=
  '[' :: ((List.intercalate [',', ' '] (stack.values.reverse.map Value.shown)) ++ [']'])

/-- The entry for an instruction that is about to be executed. -/
def stepEntry (index : Nat) (instruction : Instruction) (stack : Stack) : Entry :=
  Log.trace (String.ofList ('[' :: (fourDigits index ++ ']' :: ' ' ::
    (padRight 16 instruction.chars ++ " stack=".toList ++ shownStack stack))))

/-- The entry for a name that is read before it is set. -/
def unsetEntries (state : State) : Instruction → List Entry
  | .load name =>
    match state.store.get? name with
    | some _ => []
    | none => [Log.trace s!"LOAD of unset variable `{name}` defaults to 0"]
  | _ => []

/-- The diagnostics after the first `known`. -/
def newDiagnostics (known : Nat) (state : State) : List Diagnostic :=
  (state.diagnostics.extract known state.diagnostics.size).toList

def stepEntries (loaded : Loaded) (settings : MachineSettings) (before : State)
    (progress : Progress) : List Entry :=
  match loaded.code[before.pc]? with
  | none => []
  | some instruction =>
    match settings.limits.exhausted? before.steps with
    | some _ => []
    | none =>
      (if settings.traceExecution then [stepEntry before.pc instruction before.stack] else []) ++
        unsetEntries before instruction ++
        (newDiagnostics before.diagnostics.size progress.state).map fun diagnostic =>
          Log.warn diagnostic.message

def loadEntry (loaded : Loaded) : Entry :=
  Log.debug s!"VM loaded {loaded.code.size} instructions, {loaded.labels.size} labels"

def Completion.shown : Completion → String
  | .normal => "Normal"
  | .returned none => "Return(None)"
  | .returned (some value) => "Return(Some(" ++ String.ofList value.shown ++ "))"

def endEntry (state : State) : Outcome → Entry
  | .completed completion =>
    Log.debug s!"VM finished after {state.steps} steps: {completion.shown}"
  | .failed fault => Log.debug s!"VM failed after {state.steps} steps: {fault.message}"

end StackPipeline.Machine
