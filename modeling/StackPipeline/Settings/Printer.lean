import StackPipeline.Settings.Basic

/-!
Settings as TOML documents.
-/

namespace StackPipeline.Settings

/-- The largest number that a document can hold. -/
def maxInteger : Nat := Nat.pow 2 63 - 1

def stepsLines : Option Nat → List String
  | none => []
  | some steps => [s!"max_steps = {steps}"]

def lines (settings : Settings) : List String :=
  let level := settings.logLevel.name
  ["[optimizer]",
    s!"constant_folding = {settings.passes.constantFolding}",
    s!"dead_code_elimination = {settings.passes.deadCodeElimination}",
    "",
    "[vm]",
    s!"max_stack_depth = {settings.machine.limits.maxStackDepth}"] ++
  stepsLines settings.machine.limits.maxSteps ++
  [s!"trace_execution = {settings.machine.traceExecution}",
    "",
    "[log]",
    "level = \"" ++ level ++ "\""]

/-- The document for settings; nothing if a number is too large for one. -/
def render? (settings : Settings) : Option String :=
  let limits := settings.machine.limits
  if limits.maxStackDepth ≤ maxInteger && (limits.maxSteps.getD 0) ≤ maxInteger then
    some (String.join ((lines settings).map fun line => line ++ "\n"))
  else none

end StackPipeline.Settings
