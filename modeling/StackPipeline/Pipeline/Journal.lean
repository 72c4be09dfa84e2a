import StackPipeline.Log.Basic
import StackPipeline.Pipeline.Compilation
import StackPipeline.Pipeline.Execution
import StackPipeline.Settings.Basic

/-!
What compilation and execution write into the log.
-/

namespace StackPipeline.Pipeline

open Log (Entry)

def optimizerEntries (passes : Optimizer.Passes) (before after : Listing)
    (counts : Optimizer.Counts) : List Entry :=
  let fold := counts.fold
  let elimination := counts.elimination
  (if passes.constantFolding then
    [Log.debug (s!"Constant folding: {fold.substituted} operands substituted, " ++
      s!"{fold.folded} expressions folded")]
  else []) ++
  (if passes.deadCodeElimination then
    [Log.trace s!"DCE liveness converged after {elimination.sweeps} scans",
      Log.debug s!"Dead code elimination: {elimination.removed} assignments removed"]
  else []) ++
  [Log.debug s!"Optimized {before.length} -> {after.length} IR instructions"]

def compileEntry (program : Tree.Program) : Entry :=
  Log.debug s!"Compiling {program.statements.length} top-level statements"

/-- The entries of a compilation that went well. -/
def artifactEntries (passes : Optimizer.Passes) (program : Tree.Program)
    (artifacts : Artifacts) : List Entry :=
  let context := (Lowering.lowerProgram program .initial).2
  let lowered := artifacts.listing.length
  let generated := artifacts.bytecode.length
  [Log.debug (s!"Lowered {program.statements.length} statements into {lowered} IR instructions " ++
      s!"({context.temporaries} temps, {context.labels} labels)"),
    Log.debug s!"Lowered to {lowered} IR instructions"] ++
  optimizerEntries passes artifacts.listing artifacts.optimized artifacts.counts ++
  [Log.debug (s!"Generated {generated} bytecode instructions " ++
      s!"from {artifacts.optimized.length} IR instructions"),
    Log.debug s!"Generated {generated} bytecode instructions"]

def reportEntries (report : Report) : List Entry :=
  (if report.diagnostics.isEmpty then []
  else [Log.warn s!"{report.diagnostics.size} runtime diagnostic(s) reported"]) ++
  (match report.returned? with
  | some value => [Log.debug s!"Program returned {value.render}"]
  | none => []) ++
  [Log.debug s!"Executed {report.steps} steps"]

end StackPipeline.Pipeline
