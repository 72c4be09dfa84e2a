import StackPipeline.Bytecode.OfListing
import StackPipeline.Lowering
import StackPipeline.Optimizer.Passes

/-!
Compilation: from a tree to stack code, by way of a listing before and after the optimizer.
-/

namespace StackPipeline.Pipeline

/-- Everything a compilation makes. -/
structure Artifacts where
  /-- The listing as it was lowered. -/
  listing : Listing
  /-- The listing after the optimizer. -/
  optimized : Listing
  /-- The stack code of the optimized listing. -/
  bytecode : Bytecode
  /-- What the optimizer did. -/
  counts : Optimizer.Counts

def Artifacts.ofListing (passes : Optimizer.Passes) (listing : Listing) : Artifacts :=
  let optimized := Optimizer.optimize passes listing
  { listing, optimized
    bytecode := Bytecode.ofListing optimized
    counts := Optimizer.counts passes listing }

/-- Compile a program. -/
def compile (passes : Optimizer.Passes) (program : Tree.Program) :
    Except Lowering.LoweringError Artifacts :=
  match Lowering.lower program with
  | .error error => .error error
  | .ok listing => .ok (.ofListing passes listing)

end StackPipeline.Pipeline
