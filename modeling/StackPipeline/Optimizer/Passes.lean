import StackPipeline.Optimizer.ConstantFolding
import StackPipeline.Optimizer.DeadCode

/-!
The optimizer: constant folding and then dead code elimination, each once and each on its own
switch.
-/

namespace StackPipeline.Optimizer

/-- The passes that are switched on. -/
structure Passes where
  constantFolding : Bool
  deadCodeElimination : Bool
deriving DecidableEq

def Passes.all : Passes := ⟨true, true⟩

def Passes.none : Passes := ⟨false, false⟩

/-- How much each pass did; a pass that is off did nothing. -/
structure Counts where
  fold : FoldCounts
  elimination : EliminationCounts
deriving DecidableEq

def Passes.fold (passes : Passes) (listing : Listing) : Listing :=
  if passes.constantFolding then foldConstants listing else listing

def Passes.eliminate (passes : Passes) (listing : Listing) : Listing :=
  if passes.deadCodeElimination then eliminateDead listing else listing

/-- Run the passes that are on. -/
def optimize (passes : Passes) (listing : Listing) : Listing :=
  passes.eliminate (passes.fold listing)

def counts (passes : Passes) (listing : Listing) : Counts :=
  { fold := if passes.constantFolding then foldCounts listing else .zero
    elimination :=
      if passes.deadCodeElimination then eliminationCounts (passes.fold listing) else .zero }

end StackPipeline.Optimizer
