import StackPipeline.Optimizer.Liveness

/-!
Dropping assignments whose target is never read afterwards.
-/

namespace StackPipeline.Optimizer

open Listing (Instruction)

/-- How much an elimination did. -/
structure EliminationCounts where
  /-- Assignments dropped. -/
  removed : Nat
  /-- Sweeps over the listing until the live names were found. -/
  sweeps : Nat
deriving DecidableEq

def EliminationCounts.zero : EliminationCounts := ⟨0, 0⟩

/-- Keep the instructions that the names live after them call for. -/
def keepLive : Listing → List Names → Listing
  | instruction :: rest, after :: live =>
    if isKept after instruction then instruction :: keepLive rest live else keepLive rest live
  | _, _ => []

/-- Drop the dead assignments of a listing. -/
def eliminateDead (listing : Listing) : Listing :=
  keepLive listing (liveness listing).1

def eliminationCounts (listing : Listing) : EliminationCounts :=
  let (live, sweeps) := liveness listing
  ⟨listing.length - (keepLive listing live).length, sweeps⟩

end StackPipeline.Optimizer
