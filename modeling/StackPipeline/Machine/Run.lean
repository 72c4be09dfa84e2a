import StackPipeline.Machine.Step

/-!
Runs of the machine.  A program need not end, so a run is given fuel; without fuel there is no
answer, and more fuel never changes an answer.
-/

namespace StackPipeline.Machine

/-- Step until the run stops, at most `fuel` times. -/
def run (loaded : Loaded) (limits : Limits) : Nat → State → Option (State × Outcome)
  | 0, _ => none
  | fuel + 1, state =>
    match step loaded limits state with
    | .running state => run loaded limits fuel state
    | .stopped state outcome => some (state, outcome)

/-- A machine with its program.  It can run once. -/
structure Session where
  loaded : Loaded
  limits : Limits
  status : Status
  state : State

def Session.start (loaded : Loaded) (limits : Limits) (input : Input) : Session :=
  ⟨loaded, limits, .ready, .start input .unlimited⟩

/-- The status a run leaves behind. -/
def Outcome.status : Outcome → Status
  | .completed _ => .finished
  | .failed _ => .failed

/-- Run a machine on its input and a fresh output; one that has run before refuses. -/
def Session.run (session : Session) (fuel : Nat) (sink : Sink) : Option (Session × Outcome) :=
  let state := { session.state with sink }
  if session.status = .ready then
    match Machine.run session.loaded session.limits fuel state with
    | none => none
    | some (state, outcome) => some ({ session with status := outcome.status, state }, outcome)
  else some ({ session with state }, .failed (.notReady session.status))

end StackPipeline.Machine
