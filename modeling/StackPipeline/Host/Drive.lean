import StackPipeline.Host.Basic
import StackPipeline.Machine.Journal
import StackPipeline.Machine.Step

/-!
Running the machine on a host: lines of the standard input come when they are asked for, output
appears when it is written, and every step goes into the log.
-/

namespace StackPipeline.Host

open Machine (Loaded Outcome Progress Sink State)

variable {m : Type → Type} [Monad m]

/-- Where a run reads and writes. -/
structure Wiring where
  /-- Whether lines come from the standard input. -/
  fromConsole : Bool
  /-- Whether output goes to the standard output. -/
  toConsole : Bool

/-- The prompt of a read that is about to be executed. -/
def pendingPrompt? (loaded : Loaded) (settings : MachineSettings) (state : State) :
    Option String :=
  match settings.limits.exhausted? state.steps, loaded.code[state.pc]? with
  | none, some (.read prompt) => some prompt
  | _, _ => none

/-- Before a read: show its prompt and wait for a line. -/
def prepare (host : Host m) (wiring : Wiring) (prompt : String) (state : State) : m State := do
  if wiring.toConsole then host.print prompt.toUTF8
  if wiring.fromConsole then
    let input ← host.refill state.input
    pure { state with input }
  else pure state

/-- Bring what a step wrote to the standard output. -/
def deliver (host : Host m) (wiring : Wiring) (shown : Bool) (state : State) : m State := do
  if wiring.toConsole then
    if !shown then host.print state.sink.bytes
    pure { state with sink := .unlimited }
  else pure state

/-- Step until the run stops.  A run that outlasts the fuel fails as if that were its limit. -/
def drive (host : Host m) (journal : Journal m) (wiring : Wiring) (settings : MachineSettings)
    (loaded : Loaded) : Nat → State → m (State × Outcome)
  | 0, state => pure (state, .failed (.stepLimit state.steps))
  | fuel + 1, state => do
    let prompt := pendingPrompt? loaded settings state
    let state ←
      match prompt with
      | some prompt => prepare host wiring prompt state
      | none => pure state
    let progress := Machine.step loaded settings.limits state
    Journal.writeAll journal (Machine.stepEntries loaded settings state progress)
    match progress with
    | .running state => do
      let state ← deliver host wiring prompt.isSome state
      drive host journal wiring settings loaded fuel state
    | .stopped state outcome => do
      let state ← deliver host wiring prompt.isSome state
      pure (state, outcome)

end StackPipeline.Host
