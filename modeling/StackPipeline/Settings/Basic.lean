import StackPipeline.Log.Basic
import StackPipeline.Machine.Step
import StackPipeline.Optimizer.Passes

/-!
The settings of a compilation and a run.
-/

namespace StackPipeline

/-- Settings of the machine. -/
structure MachineSettings where
  limits : Machine.Limits
  /-- Whether every step is logged. -/
  traceExecution : Bool
deriving DecidableEq

/-- All settings. -/
structure Settings where
  passes : Optimizer.Passes
  machine : MachineSettings
  logLevel : Log.Level
deriving DecidableEq

/-- A stack of 65536 values, any number of steps, no trace. -/
def MachineSettings.standard : MachineSettings :=
  ⟨⟨65536, none⟩, false⟩

/-- All passes, the standard machine, log entries from level info on. -/
def Settings.standard : Settings :=
  ⟨.all, .standard, .info⟩

end StackPipeline
