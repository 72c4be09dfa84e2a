import StackPipeline.Proofs.Machine.Effects

/-!
Which instructions look at the input and the output: prints and reads.

All others do the same over any input and output, and leave both as they are.
-/

namespace StackPipeline

def Bytecode.Instruction.usesChannels : Bytecode.Instruction → Bool
  | .printText _ | .printTop | .read _ => true
  | _ => false

namespace Machine

open Bytecode (Instruction)

/-- The same state over a changed input and output. -/
def State.mapChannels (f : Input → Input) (g : Sink → Sink) (state : State) : State :=
  { state with input := f state.input, sink := g state.sink }

def Progress.mapChannels (f : Input → Input) (g : Sink → Sink) : Progress → Progress
  | .running state => .running (state.mapChannels f g)
  | .stopped state outcome => .stopped (state.mapChannels f g) outcome

variable {loaded : Loaded} {limits : Limits} (f : Input → Input) (g : Sink → Sink) (state : State)

theorem push_mapChannels (index : Nat) (value : Value) :
    (state.mapChannels f g).push limits index value =
      (state.push limits index value).mapChannels f g := by
  rw [State.push, State.push, apply_ite (Progress.mapChannels f g)]
  rfl

theorem jump_mapChannels (label : String) :
    (state.mapChannels f g).jump loaded label = (state.jump loaded label).mapChannels f g := by
  simp only [State.jump]
  split <;> rfl

theorem operate_mapChannels (index : Nat) (op : Operator) :
    (state.mapChannels f g).operate index op = (state.operate index op).mapChannels f g := by
  simp only [State.operate, State.mapChannels]
  split
  · rfl
  · split
    · rfl
    · split <;> split <;> rfl

/-- No instruction but a print or a read looks at the input or the output. -/
theorem execute_mapChannels (index : Nat) {instruction : Instruction}
    (h : instruction.usesChannels = false) :
    execute loaded limits index (state.mapChannels f g) instruction =
      (execute loaded limits index state instruction).mapChannels f g := by
  cases instruction with
  | printText text => cases h
  | printTop => cases h
  | read prompt => cases h
  | push value => exact push_mapChannels f g state index _
  | load name => exact push_mapChannels f g state index _
  | operate op => exact operate_mapChannels f g state index op
  | jump label => exact congrArg Progress.running (jump_mapChannels f g state label)
  | label name => rfl
  | breakLoop => rfl
  | continueLoop => rfl
  | store name =>
      simp only [execute, State.mapChannels]
      split <;> rfl
  | ret =>
      simp only [execute, State.mapChannels]
      split <;> rfl
  | jumpIfNonzero label =>
      simp only [execute, State.mapChannels]
      split
      · rfl
      · rfl
      · rename_i x rest hpop
        split
        · exact congrArg Progress.running (jump_mapChannels f g { state with stack := rest } label)
        · rfl

/-- Such an instruction leaves the output as it is. -/
theorem sink_execute (index : Nat) {instruction : Instruction}
    (h : instruction.usesChannels = false) :
    (execute loaded limits index state instruction).state.sink = state.sink := by
  -- It does the same where the output is replaced by itself.
  have hsame : execute loaded limits index state instruction =
      (execute loaded limits index state instruction).mapChannels id fun _ => state.sink :=
    execute_mapChannels id (fun _ => state.sink) state index h
  rw [hsame]
  cases execute loaded limits index state instruction <;> rfl

end Machine

end StackPipeline
