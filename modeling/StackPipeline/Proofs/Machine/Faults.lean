import StackPipeline.Proofs.Machine.Effects

/-!
Which faults an instruction can end in.

A fault names the instruction that was executed and its index, if it names any, and each kind of fault
belongs to certain instructions only.
-/

namespace StackPipeline.Machine

open Bytecode (Instruction)

/-- A fault that executing this instruction at this index can end in. -/
def Fault.FitsAt (index : Nat) (instruction : Instruction) : Fault → Prop
  | .stackUnderflow place failed => place = index ∧ failed = instruction
  | .stackOverflow place _ => place = index
  | .textCondition place failed =>
    place = index ∧ failed = instruction ∧ ∃ label, instruction = .jumpIfNonzero label
  | .textOperand place op _ _ => place = index ∧ instruction = .operate op
  | .unresolvedTransfer place failed => place = index ∧ failed = instruction
  | .inputClosed place => place = index ∧ ∃ prompt, instruction = .read prompt
  | .system _ => True
  | .stepLimit _ => False
  | .notReady _ => False

section Execute

variable {loaded : Loaded} {limits : Limits} {state last : State} {index : Nat} {fault : Fault}

theorem fitsAt_push {value : Value} (instruction : Instruction)
    (h : state.push limits index value = .stopped last (.failed fault)) :
    fault.FitsAt index instruction := by
  rw [State.push] at h
  split at h
  · cases h
    rfl
  · cases h

theorem fitsAt_write {text : String} (index : Nat) (instruction : Instruction)
    (h : state.write text = .stopped last (.failed fault)) : fault.FitsAt index instruction := by
  rcases write_cases state text with heq | heq
  · cases heq.symm.trans h
  · cases heq.symm.trans h
    exact trivial

theorem fitsAt_readLine {prompt : String}
    (h : state.readLine limits index prompt = .stopped last (.failed fault)) :
    fault.FitsAt index (.read prompt) := by
  rw [State.readLine] at h
  rcases write_cases state prompt with heq | heq
  · rw [heq] at h
    dsimp only at h
    rcases htake : state.input.takeLine with ⟨line | _ | error, input⟩
    · rw [htake] at h
      exact fitsAt_push _ h
    · rw [htake] at h
      cases h
      exact ⟨rfl, prompt, rfl⟩
    · rw [htake] at h
      cases h
      exact trivial
  · rw [heq] at h
    cases h
    exact trivial

theorem fitsAt_operate {op : Operator}
    (h : state.operate index op = .stopped last (.failed fault)) :
    fault.FitsAt index (.operate op) := by
  rw [State.operate] at h
  split at h
  · cases h
    exact ⟨rfl, rfl⟩
  · split at h
    · cases h
      exact ⟨rfl, rfl⟩
    · dsimp only at h
      split at h
      · cases h
      · cases h
        exact ⟨rfl, rfl⟩

theorem fitsAt_execute {instruction : Instruction}
    (h : execute loaded limits index state instruction = .stopped last (.failed fault)) :
    fault.FitsAt index instruction := by
  cases instruction with
  | push value => exact fitsAt_push _ h
  | load name => exact fitsAt_push _ h
  | read prompt => exact fitsAt_readLine h
  | printText text => exact fitsAt_write _ _ h
  | operate op => exact fitsAt_operate h
  | jump label => cases h
  | label name => cases h
  | breakLoop =>
      cases h
      exact ⟨rfl, rfl⟩
  | continueLoop =>
      cases h
      exact ⟨rfl, rfl⟩
  | store name =>
      rw [execute] at h
      split at h
      · cases h
        exact ⟨rfl, rfl⟩
      · cases h
  | jumpIfNonzero label =>
      rw [execute] at h
      split at h
      · cases h
        exact ⟨rfl, rfl⟩
      · cases h
        exact ⟨rfl, rfl, label, rfl⟩
      · split at h <;> cases h
  | printTop =>
      rw [execute] at h
      split at h
      · cases h
      · exact fitsAt_write _ _ h
  | ret =>
      rw [execute] at h
      split at h <;> cases h

/-- A step fails at the step limit, or with a fault of the instruction that it executes. -/
theorem fitsAt_step (h : step loaded limits state = .stopped last (.failed fault)) :
    (∃ limit, limits.exhausted? state.steps = some limit ∧ fault = .stepLimit limit ∧
      last = state) ∨
    ∃ instruction, loaded.code[state.pc]? = some instruction ∧
      limits.exhausted? state.steps = none ∧ fault.FitsAt state.pc instruction := by
  rw [step] at h
  split at h
  · cases h
  · rename_i instruction hfetch
    split at h
    · rename_i limit hlimit
      cases h
      exact .inl ⟨limit, hlimit, rfl, rfl⟩
    · rename_i hsteps
      exact .inr ⟨instruction, hfetch, hsteps, fitsAt_execute h⟩

end Execute

end StackPipeline.Machine
