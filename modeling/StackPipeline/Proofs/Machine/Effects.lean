import StackPipeline.Proofs.Machine.Execution

/-!
What a step does to where the machine is and to how many values it holds, whatever the instruction.

A step counts one instruction, goes to the next one or to a label, and puts at most one value on the
stack, which then had room for it.  All else that is said about positions, counts and depths of a run
comes from this.
-/

namespace StackPipeline.Machine

open Bytecode (Instruction)

/-- What executing an instruction can do.  The state before it counts the instruction already and is at
the next one. -/
structure Effect (loaded : Loaded) (limits : Limits) (before after : State) : Prop where
  steps_eq : after.steps = before.steps
  pc_eq : after.pc = before.pc ∨ ∃ label, loaded.labels.get? label = some after.pc
  depth_le : after.stack.depth ≤ before.stack.depth ∨
    before.stack.depth < limits.maxStackDepth ∧
      after.stack.depth = before.stack.depth + 1

theorem Stack.depth_push (stack : Stack) (value : Value) :
    (stack.push value).depth = stack.depth + 1 := rfl

theorem Stack.depth_of_pop? {stack rest : Stack} {value : Value}
    (h : stack.pop? = some (value, rest)) : stack.depth = rest.depth + 1 := by
  obtain ⟨values, depth, hdepth⟩ := stack
  cases values with
  | nil => cases h
  | cons top below =>
      cases h
      simp [hdepth]

section Execute

variable {loaded : Loaded} {limits : Limits} {state : State}

/-- Nothing is done to the position and the count, and no value is added. -/
theorem effect_of_depth_le {after : State} (hsteps : after.steps = state.steps)
    (hpc : after.pc = state.pc) (hdepth : after.stack.depth ≤ state.stack.depth) :
    Effect loaded limits state after :=
  ⟨hsteps, .inl hpc, .inl hdepth⟩

theorem effect_refl : Effect loaded limits state state :=
  effect_of_depth_le rfl rfl (Nat.le_refl _)

/-- A value is taken off the stack. -/
theorem effect_pop {value : Value} {rest : Stack} (h : state.stack.pop? = some (value, rest)) :
    Effect loaded limits state { state with stack := rest } :=
  effect_of_depth_le rfl rfl (by rw [Stack.depth_of_pop? h]; exact Nat.le_succ _)

theorem effect_push (index : Nat) (value : Value) :
    Effect loaded limits state (state.push limits index value).state := by
  rw [State.push]
  split
  · exact effect_refl
  · rename_i hroom
    exact ⟨rfl, .inl rfl, .inr ⟨Nat.lt_of_not_le hroom, rfl⟩⟩

/-- Writing changes the output and nothing else, whether the text goes in or not. -/
theorem write_cases (state : State) (text : String) :
    state.write text = .running { state with sink := state.sink.write text } ∨
      state.write text = .stopped { state with sink := state.sink.write text }
        (.failed (.system .outputFull)) := by
  rw [State.write]
  split
  · exact .inl rfl
  · exact .inr rfl

theorem effect_write (text : String) : Effect loaded limits state (state.write text).state := by
  rcases write_cases state text with h | h
  · rw [h]
    exact effect_of_depth_le rfl rfl (Nat.le_refl _)
  · rw [h]
    exact effect_of_depth_le rfl rfl (Nat.le_refl _)

theorem effect_readLine (index : Nat) (prompt : String) :
    Effect loaded limits state (state.readLine limits index prompt).state := by
  rw [State.readLine]
  rcases write_cases state prompt with h | h
  · rw [h]
    dsimp only
    -- A line that has been taken is pushed on the stack that was there before.
    rcases State.input state |>.takeLine with ⟨text | _ | error, input⟩
    · have hpush : Effect loaded limits { state with sink := state.sink.write prompt, input } _ :=
        effect_push index (.ofLine text)
      exact ⟨hpush.steps_eq, hpush.pc_eq, hpush.depth_le⟩
    · exact effect_of_depth_le rfl rfl (Nat.le_refl _)
    · exact effect_of_depth_le rfl rfl (Nat.le_refl _)
  · rw [h]
    exact effect_of_depth_le rfl rfl (Nat.le_refl _)

theorem effect_operate (index : Nat) (op : Operator) :
    Effect loaded limits state (state.operate index op).state := by
  rw [State.operate]
  split
  · exact effect_refl
  · rename_i right below hright
    split
    · exact effect_refl
    · rename_i left rest hleft
      have hdepth : state.stack.depth = rest.depth + 2 := by
        rw [Stack.depth_of_pop? hright, Stack.depth_of_pop? hleft]
      dsimp only
      split <;> split <;> refine effect_of_depth_le rfl rfl ?_
      all_goals
        simp only [Progress.state, State.fail, State.note, Stack.depth_push, hdepth]
        omega

/-- Going to a label. -/
theorem effect_jump {before : State} (label : String) (h : Effect loaded limits before state) :
    Effect loaded limits before (state.jump loaded label) := by
  rw [State.jump]
  cases htarget : loaded.labels.get? label with
  | none => exact h
  | some target => exact ⟨h.steps_eq, .inr ⟨label, htarget⟩, h.depth_le⟩

theorem effect_execute (index : Nat) (instruction : Instruction) :
    Effect loaded limits state (execute loaded limits index state instruction).state := by
  cases instruction with
  | push value => exact effect_push index _
  | load name => exact effect_push index _
  | read prompt => exact effect_readLine index prompt
  | operate op => exact effect_operate index op
  | printText text => exact effect_write _
  | jump label => exact effect_jump label effect_refl
  | label name => exact effect_refl
  | breakLoop => exact effect_refl
  | continueLoop => exact effect_refl
  | store name =>
      rw [execute]
      split
      · exact effect_refl
      · rename_i value rest hpop
        have heffect : Effect loaded limits state { state with stack := rest } := effect_pop hpop
        exact ⟨rfl, .inl rfl, heffect.depth_le⟩
  | jumpIfNonzero label =>
      rw [execute]
      split
      · exact effect_refl
      · rename_i hpop
        exact effect_pop hpop
      · rename_i hpop
        split
        · exact effect_jump label (effect_pop hpop)
        · exact effect_pop hpop
  | printTop =>
      rw [execute]
      split
      · exact effect_of_depth_le rfl rfl (Nat.le_refl _)
      · rename_i value rest hpop
        have hdepth : rest.depth ≤ state.stack.depth := by
          rw [Stack.depth_of_pop? hpop]
          exact Nat.le_succ _
        rcases write_cases { state with stack := rest } (value.render ++ "\n") with h | h
        · rw [h]
          exact effect_of_depth_le rfl rfl hdepth
        · rw [h]
          exact effect_of_depth_le rfl rfl hdepth
  | ret =>
      rw [execute]
      split
      · exact effect_refl
      · rename_i hpop
        exact effect_pop hpop

end Execute

section Step

variable {loaded : Loaded} {limits : Limits} {state : State}

/-- A step executes an instruction, or it stops where it is. -/
theorem step_cases (loaded : Loaded) (limits : Limits) (state : State) :
    (∃ outcome, step loaded limits state = .stopped state outcome) ∨
    Effect loaded limits { state with pc := state.pc + 1, steps := state.steps + 1 }
      (step loaded limits state).state := by
  rw [step]
  split
  · exact .inl ⟨_, rfl⟩
  · split
    · exact .inl ⟨_, rfl⟩
    · exact .inr (effect_execute state.pc _)

/-- A step never fills the stack beyond its limit. -/
theorem depth_step_le (loaded : Loaded) (hdepth : state.stack.depth ≤ limits.maxStackDepth) :
    (step loaded limits state).state.stack.depth ≤ limits.maxStackDepth := by
  rcases step_cases loaded limits state with ⟨outcome, heq⟩ | heffect
  · rw [heq]
    exact hdepth
  · rcases heffect.depth_le with hle | ⟨hroom, heq⟩
    · exact Nat.le_trans hle hdepth
    · rw [heq]
      exact hroom

/-- A step does not count backwards. -/
theorem steps_le_step (loaded : Loaded) (limits : Limits) (state : State) :
    state.steps ≤ (step loaded limits state).state.steps := by
  rcases step_cases loaded limits state with ⟨outcome, heq⟩ | heffect
  · rw [heq]
    exact Nat.le_refl _
  · rw [heffect.steps_eq]
    exact Nat.le_succ _

/-- A step counts at most one instruction. -/
theorem steps_step_le (loaded : Loaded) (limits : Limits) (state : State) :
    (step loaded limits state).state.steps ≤ state.steps + 1 := by
  rcases step_cases loaded limits state with ⟨outcome, heq⟩ | heffect
  · rw [heq]
    exact Nat.le_succ _
  · exact Nat.le_of_eq heffect.steps_eq

/-- A step after which the machine goes on counts one. -/
theorem steps_eq_of_running {next : State} (h : step loaded limits state = .running next) :
    next.steps = state.steps + 1 := by
  rcases step_cases loaded limits state with ⟨outcome, heq⟩ | heffect
  · cases h.symm.trans heq
  · have hsteps := heffect.steps_eq
    rwa [h] at hsteps

/-- A step that executes an instruction counts it, also if the machine stops then. -/
theorem steps_eq_of_fetch (hunlimited : limits.maxSteps = none) {instruction : Instruction}
    (hfetch : loaded.code[state.pc]? = some instruction) :
    (step loaded limits state).state.steps = state.steps + 1 := by
  simp only [step, hfetch, Limits.exhausted?, hunlimited]
  exact (effect_execute state.pc instruction).steps_eq

end Step

section Runs

variable {loaded : Loaded} {limits : Limits} {start last : State}

theorem Reaches.depth_le (h : Reaches loaded limits start last)
    (hstart : start.stack.depth ≤ limits.maxStackDepth) :
    last.stack.depth ≤ limits.maxStackDepth := by
  have hkept (state : State) (hdepth : state.stack.depth ≤ limits.maxStackDepth) :=
    depth_step_le loaded hdepth
  exact h.keeps_state hkept hstart

theorem Ends.depth_le {outcome : Outcome} (h : Ends loaded limits start (last, outcome))
    (hstart : start.stack.depth ≤ limits.maxStackDepth) :
    last.stack.depth ≤ limits.maxStackDepth := by
  have hkept (state : State) (hdepth : state.stack.depth ≤ limits.maxStackDepth) :=
    depth_step_le loaded hdepth
  exact h.keeps_state hkept hstart

end Runs

end StackPipeline.Machine
