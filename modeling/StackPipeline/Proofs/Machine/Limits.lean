import StackPipeline.Proofs.Machine.Effects

/-!
A run that ends well has not come up against its limits, so that looser ones change nothing about it.
-/

namespace StackPipeline.Machine

/-- What the tight limits let pass the loose ones let pass too. -/
structure Limits.LooserThan (loose tight : Limits) : Prop where
  depth_le : tight.maxStackDepth ≤ loose.maxStackDepth
  exhausted : ∀ steps, tight.exhausted? steps = none → loose.exhausted? steps = none

/-- No limit on the steps, and room for the operands of an operator. -/
def Limits.loosened (limits : Limits) : Limits := ⟨max limits.maxStackDepth 2, none⟩

theorem Limits.loosened_looserThan (limits : Limits) : limits.loosened.LooserThan limits :=
  ⟨Nat.le_max_left _ _, fun _ _ => rfl⟩

/-- The same comes of two steps, unless the first fails. -/
def Progress.SameUnlessFailed (first second : Progress) : Prop :=
  first = second ∨ ∃ state fault, first = .stopped state (.failed fault)

/-- The same comes of two steps under a tight and a loose limit on the depth, unless the tight one has no
room for a value.  Then the first refuses that value and has done everything else; the second goes on
with it if it has room. -/
def Progress.SameUnlessFull (tight loose index : Nat) (before : Stack) (first second : Progress) :
    Prop :=
  first = second ∨ tight ≤ before.depth ∧ ∃ next : State, next.stack.depth = before.depth + 1 ∧
    first = .stopped { next with stack := before } (.failed (.stackOverflow index tight)) ∧
    (before.depth < loose → second = .running next)

theorem Progress.SameUnlessFull.sameUnlessFailed {tight loose index : Nat} {before : Stack}
    {first second : Progress} (h : first.SameUnlessFull tight loose index before second) :
    first.SameUnlessFailed second := by
  rcases h with heq | ⟨-, next, -, hfailed, -⟩
  · exact .inl heq
  · exact .inr ⟨_, _, hfailed⟩

section Execute

variable {tight loose : Limits} (hdepth : tight.maxStackDepth ≤ loose.maxStackDepth) (state : State)
  (index : Nat)

include hdepth

theorem push_sameUnlessFull (value : Value) :
    (state.push tight index value).SameUnlessFull tight.maxStackDepth loose.maxStackDepth index
      state.stack (state.push loose index value) := by
  by_cases hfull : tight.maxStackDepth ≤ state.stack.depth
  · refine .inr ⟨hfull, { state with stack := state.stack.push value }, rfl, if_pos hfull, ?_⟩
    exact fun hroom => if_neg (Nat.not_le_of_lt hroom)
  · have hroom : ¬loose.maxStackDepth ≤ state.stack.depth :=
      fun hle => hfull (Nat.le_trans hdepth hle)
    left
    rw [State.push, State.push, if_neg hfull, if_neg hroom]

theorem readLine_sameUnlessFull (prompt : String) :
    (state.readLine tight index prompt).SameUnlessFull tight.maxStackDepth loose.maxStackDepth index
      state.stack (state.readLine loose index prompt) := by
  rw [State.readLine, State.readLine]
  rcases write_cases state prompt with hwrite | hwrite
  · rw [hwrite]
    rcases hline : state.input.takeLine with ⟨text | _ | error, input⟩
    · simp only [hline]
      exact push_sameUnlessFull hdepth { state with sink := state.sink.write prompt, input } index _
    · exact .inl (by simp only [hline])
    · exact .inl (by simp only [hline])
  · rw [hwrite]
    exact .inl rfl

/-- Only what puts a value on the stack looks at the limits. -/
theorem execute_sameUnlessFull (loaded : Loaded) (instruction : Bytecode.Instruction) :
    (execute loaded tight index state instruction).SameUnlessFull tight.maxStackDepth
      loose.maxStackDepth index state.stack (execute loaded loose index state instruction) := by
  cases instruction with
  | push value => exact push_sameUnlessFull hdepth state index _
  | load name => exact push_sameUnlessFull hdepth state index _
  | read prompt => exact readLine_sameUnlessFull hdepth state index prompt
  | _ => exact .inl rfl

end Execute

theorem step_sameUnlessFull {tight loose : Nat} (hdepth : tight ≤ loose) (maxSteps? : Option Nat)
    (loaded : Loaded) (state : State) :
    (step loaded ⟨tight, maxSteps?⟩ state).SameUnlessFull tight loose state.pc state.stack
      (step loaded ⟨loose, maxSteps?⟩ state) := by
  rw [step, step]
  cases loaded.code[state.pc]? with
  | none => exact .inl rfl
  | some instruction =>
      have hsame : Limits.exhausted? ⟨tight, maxSteps?⟩ state.steps =
          Limits.exhausted? ⟨loose, maxSteps?⟩ state.steps := rfl
      rw [hsame]
      cases Limits.exhausted? ⟨loose, maxSteps?⟩ state.steps with
      | some limit => exact .inl rfl
      | none =>
          have hlimits : Limits.maxStackDepth ⟨tight, maxSteps?⟩ ≤
              Limits.maxStackDepth ⟨loose, maxSteps?⟩ := hdepth
          exact execute_sameUnlessFull hlimits
            { state with pc := state.pc + 1, steps := state.steps + 1 } state.pc loaded instruction

theorem step_sameUnlessFailed {loose tight : Limits} (hlooser : loose.LooserThan tight)
    (state : State) (loaded : Loaded) :
    (step loaded tight state).SameUnlessFailed (step loaded loose state) := by
  rw [step, step]
  cases loaded.code[state.pc]? with
  | none => exact .inl rfl
  | some instruction =>
      cases hlimit : tight.exhausted? state.steps with
      | some limit => exact .inr ⟨_, _, rfl⟩
      | none =>
          rw [hlooser.exhausted state.steps hlimit]
          exact (execute_sameUnlessFull hlooser.depth_le _ _ loaded instruction).sameUnlessFailed

/-- A run that ends well under tight limits ends in the same state under looser ones. -/
theorem run_of_looserThan {loose tight : Limits} (hlooser : loose.LooserThan tight) {loaded : Loaded}
    {fuel : Nat} {state last : State} {completion : Completion}
    (h : run loaded tight fuel state = some (last, .completed completion)) :
    run loaded loose fuel state = some (last, .completed completion) := by
  induction fuel generalizing state with
  | zero => cases h
  | succ fuel ih =>
      rw [run] at h ⊢
      rcases step_sameUnlessFailed hlooser state loaded with heq | ⟨failed, fault, hfailed⟩
      · rw [← heq]
        cases hstep : step loaded tight state with
        | running next =>
            rw [hstep] at h
            exact ih h
        | stopped stopped outcome =>
            rw [hstep] at h
            exact h
      · rw [hfailed] at h
        cases h

end StackPipeline.Machine
