import StackPipeline.Proofs.Machine.Faults

/-!
Which instructions a run executes, and where it is after the last of them.

After an instruction the machine is at the next one or at the label that the instruction goes to.  An
instruction that fails goes nowhere, so a run that it ends is right behind it.  A run that the step limit
ends can be behind a jump, and then it is at a label that it has not executed.
-/

namespace StackPipeline.Machine

open Bytecode (Instruction)

/-- Whether the next step executes an instruction: there is one, and the step limit allows it. -/
def executesNext (loaded : Loaded) (limits : Limits) (state : State) : Bool :=
  loaded.code[state.pc]?.isSome && (limits.exhausted? state.steps).isNone

/-- The indices of the instructions that a run executes, in order. -/
def executed (loaded : Loaded) (limits : Limits) : Nat → State → List Nat
  | 0, _ => []
  | fuel + 1, state =>
    if executesNext loaded limits state then
      state.pc ::
        match step loaded limits state with
        | .running next => executed loaded limits fuel next
        | .stopped _ _ => []
    else []

/-- A run that ends, with the indices of the instructions that it executes. -/
inductive Executes (loaded : Loaded) (limits : Limits) : State → List Nat → State → Outcome → Prop
  /-- It executes nothing more. -/
  | idle {state last : State} {outcome : Outcome}
      (hexecutes : executesNext loaded limits state = false)
      (hstep : step loaded limits state = .stopped last outcome) :
      Executes loaded limits state [] last outcome
  /-- It ends in an instruction. -/
  | final {state last : State} {outcome : Outcome}
      (hexecutes : executesNext loaded limits state = true)
      (hstep : step loaded limits state = .stopped last outcome) :
      Executes loaded limits state [state.pc] last outcome
  /-- It goes on after an instruction. -/
  | further {state next last : State} {later : List Nat} {outcome : Outcome}
      (hexecutes : executesNext loaded limits state = true)
      (hstep : step loaded limits state = .running next)
      (hlater : Executes loaded limits next later last outcome) :
      Executes loaded limits state (state.pc :: later) last outcome

/-- The instruction at the index goes to this place. -/
def JumpsTo (loaded : Loaded) (index place : Nat) : Prop :=
  ∃ instruction label, loaded.code[index]? = some instruction ∧
    instruction.target? = some label ∧ loaded.labels.get? label = some place

/-- Where a run is that has failed, the last instruction that it executed being the one at the index.
Either it failed in this instruction, or the step limit stopped it where the instruction led. -/
inductive FailedAfter (loaded : Loaded) (index : Nat) (last : State) (fault : Fault) : Prop
  | within (hpc : last.pc = index + 1) (hlimit : ∀ limit, fault ≠ .stepLimit limit)
      (hindex : ∀ place, fault.index? = some place → place = index)
  | behind (limit : Nat) (hfault : fault = .stepLimit limit)
      (hpc : last.pc = index + 1 ∨ JumpsTo loaded index last.pc)

section Step

variable {loaded : Loaded} {limits : Limits} {state : State}

theorem executesNext_iff : executesNext loaded limits state = true ↔
    ∃ instruction, loaded.code[state.pc]? = some instruction ∧
      limits.exhausted? state.steps = none := by
  simp [executesNext, Option.isSome_iff_exists]

/-- An instruction that goes to no label leads to the next one, whatever labels there are. -/
theorem pc_execute_of_target?_eq_none (index : Nat) {instruction : Instruction}
    (h : instruction.target? = none) :
    (execute loaded limits index state instruction).state.pc = state.pc := by
  have hsame : execute loaded limits index state instruction =
      execute ⟨#[], .empty⟩ limits index state instruction := by
    cases instruction with
    | jump label => cases h
    | jumpIfNonzero label => cases h
    | _ => rfl
  have heffect : Effect ⟨#[], .empty⟩ limits state
      (execute loaded limits index state instruction).state := hsame ▸ effect_execute index instruction
  rcases heffect.pc_eq with hnext | ⟨label, hlabel⟩
  · exact hnext
  · cases hlabel

/-- An instruction leads to the next one, or it goes to its label and the run goes on there. -/
theorem pc_execute (index : Nat) (instruction : Instruction) :
    (execute loaded limits index state instruction).state.pc = state.pc ∨
      ∃ label next, instruction.target? = some label ∧
        execute loaded limits index state instruction = .running next ∧
        loaded.labels.get? label = some next.pc := by
  have hjump (before : State) (label : String) : (before.jump loaded label).pc = before.pc ∨
      loaded.labels.get? label = some (before.jump loaded label).pc := by
    rw [State.jump]
    cases htarget : loaded.labels.get? label with
    | none => exact .inl rfl
    | some target => exact .inr rfl
  cases instruction with
  | jump label => exact (hjump state label).imp_right fun h => ⟨label, _, rfl, rfl, h⟩
  | jumpIfNonzero label =>
      rw [execute]
      split
      · exact .inl rfl
      · exact .inl rfl
      · split
        · exact (hjump { state with stack := _ } label).imp_right fun h => ⟨label, _, rfl, rfl, h⟩
        · exact .inl rfl
  | _ => exact .inl (pc_execute_of_target?_eq_none index rfl)

theorem step_of_executesNext (h : executesNext loaded limits state = true) :
    ∃ instruction, loaded.code[state.pc]? = some instruction ∧
      step loaded limits state = execute loaded limits state.pc
        { state with pc := state.pc + 1, steps := state.steps + 1 } instruction := by
  obtain ⟨instruction, hfetch, hsteps⟩ := executesNext_iff.1 h
  refine ⟨instruction, hfetch, ?_⟩
  simp only [step, hfetch, hsteps]

/-- A step that executes an instruction counts it. -/
theorem steps_step (h : executesNext loaded limits state = true) :
    (step loaded limits state).state.steps = state.steps + 1 := by
  obtain ⟨instruction, -, hstep⟩ := step_of_executesNext h
  rw [hstep]
  exact (effect_execute state.pc instruction).steps_eq

/-- Where a step leads that executes an instruction. -/
theorem pc_step (h : executesNext loaded limits state = true) :
    (step loaded limits state).state.pc = state.pc + 1 ∨
      ∃ next, step loaded limits state = .running next ∧ JumpsTo loaded state.pc next.pc := by
  obtain ⟨instruction, hfetch, hstep⟩ := step_of_executesNext h
  rw [hstep]
  rcases pc_execute state.pc instruction with hnext | ⟨label, next, htarget, hrunning, hplace⟩
  · exact .inl hnext
  · exact .inr ⟨next, hrunning, instruction, label, hfetch, htarget, hplace⟩

/-- A step that executes nothing stops where it is. -/
theorem step_of_not_executesNext (h : executesNext loaded limits state = false) :
    step loaded limits state = .stopped state (.completed .normal) ∨
      ∃ limit, step loaded limits state = .stopped state (.failed (.stepLimit limit)) := by
  rw [step]
  split
  · exact .inl rfl
  · rename_i instruction hfetch
    split
    · rename_i limit hlimit
      exact .inr ⟨limit, rfl⟩
    · rename_i hsteps
      rw [executesNext_iff.2 ⟨instruction, hfetch, hsteps⟩] at h
      cases h

theorem Fault.FitsAt.ne_stepLimit {fault : Fault} {index : Nat} {instruction : Instruction}
    (h : fault.FitsAt index instruction) (limit : Nat) : fault ≠ .stepLimit limit := by
  rintro rfl
  exact h

theorem Fault.FitsAt.eq_of_index? {fault : Fault} {index place : Nat} {instruction : Instruction}
    (h : fault.FitsAt index instruction) (hplace : fault.index? = some place) : place = index := by
  cases fault <;> cases hplace
  · exact h.1
  · exact h
  · exact h.1
  · exact h.1
  · exact h.1
  · exact h.1

/-- A step that executes an instruction and fails. -/
theorem failedAfter_of_stopped {last : State} {fault : Fault}
    (hexecutes : executesNext loaded limits state = true)
    (hstep : step loaded limits state = .stopped last (.failed fault)) :
    FailedAfter loaded state.pc last fault := by
  obtain ⟨_, -, hsteps⟩ := executesNext_iff.1 hexecutes
  rcases fitsAt_step hstep with ⟨limit, hlimit, -⟩ | ⟨instruction, -, -, hfits⟩
  · cases hsteps.symm.trans hlimit
  · rcases pc_step hexecutes with hpc | ⟨next, hnext, -⟩
    · rw [hstep] at hpc
      exact .within hpc hfits.ne_stepLimit fun place hplace => hfits.eq_of_index? hplace
    · cases hnext.symm.trans hstep

end Step

section Runs

variable {loaded : Loaded} {limits : Limits} {index : Nat} {state last : State} {indices : List Nat}
  {outcome : Outcome} {fault : Fault}

/-- By induction on the fuel: a run that ends executes what is listed. -/
theorem executes_of_run {fuel : Nat} (h : run loaded limits fuel state = some (last, outcome)) :
    Executes loaded limits state (executed loaded limits fuel state) last outcome := by
  induction fuel generalizing state with
  | zero => cases h
  | succ fuel ih =>
      rw [run] at h
      rw [executed]
      cases hexecutes : executesNext loaded limits state with
      | false =>
          cases hstep : step loaded limits state with
          | stopped other ending =>
              rw [hstep] at h
              cases h
              exact .idle hexecutes hstep
          | running next =>
              rcases step_of_not_executesNext hexecutes with heq | ⟨limit, heq⟩
              · cases hstep.symm.trans heq
              · cases hstep.symm.trans heq
      | true =>
          rw [if_pos rfl]
          cases hstep : step loaded limits state with
          | stopped other ending =>
              rw [hstep] at h
              cases h
              exact .final hexecutes hstep
          | running next =>
              rw [hstep] at h
              exact .further hexecutes hstep (ih h)

/-- As many instructions are executed as the machine counts. -/
theorem Executes.steps_eq (h : Executes loaded limits state indices last outcome) :
    last.steps = state.steps + indices.length := by
  induction h with
  | idle hexecutes hstep =>
      rcases step_of_not_executesNext hexecutes with heq | ⟨limit, heq⟩
      · cases hstep.symm.trans heq
        rfl
      · cases hstep.symm.trans heq
        rfl
  | final hexecutes hstep =>
      have hsteps := steps_step hexecutes
      rw [hstep] at hsteps
      exact hsteps
  | further hexecutes hstep _ ih =>
      rw [ih, steps_eq_of_running hstep, List.length_cons, Nat.add_assoc, Nat.add_comm 1]

/-- A run that executes nothing and fails is stopped by the step limit where it is. -/
theorem Executes.of_nil (h : Executes loaded limits state [] last (.failed fault)) :
    last = state ∧ ∃ limit, fault = .stepLimit limit := by
  cases h with
  | idle hexecutes hstep =>
      rcases step_of_not_executesNext hexecutes with heq | ⟨limit, heq⟩
      · cases hstep.symm.trans heq
      · cases hstep.symm.trans heq
        exact ⟨rfl, limit, rfl⟩

/-- By induction on the run: where it is when it has failed. -/
theorem Executes.failedAfter (h : Executes loaded limits state indices last (.failed fault))
    (hlast : indices.getLast? = some index) : FailedAfter loaded index last fault := by
  generalize houtcome : Outcome.failed fault = outcome at h
  induction h with
  | idle => cases hlast
  | final hexecutes hstep =>
      subst houtcome
      cases hlast
      exact failedAfter_of_stopped hexecutes hstep
  | @further state next last later outcome hexecutes hstep hlater ih =>
      cases later with
      | cons first rest => exact ih hlast houtcome
      | nil =>
          subst houtcome
          cases hlast
          obtain ⟨rfl, limit, rfl⟩ := hlater.of_nil
          refine .behind limit rfl ?_
          rcases pc_step hexecutes with hpc | ⟨next, hnext, hjumps⟩
          · rw [hstep] at hpc
            exact .inl hpc
          · cases hstep.symm.trans hnext
            exact .inr hjumps

end Runs

end StackPipeline.Machine
