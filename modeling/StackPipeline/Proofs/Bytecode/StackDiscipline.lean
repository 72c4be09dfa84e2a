import StackPipeline.Proofs.Bytecode.Depths
import StackPipeline.Proofs.Machine.Execution

/-!
The machine keeps the depths of generated code.

Whatever the limits are, the stack of a running machine is as deep as the code has it at the point
where the machine is.  So no instruction ever misses a value, and two values are enough room.
-/

namespace StackPipeline

namespace Machine

theorem Stack.eq_empty_of_depth {stack : Stack} (h : stack.depth = 0) : stack = .empty := by
  apply Stack.ext
  rw [stack.depth_eq, List.length_eq_zero_iff] at h
  exact h

/-- A stack that is not empty has a value on top and is one value deeper than what is below. -/
theorem Stack.exists_pop? {stack : Stack} {depth : Nat} (h : stack.depth = depth + 1) :
    ∃ value rest, stack.pop? = some (value, rest) ∧ rest.depth = depth := by
  obtain ⟨values, size, hsize⟩ := stack
  rcases values with _ | ⟨value, rest⟩
  · simp [hsize] at h
  · exact ⟨value, _, rfl, Nat.sub_eq_of_eq_add h⟩

/-- Whether a fault says that the stack is too short or too long. -/
def Fault.isAboutStack : Fault → Bool
  | .stackUnderflow _ _ => true
  | .stackOverflow _ _ => true
  | _ => false

/-- Nothing was missing that should have been printed. -/
def State.Printed (state : State) : Prop :=
  ∀ index, Diagnostic.nothingToPrint index ∉ state.diagnostics

end Machine

namespace Bytecode

open Machine (Fault Limits Loaded Outcome Progress State Value load step)

/-- The stack is as deep as the code has it where the machine is. -/
structure Balanced (code : Bytecode) (state : State) : Prop where
  depth_eq : depthAt? code state.pc = some state.stack.depth
  printed : state.Printed

/-- A run stops with no more values than the code has where it stops, and with none if all went well.
The stack was not too short and, if two values have room, not too long. -/
structure StopsBalanced (code : Bytecode) (limits : Limits) (state : State) (outcome : Outcome) :
    Prop where
  depth_le : ∃ depth, depthAt? code state.pc = some depth ∧ state.stack.depth ≤ depth
  printed : state.Printed
  underflow : ∀ index instruction, outcome ≠ .failed (.stackUnderflow index instruction)
  overflow : 2 ≤ limits.maxStackDepth →
    ∀ index limit, outcome ≠ .failed (.stackOverflow index limit)
  completed : ∀ completion, outcome = .completed completion → state.stack = .empty

/-- A step goes on, or stops, with a balanced stack. -/
def StepsBalanced (code : Bytecode) (limits : Limits) : Progress → Prop
  | .running state => Balanced code state
  | .stopped state outcome => StopsBalanced code limits state outcome

/-- In the middle of a step: `depth` values are on the stack, where the machine goes on there are to
be `after`. -/
structure Amid (code : Bytecode) (depth after : Nat) (state : State) : Prop where
  depth_eq : state.stack.depth = depth
  after_eq : depthAt? code state.pc = some after
  printed : state.Printed

namespace Amid

variable {code : Bytecode} {loaded : Loaded} {limits : Limits} {state : State} {depth after : Nat}

/-- The step is over. -/
theorem balanced (h : Amid code depth depth state) : Balanced code state where
  depth_eq := by rw [h.after_eq, h.depth_eq]
  printed := h.printed

/-- A run can fail anywhere for a reason that is not the stack. -/
theorem fail (h : Amid code depth after state) (hle : depth ≤ after) {fault : Fault}
    (hfault : fault.isAboutStack = false) : StepsBalanced code limits (state.fail fault) where
  depth_le := ⟨after, h.after_eq, by rwa [h.depth_eq]⟩
  printed := h.printed
  underflow index instruction houtcome := by
    rw [Outcome.failed.inj houtcome] at hfault
    cases hfault
  overflow _ index limit houtcome := by
    rw [Outcome.failed.inj houtcome] at hfault
    cases hfault
  completed _ houtcome := by cases houtcome

/-- A run completes with an empty stack. -/
theorem complete (h : Amid code 0 after state) (completion : Machine.Completion) :
    StepsBalanced code limits (.stopped state (.completed completion)) where
  depth_le := ⟨after, h.after_eq, by simp [h.depth_eq]⟩
  printed := h.printed
  underflow _ _ houtcome := by cases houtcome
  overflow _ _ _ houtcome := by cases houtcome
  completed _ _ := Machine.Stack.eq_empty_of_depth h.depth_eq

/-- A value goes on the stack, unless the limit leaves no room for two. -/
theorem push (h : Amid code depth (depth + 1) state) (hroom : depth < 2) (index : Nat)
    (value : Value) : StepsBalanced code limits (state.push limits index value) := by
  rw [State.push]
  split
  next hfull =>
    rw [h.depth_eq] at hfull
    refine ⟨⟨_, h.after_eq, by simp [h.depth_eq]⟩, h.printed, ?_, ?_, ?_⟩
    · rintro index instruction ⟨⟩
    · omega
    · rintro completion ⟨⟩
  next =>
    have hpushed : Amid code (depth + 1) (depth + 1)
        { state with stack := state.stack.push value } :=
      ⟨congrArg (· + 1) h.depth_eq, h.after_eq, h.printed⟩
    exact hpushed.balanced

theorem write (h : Amid code depth depth state) (text : String) :
    StepsBalanced code limits (state.write text) := by
  have hwritten : Amid code depth depth { state with sink := state.sink.write text } := { h with }
  rw [State.write]
  split
  · exact hwritten.balanced
  · exact hwritten.fail (Nat.le_refl depth) rfl

theorem readLine (h : Amid code depth (depth + 1) state) (hroom : depth < 2) (index : Nat)
    (prompt : String) : StepsBalanced code limits (state.readLine limits index prompt) := by
  have hread (input : Machine.Input) : Amid code depth (depth + 1)
      { state with input, sink := state.sink.write prompt } := { h with }
  rw [State.readLine, State.write]
  by_cases hwritten : state.sink.hasRoom prompt.utf8ByteSize = true
  · simp only [hwritten, if_true]
    rcases state.input.takeLine with ⟨text | _ | error, input⟩
    · exact (hread input).push hroom index _
    · exact (hread state.input).fail (Nat.le_succ depth) rfl
    · exact (hread input).fail (Nat.le_succ depth) rfl
  · simp only [hwritten]
    exact (hread state.input).fail (Nat.le_succ depth) rfl

/-- Dividing by zero is noted, which is no missing value. -/
theorem note (h : Amid code depth after state) (index : Nat) :
    Amid code depth after (state.note (.divisionByZero index)) where
  depth_eq := h.depth_eq
  after_eq := h.after_eq
  printed other hmem := by
    rcases Array.mem_push.1 hmem with hmem | heq
    · exact h.printed other hmem
    · cases heq

/-- The topmost value is taken. -/
theorem pop (h : Amid code (depth + 1) after state) :
    ∃ value rest, state.stack.pop? = some (value, rest) ∧
      Amid code depth after { state with stack := rest } := by
  obtain ⟨value, rest, hpop, hrest⟩ := Machine.Stack.exists_pop? h.depth_eq
  exact ⟨value, rest, hpop, hrest, h.after_eq, h.printed⟩

theorem operate (h : Amid code 2 1 state) (index : Nat) (op : Operator) :
    StepsBalanced code limits (state.operate index op) := by
  obtain ⟨right, below, hright, hbelow⟩ := h.pop
  obtain ⟨left, rest, hleft, hrest⟩ := hbelow.pop
  have hnoted : Amid code 0 1 { (if Machine.dividesByZero op left right then
      state.note (.divisionByZero index) else state) with stack := rest } := by
    split
    · exact hrest.note index
    · exact hrest
  rw [State.operate]
  simp only [hright, hleft]
  cases Machine.operate? op left right with
  | some result =>
      refine Amid.balanced ⟨?_, hnoted.after_eq, hnoted.printed⟩
      exact congrArg (· + 1) hnoted.depth_eq
  | none => exact hnoted.fail (Nat.zero_le 1) rfl

theorem jump (h : Amid code 0 0 state) (label : String)
    (hlabels : ∀ name index, loaded.labels.get? name = some index → depthAt? code index = some 0) :
    Balanced code (state.jump loaded label) := by
  rw [State.jump]
  split
  next index hindex => exact ⟨by rw [hlabels label index hindex, h.depth_eq], h.printed⟩
  next => exact h.balanced

/-- An instruction that finds as many values as it should keeps the depths of the code. -/
theorem execute (h : Amid code depth after state) {instruction : Instruction}
    (hafter : instruction.depthAfter? depth = some after)
    (hlabels : ∀ name index, loaded.labels.get? name = some index → depthAt? code index = some 0)
    (index : Nat) :
    StepsBalanced code limits (Machine.execute loaded limits index state instruction) := by
  cases instruction with
  | push value =>
      obtain ⟨hroom, ⟨⟩⟩ := Option.ite_none_right_eq_some.1 hafter
      exact h.push hroom index _
  | load name =>
      obtain ⟨hroom, ⟨⟩⟩ := Option.ite_none_right_eq_some.1 hafter
      exact h.push hroom index _
  | read prompt =>
      obtain ⟨hroom, ⟨⟩⟩ := Option.ite_none_right_eq_some.1 hafter
      exact h.readLine hroom index prompt
  | store name =>
      obtain ⟨rfl, ⟨⟩⟩ := Option.ite_none_right_eq_some.1 hafter
      obtain ⟨value, rest, hpop, hrest⟩ := h.pop
      rw [Machine.execute]
      simp only [hpop]
      exact Amid.balanced { hrest with }
  | operate op =>
      obtain ⟨rfl, ⟨⟩⟩ := Option.ite_none_right_eq_some.1 hafter
      exact h.operate index op
  | jumpIfNonzero label =>
      obtain ⟨rfl, ⟨⟩⟩ := Option.ite_none_right_eq_some.1 hafter
      obtain ⟨value, rest, hpop, hrest⟩ := h.pop
      rw [Machine.execute]
      simp only [hpop]
      rcases value with x | text
      · dsimp only
        split
        · exact hrest.jump label hlabels
        · exact hrest.balanced
      · exact hrest.fail (Nat.le_refl 0) rfl
  | jump label =>
      obtain ⟨rfl, ⟨⟩⟩ := Option.ite_none_right_eq_some.1 hafter
      exact h.jump label hlabels
  | label name =>
      obtain ⟨rfl, ⟨⟩⟩ := Option.ite_none_right_eq_some.1 hafter
      exact h.balanced
  | printText text =>
      obtain ⟨rfl, ⟨⟩⟩ := Option.ite_none_right_eq_some.1 hafter
      exact h.write _
  | printTop =>
      obtain ⟨rfl, ⟨⟩⟩ := Option.ite_none_right_eq_some.1 hafter
      obtain ⟨value, rest, hpop, hrest⟩ := h.pop
      rw [Machine.execute]
      simp only [hpop]
      exact hrest.write _
  | breakLoop =>
      obtain ⟨rfl, ⟨⟩⟩ := Option.ite_none_right_eq_some.1 hafter
      exact h.fail (Nat.le_refl 0) rfl
  | continueLoop =>
      obtain ⟨rfl, ⟨⟩⟩ := Option.ite_none_right_eq_some.1 hafter
      exact h.fail (Nat.le_refl 0) rfl
  | ret =>
      obtain ⟨hroom, ⟨⟩⟩ := Option.ite_none_right_eq_some.1 hafter
      rcases depth with _ | depth
      · rw [Machine.execute, Machine.Stack.eq_empty_of_depth h.depth_eq, Machine.Stack.pop?_empty]
        exact h.complete _
      · obtain rfl : depth = 0 := by omega
        obtain ⟨value, rest, hpop, hrest⟩ := h.pop
        rw [Machine.execute]
        simp only [hpop]
        exact hrest.complete _

end Amid

section Runs

variable {listing : Listing} {loaded : Loaded} {limits : Limits} {state : State}

/-- A step of generated code keeps its depths. -/
theorem stepsBalanced_step (limits : Limits) (hload : load (ofListing listing) = .ok loaded)
    (h : Balanced (ofListing listing) state) :
    StepsBalanced (ofListing listing) limits (step loaded limits state) := by
  have hlabels (name : String) (index : Nat) (hindex : loaded.labels.get? name = some index) :
      depthAt? (ofListing listing) index = some 0 :=
    depthAt?_label ((Machine.labels_of_load hload name index).1 hindex)
  rw [step, Machine.code_of_load hload, List.getElem?_toArray]
  cases hfetch : (ofListing listing)[state.pc]? with
  | none =>
      have hend := depthAt?_of_length_le (List.getElem?_eq_none_iff.1 hfetch)
      have hdepth : state.stack.depth = 0 := Option.some.inj (h.depth_eq.symm.trans hend)
      exact Amid.complete ⟨hdepth, hend, h.printed⟩ .normal
  | some instruction =>
      obtain ⟨after, hafter, hnext⟩ := exists_depthAfter? hfetch h.depth_eq
      -- What is executed counts the instruction already and points behind it.
      have hcounted : Amid (ofListing listing) state.stack.depth after
          { state with pc := state.pc + 1, steps := state.steps + 1 } :=
        ⟨rfl, hnext, h.printed⟩
      cases limits.exhausted? state.steps with
      | some limit => exact Amid.fail ⟨rfl, h.depth_eq, h.printed⟩ (Nat.le_refl _) rfl
      | none => exact hcounted.execute hafter hlabels state.pc

theorem balanced_start (code : Bytecode) (input : Machine.Input) (sink : Machine.Sink) :
    Balanced code (.start input sink) where
  depth_eq := depthAt?_zero code
  printed index hmem := by cases Array.mem_def.1 hmem

/-- The stack is balanced wherever the machine comes. -/
theorem balanced_of_reaches (hload : load (ofListing listing) = .ok loaded)
    {input : Machine.Input} {sink : Machine.Sink}
    (h : Machine.Reaches loaded limits (.start input sink) state) :
    Balanced (ofListing listing) state := by
  refine h.keeps ?_ (balanced_start _ input sink)
  intro before next hbefore hnext
  have hstep := stepsBalanced_step limits hload hbefore
  rwa [hnext] at hstep

/-- The stack is balanced however a run ends. -/
theorem stopsBalanced_of_ends (hload : load (ofListing listing) = .ok loaded)
    {input : Machine.Input} {sink : Machine.Sink} {outcome : Outcome}
    (h : Machine.Ends loaded limits (.start input sink) (state, outcome)) :
    StopsBalanced (ofListing listing) limits state outcome := by
  obtain ⟨before, hreaches, hstop⟩ := h.exists_reaches
  have hstep := stepsBalanced_step limits hload (balanced_of_reaches hload hreaches)
  rwa [hstop] at hstep

/-- A return without a value is one instruction, which finds the stack empty. -/
theorem step_ret_none (hload : load (ofListing listing) = .ok loaded) {position : Nat}
    (hreturn : listing[position]? = some (.ret none)) (hpc : state.pc = offset listing position)
    (hempty : state.stack = .empty) (hsteps : limits.exhausted? state.steps = none) :
    ∃ last, step loaded limits state = .stopped last (.completed (.returned none)) := by
  have hfetch : (ofListing listing)[state.pc]? = some .ret := by
    rw [hpc]
    exact (placed_ofInstruction hreturn).head
  rw [step, Machine.code_of_load hload, List.getElem?_toArray, hfetch]
  simp only [hsteps, Machine.execute, hempty, Machine.Stack.pop?_empty]
  exact ⟨_, rfl⟩

end Runs

/-- **Stack discipline.**  Wherever the machine comes in generated code, and however it ends, at most two
values are on the stack, none is in front of a block or after the last one, and nothing that was to be
printed was missing; a return without a value gives none.  A run never misses a value, never has too
many if two have room, and leaves none behind if it completes. -/
theorem stack_discipline {listing : Listing} {loaded : Loaded}
    (hload : load (ofListing listing) = .ok loaded) (limits : Limits) (input : Machine.Input)
    (sink : Machine.Sink) :
    (∀ state, Machine.Reaches loaded limits (.start input sink) state →
      state.stack.depth ≤ 2 ∧
      (∀ position, state.pc = offset listing position → state.stack = .empty) ∧
      (∀ index, .nothingToPrint index ∉ state.diagnostics) ∧
      ∀ position, listing[position]? = some (.ret none) → state.pc = offset listing position →
        limits.exhausted? state.steps = none →
        ∃ last, step loaded limits state = .stopped last (.completed (.returned none))) ∧
    ∀ last outcome, Machine.Ends loaded limits (.start input sink) (last, outcome) →
      last.stack.depth ≤ 2 ∧
      (∀ position, last.pc = offset listing position → last.stack = .empty) ∧
      (∀ index, .nothingToPrint index ∉ last.diagnostics) ∧
      (∀ index instruction, outcome ≠ .failed (.stackUnderflow index instruction)) ∧
      (2 ≤ limits.maxStackDepth → ∀ index limit, outcome ≠ .failed (.stackOverflow index limit)) ∧
      ∀ completion, outcome = .completed completion → last.stack = .empty := by
  constructor
  · intro state hreaches
    have hbalanced := balanced_of_reaches hload hreaches
    have hempty (position : Nat) (hpc : state.pc = offset listing position) :
        state.stack = .empty := by
      have hdepth := hbalanced.depth_eq
      rw [hpc, depthAt?_offset] at hdepth
      exact Machine.Stack.eq_empty_of_depth (Option.some.inj hdepth).symm
    refine ⟨depthAt?_le hbalanced.depth_eq, hempty, hbalanced.printed, ?_⟩
    intro position hreturn hpc hsteps
    exact step_ret_none hload hreturn hpc (hempty position hpc) hsteps
  · intro last outcome hends
    have hstops := stopsBalanced_of_ends hload hends
    obtain ⟨depth, hdepth, hle⟩ := hstops.depth_le
    refine ⟨Nat.le_trans hle (depthAt?_le hdepth), ?_, hstops.printed, hstops.underflow,
      hstops.overflow, hstops.completed⟩
    intro position hpc
    rw [hpc, depthAt?_offset] at hdepth
    obtain rfl := Option.some.inj hdepth
    exact Machine.Stack.eq_empty_of_depth (Nat.le_zero.1 hle)

/-- A listing that jumps from behind an operator over a print to its return. -/
def leap : Listing :=
  [.assign "x" (.operation .add (.number 1) (.name "y")), .branch (.name "x") "out",
    .print "" [.name "x"], .label "out", .ret none]

theorem stack_discipline_leap :
    ∃ loaded, load (ofListing leap) = .ok loaded ∧
      (∃ last, Machine.Ends loaded ⟨2, none⟩ (.start (.ofBytes []) .unlimited)
        (last, .completed (.returned none)) ∧ last.pc = 10 ∧ last.stack = .empty) ∧
      ∃ last, Machine.Ends loaded ⟨1, none⟩ (.start (.ofBytes []) .unlimited)
        (last, .failed (.stackOverflow 1 1)) ∧ last.stack.depth ≤ 2 := by
  obtain ⟨loaded, hload⟩ : ∃ loaded, load (ofListing leap) = .ok loaded := ⟨_, rfl⟩
  have hwide : (Machine.run loaded ⟨2, none⟩ 8 (.start (.ofBytes []) .unlimited)).map
      (fun ending => (ending.2, ending.1.pc)) = some (.completed (.returned none), 10) := by
    cases hload
    decide +kernel
  have hnarrow : (Machine.run loaded ⟨1, none⟩ 2 (.start (.ofBytes []) .unlimited)).map
      (fun ending => ending.2) = some (.failed (.stackOverflow 1 1)) := by
    cases hload
    decide +kernel
  obtain ⟨⟨last, outcome⟩, hrun, hresult⟩ := Option.map_eq_some_iff.1 hwide
  obtain ⟨⟨stuck, fault⟩, hstuck, rfl⟩ := Option.map_eq_some_iff.1 hnarrow
  simp only [Prod.mk.injEq] at hresult
  obtain ⟨rfl, hpc⟩ := hresult
  have hends := (stack_discipline hload ⟨2, none⟩ (.ofBytes []) .unlimited).2 last _ ⟨8, hrun⟩
  have hfails := (stack_discipline hload ⟨1, none⟩ (.ofBytes []) .unlimited).2 stuck _ ⟨2, hstuck⟩
  exact ⟨loaded, hload, ⟨last, ⟨8, hrun⟩, hpc, hends.2.2.2.2.2 _ rfl⟩, stuck, ⟨2, hstuck⟩, hfails.1⟩

end Bytecode

end StackPipeline
