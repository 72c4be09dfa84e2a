import StackPipeline.Machine.Run
import StackPipeline.Proofs.Stepping
import StackPipeline.Proofs.World

/-!
The machine as a system, and what its single steps do when nothing limits them.
-/

namespace StackPipeline.Machine

open Bytecode (Instruction)

/-- A step of the machine as a step of a system. -/
def Progress.next : Progress → Next State (State × Outcome)
  | .running state => .running state
  | .stopped state outcome => .stopped (state, outcome)

def system (loaded : Loaded) (limits : Limits) : System State (State × Outcome) :=
  fun state => (step loaded limits state).next

/-- A run of the machine is a run of the system. -/
theorem run_eq_run_system (loaded : Loaded) (limits : Limits) (fuel : Nat) (state : State) :
    run loaded limits fuel state = (system loaded limits).run fuel state := by
  induction fuel generalizing state with
  | zero => rfl
  | succ fuel ih =>
      rw [run, System.run, system]
      cases step loaded limits state with
      | running next => exact ih next
      | stopped last outcome => rfl

/-- The machine stops with this state and outcome, however long it takes. -/
def Ends (loaded : Loaded) (limits : Limits) (state : State) (ending : State × Outcome) : Prop :=
  ∃ fuel, run loaded limits fuel state = some ending

theorem ends_iff (loaded : Loaded) (limits : Limits) (state : State) (ending : State × Outcome) :
    Ends loaded limits state ending ↔ (system loaded limits).Ends state ending := by
  simp only [Ends, System.Ends, run_eq_run_system]

/-- The machine ends in one way only. -/
theorem Ends.unique {loaded : Loaded} {limits : Limits} {state : State}
    {ending other : State × Outcome} (h : Ends loaded limits state ending)
    (hother : Ends loaded limits state other) : ending = other :=
  System.Ends.unique ((ends_iff _ _ _ _).1 h) ((ends_iff _ _ _ _).1 hother)

/-- The machine comes to this state, however long it takes. -/
def Reaches (loaded : Loaded) (limits : Limits) (start state : State) : Prop :=
  ∃ count, (system loaded limits).Walk count start state

section System

variable {loaded : Loaded} {limits : Limits} {state : State}

theorem system_eq_running_iff {next : State} :
    system loaded limits state = .running next ↔ step loaded limits state = .running next := by
  rw [system]
  cases step loaded limits state <;> simp [Progress.next]

theorem system_eq_stopped_iff {last : State} {outcome : Outcome} :
    system loaded limits state = .stopped (last, outcome) ↔
      step loaded limits state = .stopped last outcome := by
  rw [system]
  cases step loaded limits state <;> simp [Progress.next]

end System

/-- What every step of the machine keeps holds wherever it comes. -/
theorem Reaches.keeps {loaded : Loaded} {limits : Limits} {kept : State → Prop}
    (hstep : ∀ state next, kept state → step loaded limits state = .running next → kept next)
    {start state : State} (h : Reaches loaded limits start state) (hstart : kept start) :
    kept state := by
  obtain ⟨count, hwalk⟩ := h
  refine hwalk.keeps ?_ hstart
  exact fun state next hkept hnext => hstep state next hkept (system_eq_running_iff.1 hnext)

/-- A machine that ends comes to a state in which it stops. -/
theorem Ends.exists_reaches {loaded : Loaded} {limits : Limits} {start last : State}
    {outcome : Outcome} (h : Ends loaded limits start (last, outcome)) :
    ∃ state, Reaches loaded limits start state ∧
      step loaded limits state = .stopped last outcome := by
  obtain ⟨count, state, hwalk, hstop⟩ := System.Ends.exists_walk ((ends_iff _ _ _ _).1 h)
  exact ⟨state, ⟨count, hwalk⟩, system_eq_stopped_iff.1 hstop⟩

section Kept

variable {loaded : Loaded} {limits : Limits} {kept : State → Prop}
  (hstep : ∀ state, kept state → kept (step loaded limits state).state) {start last : State}

include hstep

/-- What every step keeps, the last one included, holds wherever the machine comes. -/
theorem Reaches.keeps_state (h : Reaches loaded limits start last) (hstart : kept start) :
    kept last := by
  refine h.keeps ?_ hstart
  intro state next hkept hnext
  have hafter := hstep state hkept
  rwa [hnext] at hafter

/-- It also holds where the machine stops. -/
theorem Ends.keeps_state {outcome : Outcome} (h : Ends loaded limits start (last, outcome))
    (hstart : kept start) : kept last := by
  obtain ⟨state, hreaches, hstop⟩ := h.exists_reaches
  have hafter := hstep state (hreaches.keeps_state hstep hstart)
  rwa [hstop] at hafter

end Kept

/-- The state with its parts named in the order in which a step changes them. -/
def State.of (world : World) (diagnostics : Array Diagnostic) (pc steps : Nat) (stack : Stack) :
    State :=
  { pc, steps, stack, store := world.store, diagnostics, input := world.input, sink := world.sink }

/-- The fault that trouble at an instruction of stack code is. -/
def Fault.ofTrouble (index : Nat) (instruction : Instruction) : Trouble → Fault
  | .textCondition => .textCondition index instruction
  | .textOperand op left right => .textOperand index op left right
  | .unresolvedTransfer => .unresolvedTransfer index instruction
  | .inputClosed => .inputClosed index
  | .system error => .system error

/-- Different troubles are different faults. -/
theorem Fault.ofTrouble_injective {index other : Nat} {instruction another : Instruction}
    {trouble different : Trouble}
    (h : ofTrouble index instruction trouble = ofTrouble other another different) :
    trouble = different := by
  cases trouble <;> cases different <;> simp_all [ofTrouble]

section Steps

variable {loaded : Loaded} {limits : Limits} {world : World} {diagnostics : Array Diagnostic}
  {pc steps : Nat} {stack : Stack}

/-- Without a limit on the steps, a step executes the instruction it finds. -/
theorem system_of_fetch (hunlimited : limits.maxSteps = none) {instruction : Instruction}
    (hfetch : loaded.code[pc]? = some instruction) :
    system loaded limits (.of world diagnostics pc steps stack) =
      (execute loaded limits pc (.of world diagnostics (pc + 1) (steps + 1) stack)
        instruction).next := by
  simp only [system, step, State.of, hfetch, Limits.exhausted?, hunlimited]

theorem system_of_end (hfetch : loaded.code[pc]? = none) :
    system loaded limits (.of world diagnostics pc steps stack) =
      .stopped (.of world diagnostics pc steps stack, .completed .normal) := by
  simp only [system, step, State.of, hfetch, Progress.next]

theorem push_of (hroom : stack.depth < limits.maxStackDepth) (index : Nat) (value : Value) :
    (State.of world diagnostics pc steps stack).push limits index value =
      .running (.of world diagnostics pc steps (stack.push value)) :=
  if_neg (Nat.not_le_of_lt hroom)

theorem system_push (hunlimited : limits.maxSteps = none)
    (hroom : stack.depth < limits.maxStackDepth) {value : Float}
    (hfetch : loaded.code[pc]? = some (.push value)) :
    system loaded limits (.of world diagnostics pc steps stack) =
      .running (.of world diagnostics (pc + 1) (steps + 1) (stack.push (.number value))) := by
  rw [system_of_fetch hunlimited hfetch, execute, push_of hroom]
  rfl

theorem system_load (hunlimited : limits.maxSteps = none)
    (hroom : stack.depth < limits.maxStackDepth) {name : String}
    (hfetch : loaded.code[pc]? = some (.load name)) :
    system loaded limits (.of world diagnostics pc steps stack) =
      .running (.of world diagnostics (pc + 1) (steps + 1) (stack.push (world.valueOf name))) := by
  rw [system_of_fetch hunlimited hfetch, execute, push_of hroom]
  rfl

theorem system_store (hunlimited : limits.maxSteps = none) {name : String} {value : Value}
    (hfetch : loaded.code[pc]? = some (.store name)) :
    system loaded limits (.of world diagnostics pc steps (stack.push value)) =
      .running (.of (world.assign name value) diagnostics (pc + 1) (steps + 1) stack) := by
  rw [system_of_fetch hunlimited hfetch]
  rfl

/-- What an operator on the two topmost values notes. -/
def notesOf (pc : Nat) (op : Operator) (left right : Value) (diagnostics : Array Diagnostic) :
    Array Diagnostic :=
  if dividesByZero op left right then diagnostics.push (.divisionByZero pc) else diagnostics

theorem system_operate_some (hunlimited : limits.maxSteps = none) {op : Operator}
    {left right : Value} {result : Float} (hresult : operate? op left right = some result)
    (hfetch : loaded.code[pc]? = some (.operate op)) :
    system loaded limits (.of world diagnostics pc steps ((stack.push left).push right)) =
      .running (.of world (notesOf pc op left right diagnostics) (pc + 1) (steps + 1)
        (stack.push (.number result))) := by
  rw [system_of_fetch hunlimited hfetch]
  simp only [execute, State.operate, State.of, Stack.pop?_push, notesOf, hresult]
  cases dividesByZero op left right <;> rfl

/-- Only numbers are divided by zero, and the result is a number. -/
theorem dividesByZero_eq_false_of_operate?_eq_none {op : Operator} {left right : Value}
    (h : operate? op left right = none) : dividesByZero op left right = false := by
  cases left <;> cases right <;> cases op <;> first | rfl | cases h

theorem system_operate_none (hunlimited : limits.maxSteps = none) {op : Operator}
    {left right : Value} (hresult : operate? op left right = none)
    (hfetch : loaded.code[pc]? = some (.operate op)) :
    system loaded limits (.of world diagnostics pc steps ((stack.push left).push right)) =
      .stopped (.of world diagnostics (pc + 1) (steps + 1) stack,
        .failed (.textOperand pc op left right)) := by
  rw [system_of_fetch hunlimited hfetch]
  simp only [execute, State.operate, State.of, Stack.pop?_push, hresult,
    dividesByZero_eq_false_of_operate?_eq_none hresult]
  rfl

theorem system_jumpIfNonzero_text (hunlimited : limits.maxSteps = none) {label line : String}
    (hfetch : loaded.code[pc]? = some (.jumpIfNonzero label)) :
    system loaded limits (.of world diagnostics pc steps (stack.push (.text line))) =
      .stopped (.of world diagnostics (pc + 1) (steps + 1) stack,
        .failed (.textCondition pc (.jumpIfNonzero label))) := by
  rw [system_of_fetch hunlimited hfetch]
  rfl

theorem system_jumpIfNonzero_number (hunlimited : limits.maxSteps = none) {label : String}
    {x : Float} {target : Nat} (htarget : loaded.labels.get? label = some target)
    (hfetch : loaded.code[pc]? = some (.jumpIfNonzero label)) :
    system loaded limits (.of world diagnostics pc steps (stack.push (.number x))) =
      .running (.of world diagnostics (if x != 0 then target else pc + 1) (steps + 1) stack) := by
  rw [system_of_fetch hunlimited hfetch]
  simp only [execute, State.of, Stack.pop?_push, State.jump, htarget]
  split <;> rfl

theorem system_jump (hunlimited : limits.maxSteps = none) {label : String} {target : Nat}
    (htarget : loaded.labels.get? label = some target)
    (hfetch : loaded.code[pc]? = some (.jump label)) :
    system loaded limits (.of world diagnostics pc steps stack) =
      .running (.of world diagnostics target (steps + 1) stack) := by
  rw [system_of_fetch hunlimited hfetch]
  simp only [execute, State.of, State.jump, htarget, Progress.next]

theorem system_label (hunlimited : limits.maxSteps = none) {name : String}
    (hfetch : loaded.code[pc]? = some (.label name)) :
    system loaded limits (.of world diagnostics pc steps stack) =
      .running (.of world diagnostics (pc + 1) (steps + 1) stack) := by
  rw [system_of_fetch hunlimited hfetch]
  rfl

theorem write_of_done {text : String} {after : World} (h : world.write text = .done after ()) :
    (State.of world diagnostics pc steps stack).write text =
      .running (.of after diagnostics pc steps stack) := by
  by_cases hroom : world.sink.hasRoom text.utf8ByteSize = true
  · have hwrite : world.write text = .done { world with sink := world.sink.write text } () :=
      if_pos hroom
    obtain rfl := (Trial.done.inj (h.symm.trans hwrite)).1
    exact if_pos hroom
  · have hwrite : world.write text = .failed _ _ := if_neg hroom
    cases h.symm.trans hwrite

/-- Writing fails without an index, so it does not matter where it is said to fail. -/
theorem write_of_failed {text : String} {after : World} {trouble : Trouble}
    (h : world.write text = .failed after trouble) (index : Nat) (instruction : Instruction) :
    (State.of world diagnostics pc steps stack).write text =
      .stopped (.of after diagnostics pc steps stack)
        (.failed (.ofTrouble index instruction trouble)) := by
  by_cases hroom : world.sink.hasRoom text.utf8ByteSize = true
  · have hwrite : world.write text = .done _ () := if_pos hroom
    cases h.symm.trans hwrite
  · have hwrite : world.write text =
        .failed { world with sink := world.sink.write text } (.system .outputFull) :=
      if_neg hroom
    obtain ⟨rfl, rfl⟩ := Trial.failed.inj (h.symm.trans hwrite)
    exact if_neg hroom

theorem system_printText_done (hunlimited : limits.maxSteps = none) {text : String}
    {after : World} (hwrite : world.write (text ++ "\n") = .done after ())
    (hfetch : loaded.code[pc]? = some (.printText text)) :
    system loaded limits (.of world diagnostics pc steps stack) =
      .running (.of after diagnostics (pc + 1) (steps + 1) stack) := by
  rw [system_of_fetch hunlimited hfetch, execute, write_of_done hwrite]
  rfl

theorem system_printText_failed (hunlimited : limits.maxSteps = none) {text : String}
    {after : World} {trouble : Trouble} (hwrite : world.write (text ++ "\n") = .failed after trouble)
    (hfetch : loaded.code[pc]? = some (.printText text)) :
    system loaded limits (.of world diagnostics pc steps stack) =
      .stopped (.of after diagnostics (pc + 1) (steps + 1) stack,
        .failed (.ofTrouble pc (.printText text) trouble)) := by
  rw [system_of_fetch hunlimited hfetch, execute, write_of_failed hwrite pc (.printText text)]
  rfl

theorem system_printTop_done (hunlimited : limits.maxSteps = none) {value : Value}
    {after : World} (hwrite : world.write (value.render ++ "\n") = .done after ())
    (hfetch : loaded.code[pc]? = some .printTop) :
    system loaded limits (.of world diagnostics pc steps (stack.push value)) =
      .running (.of after diagnostics (pc + 1) (steps + 1) stack) := by
  rw [system_of_fetch hunlimited hfetch]
  change ((State.of world diagnostics (pc + 1) (steps + 1) stack).write
    (value.render ++ "\n")).next = _
  rw [write_of_done hwrite]
  rfl

theorem system_printTop_failed (hunlimited : limits.maxSteps = none) {value : Value}
    {after : World} {trouble : Trouble}
    (hwrite : world.write (value.render ++ "\n") = .failed after trouble)
    (hfetch : loaded.code[pc]? = some .printTop) :
    system loaded limits (.of world diagnostics pc steps (stack.push value)) =
      .stopped (.of after diagnostics (pc + 1) (steps + 1) stack,
        .failed (.ofTrouble pc .printTop trouble)) := by
  rw [system_of_fetch hunlimited hfetch]
  change ((State.of world diagnostics (pc + 1) (steps + 1) stack).write
    (value.render ++ "\n")).next = _
  rw [write_of_failed hwrite pc .printTop]
  rfl

theorem system_read_done (hunlimited : limits.maxSteps = none)
    (hroom : stack.depth < limits.maxStackDepth) {prompt : String} {after : World} {value : Value}
    (hread : world.readLine prompt = .done after value)
    (hfetch : loaded.code[pc]? = some (.read prompt)) :
    system loaded limits (.of world diagnostics pc steps stack) =
      .running (.of after diagnostics (pc + 1) (steps + 1) (stack.push value)) := by
  rw [system_of_fetch hunlimited hfetch, execute, State.readLine]
  rw [World.readLine] at hread
  cases hwrite : world.write prompt with
  | failed other trouble => simp [hwrite] at hread
  | done written =>
      rw [write_of_done hwrite]
      simp only [hwrite] at hread
      simp only [State.of]
      cases hline : written.input.takeLine with
      | mk result input =>
          cases result with
          | closed => simp [hline] at hread
          | failed error => simp [hline] at hread
          | line text =>
              simp only [hline, Trial.done.injEq] at hread
              obtain ⟨rfl, rfl⟩ := hread
              have hpush : (State.of { written with input } diagnostics (pc + 1) (steps + 1)
                  stack).push limits pc (.ofLine text) = .running _ :=
                push_of hroom pc (.ofLine text)
              exact congrArg Progress.next hpush

theorem system_read_failed (hunlimited : limits.maxSteps = none) {prompt : String}
    {after : World} {trouble : Trouble} (hread : world.readLine prompt = .failed after trouble)
    (hfetch : loaded.code[pc]? = some (.read prompt)) :
    system loaded limits (.of world diagnostics pc steps stack) =
      .stopped (.of after diagnostics (pc + 1) (steps + 1) stack,
        .failed (.ofTrouble pc (.read prompt) trouble)) := by
  rw [system_of_fetch hunlimited hfetch, execute, State.readLine]
  rw [World.readLine] at hread
  cases hwrite : world.write prompt with
  | failed other another =>
      rw [write_of_failed hwrite pc (.read prompt)]
      simp only [hwrite, Trial.failed.injEq] at hread
      obtain ⟨rfl, rfl⟩ := hread
      rfl
  | done written =>
      rw [write_of_done hwrite]
      simp only [hwrite] at hread
      simp only [State.of]
      cases hline : written.input.takeLine with
      | mk result input =>
          cases result with
          | closed =>
              simp only [hline, Trial.failed.injEq] at hread
              obtain ⟨rfl, rfl⟩ := hread
              rfl
          | failed error =>
              simp only [hline, Trial.failed.injEq] at hread
              obtain ⟨rfl, rfl⟩ := hread
              rfl
          | line text => simp [hline] at hread

theorem system_breakLoop (hunlimited : limits.maxSteps = none)
    (hfetch : loaded.code[pc]? = some .breakLoop) :
    system loaded limits (.of world diagnostics pc steps stack) =
      .stopped (.of world diagnostics (pc + 1) (steps + 1) stack,
        .failed (.unresolvedTransfer pc .breakLoop)) := by
  rw [system_of_fetch hunlimited hfetch]
  rfl

theorem system_continueLoop (hunlimited : limits.maxSteps = none)
    (hfetch : loaded.code[pc]? = some .continueLoop) :
    system loaded limits (.of world diagnostics pc steps stack) =
      .stopped (.of world diagnostics (pc + 1) (steps + 1) stack,
        .failed (.unresolvedTransfer pc .continueLoop)) := by
  rw [system_of_fetch hunlimited hfetch]
  rfl

theorem system_ret_empty (hunlimited : limits.maxSteps = none)
    (hfetch : loaded.code[pc]? = some .ret) :
    system loaded limits (.of world diagnostics pc steps .empty) =
      .stopped (.of world diagnostics (pc + 1) (steps + 1) .empty,
        .completed (.returned none)) := by
  rw [system_of_fetch hunlimited hfetch]
  rfl

theorem system_ret_push (hunlimited : limits.maxSteps = none) {value : Value}
    (hfetch : loaded.code[pc]? = some .ret) :
    system loaded limits (.of world diagnostics pc steps (stack.push value)) =
      .stopped (.of world diagnostics (pc + 1) (steps + 1) stack,
        .completed (.returned (some value))) := by
  rw [system_of_fetch hunlimited hfetch]
  rfl

end Steps

end StackPipeline.Machine
