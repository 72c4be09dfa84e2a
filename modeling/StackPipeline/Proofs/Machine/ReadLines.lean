import StackPipeline.Proofs.Machine.Channels
import StackPipeline.Proofs.Machine.Faults
import StackPipeline.Proofs.Machine.InputLines

/-!
What a run sees of its input: the lines that it takes, and nothing behind them.

A step that asks for no line does the same over any input.  A step that takes a line does the same over
any input that begins with this line.  So a run that took some lines goes the same way over every input
that begins with them, and what followed them is left as it was.  Only a run that asks for a line when
there is none sees that its input has ended.
-/

namespace StackPipeline.Machine

open Bytecode (Instruction)

def State.withInput (state : State) (input : Input) : State :=
  { state with input }

def Progress.withInput (input : Input) : Progress → Progress
  | .running state => .running (state.withInput input)
  | .stopped state outcome => .stopped (state.withInput input) outcome

/-- The state in which a line is asked for: the read is counted and its prompt is written. -/
def State.asking (state : State) (prompt : String) : State :=
  { state with pc := state.pc + 1, steps := state.steps + 1, sink := state.sink.write prompt }

/-- The prompt of the read that the next step executes, if it is a read whose prompt goes in. -/
def asked? (loaded : Loaded) (limits : Limits) (state : State) : Option String :=
  match loaded.code[state.pc]? with
  | some (.read prompt) =>
    if limits.exhausted? state.steps = none ∧ state.sink.hasRoom prompt.utf8ByteSize then
      some prompt
    else none
  | _ => none

/-- How many lines the next step obtains: one if it asks for a line and there is one. -/
def linesTaken (loaded : Loaded) (limits : Limits) (state : State) : Nat :=
  match asked? loaded limits state, state.input.takeLine.1 with
  | some _, .line _ => 1
  | _, _ => 0

/-- The machine that counts the lines it takes. -/
def counted (loaded : Loaded) (limits : Limits) : System (State × Nat) ((State × Outcome) × Nat) :=
  (system loaded limits).metered (linesTaken loaded limits)

/-- The machine stops with this state and outcome, and so many of its reads obtained a line. -/
def EndsTaking (loaded : Loaded) (limits : Limits) (start : State) (ending : State × Outcome)
    (count : Nat) : Prop :=
  (counted loaded limits).Ends (start, 0) (ending, count)

section Untouched

variable {loaded : Loaded} {limits : Limits} (state : State) (input : Input)

theorem write_withInput (text : String) :
    (state.withInput input).write text = (state.write text).withInput input := by
  rw [State.write, State.write, apply_ite (Progress.withInput input)]
  rfl

theorem Progress.mapChannels_eq_withInput (progress : Progress) :
    progress.mapChannels (fun _ => input) id = progress.withInput input := by
  cases progress <;> rfl

theorem push_withInput (index : Nat) (value : Value) :
    (state.withInput input).push limits index value =
      (state.push limits index value).withInput input := by
  rw [← Progress.mapChannels_eq_withInput]
  exact push_mapChannels (fun _ => input) id state index value

/-- No instruction but a read looks at the input. -/
theorem execute_withInput (index : Nat) {instruction : Instruction}
    (h : ∀ prompt, instruction ≠ .read prompt) :
    execute loaded limits index (state.withInput input) instruction =
      (execute loaded limits index state instruction).withInput input := by
  cases instruction with
  | read prompt => exact absurd rfl (h prompt)
  | printText text => exact write_withInput state input _
  | printTop =>
      simp only [execute, State.withInput]
      split
      · rfl
      · rename_i value rest hpop
        exact write_withInput { state with stack := rest } input _
  | _ =>
      rw [← Progress.mapChannels_eq_withInput]
      exact execute_mapChannels (fun _ => input) id state index rfl

/-- A step that asks for no line does the same over any input. -/
theorem step_withInput (h : asked? loaded limits state = none) :
    step loaded limits (state.withInput input) =
      (step loaded limits state).withInput input := by
  simp only [step, State.withInput]
  simp only [asked?] at h
  split
  · rfl
  · rename_i instruction hfetch
    split
    · rfl
    · rename_i hsteps
      cases instruction with
      | read prompt =>
          -- The prompt does not go in, so that the step stops before it asks.
          have hfull : ¬(state.sink.hasRoom prompt.utf8ByteSize = true) := by
            simpa [hfetch, hsteps] using h
          simp only [execute, State.readLine, State.write, if_neg hfull]
          rfl
      | _ =>
          exact execute_withInput { state with pc := _, steps := _ } input _ (by simp)

variable {state}

theorem linesTaken_withInput (h : asked? loaded limits state = none) :
    linesTaken loaded limits (state.withInput input) = 0 := by
  have hasks : asked? loaded limits (state.withInput input) = none := h
  simp only [linesTaken, hasks]

end Untouched

section Asking

variable {loaded : Loaded} {limits : Limits} {state : State} {prompt : String}

theorem asked?_eq_some_iff :
    asked? loaded limits state = some prompt ↔ loaded.code[state.pc]? = some (.read prompt) ∧
      limits.exhausted? state.steps = none ∧ state.sink.hasRoom prompt.utf8ByteSize = true := by
  rw [asked?]
  split
  · rename_i other hfetch
    rw [hfetch]
    constructor
    · intro h
      split at h
      · rename_i hasks
        cases h
        exact ⟨rfl, hasks⟩
      · cases h
    · rintro ⟨hread, hasks⟩
      cases hread
      rw [if_pos hasks]
  · rename_i hfetch
    constructor
    · intro h
      cases h
    · rintro ⟨hread, -⟩
      exact absurd hread (hfetch prompt)

/-- A step that asks for a line does what there is to do with the line it gets. -/
theorem step_of_asked (h : asked? loaded limits state = some prompt) :
    step loaded limits state =
      match state.input.takeLine with
      | (.closed, _) => (state.asking prompt).fail (.inputClosed state.pc)
      | (.failed error, input) => ((state.asking prompt).withInput input).fail (.system error)
      | (.line text, input) =>
        ((state.asking prompt).withInput input).push limits state.pc (.ofLine text) := by
  obtain ⟨hfetch, hsteps, hroom⟩ := asked?_eq_some_iff.1 h
  simp only [step, hfetch, hsteps, execute, State.readLine, State.write, hroom, if_true]
  rfl

theorem step_of_asked_nil (h : asked? loaded limits state = some prompt)
    (hinput : state.input = .ofText []) :
    step loaded limits state = (state.asking prompt).fail (.inputClosed state.pc) ∧
      linesTaken loaded limits state = 0 := by
  rw [step_of_asked h, linesTaken, h, hinput, takeLine_ofText_nil]
  exact ⟨rfl, rfl⟩

/-- With a line to take, a step does what its first line says and leaves what follows it. -/
theorem step_of_asked_line (h : asked? loaded limits state = some prompt) (text : List Char)
    (hne : text ≠ []) :
    step loaded limits (state.withInput (.ofText text)) =
        ((state.asking prompt).push limits state.pc
          (.ofLine (dropLineEnd (Text.firstLine text)))).withInput
            (.ofText (Text.afterLine text)) ∧
      linesTaken loaded limits (state.withInput (.ofText text)) = 1 := by
  have hasks : asked? loaded limits (state.withInput (.ofText text)) = some prompt := h
  have htake : (state.withInput (.ofText text)).input.takeLine = _ := takeLine_ofText hne
  rw [step_of_asked hasks, linesTaken, hasks, htake]
  exact ⟨push_withInput (state.asking prompt) _ state.pc _, rfl⟩

end Asking

/-- Over this text the next step takes so many lines, and it does the same over these lines with
anything behind them. -/
structure Takes (loaded : Loaded) (limits : Limits) (state : State) (text : List Char)
    (count : Nat) : Prop where
  count_eq : linesTaken loaded limits state = count
  length_eq : (Text.firstLines count text).length = count
  left : (step loaded limits state).state.input = .ofText (Text.afterLines count text)
  same : ∀ rest,
    step loaded limits
        (state.withInput (.ofText (Text.terminated (Text.firstLines count text) ++ rest))) =
      (step loaded limits state).withInput (.ofText rest)
  same_count : ∀ rest,
    linesTaken loaded limits
        (state.withInput (.ofText (Text.terminated (Text.firstLines count text) ++ rest))) = count

section Step

variable {loaded : Loaded} {limits : Limits} {state : State} {text : List Char}

theorem State.withInput_input (state : State) : state.withInput state.input = state := rfl

theorem Progress.state_withInput (progress : Progress) (input : Input) :
    (progress.withInput input).state.input = input := by
  cases progress <;> rfl

theorem Progress.withInput_withInput (progress : Progress) (first second : Input) :
    (progress.withInput first).withInput second = progress.withInput second := by
  cases progress <;> rfl

theorem takes_zero (hinput : state.input = .ofText text)
    (h : asked? loaded limits state = none) : Takes loaded limits state text 0 := by
  have hleft : (step loaded limits state).state.input = state.input := by
    have hself := step_withInput state state.input h
    rw [State.withInput_input] at hself
    rw [hself, Progress.state_withInput]
  exact ⟨linesTaken_withInput state.input h, rfl, hleft.trans hinput,
    fun rest => step_withInput state (.ofText rest) h,
    fun rest => linesTaken_withInput (.ofText rest) h⟩

theorem takes_one (hinput : state.input = .ofText text) {prompt : String}
    (h : asked? loaded limits state = some prompt) (hne : text ≠ []) :
    Takes loaded limits state text 1 := by
  obtain ⟨hfeed, -⟩ := Text.firstLine_cases text
  obtain ⟨hstep, hcount⟩ := step_of_asked_line h text hne
  rw [← hinput, State.withInput_input] at hstep hcount
  -- Behind its first line the text may go on in any other way.
  have hother (rest : List Char) :=
    step_of_asked_line h (Text.firstLine text ++ '\n' :: rest) (by simp)
  refine ⟨hcount, ?_, ?_, fun rest => ?_, fun rest => ?_⟩
  · rw [Text.firstLines_one hne]
    rfl
  · rw [hstep, Progress.state_withInput]
    rfl
  · rw [Text.firstLines_one hne, Text.terminated_singleton, (hother rest).1, hstep,
      Text.firstLine_append hfeed, Text.afterLine_append hfeed, Progress.withInput_withInput]
  · rw [Text.firstLines_one hne, Text.terminated_singleton, (hother rest).2]

/-- A step takes no line or one, or it asks for a line and there is none. -/
theorem takes_or_closed (loaded : Loaded) (limits : Limits) (hinput : state.input = .ofText text) :
    (∃ count, Takes loaded limits state text count) ∨
      text = [] ∧ ∃ prompt, asked? loaded limits state = some prompt := by
  cases hasks : asked? loaded limits state with
  | none => exact .inl ⟨0, takes_zero hinput hasks⟩
  | some prompt =>
      by_cases hne : text = []
      · exact .inr ⟨hne, prompt, rfl⟩
      · exact .inl ⟨1, takes_one hinput hasks hne⟩

end Step

section Runs

variable {loaded : Loaded} {limits : Limits}

theorem counted_of_running {state next : State} (h : step loaded limits state = .running next)
    (spent : Nat) :
    counted loaded limits (state, spent) =
      .running (next, spent + linesTaken loaded limits state) :=
  System.metered_of_running _ (system_eq_running_iff.2 h) spent

theorem counted_of_stopped {state last : State} {outcome : Outcome}
    (h : step loaded limits state = .stopped last outcome) (spent : Nat) :
    counted loaded limits (state, spent) =
      .stopped ((last, outcome), spent + linesTaken loaded limits state) :=
  System.metered_of_stopped _ (system_eq_stopped_iff.2 h) spent

/-- Every machine that ends has taken some number of lines. -/
theorem ends_iff_exists_endsTaking (start : State) (ending : State × Outcome) :
    Ends loaded limits start ending ↔ ∃ count, EndsTaking loaded limits start ending count := by
  rw [ends_iff]
  exact (System.ends_metered_iff (linesTaken loaded limits) start 0 ending).symm

/-- A run took this many lines of its text, left what follows them, and unless it met the end of the
input it goes the same way over these lines with anything behind them. -/
structure Took (loaded : Loaded) (limits : Limits) (fuel : Nat) (state : State) (spent : Nat)
    (text : List Char) (last : State) (outcome : Outcome) (count : Nat) : Prop where
  length_eq : (Text.firstLines count text).length = count
  left : last.input = .ofText (Text.afterLines count text)
  same : (∀ index, outcome ≠ .failed (.inputClosed index)) → ∀ rest,
    (counted loaded limits).run fuel
        (state.withInput (.ofText (Text.terminated (Text.firstLines count text) ++ rest)), spent) =
      some ((last.withInput (.ofText rest), outcome), spent + count)

/-- One more step before a run. -/
theorem Took.step {fuel first count spent : Nat} {state next last : State} {text : List Char}
    {outcome : Outcome} (hstep : step loaded limits state = .running next)
    (htakes : Takes loaded limits state text first)
    (h : Took loaded limits fuel next (spent + first) (Text.afterLines first text) last outcome
      count) :
    Took loaded limits (fuel + 1) state spent text last outcome (first + count) := by
  refine ⟨?_, ?_, fun hopen rest => ?_⟩
  · rw [Text.firstLines_add, List.length_append, htakes.length_eq, h.length_eq]
  · rw [Text.afterLines_add, h.left]
  · rw [Text.firstLines_add, Text.terminated_append, List.append_assoc]
    have hsame := htakes.same
      (Text.terminated (Text.firstLines count (Text.afterLines first text)) ++ rest)
    rw [hstep] at hsame
    rw [System.run_succ_of_running (counted_of_running hsame spent), htakes.same_count,
      h.same hopen rest, Nat.add_assoc]

/-- By induction on the fuel: what a run over a text took. -/
theorem took_of_run {fuel spent total : Nat} {state last : State} {text : List Char}
    {outcome : Outcome} (hinput : state.input = .ofText text)
    (h : (counted loaded limits).run fuel (state, spent) = some ((last, outcome), total)) :
    ∃ count, total = spent + count ∧
      Took loaded limits fuel state spent text last outcome count := by
  induction fuel generalizing state spent text with
  | zero => cases h
  | succ fuel ih =>
      rcases takes_or_closed loaded limits hinput with ⟨first, htakes⟩ | ⟨rfl, prompt, hasks⟩
      · cases hstep : step loaded limits state with
        | running next =>
            have hnext := htakes.left
            rw [System.run_succ_of_running (counted_of_running hstep spent), htakes.count_eq] at h
            rw [hstep] at hnext
            obtain ⟨count, rfl, htook⟩ := ih hnext h
            exact ⟨first + count, Nat.add_assoc .., htook.step hstep htakes⟩
        | stopped other ending =>
            rw [System.run_succ_of_stopped (counted_of_stopped hstep spent), htakes.count_eq] at h
            have hleft := htakes.left
            have hsame := htakes.same
            rw [hstep] at hleft hsame
            cases h
            refine ⟨first, rfl, htakes.length_eq, hleft, fun _ rest => ?_⟩
            rw [System.run_succ_of_stopped (counted_of_stopped (hsame rest) spent),
              htakes.same_count]
      · obtain ⟨hstep, hcount⟩ := step_of_asked_nil hasks hinput
        rw [System.run_succ_of_stopped (counted_of_stopped hstep spent), hcount] at h
        cases h
        exact ⟨0, rfl, rfl, hinput, fun hopen => absurd rfl (hopen state.pc)⟩

/-- All of the input that is left is a text. -/
theorem Reaches.exists_text {start state : State} (h : Reaches loaded limits start state)
    (hstart : ∃ text, start.input = .ofText text) : ∃ text, state.input = .ofText text := by
  have hkept (state : State) (hinput : ∃ text, state.input = .ofText text) :
      ∃ text, (step loaded limits state).state.input = .ofText text := by
    obtain ⟨text, hinput⟩ := hinput
    rcases takes_or_closed loaded limits hinput with ⟨count, htakes⟩ | ⟨rfl, prompt, hasks⟩
    · exact ⟨_, htakes.left⟩
    · rw [(step_of_asked_nil hasks hinput).1]
      exact ⟨[], hinput⟩
  exact h.keeps_state hkept hstart

/-- The step that ends with the input closed asks for a line when there is none. -/
theorem of_step_eq_inputClosed {state last : State} {text : List Char} {index : Nat}
    (hinput : state.input = .ofText text)
    (h : step loaded limits state = .stopped last (.failed (.inputClosed index))) :
    ∃ prompt, asked? loaded limits state = some prompt ∧ text = [] ∧ state.pc = index ∧
      last = state.asking prompt := by
  obtain ⟨limit, -, hfault, -⟩ | ⟨instruction, hfetch, hsteps, hfits⟩ := fitsAt_step h
  · cases hfault
  · obtain ⟨rfl, prompt, rfl⟩ := hfits
    have hasks : asked? loaded limits state = some prompt := by
      refine asked?_eq_some_iff.2 ⟨hfetch, hsteps, ?_⟩
      apply Decidable.byContradiction
      intro hfull
      simp [step, hfetch, hsteps, execute, State.readLine, State.write, hfull, State.fail] at h
    by_cases hne : text = []
    · subst hne
      rw [(step_of_asked_nil hasks hinput).1] at h
      cases h
      exact ⟨prompt, hasks, rfl, rfl, rfl⟩
    · have hstep := (step_of_asked_line hasks text hne).1
      rw [← hinput, State.withInput_input, h, State.push] at hstep
      split at hstep <;> cases hstep

/-- A read whose prompt does not go in ends the run. -/
theorem hasRoom_of_reaches {start state : State} {prompt : String}
    (hopen : ∀ last, ¬Ends loaded limits start (last, .failed (.system .outputFull)))
    (h : Reaches loaded limits start state)
    (hfetch : loaded.code[state.pc]? = some (.read prompt))
    (hsteps : limits.exhausted? state.steps = none) :
    state.sink.hasRoom prompt.utf8ByteSize = true := by
  apply Decidable.byContradiction
  intro hfull
  have hstep : step loaded limits state =
      .stopped (state.asking prompt) (.failed (.system .outputFull)) := by
    simp only [step, hfetch, hsteps, execute, State.readLine, State.write, if_neg hfull]
    rfl
  obtain ⟨count, hwalk⟩ := h
  apply hopen (state.asking prompt)
  rw [ends_iff, hwalk.ends_iff]
  exact .of_stopped (system_eq_stopped_iff.2 hstep)

/-- **A run sees of its input the lines that it takes.**  Over a text, with an output that does not fail,
a run that ends took some number of lines; that many are there, what follows them is left, and over the
same lines with anything else behind them the run ends in the same way and leaves that.  The one exception
is a run that ends because its input is closed, and it is one that comes to a read when nothing is left:
it has written the prompt then and changed nothing else. -/
theorem run_sees_only_lines_taken (loaded : Loaded) (limits : Limits) (text : List Char)
    (sink : Sink)
    (hopen : ∀ last, ¬Ends loaded limits (.start (.ofText text) sink)
      (last, .failed (.system .outputFull))) :
    (∀ ending, Ends loaded limits (.start (.ofText text) sink) ending ↔
      ∃ count, EndsTaking loaded limits (.start (.ofText text) sink) ending count) ∧
    (∀ last outcome count,
      EndsTaking loaded limits (.start (.ofText text) sink) (last, outcome) count →
        (Text.firstLines count text).length = count ∧
        last.input = .ofText (Text.afterLines count text) ∧
        ((∀ index, outcome ≠ .failed (.inputClosed index)) → ∀ rest,
          EndsTaking loaded limits
            (.start (.ofText (Text.terminated (Text.firstLines count text) ++ rest)) sink)
            (last.withInput (.ofText rest), outcome) count)) ∧
    ∀ last index,
      Ends loaded limits (.start (.ofText text) sink) (last, .failed (.inputClosed index)) ↔
        ∃ state prompt, Reaches loaded limits (.start (.ofText text) sink) state ∧
          loaded.code[state.pc]? = some (.read prompt) ∧
          limits.exhausted? state.steps = none ∧ state.input = .ofText [] ∧ state.pc = index ∧
          last = { state with
            pc := state.pc + 1, steps := state.steps + 1, sink := state.sink.write prompt } := by
  refine ⟨ends_iff_exists_endsTaking _, ?_, fun last index => ⟨fun hends => ?_, ?_⟩⟩
  · rintro last outcome total ⟨fuel, hrun⟩
    obtain ⟨count, rfl, htook⟩ := took_of_run rfl hrun
    rw [Nat.zero_add]
    refine ⟨htook.length_eq, htook.left, fun hclosed rest => ⟨fuel, ?_⟩⟩
    have hsame := htook.same hclosed rest
    rw [Nat.zero_add] at hsame
    exact hsame
  · obtain ⟨state, hreaches, hstop⟩ := hends.exists_reaches
    obtain ⟨rest, hinput⟩ := hreaches.exists_text ⟨text, rfl⟩
    obtain ⟨prompt, hasks, rfl, hpc, hlast⟩ := of_step_eq_inputClosed hinput hstop
    obtain ⟨hfetch, hsteps, -⟩ := asked?_eq_some_iff.1 hasks
    exact ⟨state, prompt, hreaches, hfetch, hsteps, hinput, hpc, hlast⟩
  · rintro ⟨state, prompt, hreaches, hfetch, hsteps, hinput, rfl, rfl⟩
    have hroom := hasRoom_of_reaches hopen hreaches hfetch hsteps
    have hstep := (step_of_asked_nil (asked?_eq_some_iff.2 ⟨hfetch, hsteps, hroom⟩) hinput).1
    obtain ⟨count, hwalk⟩ := hreaches
    rw [ends_iff, hwalk.ends_iff]
    exact .of_stopped (system_eq_stopped_iff.2 hstep)

theorem run_sees_only_lines_taken_crlf :
    ∃ last, EndsTaking ⟨#[.read "? "], .empty⟩ ⟨1, none⟩
        (.start (.ofText ['a', ' ', 'b', '\r', '\n', 'c']) .unlimited)
        (last, .completed .normal) 1 ∧
      last.input = .ofText ['c'] ∧
      EndsTaking ⟨#[.read "? "], .empty⟩ ⟨1, none⟩
        (.start (.ofText ['a', ' ', 'b', '\r', '\n', '\n', '7']) .unlimited)
        (last.withInput (.ofText ['\n', '7']), .completed .normal) 1 := by
  have hasks : asked? ⟨#[.read "? "], .empty⟩ ⟨1, none⟩
      (.start (.ofText ['a', ' ', 'b', '\r', '\n', 'c']) .unlimited) = some "? " := rfl
  have hread := step_of_asked_line hasks ['a', ' ', 'b', '\r', '\n', 'c'] (by simp)
  obtain ⟨last, htaking⟩ : ∃ last, EndsTaking ⟨#[.read "? "], .empty⟩ ⟨1, none⟩
      (.start (.ofText ['a', ' ', 'b', '\r', '\n', 'c']) .unlimited)
      (last, .completed .normal) 1 := by
    let last : State := ⟨1, 1, Stack.empty.push (.ofLine (dropLineEnd ['a', ' ', 'b', '\r'])),
      .empty, #[], .ofText ['c'], Sink.unlimited.write "? "⟩
    have hcounted : counted _ _ _ = .running (last, 0 + _) := counted_of_running hread.1 0
    rw [hread.2] at hcounted
    have hwalk := System.Walk.single hcounted
    exact ⟨last, (hwalk.ends_iff _).2 (.of_stopped rfl)⟩
  have hopen (other : State) : ¬Ends ⟨#[.read "? "], .empty⟩ ⟨1, none⟩
      (.start (.ofText ['a', ' ', 'b', '\r', '\n', 'c']) .unlimited)
      (other, .failed (.system .outputFull)) := by
    intro hfull
    cases hfull.unique ((ends_iff_exists_endsTaking _ _).2 ⟨1, htaking⟩)
  obtain ⟨-, hcounted, -⟩ := run_sees_only_lines_taken _ _ _ _ hopen
  obtain ⟨-, hleft, hsame⟩ := hcounted _ _ _ htaking
  exact ⟨last, htaking, hleft, hsame (by simp) ['\n', '7']⟩

end Runs

end StackPipeline.Machine
