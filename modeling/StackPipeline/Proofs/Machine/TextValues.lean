import StackPipeline.Proofs.Machine.Faults
import StackPipeline.Proofs.Machine.InputLines

/-!
Texts among the values of a run: where they come from, and that printing one and reading the line gives
it back.

Every value that is held after a step was held before it, is a number, or is a line that this step has
read.  So a text is always a line that was read as no number, and without a line read there is none.
-/

namespace StackPipeline.Machine

open Bytecode (Instruction)

/-- A text that reading takes from its own line as it is. -/
structure IsTextLine (text : String) : Prop where
  no_feed : '\n' ∉ text.toList
  no_return : text.toList.getLast? ≠ some '\r'
  no_integer : Number.readInteger? (Text.trim text.toList) = none
  no_number : Number.read? (Text.trim text.toList) = none

/-- A value is on the stack or in a variable. -/
def State.Holds (state : State) (value : Value) : Prop :=
  value ∈ state.stack.values ∨ ∃ name, state.store.get? name = some value

/-- A text was where an operator or a condition wants numbers. -/
def Fault.IsTypeError : Fault → Prop
  | .textCondition _ _ => True
  | .textOperand _ _ _ _ => True
  | _ => False

section Lines

theorem ofLine_eq_text_iff {line : List Char} {text : String} :
    Value.ofLine line = .text text ↔ text = String.ofList line ∧
      Number.readInteger? (Text.trim line) = none ∧ Number.read? (Text.trim line) = none := by
  simp only [Value.ofLine]
  cases hinteger : Number.readInteger? (Text.trim line) with
  | some n => simp
  | none =>
      cases hnumber : Number.read? (Text.trim line) with
      | some x => simp
      | none => simp [eq_comm]

/-- A line that is read as a text. -/
theorem isTextLine_of_takeLine {input rest : Input} {line : List Char} {text : String}
    (htake : input.takeLine = (.line line, rest)) (h : Value.ofLine line = .text text) :
    IsTextLine text := by
  obtain ⟨rfl, hinteger, hnumber⟩ := ofLine_eq_text_iff.1 h
  obtain ⟨hfeed, hreturn⟩ := of_takeLine_eq_line htake
  constructor <;> rwa [String.toList_ofList]

/-- The line that is written for a text is read as this text. -/
theorem IsTextLine.takeLine {text : String} (h : IsTextLine text) (rest : List UInt8)
    (failure : Option SystemError) :
    Input.takeLine ⟨Text.Utf8.encode (text ++ "\n") ++ rest, failure⟩ =
        (.line text.toList, ⟨rest, failure⟩) ∧
      Value.ofLine text.toList = .text text := by
  have hline : text ++ "\n" = String.ofList (text.toList ++ ['\n']) := by
    apply String.toList_inj.1
    simp
  refine ⟨?_, ofLine_eq_text_iff.2 ⟨String.ofList_toList.symm, h.no_integer, h.no_number⟩⟩
  rw [hline, takeLine_append h.no_feed, dropLineEnd_eq_self h.no_feed h.no_return]

end Lines

section Origin

variable {loaded : Loaded} {limits : Limits} {state : State} {value : Value}

theorem Stack.values_of_pop? {stack rest : Stack} {top : Value}
    (h : stack.pop? = some (top, rest)) : stack.values = top :: rest.values := by
  obtain ⟨values, depth, hdepth⟩ := stack
  cases values with
  | nil => cases h
  | cons first below =>
      cases h
      rfl

/-- Where a value comes from that is held after an instruction: from before, from the operator or the
literal, or from a line of input. -/
def Comes (instruction : Instruction) (before : State) (value : Value) : Prop :=
  before.Holds value ∨ (∃ x, value = .number x) ∨
    ∃ prompt line rest, instruction = .read prompt ∧
      before.input.takeLine = (.line line, rest) ∧ value = .ofLine line

/-- What is held after taking a value off the stack was held before. -/
theorem holds_of_pop {top : Value} {rest : Stack} (hpop : state.stack.pop? = some (top, rest))
    (h : State.Holds { state with stack := rest } value) : state.Holds value := by
  rcases h with hmem | hstore
  · left
    rw [Stack.values_of_pop? hpop]
    exact List.mem_cons_of_mem top hmem
  · exact .inr hstore

theorem holds_push {index : Nat} {top : Value}
    (h : (state.push limits index top).state.Holds value) : value = top ∨ state.Holds value := by
  rw [State.push] at h
  split at h
  · exact .inr h
  · rcases h with hmem | hstore
    · rcases List.mem_cons.1 hmem with rfl | hmem
      · exact .inl rfl
      · exact .inr (.inl hmem)
    · exact .inr (.inr hstore)

theorem holds_write {text : String} (h : (state.write text).state.Holds value) :
    state.Holds value := by
  rcases write_cases state text with heq | heq
  · rw [heq] at h
    exact h
  · rw [heq] at h
    exact h

theorem holds_jump {label : String} (h : (state.jump loaded label).Holds value) :
    state.Holds value := by
  rw [State.jump] at h
  split at h <;> exact h

/-- A variable has a value that is held, or is zero. -/
theorem holds_valueOf (state : State) (name : String) :
    state.Holds (state.valueOf name) ∨ state.valueOf name = .number 0 := by
  rw [State.valueOf]
  cases hstore : state.store.get? name with
  | none => exact .inr rfl
  | some found => exact .inl (.inr ⟨name, hstore⟩)

theorem comes_operate {index : Nat} {op : Operator}
    (h : (state.operate index op).state.Holds value) : Comes (.operate op) state value := by
  rw [State.operate] at h
  split at h
  · exact .inl h
  · rename_i right below hright
    split at h
    · exact .inl h
    · rename_i left rest hleft
      -- Whatever is noted, below the result is what was below the operands.
      have hrest (other : State) (hstack : other.stack = rest) (hstore : other.store = state.store)
          (hother : other.Holds value) : state.Holds value := by
        have hheld : State.Holds { state with stack := rest } value := by
          rwa [State.Holds, hstack, hstore] at hother
        exact holds_of_pop hright (holds_of_pop hleft hheld)
      dsimp only at h
      split at h
      · rename_i result hresult
        rcases h with hmem | hstore
        · rcases List.mem_cons.1 hmem with rfl | hmem
          · exact .inr (.inl ⟨result, rfl⟩)
          · exact .inl (hrest { state with stack := rest } rfl rfl (.inl hmem))
        · refine .inl (.inr ?_)
          split at hstore <;> exact hstore
      · refine .inl (hrest _ rfl ?_ h)
        split <;> rfl

theorem comes_readLine {index : Nat} {prompt : String}
    (h : (state.readLine limits index prompt).state.Holds value) :
    Comes (.read prompt) state value := by
  rw [State.readLine] at h
  rcases write_cases state prompt with heq | heq
  · rw [heq] at h
    dsimp only at h
    rcases htake : state.input.takeLine with ⟨line | _ | error, input⟩
    · rw [htake] at h
      rcases holds_push h with rfl | h
      · exact .inr (.inr ⟨prompt, line, input, rfl, htake, rfl⟩)
      · exact .inl h
    · rw [htake] at h
      exact .inl h
    · rw [htake] at h
      exact .inl h
  · rw [heq] at h
    exact .inl h

theorem comes_execute {index : Nat} {instruction : Instruction}
    (h : (execute loaded limits index state instruction).state.Holds value) :
    Comes instruction state value := by
  cases instruction with
  | push number =>
      rcases holds_push h with rfl | h
      · exact .inr (.inl ⟨number, rfl⟩)
      · exact .inl h
  | load name =>
      rcases holds_push h with rfl | h
      · rcases holds_valueOf state name with hheld | hzero
        · exact .inl hheld
        · exact .inr (.inl ⟨0, hzero⟩)
      · exact .inl h
  | store name =>
      rw [execute] at h
      split at h
      · exact .inl h
      · rename_i top rest hpop
        left
        rcases h with hmem | ⟨other, hother⟩
        · exact holds_of_pop hpop (.inl hmem)
        · change (state.store.set name top).get? other = some value at hother
          rw [Store.get?_set] at hother
          split at hother
          · obtain rfl := Option.some.inj hother
            exact .inl (Stack.values_of_pop? hpop ▸ List.mem_cons_self)
          · exact .inr ⟨other, hother⟩
  | operate op => exact comes_operate h
  | jumpIfNonzero label =>
      left
      rw [execute] at h
      split at h
      · exact h
      · rename_i hpop
        exact holds_of_pop hpop h
      · rename_i hpop
        split at h
        · exact holds_of_pop hpop (holds_jump h)
        · exact holds_of_pop hpop h
  | jump label => exact .inl (holds_jump h)
  | label name => exact .inl h
  | printText text => exact .inl (holds_write h)
  | printTop =>
      left
      rw [execute] at h
      split at h
      · exact h
      · rename_i hpop
        exact holds_of_pop hpop (holds_write h)
  | read prompt => exact comes_readLine h
  | breakLoop => exact .inl h
  | continueLoop => exact .inl h
  | ret =>
      left
      rw [execute] at h
      split at h
      · exact h
      · rename_i hpop
        exact holds_of_pop hpop h

/-- A text that is held after a step was held before, or the step has read it. -/
theorem text_of_step {text : String} (h : (step loaded limits state).state.Holds (.text text)) :
    state.Holds (.text text) ∨
      ∃ prompt line rest, loaded.code[state.pc]? = some (.read prompt) ∧
        limits.exhausted? state.steps = none ∧ state.input.takeLine = (.line line, rest) ∧
        Value.ofLine line = .text text := by
  rw [step] at h
  split at h
  · exact .inl h
  · rename_i instruction hfetch
    split at h
    · exact .inl h
    · rename_i hsteps
      rcases comes_execute h with hheld | ⟨x, hnumber⟩ | ⟨prompt, line, rest, rfl, htake, htext⟩
      · exact .inl hheld
      · cases hnumber
      · exact .inr ⟨prompt, line, rest, hfetch, hsteps, htake, htext.symm⟩

end Origin

section TypeErrors

variable {loaded : Loaded} {limits : Limits} {state last : State} {fault : Fault}

/-- An operator has a result on numbers. -/
theorem exists_text_of_operate? {op : Operator} {left right : Value}
    (h : operate? op left right = none) : ∃ text, left = .text text ∨ right = .text text := by
  cases left with
  | text text => exact ⟨text, .inl rfl⟩
  | number x =>
      cases right with
      | text text => exact ⟨text, .inr rfl⟩
      | number y => cases h

theorem exists_text_of_operate {index : Nat} {op : Operator}
    (h : state.operate index op = .stopped last (.failed fault)) (htype : fault.IsTypeError) :
    ∃ text, state.Holds (.text text) := by
  rw [State.operate] at h
  split at h
  · cases h
    exact htype.elim
  · rename_i right below hright
    split at h
    · cases h
      exact htype.elim
    · rename_i left rest hleft
      dsimp only at h
      split at h
      · cases h
      · rename_i hresult
        have hvalues : state.stack.values = right :: left :: rest.values := by
          rw [Stack.values_of_pop? hright, Stack.values_of_pop? hleft]
        obtain ⟨text, rfl | rfl⟩ := exists_text_of_operate? hresult
        · exact ⟨text, .inl (by simp [hvalues])⟩
        · exact ⟨text, .inl (by simp [hvalues])⟩

theorem exists_text_of_jumpIfNonzero {index : Nat} {label : String}
    (h : execute loaded limits index state (.jumpIfNonzero label) = .stopped last (.failed fault))
    (htype : fault.IsTypeError) : ∃ text, state.Holds (.text text) := by
  rw [execute] at h
  split at h
  · cases h
    exact htype.elim
  · rename_i text rest hpop
    exact ⟨text, .inl (Stack.values_of_pop? hpop ▸ List.mem_cons_self)⟩
  · split at h <;> cases h

/-- Nothing but a text makes a step fail with a type error. -/
theorem exists_text_of_step (h : step loaded limits state = .stopped last (.failed fault))
    (htype : fault.IsTypeError) : ∃ text, state.Holds (.text text) := by
  rcases fitsAt_step h with ⟨limit, -, rfl, -⟩ | ⟨instruction, hfetch, hsteps, hfits⟩
  · exact htype.elim
  · -- After the count of the instruction the same values are held.
    have hheld : ∃ text, State.Holds
        { state with pc := state.pc + 1, steps := state.steps + 1 } (.text text) := by
      simp only [step, hfetch, hsteps] at h
      cases fault with
      | textCondition index failed =>
          obtain ⟨-, -, label, rfl⟩ := hfits
          exact exists_text_of_jumpIfNonzero h htype
      | textOperand index op left right =>
          obtain ⟨-, rfl⟩ := hfits
          exact exists_text_of_operate h htype
      | _ => exact htype.elim
    exact hheld

end TypeErrors

section Runs

variable {loaded : Loaded} {limits : Limits}

theorem not_holds_start (input : Input) (sink : Sink) (value : Value) :
    ¬(State.start input sink).Holds value := by
  rintro (hmem | ⟨name, hstore⟩)
  · cases hmem
  · cases hstore

/-- All texts are lines that were read as texts. -/
def State.HoldsTextLines (state : State) : Prop :=
  ∀ text, state.Holds (.text text) → IsTextLine text

theorem holdsTextLines_step {state : State} (h : state.HoldsTextLines) :
    (step loaded limits state).state.HoldsTextLines := by
  intro text htext
  rcases text_of_step htext with hheld | ⟨prompt, line, rest, -, -, htake, hline⟩
  · exact h text hheld
  · exact isTextLine_of_takeLine htake hline

theorem holdsTextLines_start (input : Input) (sink : Sink) :
    (State.start input sink).HoldsTextLines :=
  fun _ htext => absurd htext (not_holds_start input sink _)

/-- The run comes to no instruction that reads a line. -/
def ReadsNothing (loaded : Loaded) (limits : Limits) (start : State) : Prop :=
  ∀ state, Reaches loaded limits start state → limits.exhausted? state.steps = none →
    ∀ prompt, loaded.code[state.pc]? ≠ some (.read prompt)

theorem ReadsNothing.not_holds {start state : State} (hreads : ReadsNothing loaded limits start)
    (hstart : ∀ text, ¬start.Holds (.text text)) (hreaches : Reaches loaded limits start state)
    (text : String) : ¬state.Holds (.text text) := by
  obtain ⟨count, hwalk⟩ := hreaches
  have hstep (before after : State)
      (h : Reaches loaded limits start before ∧ ∀ text, ¬before.Holds (.text text))
      (hstep : system loaded limits before = .running after) :
      Reaches loaded limits start after ∧ ∀ text, ¬after.Holds (.text text) := by
    obtain ⟨⟨steps, hbefore⟩, hnone⟩ := h
    refine ⟨⟨steps + 1, hbefore.trans (.single hstep)⟩, fun text htext => ?_⟩
    have hafter : (step loaded limits before).state = after := by
      rw [system_eq_running_iff.1 hstep]
      rfl
    rw [← hafter] at htext
    rcases text_of_step htext with hheld | ⟨prompt, -, -, hfetch, hsteps, -⟩
    · exact hnone text hheld
    · exact hreads before ⟨steps, hbefore⟩ hsteps prompt hfetch
  exact (hwalk.keeps hstep ⟨⟨0, .refl start⟩, hstart⟩).2 text

end Runs

section Channel

/-- A text that goes in is written as a whole. -/
theorem Sink.bytes_write {sink : Sink} {text : String}
    (h : sink.hasRoom text.utf8ByteSize = true) :
    (sink.write text).bytes = sink.bytes ++ text.toUTF8 := by
  obtain ⟨bytes, _ | limit⟩ := sink
  · rfl
  · have hsize : (bytes ++ text.toUTF8).size ≤ limit := by
      rw [ByteArray.size_append]
      simpa [Sink.hasRoom] using h
    simp only [Sink.write, if_pos hsize]

end Channel

/-- Any machine that reads takes this text from its line, if it has room for a prompt and a value. -/
def IsReadBack (text : String) : Prop :=
  ∀ loaded limits state prompt rest failure, loaded.code[state.pc]? = some (.read prompt) →
    Limits.exhausted? limits state.steps = none →
    state.sink.hasRoom prompt.utf8ByteSize = true → state.stack.depth < limits.maxStackDepth →
    state.input = ⟨Text.Utf8.encode (text ++ "\n") ++ rest, failure⟩ →
    step loaded limits state =
      .running { state with
        pc := state.pc + 1
        steps := state.steps + 1
        stack := state.stack.push (.text text)
        input := ⟨rest, failure⟩
        sink := state.sink.write prompt }

theorem IsTextLine.isReadBack {text : String} (h : IsTextLine text) : IsReadBack text := by
  intro loaded limits state prompt rest failure hfetch hsteps hroom hdepth hinput
  obtain ⟨htake, hvalue⟩ := h.takeLine rest failure
  simp only [step, hfetch, hsteps, execute, State.readLine, State.write, hroom, if_true, hinput,
    htake, hvalue, State.push, if_neg (Nat.not_le_of_lt hdepth)]

/-- A print of a text that goes in writes its line. -/
theorem step_printTop_text {loaded : Loaded} {limits : Limits} {state : State} {text : String}
    {below : Stack} (hfetch : loaded.code[state.pc]? = some .printTop)
    (hsteps : limits.exhausted? state.steps = none)
    (hpop : state.stack.pop? = some (.text text, below))
    (hroom : state.sink.hasRoom (text ++ "\n").utf8ByteSize = true) :
    ∃ sink, step loaded limits state =
        .running { state with pc := state.pc + 1, steps := state.steps + 1, stack := below, sink } ∧
      sink.bytes.data.toList =
        state.sink.bytes.data.toList ++ Text.Utf8.encode (text ++ "\n") := by
  have hrender : (Value.text text).render = text := String.ofList_toList
  refine ⟨state.sink.write (text ++ "\n"), ?_, ?_⟩
  · simp only [step, hfetch, hsteps, execute, hpop, hrender, State.write, hroom, if_true]
  · rw [Sink.bytes_write hroom]
    simp [Text.Utf8.encode]

/-- **A text survives being printed and read.**  Wherever a run comes and wherever it stops, a text that
it holds is a line that reads as no number, and any machine that reads this line takes the same text from
it; a print of the text writes just this line.  No other instruction brings a text that was not there, and
a run that reads nothing holds none and meets no type error. -/
theorem texts_survive_print_and_read (loaded : Loaded) (limits : Limits) (input : Input)
    (sink : Sink) :
    (∀ state, Reaches loaded limits (.start input sink) state → ∀ text,
      state.Holds (.text text) → IsTextLine text ∧ IsReadBack text) ∧
    (∀ last outcome, Ends loaded limits (.start input sink) (last, outcome) → ∀ text,
      last.Holds (.text text) → IsTextLine text ∧ IsReadBack text) ∧
    (∀ state text below, loaded.code[state.pc]? = some .printTop →
      limits.exhausted? state.steps = none → state.stack.pop? = some (.text text, below) →
      state.sink.hasRoom (text ++ "\n").utf8ByteSize = true →
      ∃ sink, step loaded limits state =
          .running { state with
            pc := state.pc + 1, steps := state.steps + 1, stack := below, sink } ∧
        sink.bytes.data.toList =
          state.sink.bytes.data.toList ++ Text.Utf8.encode (text ++ "\n")) ∧
    (∀ state, (∀ prompt, loaded.code[state.pc]? ≠ some (.read prompt)) → ∀ text,
      (step loaded limits state).state.Holds (.text text) → state.Holds (.text text)) ∧
    (ReadsNothing loaded limits (.start input sink) →
      (∀ state, Reaches loaded limits (.start input sink) state → ∀ text,
        ¬state.Holds (.text text)) ∧
      ∀ last outcome, Ends loaded limits (.start input sink) (last, outcome) →
        (∀ text, ¬last.Holds (.text text)) ∧
        ∀ fault, outcome = .failed fault → ¬fault.IsTypeError) := by
  have hkept (state : State) (h : state.HoldsTextLines) :
      (step loaded limits state).state.HoldsTextLines := holdsTextLines_step h
  have hstart := holdsTextLines_start input sink
  refine ⟨?_, ?_, ?_, ?_, ?_⟩
  · intro state hreaches text htext
    have hline := hreaches.keeps_state hkept hstart text htext
    exact ⟨hline, hline.isReadBack⟩
  · intro last outcome hends text htext
    have hline := hends.keeps_state hkept hstart text htext
    exact ⟨hline, hline.isReadBack⟩
  · exact fun state text below hfetch hsteps hpop hroom =>
      step_printTop_text hfetch hsteps hpop hroom
  · intro state hfetch text htext
    rcases text_of_step htext with hheld | ⟨prompt, -, -, hread, -⟩
    · exact hheld
    · exact absurd hread (hfetch prompt)
  · intro hreads
    have hnone (state : State) (hreaches : Reaches loaded limits (.start input sink) state)
        (text : String) : ¬state.Holds (.text text) :=
      hreads.not_holds (fun _ => not_holds_start input sink _) hreaches text
    refine ⟨hnone, fun last outcome hends => ?_⟩
    obtain ⟨state, hreaches, hstop⟩ := hends.exists_reaches
    refine ⟨fun text htext => ?_, ?_⟩
    · have hlast : (step loaded limits state).state = last := by
        rw [hstop]
        rfl
      rw [← hlast] at htext
      rcases text_of_step htext with hheld | ⟨prompt, -, -, hread, hsteps, -⟩
      · exact hnone state hreaches text hheld
      · exact hreads state hreaches hsteps prompt hread
    · rintro fault rfl htype
      obtain ⟨text, htext⟩ := exists_text_of_step hstop htype
      exact hnone state hreaches text htext

theorem texts_survive_print_and_read_blanks :
    ∃ state, Reaches ⟨#[.read "? ", .printTop], .empty⟩ ⟨1, none⟩
        (.start ⟨Text.Utf8.encode (" 1 2 " ++ "\n") ++ [], none⟩ .unlimited) state ∧
      state.Holds (.text " 1 2 ") ∧ IsTextLine " 1 2 " ∧ IsReadBack " 1 2 " := by
  have hline : IsTextLine " 1 2 " := by constructor <;> decide
  have hstep := hline.isReadBack ⟨#[.read "? ", .printTop], .empty⟩ ⟨1, none⟩
    (.start ⟨Text.Utf8.encode (" 1 2 " ++ "\n") ++ [], none⟩ .unlimited) "? " [] none rfl rfl rfl
    Nat.one_pos rfl
  have hreaches : Reaches _ _ _ _ := ⟨1, .single (system_eq_running_iff.2 hstep)⟩
  exact ⟨_, hreaches, .inl List.mem_cons_self,
    (texts_survive_print_and_read _ _ _ _).1 _ hreaches _ (.inl List.mem_cons_self)⟩

end StackPipeline.Machine
