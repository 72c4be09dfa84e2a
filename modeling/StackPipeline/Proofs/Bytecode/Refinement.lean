import StackPipeline.Proofs.Bytecode.Matching

/-!
Stack code does what its listing says.
-/

namespace StackPipeline.Bytecode

open Machine (Diagnostic Fault Limits Loaded Outcome Stack Value load system operate? dividesByZero)
open Listing (Ending Operand Source execute interpreter)
open StackPipeline.System (Walk)

variable {listing : Listing} {loaded : Loaded} {limits : Limits}

section Answers

variable {state : Listing.State} {instruction : Listing.Instruction}

/-- The machine gets from the beginning of a block to its end. -/
theorem answers_next (h : listing[state.position]? = some instruction) {world : World}
    {notes : List Nat} {steps count : Nat}
    (hwalk : (system loaded limits).Walk count (image listing state steps)
      (.of world (diagnosticsOf listing notes)
        (offset listing state.position + (ofInstruction instruction).length) (steps + count)
        .empty)) :
    Answers loaded limits listing state steps count
      (.running ⟨state.position + 1, world, notes⟩) := by
  rw [← offset_succ h] at hwalk
  exact hwalk

/-- The machine gets into trouble at an instruction of the block. -/
theorem answers_fail (h : listing[state.position]? = some instruction) {place : Nat}
    {inner : Instruction} (hinner : (ofInstruction instruction)[place]? = some inner) {world : World}
    {trouble : Trouble} {steps : Nat} {before : Machine.State} {stack : Stack}
    (hwalk : (system loaded limits).Walk place (image listing state steps) before)
    (hstop : system loaded limits before =
      .stopped (.of world (diagnosticsOf listing state.notes)
        (offset listing state.position + place + 1) (steps + place + 1) stack,
        .failed (.ofTrouble (offset listing state.position + place) inner trouble))) :
    Answers loaded limits listing state steps (place + 1) (state.fail world trouble) := by
  refine ⟨_, (hwalk.ends_iff _).2 (.of_stopped hstop), ⟨rfl, rfl, rfl, rfl, ?_⟩, rfl⟩
  have hlt : place < (ofInstruction instruction).length := (List.getElem?_eq_some_iff.1 hinner).1
  have hlength := offset_succ h
  refine ⟨offset listing state.position + place, inner, (placed_ofInstruction h).get hinner,
    ⟨Nat.le_add_right _ _, ?_⟩, rfl, rfl⟩
  change offset listing state.position + place < offset listing (state.position + 1)
  omega

end Answers

def ofArguments (arguments : List Operand) : Bytecode :=
  arguments.flatMap fun argument => [ofOperand argument, .printTop]

theorem length_ofArguments (arguments : List Operand) :
    (ofArguments arguments).length = 2 * arguments.length := by
  induction arguments with
  | nil => rfl
  | cons argument rest ih =>
      rw [List.length_cons, Nat.mul_succ, ← ih]
      rfl

/-- The machine starts at the first block. -/
theorem image_start (listing : Listing) (input : Machine.Input) (sink : Machine.Sink) :
    image listing (.start input sink) 0 = .start input sink := by
  rw [image, Listing.State.start, offset_zero]
  rfl

namespace Hosts

variable (hosts : Hosts loaded limits listing) {state : Listing.State}

include hosts

theorem room_empty : Stack.empty.depth < limits.maxStackDepth :=
  Nat.lt_of_lt_of_le Nat.zero_lt_two hosts.room

theorem room_push (value : Value) : (Stack.empty.push value).depth < limits.maxStackDepth :=
  Nat.lt_of_lt_of_le Nat.one_lt_two hosts.room

/-- What the machine answers for an assignment. -/
theorem answers_assign {target : String} {source : Source}
    (h : listing[state.position]? = some (.assign target source)) (steps : Nat) :
    Answers loaded limits listing state steps (sourceCost state.world source)
      (state.assign target source) := by
  have hplaced := placed_ofInstruction h
  cases source with
  | operand value =>
      apply answers_next h
      exact .step (hosts.step_operand hplaced.head hosts.room_empty)
        (.single (Machine.system_store hosts.unlimited (hosts.fetch hplaced.tail.head)))
  | operation op left right =>
      have hoperands : (system loaded limits).Walk 2 (image listing state steps)
          (.of state.world (diagnosticsOf listing state.notes)
            (offset listing state.position + 2) (steps + 2)
            ((Stack.empty.push (left.value state.world)).push (right.value state.world))) :=
        .step (hosts.step_operand hplaced.head hosts.room_empty)
          (.single (hosts.step_operand hplaced.tail.head (hosts.room_push _)))
      rw [sourceCost, Listing.State.assign]
      cases hresult : operate? op (left.value state.world) (right.value state.world) with
      | some result =>
          apply answers_next h
          rw [diagnosticsOf_notesIf]
          exact hoperands.trans (.step
            (Machine.system_operate_some hosts.unlimited hresult
              (hosts.fetch hplaced.tail.tail.head))
            (.single (Machine.system_store hosts.unlimited
              (hosts.fetch hplaced.tail.tail.tail.head))))
      | none =>
          have hinner : (ofInstruction (.assign target (.operation op left right)))[2]? =
              some (.operate op) := rfl
          exact answers_fail h hinner hoperands
            (Machine.system_operate_none hosts.unlimited hresult
              (hosts.fetch hplaced.tail.tail.head))
  | read prompt =>
      rw [sourceCost, Listing.State.assign]
      cases hread : state.world.readLine prompt with
      | done world value =>
          apply answers_next h
          exact .step
            (Machine.system_read_done hosts.unlimited hosts.room_empty hread
              (hosts.fetch hplaced.head))
            (.single (Machine.system_store hosts.unlimited (hosts.fetch hplaced.tail.head)))
      | failed world trouble =>
          exact answers_fail h rfl (.refl _)
            (Machine.system_read_failed hosts.unlimited hread (hosts.fetch hplaced.head))

/-- The machine prints all arguments. -/
theorem walk_arguments (origin : World) (diagnostics : Array Diagnostic) (pc steps : Nat)
    {arguments : List Operand} {world after : World}
    (hplaced : Placed (ofListing listing) pc (ofArguments arguments))
    (hstore : world.store = origin.store)
    (hlines : world.writeLines ((arguments.map (Operand.value origin)).map Value.render) =
      .done after ()) :
    (system loaded limits).Walk (ofArguments arguments).length
      (.of world diagnostics pc steps .empty)
      (.of after diagnostics (pc + (ofArguments arguments).length)
        (steps + (ofArguments arguments).length) .empty) := by
  induction arguments generalizing world pc steps with
  | nil =>
      obtain rfl := (Trial.done.inj hlines).1
      exact .refl _
  | cons argument rest ih =>
      rw [List.map_cons, List.map_cons, World.writeLines] at hlines
      cases hwrite : world.write ((argument.value origin).render ++ "\n") with
      | failed written trouble => simp [hwrite] at hlines
      | done written =>
          simp only [hwrite] at hlines
          have hrest := ih (pc + 1 + 1) (steps + 1 + 1) hplaced.tail.tail
            ((World.store_of_write hwrite).trans hstore) hlines
          rw [← Operand.value_congr hstore] at hwrite
          have hlength : (ofArguments (argument :: rest)).length =
              (ofArguments rest).length + 1 + 1 := rfl
          have hshift : ∀ n, n + ((ofArguments rest).length + 1 + 1) =
              n + 1 + 1 + (ofArguments rest).length := by
            intro n
            omega
          rw [hlength, hshift, hshift]
          exact .step (hosts.step_operand hplaced.head hosts.room_empty)
            (.step (Machine.system_printTop_done hosts.unlimited hwrite
              (hosts.fetch hplaced.tail.head)) hrest)

/-- The machine prints arguments until one does not go in. -/
theorem stop_arguments (origin : World) (diagnostics : Array Diagnostic) (pc steps : Nat)
    {arguments : List Operand} {world after : World} {trouble : Trouble}
    (hplaced : Placed (ofListing listing) pc (ofArguments arguments))
    (hstore : world.store = origin.store)
    (hlines : world.writeLines ((arguments.map (Operand.value origin)).map Value.render) =
      .failed after trouble) :
    ∃ place before, (ofArguments arguments)[place]? = some .printTop ∧
      place + 1 =
        2 * world.linesBegun ((arguments.map (Operand.value origin)).map Value.render) ∧
      (system loaded limits).Walk place (.of world diagnostics pc steps .empty) before ∧
      system loaded limits before =
        .stopped (.of after diagnostics (pc + place + 1) (steps + place + 1) .empty,
          .failed (.ofTrouble (pc + place) .printTop trouble)) := by
  induction arguments generalizing world pc steps with
  | nil => cases hlines
  | cons argument rest ih =>
      rw [List.map_cons, List.map_cons, World.writeLines] at hlines
      rw [List.map_cons, List.map_cons, World.linesBegun]
      cases hwrite : world.write ((argument.value origin).render ++ "\n") with
      | failed written other =>
          simp only [hwrite, Trial.failed.injEq] at hlines
          obtain ⟨rfl, rfl⟩ := hlines
          rw [← Operand.value_congr hstore] at hwrite
          exact ⟨1, _, rfl, rfl,
            .single (hosts.step_operand hplaced.head hosts.room_empty),
            Machine.system_printTop_failed hosts.unlimited hwrite
              (hosts.fetch hplaced.tail.head)⟩
      | done written =>
          simp only [hwrite] at hlines
          obtain ⟨place, before, hplace, hcount, hwalk, hstop⟩ :=
            ih (pc + 1 + 1) (steps + 1 + 1) hplaced.tail.tail
              ((World.store_of_write hwrite).trans hstore) hlines
          rw [← Operand.value_congr hstore] at hwrite
          have hshift : ∀ n, n + (place + 1 + 1) = n + 1 + 1 + place := by
            intro n
            omega
          refine ⟨place + 1 + 1, before, hplace, ?_, ?_, ?_⟩
          · change place + 1 + 1 + 1 = 2 * (written.linesBegun _ + 1)
            omega
          · exact .step (hosts.step_operand hplaced.head hosts.room_empty)
              (.step (Machine.system_printTop_done hosts.unlimited hwrite
                (hosts.fetch hplaced.tail.head)) hwalk)
          · rw [hshift, hshift]
            exact hstop

/-- Without a text of its own a print instruction is the code that prints its arguments. -/
theorem answers_print_arguments {text : String} {arguments : List Operand}
    (h : listing[state.position]? = some (.print text arguments)) (htext : text.isEmpty = true)
    (steps : Nat) :
    Answers loaded limits listing state steps (cost state.world (.print text arguments))
      (execute listing state (.print text arguments)) := by
  have hlines : printedLines text (arguments.map (Operand.value state.world)) =
      (arguments.map (Operand.value state.world)).map Value.render := by
    rw [printedLines, if_pos htext, List.nil_append]
  have hblock : ofInstruction (.print text arguments) = ofArguments arguments := by
    rw [ofInstruction, ofText, if_pos htext, List.nil_append, ofArguments]
  have hplaced := placed_ofInstruction h
  rw [hblock] at hplaced
  rw [cost, execute, hlines, if_pos htext, Nat.sub_zero]
  cases hwrite : state.world.writeLines
      ((arguments.map (Operand.value state.world)).map Value.render) with
  | done after =>
      have hwalk := hosts.walk_arguments state.world (diagnosticsOf listing state.notes) _ steps
        hplaced rfl hwrite
      rw [World.linesBegun_of_done hwrite, List.length_map, List.length_map, ← length_ofArguments]
      apply answers_next h
      rw [hblock]
      exact hwalk
  | failed after trouble =>
      obtain ⟨place, before, hplace, hcount, hwalk, hstop⟩ :=
        hosts.stop_arguments state.world (diagnosticsOf listing state.notes) _ steps
          hplaced rfl hwrite
      rw [← hcount]
      exact answers_fail h (hblock ▸ hplace) hwalk hstop

/-- A text takes one instruction more, in front of those for the arguments. -/
theorem answers_print_text {text : String} {arguments : List Operand}
    (h : listing[state.position]? = some (.print text arguments)) (htext : ¬text.isEmpty = true)
    (steps : Nat) :
    Answers loaded limits listing state steps (cost state.world (.print text arguments))
      (execute listing state (.print text arguments)) := by
  have hlines : printedLines text (arguments.map (Operand.value state.world)) =
      text :: (arguments.map (Operand.value state.world)).map Value.render := by
    rw [printedLines, if_neg htext, List.singleton_append]
  have hblock : ofInstruction (.print text arguments) =
      .printText text :: ofArguments arguments := by
    rw [ofInstruction, ofText, if_neg htext, List.singleton_append, ofArguments]
  have hplaced := placed_ofInstruction h
  rw [hblock] at hplaced
  rw [cost, execute, hlines, if_neg htext, World.writeLines, World.linesBegun]
  cases hfirst : state.world.write (text ++ "\n") with
  | failed written trouble =>
      have hinner : (ofInstruction (.print text arguments))[0]? = some (.printText text) := by
        rw [hblock]
        rfl
      exact answers_fail h hinner (.refl _)
        (Machine.system_printText_failed hosts.unlimited hfirst (hosts.fetch hplaced.head))
  | done written =>
      dsimp only
      have hstore := World.store_of_write hfirst
      have hshift : ∀ n rest, n + (rest + 1) = n + 1 + rest := by
        intro n rest
        omega
      cases hwrite : written.writeLines
          ((arguments.map (Operand.value state.world)).map Value.render) with
      | done after =>
          have hwalk := hosts.walk_arguments state.world (diagnosticsOf listing state.notes) _
            (steps + 1) hplaced.tail hstore hwrite
          have hcount : 2 * (written.linesBegun
              ((arguments.map (Operand.value state.world)).map Value.render) + 1) - 1 =
                (ofArguments arguments).length + 1 := by
            rw [World.linesBegun_of_done hwrite, List.length_map, List.length_map,
              length_ofArguments]
            omega
          rw [hcount]
          apply answers_next h
          rw [hblock, List.length_cons, hshift _ (ofArguments arguments).length,
            hshift _ (ofArguments arguments).length]
          exact .step
            (Machine.system_printText_done hosts.unlimited hfirst (hosts.fetch hplaced.head))
            hwalk
      | failed after trouble =>
          obtain ⟨place, before, hplace, hcount, hwalk, hstop⟩ :=
            hosts.stop_arguments state.world (diagnosticsOf listing state.notes) _ (steps + 1)
              hplaced.tail hstore hwrite
          have hinner : (ofInstruction (.print text arguments))[place + 1]? = some .printTop := by
            rw [hblock]
            exact hplace
          have hcost : 2 * (written.linesBegun
              ((arguments.map (Operand.value state.world)).map Value.render) + 1) - 1 =
                place + 1 + 1 := by
            omega
          rw [← hshift, ← hshift] at hstop
          rw [hcost]
          exact answers_fail h hinner
            (.step
              (Machine.system_printText_done hosts.unlimited hfirst (hosts.fetch hplaced.head))
              hwalk)
            hstop

/-- What the machine answers for a print instruction. -/
theorem answers_print {text : String} {arguments : List Operand}
    (h : listing[state.position]? = some (.print text arguments)) (steps : Nat) :
    Answers loaded limits listing state steps (cost state.world (.print text arguments))
      (execute listing state (.print text arguments)) := by
  by_cases htext : text.isEmpty = true
  · exact hosts.answers_print_arguments h htext steps
  · exact hosts.answers_print_text h htext steps

/-- After a jump the machine is at the block of the label. -/
theorem walk_jump {instruction : Listing.Instruction} {label : String}
    (h : listing[state.position]? = some instruction) (htarget : instruction.target? = some label) :
    ∃ position, state.jump listing label = { state with position } ∧
      loaded.labels.get? label = some (offset listing position) := by
  obtain ⟨position, hfound, hindex⟩ := hosts.exists_target (List.mem_of_getElem? h) htarget
  refine ⟨position, ?_, hindex⟩
  rw [Listing.State.jump, hfound]
  rfl

/-- What the machine answers for a jump. -/
theorem answers_goto {label : String} (h : listing[state.position]? = some (.goto label))
    (steps : Nat) :
    Answers loaded limits listing state steps 1 (.running (state.jump listing label)) := by
  obtain ⟨position, hjump, hindex⟩ := hosts.walk_jump h rfl
  rw [hjump]
  exact .single
    (Machine.system_jump hosts.unlimited hindex (hosts.fetch (placed_ofInstruction h).head))

/-- What the machine answers for a jump with a condition. -/
theorem answers_branch {condition : Operand} {label : String}
    (h : listing[state.position]? = some (.branch condition label)) (steps : Nat) :
    Answers loaded limits listing state steps 2
      (execute listing state (.branch condition label)) := by
  have hplaced := placed_ofInstruction h
  have hcondition : (system loaded limits).Walk 1 (image listing state steps)
      (.of state.world (diagnosticsOf listing state.notes) (offset listing state.position + 1)
        (steps + 1) (Stack.empty.push (condition.value state.world))) :=
    .single (hosts.step_operand hplaced.head hosts.room_empty)
  obtain ⟨position, hjump, hindex⟩ := hosts.walk_jump h rfl
  rw [execute, hjump]
  cases hvalue : condition.value state.world with
  | text line =>
      rw [hvalue] at hcondition
      exact answers_fail h rfl hcondition
        (Machine.system_jumpIfNonzero_text hosts.unlimited (hosts.fetch hplaced.tail.head))
  | number x =>
      rw [hvalue] at hcondition
      have hwalk := hcondition.trans (.single
        (Machine.system_jumpIfNonzero_number hosts.unlimited hindex
          (hosts.fetch hplaced.tail.head)))
      by_cases hx : (x != 0) = true
      · rw [if_pos hx] at hwalk
        dsimp only
        rw [if_pos hx]
        exact hwalk
      · rw [if_neg hx] at hwalk
        dsimp only
        rw [if_neg hx]
        exact answers_next h hwalk

/-- What the machine answers for a return. -/
theorem answers_ret {value : Option Operand}
    (h : listing[state.position]? = some (.ret value)) (steps : Nat) :
    Answers loaded limits listing state steps (value.toList.length + 1)
      (execute listing state (.ret value)) := by
  have hplaced := placed_ofInstruction h
  cases value with
  | none =>
      exact ⟨_, .of_stopped (Machine.system_ret_empty hosts.unlimited (hosts.fetch hplaced.head)),
        ⟨rfl, rfl, rfl, rfl, rfl⟩, rfl⟩
  | some operand =>
      have hwalk : (system loaded limits).Walk 1 (image listing state steps) _ :=
        .single (hosts.step_operand hplaced.head hosts.room_empty)
      exact ⟨_, (hwalk.ends_iff _).2 (.of_stopped
          (Machine.system_ret_push hosts.unlimited (hosts.fetch hplaced.tail.head))),
        ⟨rfl, rfl, rfl, rfl, rfl⟩, rfl⟩

/-- The machine answers every instruction of the listing. -/
theorem answers_execute {instruction : Listing.Instruction}
    (h : listing[state.position]? = some instruction) (steps : Nat) :
    Answers loaded limits listing state steps (cost state.world instruction)
      (execute listing state instruction) := by
  cases instruction with
  | assign target source => exact hosts.answers_assign h steps
  | label name =>
      exact answers_next h (.single
        (Machine.system_label hosts.unlimited (hosts.fetch (placed_ofInstruction h).head)))
  | goto label => exact hosts.answers_goto h steps
  | branch condition label => exact hosts.answers_branch h steps
  | print text arguments => exact hosts.answers_print h steps
  | breakLoop =>
      exact answers_fail h rfl (.refl _)
        (Machine.system_breakLoop hosts.unlimited (hosts.fetch (placed_ofInstruction h).head))
  | continueLoop =>
      exact answers_fail h rfl (.refl _)
        (Machine.system_continueLoop hosts.unlimited (hosts.fetch (placed_ofInstruction h).head))
  | ret value => exact hosts.answers_ret h steps
  | comment text => exact answers_next h (.refl _)

/-- The machine answers whatever the listing does next. -/
theorem answers_interpreter (state : Listing.State) (steps : Nat) :
    Answers loaded limits listing state steps (costAt listing state)
      (interpreter listing state) := by
  rw [costAt, interpreter]
  cases h : listing[state.position]? with
  | some instruction => exact hosts.answers_execute h steps
  | none =>
      have hfetch : loaded.code[offset listing state.position]? = none := by
        rw [Machine.code_of_load hosts.load_eq,
          offset_of_length_le (List.getElem?_eq_none_iff.1 h)]
        simp
      exact ⟨_, .of_stopped (Machine.system_of_end hfetch), ⟨rfl, rfl, rfl, rfl, rfl⟩, rfl⟩

/-- The machine simulates the interpreter.  Where it stands still the interpreter gets closer to the
end of the listing: only a comment and a print of nothing take no instruction. -/
theorem simulation :
    System.Simulation ((interpreter listing).metered (costAt listing)) (system loaded limits)
      (fun left right => right = image listing left.1 left.2)
      (fun ending right => ∃ last, (system loaded limits).Ends right last ∧
        Matches listing ending.1 last ∧ last.1.steps = ending.2)
      (fun left => listing.length - left.1.position) where
  advance := by
    rintro ⟨state, steps⟩ ⟨next, spent⟩ _ rfl hstep
    obtain ⟨hnext, rfl⟩ := System.running_of_metered _ hstep
    have hanswers := hosts.answers_interpreter state steps
    rw [hnext] at hanswers
    refine ⟨_, _, hanswers, rfl, ?_⟩
    intro hcost
    obtain ⟨hlt, hposition⟩ := position_of_costAt_eq_zero hcost hnext
    dsimp only
    omega
  finish := by
    rintro ⟨state, steps⟩ _ ⟨ending, spent⟩ rfl hstep
    obtain ⟨hstop, rfl⟩ := System.stopped_of_metered _ hstep
    have hanswers := hosts.answers_interpreter state steps
    rw [hstop] at hanswers
    exact hanswers

/-- Where the listing comes the machine comes. -/
theorem walk_of_metered {input : Machine.Input} {sink : Machine.Sink} {state : Listing.State}
    {count total : Nat}
    (h : ((interpreter listing).metered (costAt listing)).Walk count (.start input sink, 0)
      (state, total)) :
    ∃ steps, (system loaded limits).Walk steps (.start input sink) (image listing state total) := by
  obtain ⟨steps, after, hwalk, rfl⟩ :=
    hosts.simulation.walk (image_start listing input sink).symm h
  exact ⟨steps, hwalk⟩

/-- Where the listing ends the machine ends, and has taken as many steps as the instructions cost. -/
theorem ends_of_metered {input : Machine.Input} {sink : Machine.Sink}
    {ending : Listing.State × Ending} {total : Nat}
    (h : ((interpreter listing).metered (costAt listing)).Ends (.start input sink, 0)
      (ending, total)) :
    ∃ last, Machine.Ends loaded limits (.start input sink) last ∧ Matches listing ending last ∧
      last.1.steps = total := by
  obtain ⟨count, after, hwalk, last, hlast, hmatches⟩ :=
    hosts.simulation.forward (image_start listing input sink).symm h
  exact ⟨last, (Machine.ends_iff _ _ _ _).2 ((hwalk.ends_iff last).2 hlast), hmatches⟩

/-- Where the machine ends the listing ends. -/
theorem metered_of_ends {input : Machine.Input} {sink : Machine.Sink}
    {last : Machine.State × Outcome} (h : Machine.Ends loaded limits (.start input sink) last) :
    ∃ ending total, ((interpreter listing).metered (costAt listing)).Ends (.start input sink, 0)
      (ending, total) ∧ Matches listing ending last ∧ last.1.steps = total := by
  have hstart : Machine.State.start input sink =
      image listing (Listing.State.start input sink, 0).1 (Listing.State.start input sink, 0).2 :=
    (image_start listing input sink).symm
  obtain ⟨⟨ending, total⟩, hending⟩ :=
    hosts.simulation.backward hstart ((Machine.ends_iff _ _ _ _).1 h)
  obtain ⟨other, hother, hmatches, hsteps⟩ := hosts.ends_of_metered hending
  obtain rfl := hother.unique h
  exact ⟨ending, total, hending, hmatches, hsteps⟩

/-- The machine ends exactly if the listing does. -/
theorem exists_ends_iff (input : Machine.Input) (sink : Machine.Sink) :
    (∃ ending, (interpreter listing).Ends (.start input sink) ending) ↔
      ∃ last, Machine.Ends loaded limits (.start input sink) last := by
  constructor
  · rintro ⟨ending, hending⟩
    obtain ⟨total, hmetered⟩ := (System.ends_metered_iff _ _ 0 ending).2 hending
    obtain ⟨last, hlast, _⟩ := hosts.ends_of_metered hmetered
    exact ⟨last, hlast⟩
  · rintro ⟨last, hlast⟩
    obtain ⟨ending, total, hmetered, _⟩ := hosts.metered_of_ends hlast
    exact ⟨ending, (System.ends_metered_iff _ _ 0 ending).1 ⟨total, hmetered⟩⟩

/-- The machine ends as the listing does. -/
theorem matches_of_ends {input : Machine.Input} {sink : Machine.Sink}
    {ending : Listing.State × Ending} {last : Machine.State × Outcome}
    (hending : (interpreter listing).Ends (.start input sink) ending)
    (hlast : Machine.Ends loaded limits (.start input sink) last) : Matches listing ending last := by
  obtain ⟨other, total, hmetered, hmatches, _⟩ := hosts.metered_of_ends hlast
  have hother := (System.ends_metered_iff _ _ 0 other).1 ⟨total, hmetered⟩
  rwa [hending.unique hother]

end Hosts

/-- The code of a listing loads exactly if every label is unique and every jump has a target. -/
theorem exists_load_ofListing_iff (listing : Listing) :
    (∃ loaded, load (ofListing listing) = .ok loaded) ↔ Listing.WellLabelled listing := by
  rw [Machine.load_isOk_iff, wellLabelled_ofListing_iff]

/-- **The machine refines the interpreter.**  A listing that is not well labelled does not load.  The
code of any other listing ends exactly when the listing does, and then with the same variables, the
same input left, the same output, the same notes, and the same completion or the same trouble at the
same instruction. -/
theorem machine_refines_interpreter (listing : Listing) (limits : Limits)
    (hsteps : limits.maxSteps = none) (hdepth : 2 ≤ limits.maxStackDepth) :
    (¬Listing.WellLabelled listing → ∃ error, load (ofListing listing) = .error error) ∧
    (Listing.WellLabelled listing → ∃ loaded, load (ofListing listing) = .ok loaded ∧
      ∀ input sink,
        ((∃ ending, (interpreter listing).Ends (.start input sink) ending) ↔
          ∃ last, Machine.Ends loaded limits (.start input sink) last) ∧
        ∀ ending last, (interpreter listing).Ends (.start input sink) ending →
          Machine.Ends loaded limits (.start input sink) last → Matches listing ending last) := by
  constructor
  · intro hbad
    cases hload : load (ofListing listing) with
    | error error => exact ⟨error, rfl⟩
    | ok loaded => exact absurd ((exists_load_ofListing_iff listing).1 ⟨loaded, hload⟩) hbad
  · intro hgood
    obtain ⟨loaded, hload⟩ := (exists_load_ofListing_iff listing).2 hgood
    have hosts : Hosts loaded limits listing := ⟨hload, hsteps, hdepth⟩
    refine ⟨loaded, hload, ?_⟩
    intro input sink
    exact ⟨hosts.exists_ends_iff input sink,
      fun _ _ hending hlast => hosts.matches_of_ends hending hlast⟩

/-- A listing that repeats a line of input, skips a break, divides by zero and adds to a text. -/
def sample : Listing :=
  [.assign "x" (.read "? "), .comment "", .print "" [.name "x"], .goto "on", .breakLoop,
    .label "on", .assign "q" (.operation .div (.number 1) (.name "z")),
    .assign "y" (.operation .add (.name "x") (.number 1))]

theorem machine_refines_interpreter_sample :
    (∃ loaded state last, load (ofListing sample) = .ok loaded ∧
      Machine.Ends loaded ⟨2, none⟩ (.start (.ofBytes [104, 105, 10]) .unlimited) last ∧
      Matches sample (state, .failed (.textOperand .add (.text "hi") (.number 1))) last ∧
      state.position = 7 ∧ last.1.diagnostics = #[.divisionByZero 9]) ∧
    ∃ error, load (ofListing [.goto "nowhere"]) = .error error := by
  refine ⟨?_, (machine_refines_interpreter [.goto "nowhere"] ⟨2, none⟩ rfl (Nat.le_refl 2)).1
    (by decide)⟩
  obtain ⟨loaded, hload, hruns⟩ :=
    (machine_refines_interpreter sample ⟨2, none⟩ rfl (Nat.le_refl 2)).2 (by decide)
  obtain ⟨hends, hmatches⟩ := hruns (.ofBytes [104, 105, 10]) .unlimited
  have hrun : ((interpreter sample).run 8 (.start (.ofBytes [104, 105, 10]) .unlimited)).map
      (fun ending => (ending.2, ending.1.position, ending.1.notes)) =
        some (.failed (.textOperand .add (.text "hi") (.number 1)), 7, [6]) := by
    decide +kernel
  obtain ⟨⟨state, ending⟩, hending, hresult⟩ := Option.map_eq_some_iff.1 hrun
  simp only [Prod.mk.injEq] at hresult
  obtain ⟨rfl, hposition, hnotes⟩ := hresult
  obtain ⟨last, hlast⟩ := hends.1 ⟨_, 8, hending⟩
  have hmatch := hmatches _ last ⟨8, hending⟩ hlast
  refine ⟨loaded, state, last, hload, hlast, hmatch, hposition, ?_⟩
  rw [hmatch.diagnostics_eq, hnotes]
  decide

end StackPipeline.Bytecode
