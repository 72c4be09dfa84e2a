import StackPipeline.Proofs.Listing.Interpreter

/-!
The assignments that a listing carries out.

The variables hold at every time what was assigned to them last, and nothing if nothing was.
-/

namespace StackPipeline

namespace Listing

open Machine (Value Input Sink operate?)

/-- An assignment that has been carried out. -/
structure Assignment where
  position : Nat
  target : String
  value : Value
deriving DecidableEq

def lastTo? (history : List Assignment) (name : String) : Option Assignment :=
  (history.filter fun assignment => assignment.target == name).getLast?

/-- The value that was assigned to a name last. -/
def lastValue? (history : List Assignment) (name : String) : Option Value :=
  (lastTo? history name).map Assignment.value

/-- The value of a source; nothing if it cannot be computed or read. -/
def Source.value? (world : World) : Source → Option Value
  | .operand value => some (value.value world)
  | .operation op left right => (operate? op (left.value world) (right.value world)).map .number
  | .read prompt =>
    match world.readLine prompt with
    | .done _ value => some value
    | .failed _ _ => none

/-- The assignment that is carried out at a state. -/
def assignment? (listing : Listing) (state : State) : Option Assignment :=
  match listing[state.position]? with
  | some (.assign target source) =>
    (source.value? state.world).map fun value => ⟨state.position, target, value⟩
  | _ => none

/-- The listing ends, and these are the assignments that it carries out until then. -/
def HasHistory (listing : Listing) (input : Input) (sink : Sink) (history : List Assignment) : Prop :=
  ∃ fuel ending, (interpreter listing).run fuel (.start input sink) = some ending ∧
    (interpreter listing).history (assignment? listing) fuel (.start input sink) = history

/-- A listing carries out one history. -/
theorem HasHistory.unique {listing : Listing} {input : Input} {sink : Sink}
    {history other : List Assignment} (h : HasHistory listing input sink history)
    (hother : HasHistory listing input sink other) : history = other := by
  obtain ⟨fuel, ending, hrun, rfl⟩ := h
  obtain ⟨more, _, hmore, rfl⟩ := hother
  rw [← System.history_mono _ hrun more, ← System.history_mono _ hmore fuel, Nat.add_comm]

section Last

variable {name : String}

theorem lastTo?_append (history more : List Assignment) :
    lastTo? (history ++ more) name = (lastTo? more name).or (lastTo? history name) := by
  rw [lastTo?, List.filter_append, List.getLast?_append]
  rfl

theorem lastValue?_append (history more : List Assignment) :
    lastValue? (history ++ more) name = (lastValue? more name).or (lastValue? history name) := by
  rw [lastValue?, lastTo?_append, Option.map_or]
  rfl

theorem lastValue?_singleton (assignment : Assignment) :
    lastValue? [assignment] name =
      if assignment.target = name then some assignment.value else none := by
  by_cases h : assignment.target = name
  · simp [lastValue?, lastTo?, h]
  · simp [lastValue?, lastTo?, h]

/-- If the last assignment to a name is kept, it stays the last one to that name. -/
theorem lastTo?_filter {history : List Assignment} {kept : Assignment → Bool}
    (h : ∀ assignment, lastTo? history name = some assignment → kept assignment = true) :
    lastTo? (history.filter kept) name = lastTo? history name := by
  have hcomm : (history.filter kept).filter (fun assignment => assignment.target == name) =
      (history.filter fun assignment => assignment.target == name).filter kept := by
    simp only [List.filter_filter, Bool.and_comm]
  rw [lastTo?] at h
  rw [lastTo?, lastTo?, hcomm]
  rcases List.eq_nil_or_concat (history.filter fun assignment => assignment.target == name) with
    hnil | ⟨front, last, hlast⟩
  · rw [hnil]
    rfl
  · rw [hlast] at h ⊢
    rw [List.concat_eq_append, List.getLast?_concat] at *
    rw [List.filter_append, List.filter_cons_of_pos (h last rfl), List.filter_nil,
      List.getLast?_concat]

end Last

section Steps

variable {listing : Listing} {state next : State}

/-- An assignment that goes on has given its target the value of its source. -/
theorem store_of_assign {target : String} {source : Source}
    (h : state.assign target source = .running next) :
    ∃ value, source.value? state.world = some value ∧ ∀ name,
      next.world.store.get? name =
        if target = name then some value else state.world.store.get? name := by
  cases source with
  | operand value =>
      cases h
      exact ⟨_, rfl, fun name => World.get?_assign _ _ _ _⟩
  | operation op left right =>
      cases hresult : operate? op (left.value state.world) (right.value state.world) with
      | none =>
          rw [State.assign_of_none hresult] at h
          cases h
      | some result =>
          rw [State.assign_of_some hresult] at h
          cases h
          exact ⟨.number result, by rw [Source.value?, hresult]; rfl,
            fun name => World.get?_assign _ _ _ _⟩
  | read prompt =>
      rw [State.assign] at h
      cases hread : state.world.readLine prompt with
      | failed after trouble => simp [hread, State.fail] at h
      | done after value =>
          simp only [hread] at h
          cases h
          refine ⟨value, by rw [Source.value?, hread], ?_⟩
          intro name
          rw [← World.store_of_readLine hread]
          exact World.get?_assign _ _ _ _

/-- Nothing else changes a variable. -/
theorem store_of_execute {instruction : Instruction}
    (hassign : ∀ target source, instruction ≠ .assign target source)
    (h : execute listing state instruction = .running next) :
    next.world.store = state.world.store := by
  cases instruction with
  | assign target source => exact absurd rfl (hassign target source)
  | branch condition label =>
      rw [execute] at h
      split at h
      · cases h
      · cases h
        split
        · rfl
        · rfl
  | print text arguments =>
      rw [execute] at h
      split at h
      · rename_i hwrite
        cases h
        exact World.store_of_writeLines hwrite
      · cases h
  | label name | goto label | comment text =>
      cases h
      rfl
  | breakLoop | continueLoop | ret value => cases h

/-- What one step does to the variables. -/
theorem get?_of_running (h : interpreter listing state = .running next) (name : String) :
    next.world.store.get? name =
      (lastValue? (assignment? listing state).toList name).or (state.world.store.get? name) := by
  cases hinstruction : listing[state.position]? with
  | none => simp [interpreter, hinstruction] at h
  | some instruction =>
      rw [interpreter_of_getElem? hinstruction] at h
      cases instruction with
      | assign target source =>
          obtain ⟨value, hvalue, hstore⟩ := store_of_assign h
          rw [assignment?, hinstruction, hstore]
          dsimp only
          rw [hvalue, Option.map_some, Option.toList_some, lastValue?_singleton]
          dsimp only
          split
          · rfl
          · rfl
      | _ =>
          have hstore := store_of_execute (by rintro _ _ ⟨⟩) h
          rw [assignment?, hinstruction, hstore]
          rfl

/-- A listing that ends well has changed nothing with that. -/
theorem eq_of_completed {last : State} {completion : Machine.Completion}
    (h : interpreter listing state = .stopped (last, .completed completion)) : last = state := by
  rw [interpreter] at h
  split at h
  · cases h
    rfl
  · rename_i instruction _
    cases instruction with
    | assign target source =>
        cases source with
        | operand value => cases h
        | operation op left right =>
            simp only [execute, State.assign] at h
            split at h
            · cases h
            · cases h
        | read prompt =>
            simp only [execute, State.assign] at h
            split at h
            · cases h
            · cases h
    | branch condition label =>
        simp only [execute] at h
        split at h
        · cases h
        · cases h
    | print text arguments =>
        simp only [execute] at h
        split at h
        · cases h
        · cases h
    | ret value =>
        cases h
        rfl
    | label name | goto label | comment text | breakLoop | continueLoop => cases h

/-- What a run that ends well does to the variables. -/
theorem get?_of_run {fuel : Nat} {last : State} {completion : Machine.Completion}
    (h : (interpreter listing).run fuel state = some (last, .completed completion)) (name : String) :
    last.world.store.get? name =
      (lastValue? ((interpreter listing).history (assignment? listing) fuel state) name).or
        (state.world.store.get? name) := by
  induction fuel generalizing state with
  | zero => cases h
  | succ fuel ih =>
      cases hstep : interpreter listing state with
      | stopped other =>
          rw [System.run_succ_of_stopped hstep] at h
          obtain rfl := Option.some.inj h
          rw [System.history_succ_of_stopped _ hstep, eq_of_completed hstep]
          rfl
      | running next =>
          rw [System.run_succ_of_running hstep] at h
          rw [System.history_succ_of_running _ hstep, lastValue?_append, ih h,
            get?_of_running hstep, Option.or_assoc]

end Steps

end Listing

end StackPipeline
