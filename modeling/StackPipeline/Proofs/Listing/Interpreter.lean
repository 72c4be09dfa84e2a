import StackPipeline.Listing.Basic
import StackPipeline.Proofs.Placement
import StackPipeline.Proofs.Stepping
import StackPipeline.Proofs.World

/-!
Running a listing, one instruction at a time.  There is no stack here: an instruction takes its
operands from the variables and jumps to the position of a label.
-/

namespace StackPipeline.Listing

open Machine (Value Input Sink Completion operate? dividesByZero)

def Instruction.label? : Instruction → Option String
  | .label name => some name
  | _ => none

def labels (listing : Listing) : List String :=
  listing.filterMap Instruction.label?

/-- No label stands twice, and every jump goes to a label of the listing. -/
structure WellLabelled (listing : Listing) : Prop where
  nodup : (labels listing).Nodup
  defined : ∀ instruction ∈ listing, ∀ name, instruction.target? = some name →
    name ∈ labels listing

instance (listing : Listing) : Decidable (WellLabelled listing) :=
  decidable_of_iff
    ((labels listing).Nodup ∧ ∀ instruction ∈ listing, ∀ name ∈ instruction.target?,
      name ∈ labels listing)
    ⟨fun h => ⟨h.1, h.2⟩, fun h => ⟨h.nodup, h.defined⟩⟩

/-- Where a running listing is, what it works on, and where it has divided by zero. -/
structure State where
  position : Nat
  world : World
  /-- The positions of the divisions by zero so far, the first of them first. -/
  notes : List Nat

/-- How a listing ends. -/
inductive Ending
  | completed (completion : Completion)
  /-- The instruction at the position cannot be carried out. -/
  | failed (trouble : Trouble)
deriving DecidableEq

def State.start (input : Input) (sink : Sink) : State := ⟨0, .start input sink, []⟩

def State.next (state : State) : State := { state with position := state.position + 1 }

/-- Go on with the next instruction in another world. -/
def State.nextIn (state : State) (world : World) : State :=
  { state with position := state.position + 1, world }

/-- The notes with one for the instruction at the position, if it divided by zero. -/
def State.notesIf (state : State) (divided : Bool) : List Nat :=
  if divided then state.notes ++ [state.position] else state.notes

def State.jump (state : State) (listing : Listing) (label : String) : State :=
  { state with position := (listing.idxOf? (.label label)).getD (state.position + 1) }

def Operand.value (world : World) : Operand → Value
  | .number value => .number value
  | .name x => world.valueOf x

/-- Operands are taken from the variables. -/
theorem Operand.value_congr {world other : World} (h : world.store = other.store)
    (operand : Operand) : operand.value world = operand.value other := by
  cases operand with
  | number value => rfl
  | name x => rw [value, value, World.valueOf, World.valueOf, h]

def State.fail (state : State) (world : World) (trouble : Trouble) :
    Next State (State × Ending) :=
  .stopped ({ state with world }, .failed trouble)

def State.assign (state : State) (target : String) :
    Source → Next State (State × Ending)
  | .operand value => .running (state.nextIn (state.world.assign target (value.value state.world)))
  | .operation op left right =>
    let a := left.value state.world
    let b := right.value state.world
    match operate? op a b with
    | some result =>
      .running
        { position := state.position + 1
          world := state.world.assign target (.number result)
          notes := state.notesIf (dividesByZero op a b) }
    | none => state.fail state.world (.textOperand op a b)
  | .read prompt =>
    match state.world.readLine prompt with
    | .done world value => .running (state.nextIn (world.assign target value))
    | .failed world trouble => state.fail world trouble

theorem State.assign_of_some {state : State} {op : Operator} {left right : Operand} {result : Float}
    (h : operate? op (left.value state.world) (right.value state.world) = some result)
    (target : String) :
    state.assign target (.operation op left right) =
      .running
        { position := state.position + 1
          world := state.world.assign target (.number result)
          notes := state.notesIf
            (dividesByZero op (left.value state.world) (right.value state.world)) } := by
  simp only [assign, h]

theorem State.assign_of_none {state : State} {op : Operator} {left right : Operand}
    (h : operate? op (left.value state.world) (right.value state.world) = none)
    (target : String) :
    state.assign target (.operation op left right) =
      state.fail state.world
        (.textOperand op (left.value state.world) (right.value state.world)) := by
  simp only [assign, h]

/-- Carry out an instruction. -/
def execute (listing : Listing) (state : State) : Instruction → Next State (State × Ending)
  | .assign target source => state.assign target source
  | .label _ => .running state.next
  | .goto label => .running (state.jump listing label)
  | .branch condition label =>
    match condition.value state.world with
    | .text _ => state.fail state.world .textCondition
    | .number x => .running (if x != 0 then state.jump listing label else state.next)
  | .print text arguments =>
    match state.world.writeLines (printedLines text (arguments.map (Operand.value state.world))) with
    | .done world () => .running (state.nextIn world)
    | .failed world trouble => state.fail world trouble
  | .breakLoop => state.fail state.world .unresolvedTransfer
  | .continueLoop => state.fail state.world .unresolvedTransfer
  | .ret value => .stopped (state, .completed (.returned (value.map (Operand.value state.world))))
  | .comment _ => .running state.next

/-- The listing as a system: it ends after its last instruction, at a return or in trouble. -/
def interpreter (listing : Listing) : System State (State × Ending) := fun state =>
  match listing[state.position]? with
  | none => .stopped (state, .completed .normal)
  | some instruction => execute listing state instruction

theorem interpreter_of_getElem? {listing : Listing} {state : State} {instruction : Instruction}
    (h : listing[state.position]? = some instruction) :
    interpreter listing state = execute listing state instruction := by
  rw [interpreter, h]

theorem interpreter_of_length_le {listing : Listing} {state : State}
    (h : listing.length ≤ state.position) :
    interpreter listing state = .stopped (state, .completed .normal) := by
  rw [interpreter, List.getElem?_eq_none h]

/-- The state after a step, also if the listing ends with it. -/
def stateAfter : Next State (State × Ending) → State
  | .running next => next
  | .stopped ending => ending.1

/-- What every instruction keeps holds at the end. -/
theorem kept_of_ends {listing : Listing} (kept : State → Prop)
    (hexecute : ∀ state instruction, listing[state.position]? = some instruction → kept state →
      kept (stateAfter (execute listing state instruction)))
    {state : State} (hstart : kept state) {ending : State × Ending}
    (h : (interpreter listing).Ends state ending) : kept ending.1 := by
  have hstep : ∀ state, kept state → kept (stateAfter (interpreter listing state)) := by
    intro state hkept
    cases hinstruction : listing[state.position]? with
    | none =>
        rw [interpreter, hinstruction]
        exact hkept
    | some instruction =>
        rw [interpreter_of_getElem? hinstruction]
        exact hexecute state instruction hinstruction hkept
  refine System.Ends.of_invariant kept (fun ending => kept ending.1) ?_ ?_ hstart h
  · intro state next hkept hnext
    have hafter := hstep state hkept
    rwa [hnext] at hafter
  · intro state ending hkept hstop
    have hafter := hstep state hkept
    rwa [hstop] at hafter

/-- A listing ends where it stands. -/
theorem position_of_stopped {listing : Listing} {state : State} {ending : State × Ending}
    (h : interpreter listing state = .stopped ending) : ending.1.position = state.position := by
  rw [interpreter] at h
  split at h
  · cases h
    rfl
  · rename_i instruction _
    cases instruction with
    | assign target source =>
        cases source with
        | operand value => cases h
        | operation op left right =>
            simp only [execute, State.assign] at h
            split at h
            · cases h
            · cases h
              rfl
        | read prompt =>
            simp only [execute, State.assign] at h
            split at h
            · cases h
            · cases h
              rfl
    | branch condition label =>
        simp only [execute] at h
        split at h
        · cases h
          rfl
        · cases h
    | print text arguments =>
        simp only [execute] at h
        split at h
        · cases h
        · cases h
          rfl
    | label name => cases h
    | goto label => cases h
    | comment text => cases h
    | breakLoop =>
        cases h
        rfl
    | continueLoop =>
        cases h
        rfl
    | ret value =>
        cases h
        rfl

/-- An instruction notes its own position or nothing. -/
theorem notes_execute (listing : Listing) (state : State) (instruction : Instruction) :
    (stateAfter (execute listing state instruction)).notes = state.notes ∨
      (stateAfter (execute listing state instruction)).notes = state.notes ++ [state.position] ∧
        ∃ target op left right, instruction = .assign target (.operation op left right) := by
  cases instruction with
  | assign target source =>
      cases source with
      | operand value => exact .inl rfl
      | operation op left right =>
          rw [execute]
          cases hresult : operate? op (left.value state.world) (right.value state.world) with
          | none =>
              rw [State.assign_of_none hresult]
              exact .inl rfl
          | some result =>
              rw [State.assign_of_some hresult]
              by_cases hdivided : dividesByZero op (left.value state.world)
                  (right.value state.world) = true
              · exact .inr ⟨if_pos hdivided, target, op, left, right, rfl⟩
              · exact .inl (if_neg hdivided)
      | read prompt =>
          left
          rw [execute, State.assign]
          cases state.world.readLine prompt with
          | done after value => rfl
          | failed after trouble => rfl
  | branch condition label =>
      left
      rw [execute]
      cases condition.value state.world with
      | text line => rfl
      | number x =>
          dsimp only
          split
          · rfl
          · rfl
  | print text arguments =>
      left
      rw [execute]
      split
      · rfl
      · rfl
  | _ => exact .inl rfl

/-- The notes are positions of operators. -/
def NotesOperators (listing : Listing) (notes : List Nat) : Prop :=
  ∀ position ∈ notes, ∃ target op left right,
    listing[position]? = some (.assign target (.operation op left right))

/-- However a listing ends, it has only noted operators. -/
theorem notesOperators_of_ends {listing : Listing} {input : Input} {sink : Sink}
    {ending : State × Ending} (h : (interpreter listing).Ends (.start input sink) ending) :
    NotesOperators listing ending.1.notes := by
  refine kept_of_ends (fun state => NotesOperators listing state.notes) ?_
    (fun _ hmem => absurd hmem List.not_mem_nil) h
  intro state instruction hinstruction hkept
  rcases notes_execute listing state instruction with heq | ⟨heq, target, op, left, right, rfl⟩
  · rwa [heq]
  · intro position hmem
    rw [heq] at hmem
    rcases List.mem_append.1 hmem with hmem | hmem
    · exact hkept position hmem
    · obtain rfl := List.mem_singleton.1 hmem
      exact ⟨target, op, left, right, hinstruction⟩

theorem Instruction.label?_eq_some_iff {instruction : Instruction} {name : String} :
    instruction.label? = some name ↔ instruction = .label name := by
  cases instruction <;> simp [label?]

theorem mem_labels_iff {listing : Listing} {name : String} :
    name ∈ labels listing ↔ .label name ∈ listing := by
  simp [labels, Instruction.label?_eq_some_iff]

/-- With no label twice, a label is found where it stands. -/
theorem idxOf?_label {listing : Listing} (h : (labels listing).Nodup) {name : String}
    {position : Nat} (hposition : listing[position]? = some (.label name)) :
    listing.idxOf? (.label name) = some position := by
  cases hfound : listing.idxOf? (.label name) with
  | none =>
      rw [List.idxOf?_eq_none_iff] at hfound
      exact absurd (List.mem_of_getElem? hposition) hfound
  | some first =>
      obtain ⟨hlt, heq, _⟩ := List.idxOf?_eq_some_iff.1 hfound
      have hfirst : listing[first]? = some (.label name) := List.getElem?_eq_some_iff.2 ⟨hlt, heq⟩
      rw [index_unique_of_nodup h hfirst hposition rfl rfl]

/-- In a well-labelled listing a jump finds its label. -/
theorem WellLabelled.exists_target {listing : Listing} (h : WellLabelled listing)
    {instruction : Instruction} (hmem : instruction ∈ listing) {name : String}
    (htarget : instruction.target? = some name) :
    ∃ position, listing[position]? = some (.label name) ∧
      listing.idxOf? (.label name) = some position := by
  obtain ⟨position, hposition⟩ :=
    List.mem_iff_getElem?.1 (mem_labels_iff.1 (h.defined instruction hmem name htarget))
  exact ⟨position, hposition, idxOf?_label h.nodup hposition⟩

end StackPipeline.Listing
