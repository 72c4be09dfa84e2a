import StackPipeline.Proofs.Bytecode.Blocks
import StackPipeline.Proofs.Machine.Execution

/-!
When the machine and the interpreter of a listing are in the same situation.

The machine that runs the code of a listing goes from block to block as the interpreter goes from
instruction to instruction.  Between two blocks the stack is empty, so that the state of the
interpreter determines the state of the machine.
-/

namespace StackPipeline

/-- How many of these lines writing begins with: all, or those up to the first that does not go
in. -/
def World.linesBegun : World → List String → Nat
  | _, [] => 0
  | world, line :: rest =>
    match world.write (line ++ "\n") with
    | .done world () => world.linesBegun rest + 1
    | .failed _ _ => 1

/-- Whoever writes all lines has begun with all of them. -/
theorem World.linesBegun_of_done {world after : World} {lines : List String}
    (h : world.writeLines lines = .done after ()) : world.linesBegun lines = lines.length := by
  induction lines generalizing world with
  | nil => rfl
  | cons line rest ih =>
      rw [writeLines] at h
      rw [linesBegun]
      cases hwrite : world.write (line ++ "\n") with
      | done written =>
          simp only [hwrite] at h
          rw [List.length_cons, ← ih h]
      | failed written trouble => simp [hwrite] at h

namespace Bytecode

open Machine (Diagnostic Fault Limits Loaded Outcome Stack Value load system operate? dividesByZero)
open Listing (Ending Operand Source execute interpreter)

variable {listing : Listing} {loaded : Loaded} {limits : Limits}

/-- The number of stack instructions that are executed for a source. -/
def sourceCost (world : World) : Source → Nat
  | .operand _ => 2
  | .operation op left right =>
    if (operate? op (left.value world) (right.value world)).isSome then 4 else 3
  | .read prompt =>
    match world.readLine prompt with
    | .done _ _ => 2
    | .failed _ _ => 1

def cost (world : World) : Listing.Instruction → Nat
  | .assign _ source => sourceCost world source
  | .branch _ _ => 2
  | .goto _ | .label _ | .breakLoop | .continueLoop => 1
  | .print text arguments =>
    let lines := printedLines text (arguments.map (Operand.value world))
    -- Each line takes two instructions, but the text is not put on the stack first.
    2 * world.linesBegun lines - if text.isEmpty then 0 else 1
  | .ret value => value.toList.length + 1
  | .comment _ => 0

def costAt (listing : Listing) (state : Listing.State) : Nat :=
  match listing[state.position]? with
  | none => 0
  | some instruction => cost state.world instruction

/-- Only an instruction after which the listing goes on with the next one takes no stack
instruction. -/
theorem position_of_costAt_eq_zero {state next : Listing.State} (hcost : costAt listing state = 0)
    (h : interpreter listing state = .running next) :
    state.position < listing.length ∧ next.position = state.position + 1 := by
  rw [costAt] at hcost
  rw [interpreter] at h
  cases hinstruction : listing[state.position]? with
  | none => simp [hinstruction] at h
  | some instruction =>
      refine ⟨(List.getElem?_eq_some_iff.1 hinstruction).1, ?_⟩
      simp only [hinstruction] at hcost h
      cases instruction with
      | comment text =>
          cases h
          rfl
      | print text arguments =>
          rw [execute] at h
          split at h
          · cases h
            rfl
          · cases h
      | assign target source =>
          cases source with
          | operand value => cases hcost
          | operation op left right =>
              simp only [cost, sourceCost] at hcost
              split at hcost <;> cases hcost
          | read prompt =>
              simp only [cost, sourceCost] at hcost
              split at hcost <;> cases hcost
      | _ => cases hcost

/-- What the machine notes for the divisions by zero of a listing: the operator is the third
instruction of its block. -/
def diagnosticsOf (listing : Listing) (notes : List Nat) : Array Diagnostic :=
  (notes.map fun position => .divisionByZero (offset listing position + 2)).toArray

/-- A note with the position of the listing that it points at. -/
def locate (listing : Listing) : Diagnostic → Diagnostic
  | .divisionByZero index => .divisionByZero (owner listing index)
  | .nothingToPrint index => .nothingToPrint (owner listing index)

theorem locate_diagnosticsOf {notes : List Nat} (h : Listing.NotesOperators listing notes) :
    (diagnosticsOf listing notes).toList.map (locate listing) = notes.map .divisionByZero := by
  rw [diagnosticsOf, List.map_map]
  apply List.map_congr_left
  intro position hmem
  obtain ⟨target, op, left, right, hinstruction⟩ := h position hmem
  have hbelongs : Belongs listing (offset listing position + 2) position := by
    refine ⟨Nat.le_add_right _ _, ?_⟩
    rw [offset_succ hinstruction]
    exact Nat.add_lt_add_left (by decide : 2 < 4) _
  change Diagnostic.divisionByZero (owner listing (offset listing position + 2)) = _
  rw [owner_of_belongs hbelongs]

/-- The state of the machine at the beginning of a block. -/
def image (listing : Listing) (state : Listing.State) (steps : Nat) : Machine.State :=
  .of state.world (diagnosticsOf listing state.notes) (offset listing state.position) steps .empty

/-- The machine ends as the listing does at a position: with the same completion, or with the same
trouble at an instruction of that position's block. -/
def Shows (listing : Listing) (last : Machine.State × Outcome) (position : Nat) : Ending → Prop
  | .completed completion => last.2 = .completed completion
  | .failed trouble =>
    ∃ index instruction, (ofListing listing)[index]? = some instruction ∧
      Belongs listing index position ∧ last.1.pc = index + 1 ∧
      last.2 = .failed (.ofTrouble index instruction trouble)

/-- The machine ends with the variables, the input, the output and the notes of the listing, and in
the same way. -/
structure Matches (listing : Listing) (ending : Listing.State × Ending)
    (last : Machine.State × Outcome) : Prop where
  store_eq : last.1.store = ending.1.world.store
  input_eq : last.1.input = ending.1.world.input
  sink_eq : last.1.sink = ending.1.world.sink
  diagnostics_eq : last.1.diagnostics = diagnosticsOf listing ending.1.notes
  shows : Shows listing last ending.1.position ending.2

/-- How the machine ends says how the listing does. -/
theorem Shows.ending_unique {last : Machine.State × Outcome} {position other : Nat}
    {ending another : Ending} (h : Shows listing last position ending)
    (hother : Shows listing last other another) : ending = another := by
  cases ending with
  | completed completion =>
      cases another with
      | completed completion' =>
          obtain rfl := Outcome.completed.inj (h.symm.trans hother)
          rfl
      | failed trouble =>
          obtain ⟨_, _, _, _, _, hfailed⟩ := hother
          cases h.symm.trans hfailed
  | failed trouble =>
      obtain ⟨_, _, _, _, _, hfailed⟩ := h
      cases another with
      | completed completion => cases hfailed.symm.trans hother
      | failed trouble' =>
          obtain ⟨_, _, _, _, _, hfailed'⟩ := hother
          have hfault := Outcome.failed.inj (hfailed.symm.trans hfailed')
          rw [Fault.ofTrouble_injective hfault]

/-- A machine that fails says at which position the listing does. -/
theorem Shows.position_unique {last : Machine.State × Outcome} {position other : Nat}
    {trouble another : Trouble} (h : Shows listing last position (.failed trouble))
    (hother : Shows listing last other (.failed another)) : position = other := by
  obtain ⟨index, _, _, hbelongs, hpc, _⟩ := h
  obtain ⟨index', _, _, hbelongs', hpc', _⟩ := hother
  obtain rfl : index = index' := by omega
  exact hbelongs.unique hbelongs'

/-- The machine runs the code of the listing, without a limit on its steps and with room for the
operands of an operator. -/
structure Hosts (loaded : Loaded) (limits : Limits) (listing : Listing) : Prop where
  load_eq : load (ofListing listing) = .ok loaded
  unlimited : limits.maxSteps = none
  room : 2 ≤ limits.maxStackDepth

/-- The machine answers what the listing does next, and takes `count` steps for it. -/
def Answers (loaded : Loaded) (limits : Limits) (listing : Listing) (state : Listing.State)
    (steps count : Nat) : Next Listing.State (Listing.State × Ending) → Prop
  | .running next =>
    (system loaded limits).Walk count (image listing state steps)
      (image listing next (steps + count))
  | .stopped last =>
    ∃ ending, (system loaded limits).Ends (image listing state steps) ending ∧
      Matches listing last ending ∧ ending.1.steps = steps + count

namespace Hosts

variable (hosts : Hosts loaded limits listing) {world : World} {diagnostics : Array Diagnostic}
  {pc steps : Nat} {stack : Stack}

include hosts

theorem fetch {index : Nat} {instruction : Instruction}
    (h : (ofListing listing)[index]? = some instruction) :
    loaded.code[index]? = some instruction := by
  rw [Machine.code_of_load hosts.load_eq, List.getElem?_toArray, h]

/-- An operand takes one instruction and puts its value on the stack. -/
theorem step_operand {operand : Operand}
    (hfetch : (ofListing listing)[pc]? = some (ofOperand operand))
    (hroom : stack.depth < limits.maxStackDepth) :
    system loaded limits (.of world diagnostics pc steps stack) =
      .running (.of world diagnostics (pc + 1) (steps + 1) (stack.push (operand.value world))) := by
  cases operand with
  | number value => exact Machine.system_push hosts.unlimited hroom (hosts.fetch hfetch)
  | name x => exact Machine.system_load hosts.unlimited hroom (hosts.fetch hfetch)

theorem wellLabelled : Listing.WellLabelled listing := by
  rw [← wellLabelled_ofListing_iff, ← Machine.load_isOk_iff]
  exact ⟨loaded, hosts.load_eq⟩

/-- A jump of the listing finds its label, and the machine finds it at the offset. -/
theorem exists_target {instruction : Listing.Instruction} (hmem : instruction ∈ listing)
    {label : String} (htarget : instruction.target? = some label) :
    ∃ position, listing.idxOf? (.label label) = some position ∧
      loaded.labels.get? label = some (offset listing position) := by
  obtain ⟨position, hposition, hfound⟩ := hosts.wellLabelled.exists_target hmem htarget
  refine ⟨position, hfound, ?_⟩
  rw [Machine.labels_of_load hosts.load_eq]
  exact (placed_ofInstruction hposition).head

end Hosts

/-- The machine notes a division by zero where the listing does. -/
theorem diagnosticsOf_notesIf (state : Listing.State) (op : Operator) (left right : Value) :
    diagnosticsOf listing (state.notesIf (dividesByZero op left right)) =
      Machine.notesOf (offset listing state.position + 2) op left right
        (diagnosticsOf listing state.notes) := by
  rw [Listing.State.notesIf, Machine.notesOf]
  split
  · simp [diagnosticsOf]
  · rfl

end Bytecode

end StackPipeline
