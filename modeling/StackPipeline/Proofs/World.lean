import StackPipeline.Machine.Step

/-!
What a program works on, apart from where it is: variables, input and output.  Both listings and
trees are given their meaning by the same few attempts to read, to compute and to write.
-/

namespace StackPipeline

open Machine (Value Input Sink)

/-- Variables, the input that is left and the output so far. -/
structure World where
  store : Store Value
  input : Input
  sink : Sink

/-- Why a program cannot go on. -/
inductive Trouble
  /-- A text decides where to go. -/
  | textCondition
  /-- An operator that wants numbers gets a text. -/
  | textOperand (op : Operator) (left right : Value)
  /-- A loop is left or continued outside of any. -/
  | unresolvedTransfer
  | inputClosed
  | system (error : SystemError)
deriving DecidableEq

/-- Whether an operator or a condition got a value of the wrong kind. -/
def Trouble.isTypeError : Trouble → Bool
  | .textCondition | .textOperand _ _ _ => true
  | _ => false

/-- What comes of an attempt: a value, or trouble, and what has been done by then. -/
inductive Trial (σ α : Type)
  | done (state : σ) (value : α)
  | failed (state : σ) (trouble : Trouble)

namespace World

def start (input : Input) (sink : Sink) : World := ⟨.empty, input, sink⟩

/-- The value of a variable; zero if it was never set. -/
def valueOf (world : World) (name : String) : Value :=
  (world.store.get? name).getD .zero

def assign (world : World) (name : String) (value : Value) : World :=
  { world with store := world.store.set name value }

def write (world : World) (text : String) : Trial World Unit :=
  let written := { world with sink := world.sink.write text }
  if world.sink.hasRoom text.utf8ByteSize then .done written ()
  else .failed written (.system .outputFull)

/-- Write lines, until one does not go in. -/
def writeLines : World → List String → Trial World Unit
  | world, [] => .done world ()
  | world, line :: rest =>
    match world.write (line ++ "\n") with
    | .done world () => world.writeLines rest
    | .failed world trouble => .failed world trouble

/-- Ask for a line of input with a prompt. -/
def readLine (world : World) (prompt : String) : Trial World Value :=
  match world.write prompt with
  | .failed world trouble => .failed world trouble
  | .done world () =>
    match world.input.takeLine with
    | (.closed, _) => .failed world .inputClosed
    | (.failed error, input) => .failed { world with input } (.system error)
    | (.line text, input) => .done { world with input } (.ofLine text)

/-- Writing leaves the variables alone. -/
theorem store_of_write {world after : World} {text : String}
    (h : world.write text = .done after ()) : after.store = world.store := by
  rw [write] at h
  split at h
  · cases h
    rfl
  · cases h

theorem store_of_writeLines {world after : World} {lines : List String}
    (h : world.writeLines lines = .done after ()) : after.store = world.store := by
  induction lines generalizing world with
  | nil =>
      obtain rfl := (Trial.done.inj h).1
      rfl
  | cons line rest ih =>
      rw [writeLines] at h
      cases hwrite : world.write (line ++ "\n") with
      | failed written trouble => simp [hwrite] at h
      | done written =>
          simp only [hwrite] at h
          exact (ih h).trans (store_of_write hwrite)

theorem store_of_readLine {world after : World} {prompt : String} {value : Value}
    (h : world.readLine prompt = .done after value) : after.store = world.store := by
  rw [readLine] at h
  cases hwrite : world.write prompt with
  | failed written trouble => simp [hwrite] at h
  | done written =>
      simp only [hwrite] at h
      split at h
      · cases h
      · cases h
      · cases h
        have hstore := store_of_write hwrite
        exact hstore

theorem get?_assign (world : World) (name other : String) (value : Value) :
    (world.assign name value).store.get? other =
      if name = other then some value else world.store.get? other :=
  Store.get?_set world.store name other value

theorem valueOf_assign (world : World) (name other : String) (value : Value) :
    (world.assign name value).valueOf other =
      if name = other then value else world.valueOf other := by
  rw [valueOf, get?_assign]
  split
  · rfl
  · rfl

end World

/-- Two worlds agree on some names, and have the same input and output. -/
structure World.AgreeOn (names : String → Prop) (world other : World) : Prop where
  input_eq : other.input = world.input
  sink_eq : other.sink = world.sink
  get?_eq : ∀ name, names name → other.store.get? name = world.store.get? name

/-- The same comes of two attempts, in worlds that agree on some names. -/
def Trial.Alike {α : Type} (names : String → Prop) : Trial World α → Trial World α → Prop
  | .done world value, .done other value' => world.AgreeOn names other ∧ value' = value
  | .failed world trouble, .failed other trouble' => world.AgreeOn names other ∧ trouble' = trouble
  | _, _ => False

theorem Trial.Alike.of_done {α : Type} {names : String → Prop} {world : World} {value : α}
    {trial : Trial World α} (h : Trial.Alike names (.done world value) trial) :
    ∃ other, trial = .done other value ∧ world.AgreeOn names other := by
  cases trial with
  | done other value' =>
      obtain ⟨hagree, rfl⟩ := h
      exact ⟨other, rfl, hagree⟩
  | failed other trouble => exact absurd h id

theorem Trial.Alike.of_failed {α : Type} {names : String → Prop} {world : World} {trouble : Trouble}
    {trial : Trial World α} (h : Trial.Alike names (.failed world trouble) trial) :
    ∃ other, trial = .failed other trouble ∧ world.AgreeOn names other := by
  cases trial with
  | done other value => exact absurd h id
  | failed other trouble' =>
      obtain ⟨hagree, rfl⟩ := h
      exact ⟨other, rfl, hagree⟩

namespace World.AgreeOn

variable {names : String → Prop} {world other : World} (h : world.AgreeOn names other)

include h

theorem value_eq (name : String) (hname : names name) : other.valueOf name = world.valueOf name := by
  rw [valueOf, h.get?_eq name hname]
  rfl

theorem mono {fewer : String → Prop} (hfewer : ∀ name, fewer name → names name) :
    world.AgreeOn fewer other :=
  ⟨h.input_eq, h.sink_eq, fun name hname => h.get?_eq name (hfewer name hname)⟩

/-- Two worlds that are given the same value also agree on that name. -/
theorem assign (target : String) (value : Value) :
    (world.assign target value).AgreeOn (fun name => name = target ∨ names name)
      (other.assign target value) := by
  refine ⟨h.input_eq, h.sink_eq, ?_⟩
  intro name hname
  rw [get?_assign, get?_assign]
  by_cases heq : target = name
  · rw [if_pos heq, if_pos heq]
  · rw [if_neg heq, if_neg heq]
    exact h.get?_eq name (hname.resolve_left (Ne.symm heq))

theorem write (text : String) : Trial.Alike names (world.write text) (other.write text) := by
  rw [World.write, World.write, h.sink_eq]
  split
  · exact ⟨⟨h.input_eq, rfl, h.get?_eq⟩, rfl⟩
  · exact ⟨⟨h.input_eq, rfl, h.get?_eq⟩, rfl⟩

theorem writeLines (lines : List String) :
    Trial.Alike names (world.writeLines lines) (other.writeLines lines) := by
  induction lines generalizing world other with
  | nil => exact ⟨h, rfl⟩
  | cons line rest ih =>
      have hwrite := h.write (line ++ "\n")
      rw [World.writeLines, World.writeLines]
      cases hworld : world.write (line ++ "\n") with
      | done after =>
          rw [hworld] at hwrite
          obtain ⟨after', hother, hagree⟩ := hwrite.of_done
          rw [hother]
          exact ih hagree
      | failed after trouble =>
          rw [hworld] at hwrite
          obtain ⟨after', hother, hagree⟩ := hwrite.of_failed
          rw [hother]
          exact ⟨hagree, rfl⟩

theorem readLine (prompt : String) :
    Trial.Alike names (world.readLine prompt) (other.readLine prompt) := by
  have hwrite := h.write prompt
  rw [World.readLine, World.readLine]
  cases hworld : world.write prompt with
  | failed after trouble =>
      rw [hworld] at hwrite
      obtain ⟨after', hother, hagree⟩ := hwrite.of_failed
      rw [hother]
      exact ⟨hagree, rfl⟩
  | done after =>
      rw [hworld] at hwrite
      obtain ⟨after', hother, hagree⟩ := hwrite.of_done
      rw [hother]
      dsimp only
      rw [hagree.input_eq]
      cases after.input.takeLine with
      | mk result input =>
          cases result with
          | closed => exact ⟨hagree, rfl⟩
          | failed error => exact ⟨⟨rfl, hagree.sink_eq, hagree.get?_eq⟩, rfl⟩
          | line text => exact ⟨⟨rfl, hagree.sink_eq, hagree.get?_eq⟩, rfl⟩

end World.AgreeOn

/-- The lines that a print statement writes: the text unless it is empty, and the values. -/
def printedLines (text : String) (values : List Value) : List String :=
  (if text.isEmpty then [] else [text]) ++ values.map Value.render

end StackPipeline
