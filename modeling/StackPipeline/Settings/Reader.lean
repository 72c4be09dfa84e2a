import StackPipeline.Settings.Basic
import StackPipeline.Toml.Reader

/-!
Settings from TOML documents.

A section may be a table, in which unknown keys do not count, or an array of its values in order.
What is not there keeps its standard value.
-/

namespace StackPipeline.Settings

open Toml (Value)

/-- The parts of a section: by name, or in order. -/
inductive Section
  | named (entries : List (String × Value))
  | ordered (items : List Value)

def Section.ofValue? : Value → Option Section
  | .table entries => some (.named entries)
  | .array items => some (.ordered items)
  | .moment _ => some (.named [])
  | _ => none

/-- A part of a section by its name and its place. -/
def Section.part? (part : Section) (name : String) (place : Nat) : Option Value :=
  match part with
  | .named entries => (entries.find? fun entry => entry.1 == name).map Prod.snd
  | .ordered items => items[place]?

/-- The section with a name; an empty one if it is not there. -/
def sectionOf? (entries : List (String × Value)) (name : String) : Option Section :=
  match entries.find? fun entry => entry.1 == name with
  | none => some (.named [])
  | some entry => Section.ofValue? entry.2

/-- Read a part that may be absent. -/
def partOr? {α : Type} (standard : α) (read : Value → Option α) : Option Value → Option α
  | none => some standard
  | some value => read value

def boolean? : Value → Option Bool
  | .boolean value => some value
  | _ => none

/-- A number that is not negative. -/
def natural? : Value → Option Nat
  | .integer value => if value < 0 then none else some value.toNat
  | _ => none

/-- Whether a value holds nothing. -/
def isEmpty : Value → Bool
  | .array [] => true
  | .table [] => true
  | _ => false

/-- A log level: its name, or a table with the name as its only key and nothing under it. -/
def level? : Value → Option Log.Level
  | .string name => Log.Level.ofName? name
  | .table [(name, value)] => if isEmpty value then Log.Level.ofName? name else none
  | _ => none

def passes? (part : Section) : Option Optimizer.Passes :=
  match partOr? true boolean? (part.part? "constant_folding" 0),
    partOr? true boolean? (part.part? "dead_code_elimination" 1) with
  | some constantFolding, some deadCodeElimination => some ⟨constantFolding, deadCodeElimination⟩
  | _, _ => none

def machine? (part : Section) : Option MachineSettings :=
  let standard := MachineSettings.standard
  match partOr? standard.limits.maxStackDepth natural? (part.part? "max_stack_depth" 0),
    partOr? standard.limits.maxSteps (fun value => (natural? value).map some)
      (part.part? "max_steps" 1),
    partOr? standard.traceExecution boolean? (part.part? "trace_execution" 2) with
  | some maxStackDepth, some maxSteps, some traceExecution =>
    some ⟨⟨maxStackDepth, maxSteps⟩, traceExecution⟩
  | _, _, _ => none

def logLevel? (part : Section) : Option Log.Level :=
  partOr? Settings.standard.logLevel level? (part.part? "level" 0)

/-- Read settings from a document; nothing if it is malformed or does not fit. -/
def read? (document : String) : Option Settings :=
  match Toml.read? document with
  | none => none
  | some entries =>
    match (sectionOf? entries "optimizer").bind passes?, (sectionOf? entries "vm").bind machine?,
      (sectionOf? entries "log").bind logLevel? with
    | some passes, some machine, some level => some ⟨passes, machine, level⟩
    | _, _, _ => none

end StackPipeline.Settings
