import StackPipeline.Bytecode.Reader
import StackPipeline.Json.Problem
import StackPipeline.Listing.Reader
import StackPipeline.Lowering
import StackPipeline.Machine.Fault

/-!
Failures of the pipeline: a cause and what was being done when it arose.
-/

namespace StackPipeline.Pipeline

/-- Why something fails. -/
inductive Cause
  | lowering (error : Lowering.LoweringError)
  | load (error : Machine.LoadError)
  | fault (fault : Machine.Fault)
  | listing (error : Listing.ReadError)
  | bytecode (error : Bytecode.ReadError)
  /-- The file of a tree cannot be read. -/
  | treeFile (path : String) (error : SystemError)
  | tree (error : Json.DocumentError)
  | system (error : SystemError)
  /-- A file of settings cannot be read. -/
  | settingsFile (path : String) (error : SystemError)
  | settings

/-- The text of a cause and of the errors behind it, the nearest first. -/
def Cause.chain : Cause → List String
  | .lowering error => [error.message]
  | .load error => [error.message]
  | .fault (.system error) => [(Machine.Fault.system error).message, error.message]
  | .fault other => [other.message]
  | .listing error => [error.message]
  | .bytecode error => [error.message]
  | .treeFile path error => [s!"failed to read {path}: {error.message}", error.message]
  | .tree error => [s!"malformed AST: {error.message}", error.message]
  | .system error => [error.message]
  | .settingsFile path error => [s!"IO error reading {path}: {error.message}", error.message]
  | .settings =>
    let text := "the document is malformed or does not fit"
    [s!"Config parse error: {text}", text]

/-- A failure: its cause, and what was being done, the outermost first. -/
structure Failure where
  contexts : List String
  cause : Cause

/-- A failure while nothing in particular was being done. -/
def Cause.bare (cause : Cause) : Failure := ⟨[], cause⟩

/-- A failure while something was being done. -/
def Cause.during (cause : Cause) (doing : String) : Failure := ⟨[doing], cause⟩

/-- Say what else was being done around a failure. -/
def Failure.during (failure : Failure) (doing : String) : Failure :=
  { failure with contexts := doing :: failure.contexts }

/-- All texts of a failure, the outermost first. -/
def Failure.chain (failure : Failure) : List String :=
  failure.contexts ++ failure.cause.chain

/-- A number at the right end of five characters. -/
def fiveWide (n : Nat) : String :=
  let digits := toString n
  String.ofList (List.replicate (5 - digits.length) ' ') ++ digits

/-- A cause among the causes in a report; the number is there if there are several. -/
def indented (number : Option Nat) (text : String) : String :=
  let (first, later) :=
    match number with
    | some n => (fiveWide n ++ ": ", "       ")
    | none => ("    ", "    ")
  first ++ String.ofList (text.toList.flatMap fun c => if c = '\n' then c :: later.toList else [c])

def numberedCauses : Nat → List String → String
  | _, [] => ""
  | n, cause :: rest => "\n" ++ indented (some n) cause ++ numberedCauses (n + 1) rest

def Failure.report (failure : Failure) : String :=
  match failure.chain with
  | [] => "Error: \n"
  | [text] => "Error: " ++ text ++ "\n"
  | [text, cause] => "Error: " ++ text ++ "\n\nCaused by:\n" ++ indented none cause ++ "\n"
  | text :: causes => "Error: " ++ text ++ "\n\nCaused by:" ++ numberedCauses 0 causes ++ "\n"

end StackPipeline.Pipeline
