import StackPipeline.Host.Drive
import StackPipeline.Listing.Printer
import StackPipeline.Pipeline.Journal
import StackPipeline.Settings.Reader
import StackPipeline.Tree.Document

/-!
The pipeline on files.
-/

namespace StackPipeline.Host

open Machine (Input)
open Pipeline (Artifacts Cause Failure Report)
open StackPipeline.Tree (Program)

variable {m : Type → Type} [Monad m]

/-- Work that can fail. -/
abbrev Attempt (m : Type → Type) := ExceptT Failure m

/-- Do something that cannot fail. -/
def always {α : Type} (work : m α) : Attempt m α :=
  ExceptT.lift work

/-- The answer of the host, or the failure to get one. -/
def orFail {α : Type} (fail : SystemError → Failure) (work : m (Except SystemError α)) :
    Attempt m α := do
  match ← always work with
  | .ok value => pure value
  | .error error => throw (fail error)

/-- More steps than any program takes that is waited for. -/
def patience : Nat := Nat.pow 2 62

/-- Load a program from the file of its tree. -/
def loadProgram (host : Host m) (journal : Journal m) (path : String) : Attempt m Program := do
  let doing := s!"Failed to load AST: {path}"
  always (journal (Log.debug s!"Loading AST from {path}"))
  let text ← orFail (fun error => (Cause.treeFile path error).during doing) (host.readText path)
  match Program.ofDocument text with
  | .error error => throw ((Cause.tree error).during doing)
  | .ok program => do
    always (journal
      (Log.debug s!"Decoded AST with {program.statements.length} top-level statements"))
    pure program

def compile (journal : Journal m) (settings : Settings) (program : Program) :
    Attempt m Artifacts := do
  always (journal (Pipeline.compileEntry program))
  match Pipeline.compile settings.passes program with
  | .error error => throw ((Cause.lowering error).during "Lowering failed")
  | .ok artifacts => do
    always (Journal.writeAll journal
      (Pipeline.artifactEntries settings.passes program artifacts))
    pure artifacts

/-- Execute stack code, on the given input or else on the standard input; also gives the output that
did not go to the standard output. -/
def execute (host : Host m) (journal : Journal m) (settings : Settings) (toConsole : Bool)
    (input : Option Input) (code : Bytecode) : Attempt m (Report × ByteArray) := do
  match Pipeline.loadCode code with
  | .error failure => throw failure
  | .ok loaded => do
    always (journal (Machine.loadEntry loaded))
    let start := input.getD (Input.ofBytes [])
    let (state, outcome) ← always
      (drive host journal ⟨input.isNone, toConsole⟩ settings.machine loaded patience
        (.start start .unlimited))
    always (journal (Machine.endEntry state outcome))
    match Pipeline.reportOf state outcome with
    | .error failure => throw failure
    | .ok report => pure (report, state.sink.bytes)

/-- The files that a build writes. -/
structure BuildPaths where
  listing : String
  bytecode : String
  output : String

/-- The files of a build in a directory. -/
def BuildPaths.within (directory : String) : BuildPaths :=
  ⟨joinPath directory "ir.txt", joinPath directory "bytecode.txt",
    joinPath directory "output.txt"⟩

def writeArtifact (host : Host m) (journal : Journal m) (path text : String) : Attempt m Unit := do
  always (journal (Log.debug s!"Writing {path}"))
  orFail (fun error => (Cause.system error).during s!"Failed to write: {path}")
    (host.writeFile path text.toUTF8)

/-- Compile the program of a file, run it, and write the listing, the stack code and the output into
a directory. -/
def buildArtifacts (host : Host m) (journal : Journal m) (settings : Settings)
    (source directory : String) (input : Option Input) : Attempt m (BuildPaths × Report) := do
  let program ← loadProgram host journal source
  let artifacts ← compile journal settings program
  orFail (fun error => (Cause.system error).during s!"Failed to create output dir: {directory}")
    (host.makeDirectories directory)
  let paths := BuildPaths.within directory
  writeArtifact host journal paths.listing (Listing.render artifacts.optimized)
  writeArtifact host journal paths.bytecode (Bytecode.render artifacts.bytecode)
  let (report, output) ← execute host journal settings false input artifacts.bytecode
  orFail (fun error => (Cause.system error).during s!"Failed to write output: {paths.output}")
    (host.writeFile paths.output output)
  pure (paths, report)

def loadBytecode (host : Host m) (path : String) : Attempt m Bytecode := do
  let text ← orFail (fun error => (Cause.system error).during s!"Failed to read bytecode: {path}")
    (host.readText path)
  match Bytecode.read text with
  | .error error => throw ((Cause.bytecode error).during s!"Failed to parse bytecode: {path}")
  | .ok code => pure code

/-- The text of the listing in a file after the optimizer. -/
def optimizeFile (host : Host m) (journal : Journal m) (settings : Settings) (path : String) :
    Attempt m String := do
  let text ← orFail (fun error => (Cause.system error).during s!"Failed to read IR: {path}")
    (host.readText path)
  match Listing.read text with
  | .error error => throw ((Cause.listing error).during s!"Failed to parse IR: {path}")
  | .ok listing => do
    let optimized := Optimizer.optimize settings.passes listing
    always (Journal.writeAll journal
      (Pipeline.optimizerEntries settings.passes listing optimized
        (Optimizer.counts settings.passes listing)))
    pure (Listing.render optimized)

def loadSettings (host : Host m) (path : String) : Attempt m Settings := do
  let text ← orFail (fun error => (Cause.settingsFile path error).bare) (host.readText path)
  match Settings.read? text with
  | none => throw Cause.settings.bare
  | some settings => pure settings

def settingsName : String := "parce.toml"

/-- The settings of the project in a directory, or the standard ones. -/
def projectSettings (host : Host m) (directory : String) : Attempt m Settings := do
  let path := joinPath directory settingsName
  if ← always (host.isThere path) then loadSettings host path else pure .standard

/-- The settings of the given file, or else those of the project. -/
def resolveSettings (host : Host m) : Option String → Attempt m Settings
  | some path => loadSettings host path
  | none => projectSettings host "."

end StackPipeline.Host
