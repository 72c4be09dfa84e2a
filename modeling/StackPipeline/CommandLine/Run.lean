import StackPipeline.CommandLine.Arguments
import StackPipeline.Host.Commands

/-!
The command line on a host.
-/

namespace StackPipeline.CommandLine

open Host (Attempt always)
open Pipeline (Cause Report)

variable {m : Type → Type} [Monad m]

def toolName : String := "Parce"

def commandName : String := "parce"

def toolVersion : String := "0.1.0"

def platformName : String := "linux"

def usage : String :=
  "Usage: parce [OPTIONS] <COMMAND>\n\n" ++
  "Commands:\n" ++
  "  build     Compile a JSON AST and write ir.txt, bytecode.txt and output.txt\n" ++
  "  run       Compile and run a JSON AST on stdin/stdout\n" ++
  "  exec      Run a textual bytecode listing\n" ++
  "  optimize  Optimize a textual IR listing and print the result\n" ++
  "  version   Print version information\n" ++
  "  help      Print this message\n\n" ++
  "Options:\n" ++
  "  -v, --verbose        Enable verbose output\n" ++
  "  -c, --config <FILE>  Configuration file (defaults to ./parce.toml when present)\n" ++
  "  -h, --help           Print help\n" ++
  "  -V, --version        Print version\n"

def printLine (host : Host m) (text : String) : m Unit :=
  host.print (text ++ "\n").toUTF8

/-- Sum up a run in the log. -/
def summarize (journal : Journal m) (report : Report) : m Unit :=
  Journal.writeAll journal (Pipeline.reportEntries report)

/-- Build the artifacts of a program. -/
def build (host : Host m) (journal : Journal m) (settings : Settings) (file directory : String)
    (input : Option String) : Attempt m Unit := do
  let opened ← match input with
    | none => pure none
    | some path => do
      let opened ← Host.orFail
        (fun error => (Cause.system error).during s!"Failed to open input: {path}")
        (host.openInput path)
      pure (some opened)
  let (paths, report) ← host.buildArtifacts journal settings file directory opened
  always (summarize journal report)
  always (host.warn s!"IR:       {paths.listing}\n")
  always (host.warn s!"Bytecode: {paths.bytecode}\n")
  always (host.warn s!"Output:   {paths.output}\n")

/-- Run stack code on the standard input and output. -/
def runOnConsole (host : Host m) (journal : Journal m) (settings : Settings) (code : Bytecode) :
    Attempt m Report := do
  let (report, _) ← host.execute journal settings true none code
  pure report

/-- Say what was being done if work fails. -/
def during {α : Type} (doing : String) (work : Attempt m α) : Attempt m α :=
  ExceptT.mk do
    match ← work.run with
    | .ok value => pure (.ok value)
    | .error failure => pure (.error (failure.during doing))

def perform (host : Host m) (journal : Journal m) (settings : Settings) :
    Command → Attempt m Unit
  | .build file directory input =>
    during s!"Failed to build: {file}" (build host journal settings file directory input)
  | .run file => do
    let program ← host.loadProgram journal file
    let artifacts ← Host.compile journal settings program
    let report ← during s!"Failed to run: {file}"
      (runOnConsole host journal settings artifacts.bytecode)
    always (summarize journal report)
  | .exec file => do
    let code ← host.loadBytecode file
    let report ← during s!"Failed to execute: {file}" (runOnConsole host journal settings code)
    always (summarize journal report)
  | .optimize file => do
    let text ← host.optimizeFile journal settings file
    always (printLine host text)
  | .version => always (printLine host (toolName ++ " " ++ toolVersion))

/-- Find the settings, begin the log, and carry out a command. -/
def performWith (host : Host m) (options : Options) (command : Command) : Attempt m Unit := do
  let settings ← during "Failed to load configuration" (host.resolveSettings options.config)
  let journal := host.journal (if options.verbose then .debug else settings.logLevel)
  always (journal (Log.debug s!"{toolName} {toolVersion} on {platformName}"))
  perform host journal settings command

/-- Do what the arguments ask for; gives the exit code. -/
def run (host : Host m) (arguments : List String) : m Nat := do
  match Request.ofArguments arguments with
  | .invalid => do
    host.warn usage
    pure 2
  | .help => do
    host.print usage.toUTF8
    pure 0
  | .version => do
    printLine host (commandName ++ " " ++ toolVersion)
    pure 0
  | .command command options => do
    match ← (performWith host options command).run with
    | .ok () => pure 0
    | .error failure => do
      host.warn failure.report
      pure 1

end StackPipeline.CommandLine
