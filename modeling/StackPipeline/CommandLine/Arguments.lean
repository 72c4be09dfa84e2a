/-!
The arguments of the command line.

    [options] build FILE [-o DIR] [-i FILE]
    [options] run FILE
    [options] exec FILE
    [options] optimize FILE
    [options] version

The options `-v` and `-c FILE` stand before or after the command; one given after it counts more.
Options and the file may come in any order, and after `--` everything is a file.
-/

namespace StackPipeline.CommandLine

/-- What to do. -/
inductive Command
  | build (file directory : String) (input : Option String)
  | run (file : String)
  | exec (file : String)
  | optimize (file : String)
  | version
deriving DecidableEq

/-- What holds for every command. -/
structure Options where
  verbose : Bool
  config : Option String
deriving DecidableEq

/-- What the arguments ask for. -/
inductive Request
  | command (command : Command) (options : Options)
  | help
  | version
  /-- The arguments make no sense. -/
  | invalid
deriving DecidableEq

/-- Where an argument stands: before the command, or after one. -/
inductive Scope
  | top
  | build
  | run
  | exec
  | optimize
  | version
deriving DecidableEq

def Scope.ofName? (name : String) : Option Scope :=
  if name = "build" then some .build
  else if name = "run" then some .run
  else if name = "exec" then some .exec
  else if name = "optimize" then some .optimize
  else if name = "version" then some .version
  else none

/-- Options that take a value. -/
inductive Slot
  | config
  | output
  | input
deriving DecidableEq

/-- Options. -/
inductive Flag
  | verbose
  | help
  | version
  | slot (slot : Slot)
deriving DecidableEq

def Scope.long? (scope : Scope) (name : String) : Option Flag :=
  if name = "verbose" then some .verbose
  else if name = "help" then some .help
  else if name = "config" then some (.slot .config)
  else if name = "version" && scope = .top then some .version
  else if name = "output" && scope = .build then some (.slot .output)
  else if name = "input" && scope = .build then some (.slot .input)
  else none

def Scope.short? (scope : Scope) (letter : Char) : Option Flag :=
  if letter = 'v' then some .verbose
  else if letter = 'h' then some .help
  else if letter = 'c' then some (.slot .config)
  else if letter = 'V' && scope = .top then some .version
  else if letter = 'o' && scope = .build then some (.slot .output)
  else if letter = 'i' && scope = .build then some (.slot .input)
  else none

/-- What has been read on one side of the command. -/
structure Found where
  verbose : Bool
  config : Option String
  output : Option String
  input : Option String
  file : Option String
deriving DecidableEq

def Found.none : Found := ⟨false, .none, .none, .none, .none⟩

/-- Fill a slot, which must be free, with a value, which must not be empty. -/
def Found.fill? (found : Found) (slot : Slot) (value : String) : Option Found :=
  if value.isEmpty then .none
  else match slot with
    | .config => if found.config.isSome then .none else some { found with config := some value }
    | .output => if found.output.isSome then .none else some { found with output := some value }
    | .input => if found.input.isSome then .none else some { found with input := some value }

/-- Reading of one side of the command. -/
structure Progress where
  found : Found
  /-- The option whose value comes next. -/
  pending : Option Slot
  /-- Whether `--` has come. -/
  onlyFiles : Bool

/-- What an argument leads to. -/
inductive Outcome
  | next (progress : Progress)
  /-- The argument names a command. -/
  | enter (scope : Scope)
  | stop (request : Request)
  /-- The argument asks for help about what follows. -/
  | helpAbout

/-- Go on with these findings. -/
def Progress.continue? (progress : Progress) : Option Found → Outcome
  | some found => .next { progress with found, pending := none }
  | none => .stop .invalid

/-- Switch the verbose option on, once. -/
def Found.beVerbose? (found : Found) : Option Found :=
  if found.verbose then .none else some { found with verbose := true }

/-- Read letters after a dash.  The value of an option is the rest of them, or comes next. -/
def readLetters (scope : Scope) : Progress → List Char → Outcome
  | progress, [] => .next progress
  | progress, letter :: rest =>
    match scope.short? letter with
    | none => .stop .invalid
    | some .help => .stop .help
    | some .version => .stop .version
    | some .verbose =>
      match progress.found.beVerbose? with
      | some found => readLetters scope { progress with found } rest
      | none => .stop .invalid
    | some (.slot slot) =>
      match rest with
      | [] => .next { progress with pending := some slot }
      | '=' :: value => progress.continue? (progress.found.fill? slot (String.ofList value))
      | value => progress.continue? (progress.found.fill? slot (String.ofList value))

/-- Read an option after two dashes; its value may follow an equals sign. -/
def readLong (scope : Scope) (progress : Progress) (text : List Char) : Outcome :=
  let (name, value) := text.span (· != '=')
  match scope.long? (String.ofList name), value with
  | none, _ => .stop .invalid
  | some .help, [] => .stop .help
  | some .version, [] => .stop .version
  | some .verbose, [] => progress.continue? progress.found.beVerbose?
  | some (.slot slot), [] => .next { progress with pending := some slot }
  | some (.slot slot), _ :: value =>
    progress.continue? (progress.found.fill? slot (String.ofList value))
  | _, _ => .stop .invalid

/-- Read an argument that is no option: the file, of which there is one, or the command. -/
def readFile (scope : Scope) (progress : Progress) (text : String) : Outcome :=
  match scope with
  | .top =>
    if progress.onlyFiles then .stop .invalid
    else if text = "help" then .helpAbout
    else match Scope.ofName? text with
      | some scope => .enter scope
      | none => .stop .invalid
  | .version => .stop .invalid
  | _ =>
    if text.isEmpty || progress.found.file.isSome then .stop .invalid
    else .next { progress with found := { progress.found with file := some text } }

def readArgument (scope : Scope) (progress : Progress) (text : String) : Outcome :=
  match progress.pending with
  | some slot =>
    match text.toList with
    | '-' :: _ :: _ => .stop .invalid
    | _ => progress.continue? (progress.found.fill? slot text)
  | none =>
    if progress.onlyFiles then readFile scope progress text
    else match text.toList with
      | ['-', '-'] => .next { progress with onlyFiles := true }
      | '-' :: '-' :: rest => readLong scope progress rest
      | '-' :: letter :: rest => readLetters scope progress (letter :: rest)
      | _ => readFile scope progress text

/-- Help about a command is there for each of them, and for help itself. -/
def readHelp : List String → Request
  | [] => .help
  | [name] => if (Scope.ofName? name).isSome || name = "help" then .help else .invalid
  | _ => .invalid

/-- The request once all arguments are read. -/
def finish (scope : Scope) (top found : Found) : Request :=
  let options : Options := ⟨top.verbose || found.verbose, found.config <|> top.config⟩
  match scope, found.file with
  | .build, some file =>
    .command (.build file (found.output.getD ".") found.input) options
  | .run, some file => .command (.run file) options
  | .exec, some file => .command (.exec file) options
  | .optimize, some file => .command (.optimize file) options
  | .version, _ => .command .version options
  | _, _ => .invalid

/-- Read arguments in a scope; `top` is what was found before the command. -/
def readFrom (scope : Scope) (top : Found) : Progress → List String → Request
  | progress, [] =>
    if progress.pending.isSome then .invalid else finish scope top progress.found
  | progress, text :: rest =>
    match readArgument scope progress text with
    | .next progress => readFrom scope top progress rest
    | .stop request => request
    | .helpAbout => readHelp rest
    | .enter scope => readFrom scope progress.found ⟨.none, none, false⟩ rest

/-- Read the arguments. -/
def Request.ofArguments (arguments : List String) : Request :=
  readFrom .top .none ⟨.none, none, false⟩ arguments

end StackPipeline.CommandLine
