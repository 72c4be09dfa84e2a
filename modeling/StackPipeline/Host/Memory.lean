import StackPipeline.Host.Basic

/-!
A host in memory: a tree of files, a standard input, and what has been written to the standard
outputs.
-/

namespace StackPipeline.Host

open Machine (Input)

/-- A file or a directory. -/
inductive Entry
  | file (bytes : ByteArray)
  | directory

/-- A tree of files.  Paths are lists of names from the working directory on; that directory itself
is always there. -/
structure Files where
  entries : List (List String × Entry)

namespace Files

def empty : Files := ⟨[]⟩

/-- What is at a path. -/
def find? (files : Files) : List String → Option Entry
  | [] => some .directory
  | path => (files.entries.find? fun entry => entry.1 == path).map Prod.snd

def put (files : Files) (path : List String) (entry : Entry) : Files :=
  ⟨(path, entry) :: files.entries.filter fun other => other.1 != path⟩

/-- Follow names from a directory on.  The last name need not be there; the names before it must be
directories. -/
def walk (files : Files) : List String → List String → Except SystemError (List String)
  | here, [] => .ok here
  | here, name :: rest =>
    match files.find? here with
    | none => .error .notFound
    | some (.file _) => .error .notDirectory
    | some .directory =>
      if name.isEmpty || name = "." then walk files here rest
      else if name = ".." then walk files here.dropLast rest
      else walk files (here ++ [name]) rest

def namesOf (path : String) : List String :=
  path.splitOn "/"

/-- The place that a path leads to; an empty path and paths from the root lead nowhere. -/
def locate (files : Files) (path : String) : Except SystemError (List String) :=
  match namesOf path with
  | "" :: _ => .error .notFound
  | names => walk files [] names

/-- What a path leads to. -/
def get (files : Files) (path : String) : Except SystemError Entry :=
  match files.locate path with
  | .error error => .error error
  | .ok place =>
    match files.find? place with
    | none => .error .notFound
    | some entry => .ok entry

def read (files : Files) (path : String) : Except SystemError ByteArray :=
  match files.get path with
  | .error error => .error error
  | .ok .directory => .error .isDirectory
  | .ok (.file bytes) => .ok bytes

/-- Whether a path ends in a way that only fits a directory. -/
def wantsDirectory (path : String) : Bool :=
  match (namesOf path).getLast? with
  | some name => name.isEmpty || name = "." || name = ".."
  | none => true

/-- Write a file.  Its directory must be there. -/
def write (files : Files) (path : String) (bytes : ByteArray) : Except SystemError Files :=
  match files.locate path with
  | .error error => .error error
  | .ok place =>
    match files.find? place with
    | some .directory => .error .isDirectory
    | some (.file _) => .ok (files.put place (.file bytes))
    | none =>
      if wantsDirectory path then .error .isDirectory
      else match files.find? place.dropLast with
        | some .directory => .ok (files.put place (.file bytes))
        | some (.file _) => .error .notDirectory
        | none => .error .notFound

/-- Make the directories on a path from a directory on. -/
def makeFrom (files : Files) : List String → List String → Except SystemError Files
  | _, [] => .ok files
  | here, name :: rest =>
    if name.isEmpty || name = "." then makeFrom files here rest
    else if name = ".." then makeFrom files here.dropLast rest
    else
      let place := here ++ [name]
      match files.find? place with
      | some .directory => makeFrom files place rest
      | some (.file _) => .error (if rest.isEmpty then .alreadyExists else .notDirectory)
      | none => makeFrom (files.put place .directory) place rest

/-- Make a directory and those it lies in. -/
def makeDirectories (files : Files) (path : String) : Except SystemError Files :=
  if path.isEmpty then .ok files else files.makeFrom [] (namesOf path)

/-- Add a file with its directories. -/
def add (files : Files) (path : String) (bytes : ByteArray) : Files :=
  let names := namesOf path
  match files.makeFrom [] names.dropLast with
  | .ok files => files.put (names.filter fun name => !name.isEmpty && name != ".") (.file bytes)
  | .error _ => files

/-- The files that are new or changed, with their names. -/
def changedSince (files before : Files) : List (String × ByteArray) :=
  files.entries.filterMap fun entry =>
    match entry.2 with
    | .directory => none
    | .file bytes =>
      match before.find? entry.1 with
      | some (.file old) => if old == bytes then none else some ("/".intercalate entry.1, bytes)
      | _ => some ("/".intercalate entry.1, bytes)

end Files

/-- The state of a host in memory. -/
structure Memory where
  files : Files
  input : Input
  output : ByteArray
  errors : String

def Memory.start (files : Files) (input : Input) : Memory := ⟨files, input, .empty, ""⟩

def changeFiles (change : Files → Except SystemError Files) :
    StateM Memory (Except SystemError Unit) := fun memory =>
  match change memory.files with
  | .ok files => (.ok (), { memory with files })
  | .error error => (.error error, memory)

/-- The host in memory. -/
def memory : Host (StateM Memory) where
  readFile := fun path memory => (memory.files.read path, memory)
  writeFile := fun path bytes => changeFiles fun files => files.write path bytes
  makeDirectories := fun path => changeFiles fun files => files.makeDirectories path
  isThere := fun path memory =>
    match memory.files.get path with
    | .ok _ => (true, memory)
    | .error _ => (false, memory)
  openInput := fun path memory =>
    match memory.files.get path with
    | .error error => (.error error, memory)
    | .ok .directory => (.ok ⟨[], some .isDirectory⟩, memory)
    | .ok (.file bytes) => (.ok (.ofBytes bytes.data.toList), memory)
  refill := fun left memory =>
    match memory.input.bytes with
    | [] => ({ left with failure := memory.input.failure }, memory)
    | bytes =>
      (⟨left.bytes ++ bytes, memory.input.failure⟩,
        { memory with input := { memory.input with bytes := [] } })
  print := fun bytes memory => ((), { memory with output := memory.output ++ bytes })
  warn := fun text memory => ((), { memory with errors := memory.errors ++ text })

end StackPipeline.Host
