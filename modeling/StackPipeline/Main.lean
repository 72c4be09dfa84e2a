import StackPipeline.CommandLine.Run

/-!
The program: the command line on the files and streams of the system.
-/

namespace StackPipeline

def SystemError.ofError : IO.Error → SystemError
  | .noFileOrDirectory _ _ _ => .notFound
  | .alreadyExists _ _ _ => .alreadyExists
  | .inappropriateType _ code text => if code = 21 then .isDirectory
    else if code = 20 then .notDirectory else .other s!"{text} (os error {code})"
  | .permissionDenied _ code text => .other s!"{text} (os error {code})"
  | error => .other (toString error)

/-- Do something and keep its error as an answer. -/
def answering {α : Type} (work : IO α) : IO (Except SystemError α) := do
  match ← work.toBaseIO with
  | .ok value => pure (.ok value)
  | .error error => pure (.error (.ofError error))

/-- Read bytes up to a line feed or the end. -/
partial def readLineBytes (stream : IO.FS.Stream) (line : List UInt8) : IO (List UInt8) := do
  let bytes ← stream.read 1
  match bytes.data.toList with
  | [byte] => if byte = 10 then pure (line ++ [byte]) else readLineBytes stream (line ++ [byte])
  | _ => pure line

/-- Read one more line behind what is left of the standard input. -/
def refillInput (left : Machine.Input) : IO Machine.Input := do
  match ← answering (readLineBytes (← IO.getStdin) []) with
  | .ok line => pure { left with bytes := left.bytes ++ line }
  | .error error => pure { left with failure := some error }

/-- Open a file to read from it; a directory opens too, but cannot be read. -/
def openFile (path : String) : IO (Except SystemError Machine.Input) := do
  match ← answering (IO.FS.Handle.mk path .read) with
  | .error error => pure (.error error)
  | .ok handle =>
    match ← answering handle.readBinToEnd with
    | .ok bytes => pure (.ok (.ofBytes bytes.data.toList))
    | .error error => pure (.ok ⟨[], some error⟩)

/-- Whether something is at a path: it opens, or fails for another reason than being missing. -/
def isThere (path : String) : IO Bool := do
  match ← answering (IO.FS.Handle.mk path .read) with
  | .ok _ => pure true
  | .error error => pure (error != .notFound && error != .notDirectory)

def systemHost : Host IO where
  readFile := fun path => answering (IO.FS.readBinFile path)
  writeFile := fun path bytes => answering (IO.FS.writeBinFile path bytes)
  makeDirectories := fun path =>
    if path.isEmpty then pure (.ok ()) else answering (IO.FS.createDirAll path)
  isThere := isThere
  openInput := openFile
  refill := refillInput
  print := fun bytes => do
    let stdout ← IO.getStdout
    stdout.write bytes
    stdout.flush
  warn := fun text => do
    (← IO.getStderr).putStr text

end StackPipeline

def main (arguments : List String) : IO UInt32 := do
  let code ← StackPipeline.CommandLine.run StackPipeline.systemHost arguments
  pure code.toUInt32
