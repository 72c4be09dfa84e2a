import StackPipeline.Log.Basic
import StackPipeline.Machine.Channel

/-!
The host: what a program asks of the world around it.
-/

namespace StackPipeline

/-- Files, the standard input and the two standard outputs. -/
structure Host (m : Type → Type) where
  readFile : String → m (Except SystemError ByteArray)
  writeFile : String → ByteArray → m (Except SystemError Unit)
  /-- Make a directory and those it lies in, unless they are there. -/
  makeDirectories : String → m (Except SystemError Unit)
  isThere : String → m Bool
  /-- Open a file to read from it line by line. -/
  openInput : String → m (Except SystemError Machine.Input)
  /-- Put more of the standard input behind what is left of it: a line at least, unless it has
  ended. -/
  refill : Machine.Input → m Machine.Input
  print : ByteArray → m Unit
  warn : String → m Unit

/-- Where log entries go. -/
abbrev Journal (m : Type → Type) := Log.Entry → m Unit

/-- A journal that keeps nothing. -/
def Journal.silent {m : Type → Type} [Monad m] : Journal m := fun _ => pure ()

def Journal.writeAll {m : Type → Type} [Monad m] (journal : Journal m) : List Log.Entry → m Unit
  | [] => pure ()
  | entry :: rest => do
    journal entry
    Journal.writeAll journal rest

/-- The entries at or above a threshold, on the standard error output. -/
def Host.journal {m : Type → Type} [Monad m] (host : Host m) (threshold : Log.Level) : Journal m :=
  fun entry =>
    if entry.level.isShown threshold then host.warn (entry.render ++ "\n") else pure ()

def Host.readText {m : Type → Type} [Monad m] (host : Host m) (path : String) :
    m (Except SystemError String) := do
  match ← host.readFile path with
  | .error error => pure (.error error)
  | .ok bytes =>
    match String.fromUTF8? bytes with
    | some text => pure (.ok text)
    | none => pure (.error .invalidText)

def joinPath (directory name : String) : String :=
  if directory.isEmpty then name
  else if directory.toList.getLast? = some '/' then directory ++ name
  else directory ++ "/" ++ name

end StackPipeline
