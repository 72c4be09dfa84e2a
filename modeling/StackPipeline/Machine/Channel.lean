import StackPipeline.SystemError

/-!
What a running program reads from and writes to: bytes that come in lines, and bytes that pile up.
-/

namespace StackPipeline.Machine

/-- The input that is still to be read. -/
structure Input where
  bytes : List UInt8
  /-- What reading meets after the bytes, if not simply the end. -/
  failure : Option SystemError

/-- What reading a line gives. -/
inductive LineRead
  /-- A line without its end. -/
  | line (text : List Char)
  /-- There is no input left. -/
  | closed
  | failed (error : SystemError)

/-- The bytes up to and with the first line feed, and the bytes after it. -/
def splitLine : List UInt8 → List UInt8 × List UInt8
  | [] => ([], [])
  | byte :: rest =>
    if byte = 10 then ([byte], rest)
    else
      let (line, later) := splitLine rest
      (byte :: line, later)

def dropLineEnd (line : List Char) : List Char :=
  (line.reverse.dropWhile fun c => c == '\n' || c == '\r').reverse

/-- Input from bytes that end simply. -/
def Input.ofBytes (bytes : List UInt8) : Input := ⟨bytes, none⟩

/-- What the bytes of a line read as. -/
def LineRead.ofBytes (line : List UInt8) : LineRead :=
  match String.fromUTF8? ⟨line.toArray⟩ with
  | some text => .line (dropLineEnd text.toList)
  | none => .failed .invalidText

/-- Take one line.  Its bytes are taken even if they are no text, or if reading fails before the line
has ended. -/
def Input.takeLine (input : Input) : LineRead × Input :=
  let (line, later) := splitLine input.bytes
  let result :=
    if line.getLast? = some 10 then .ofBytes line
    else
      match input.failure, line with
      | some error, _ => .failed error
      | none, [] => .closed
      | none, line => .ofBytes line
  (result, { input with bytes := later })

/-- The output written so far, and how many bytes it can hold. -/
structure Sink where
  bytes : ByteArray
  limit : Option Nat

def Sink.unlimited : Sink := ⟨.empty, none⟩

def Sink.limited (limit : Nat) : Sink := ⟨.empty, some limit⟩

/-- Whether so many bytes more go in. -/
def Sink.hasRoom (sink : Sink) (size : Nat) : Bool :=
  match sink.limit with
  | none => true
  | some limit => sink.bytes.size + size ≤ limit

/-- Write a text; of one that does not go in as a whole, the bytes that do. -/
def Sink.write (sink : Sink) (text : String) : Sink :=
  let bytes := sink.bytes ++ text.toUTF8
  match sink.limit with
  | none => { sink with bytes }
  | some limit => { sink with bytes := if bytes.size ≤ limit then bytes else bytes.extract 0 limit }

end StackPipeline.Machine
