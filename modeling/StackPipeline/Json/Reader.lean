import StackPipeline.Json.Literal

/-!
Reading values.  A reader takes the text from some place on and gives what it read and the text after
it.  Arrays and objects are read by folding a step over their elements or members, so that a caller
can act on each part as soon as it is there.
-/

namespace StackPipeline.Json

/-- A reader of something at the front of a text. -/
abbrev Reader (α : Type) := List Char → Except ReadError (α × List Char)

/-- Drop the blanks that may stand between tokens. -/
def skipBlank (text : List Char) : List Char :=
  text.dropWhile fun c => c == ' ' || c == '\n' || c == '\t' || c == '\r'

/-- Read the rest of a word. -/
def readWord : List Char → Reader Unit
  | [], text => .ok ((), text)
  | _ :: _, [] => .error .truncated
  | p :: word, c :: text => if p = c then readWord word text else .error .grammar

def readColon (text : List Char) : Except ReadError (List Char) :=
  match skipBlank text with
  | [] => .error .truncated
  | ':' :: rest => .ok rest
  | _ => .error .grammar

/-- The start of the next element of an array, or nothing after the last one, with the text there
and the text after the closing bracket.  `first` says that no element came before. -/
def nextElement (first : Bool) (text : List Char) :
    Except ReadError (Sum (List Char) (List Char)) :=
  match skipBlank text with
  | [] => .error .truncated
  | ']' :: rest => .ok (.inr rest)
  | ',' :: rest =>
    if first then .ok (.inl (',' :: rest))
    else match skipBlank rest with
      | [] => .error .truncated
      | ']' :: _ => .error .grammar
      | start => .ok (.inl start)
  | start => if first then .ok (.inl start) else .error .grammar

/-- The text after the opening quote of the next name in an object, or the text after the closing
brace. -/
def nextName (first : Bool) (text : List Char) :
    Except ReadError (Sum (List Char) (List Char)) :=
  match skipBlank text with
  | [] => .error .truncated
  | '\x7d' :: rest => .ok (.inr rest)
  | '"' :: rest => if first then .ok (.inl rest) else .error .grammar
  | ',' :: rest =>
    if first then .error .grammar
    else match skipBlank rest with
      | [] => .error .truncated
      | '"' :: rest => .ok (.inl rest)
      | _ => .error .grammar
  | _ => .error .grammar

/-- Fold a step over the elements of an array after its opening bracket.  The fuel bounds their
number. -/
def foldElements {σ : Type} (step : σ → Reader σ) : Nat → Bool → σ → Reader σ
  | 0, _, _, _ => .error .truncated
  | fuel + 1, first, state, text =>
    match nextElement first text with
    | .error error => .error error
    | .ok (.inr rest) => .ok (state, rest)
    | .ok (.inl start) =>
      match step state start with
      | .error error => .error error
      | .ok (state, rest) => foldElements step fuel false state rest

/-- Fold a step over the members of an object after its opening brace.  The step is given a name and
the text after it, which begins with the colon. -/
def foldMembers {σ : Type} (rules : Rules) (step : σ → String → Reader σ) :
    Nat → Bool → σ → Reader σ
  | 0, _, _, _ => .error .truncated
  | fuel + 1, first, state, text =>
    match nextName first text with
    | .error error => .error error
    | .ok (.inr rest) => .ok (state, rest)
    | .ok (.inl start) =>
      match readString rules start with
      | .error error => .error error
      | .ok (name, rest) =>
        match step state name rest with
        | .error error => .error error
        | .ok (state, rest) => foldMembers rules step fuel false state rest

/-- Read one more element onto those read before, the last of them first. -/
def pushElement (read : Reader Value) (items : List Value) : Reader (List Value) := fun text =>
  match read text with
  | .ok (item, rest) => .ok (item :: items, rest)
  | .error error => .error error

/-- Read the value of a member onto the members read before, the last of them first. -/
def pushMember (read : Reader Value) (members : List (String × Value)) (name : String) :
    Reader (List (String × Value)) := fun text =>
  match readColon text with
  | .error error => .error error
  | .ok rest =>
    match read rest with
    | .ok (value, rest) => .ok ((name, value) :: members, rest)
    | .error error => .error error

/-- Read a scalar, which is there to be neither array nor object. -/
def readScalar (rules : Rules) : Reader Value := fun text =>
  match text with
  | [] => .error .truncated
  | 'n' :: rest => (readWord ['u', 'l', 'l'] rest).map fun read => (.null, read.2)
  | 't' :: rest => (readWord ['r', 'u', 'e'] rest).map fun read => (.boolean true, read.2)
  | 'f' :: rest => (readWord ['a', 'l', 's', 'e'] rest).map fun read => (.boolean false, read.2)
  | '-' :: rest => (readNumeral rules true rest).map fun read => (.number read.1, read.2)
  | '"' :: rest => (readString rules rest).map fun read => (.string read.1, read.2)
  | c :: rest =>
    if c.isDigit then
      (readNumeral rules false (c :: rest)).map fun read => (.number read.1, read.2)
    else .error .grammar

/-- Read a value in which arrays and objects nest at most `depth` deep.  None of them has `size`
elements or more. -/
def readValue (rules : Rules) (size : Nat) : Nat → Reader Value
  | 0, text =>
    match skipBlank text with
    | '[' :: _ => .error .grammar
    | '\x7b' :: _ => .error .grammar
    | start => readScalar rules start
  | depth + 1, text =>
    match skipBlank text with
    | '[' :: rest =>
      (foldElements (pushElement (readValue rules size depth)) size true [] rest).map
        fun read => (.array read.1.reverse, read.2)
    | '\x7b' :: rest =>
      (foldMembers rules (pushMember (readValue rules size depth)) size true [] rest).map
        fun read => (.object read.1.reverse, read.2)
    | start => readScalar rules start

/-- Pass over a value, however deep. -/
def skipValue (text : List Char) : Except ReadError (List Char) :=
  (readValue .skipped (text.length + 1) text.length text).map fun read => read.2

/-- The error for a value that is not what is wanted: if it is a scalar, after that scalar, else
before its opening bracket. -/
def mismatch (wanted : String) (text : List Char) : ReadError :=
  match text with
  | '[' :: _ => .unfit (.wrongType .sequence wanted) text
  | '\x7b' :: _ => .unfit (.wrongType .map wanted) text
  | _ =>
    match readScalar .kept text with
    | .ok (value, rest) => .unfit (.wrongType value.found wanted) rest
    | .error error => error

/-- Nothing but blanks may follow a document. -/
def finish {α : Type} (read : α × List Char) : Except ReadError α :=
  if (skipBlank read.2).isEmpty then .ok read.1 else .error .grammar

end StackPipeline.Json
