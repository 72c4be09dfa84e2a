import StackPipeline.Toml.Literal
import StackPipeline.Toml.Scalar

/-!
Reading TOML documents.
-/

namespace StackPipeline.Toml

def skipSpace (text : List Char) : List Char :=
  text.dropWhile fun c => c == ' ' || c == '\t'

/-- Drop a comment up to the end of its line, if one begins here. -/
def skipComment? (text : List Char) : Option (List Char) :=
  match text with
  | '#' :: rest =>
    let rest := rest.dropWhile isPrintable
    match rest with
    | [] => some []
    | '\n' :: _ => some rest
    | '\r' :: '\n' :: _ => some rest
    | _ => none
  | _ => some text

/-- The rest of a line after what it says: spaces, a comment, and the line's end. -/
def finishLine? (text : List Char) : Option (List Char) :=
  match skipComment? (skipSpace text) with
  | none => none
  | some [] => some []
  | some rest => dropNewline? rest

/-- Drop spaces, comments and line ends; the fuel bounds their number. -/
def skipLines? : Nat → List Char → Option (List Char)
  | 0, _ => none
  | fuel + 1, text =>
    match skipSpace text with
    | '#' :: rest =>
      match skipComment? ('#' :: rest) with
      | some rest => skipLines? fuel rest
      | none => none
    | rest =>
      match dropNewline? rest with
      | some rest => skipLines? fuel rest
      | none => some rest

/-- Drop all spaces, comments and line ends. -/
def skipFiller? (text : List Char) : Option (List Char) :=
  skipLines? (2 * text.length + 1) text

/-- Whether a character can stand in a key without quotes. -/
def isKeyChar (c : Char) : Bool :=
  c.isAlphanum || c == '_' || c == '-'

def readKeyPart? (text : List Char) : Option (String × List Char) :=
  match text with
  | '"' :: rest =>
    match readBasic? rest with
    | some (part, rest) => some (String.ofList part, rest)
    | none => none
  | '\'' :: rest =>
    match readLiteral? rest with
    | some (part, rest) => some (String.ofList part, rest)
    | none => none
  | _ =>
    let (part, rest) := text.span isKeyChar
    if part.isEmpty then none else some (String.ofList part, rest)

/-- Read the parts of a key, with dots between them; the fuel bounds their number. -/
def readKeyParts? : Nat → List Char → Option (List String × List Char)
  | 0, _ => none
  | fuel + 1, text =>
    match readKeyPart? (skipSpace text) with
    | none => none
    | some (part, rest) =>
      match skipSpace rest with
      | '.' :: rest =>
        match readKeyParts? fuel rest with
        | some (parts, rest) => some (part :: parts, rest)
        | none => none
      | rest => some ([part], rest)

/-- How deep values nest and how many parts a key has, at most. -/
def maxDepth : Nat := 79

def readKey? (text : List Char) : Option (List String × List Char) :=
  readKeyParts? maxDepth text

/-- Cut off the last part of a key. -/
def splitKey : List String → List String × String
  | [] => ([], "")
  | [part] => ([], part)
  | part :: rest =>
    let (path, last) := splitKey rest
    (part :: path, last)

def readPair? (readValue : List Char → Option (Value × List Char)) (text : List Char) :
    Option ((List String × Value) × List Char) :=
  match readKey? text with
  | some (key, '=' :: rest) =>
    match readValue (skipSpace rest) with
    | some (value, rest) => some ((key, value), rest)
    | none => none
  | _ => none

/-- Read the elements of an array after its opening bracket; the fuel bounds their number. -/
def readArray? (readValue : List Char → Option (Value × List Char)) :
    Nat → List Char → Option (List Value × List Char)
  | 0, _ => none
  | fuel + 1, text =>
    match skipFiller? text with
    | none => none
    | some (']' :: rest) => some ([], rest)
    | some start =>
      match readValue start with
      | none => none
      | some (value, rest) =>
        match skipFiller? rest with
        | some (']' :: rest) => some ([value], rest)
        | some (',' :: rest) =>
          match readArray? readValue fuel rest with
          | some (values, rest) => some (value :: values, rest)
          | none => none
        | _ => none

/-- Read the pairs of a table between braces onto the entries before them; the fuel bounds their
number. -/
def readPairs? (readValue : List Char → Option (Value × List Char)) :
    Nat → Entries → List Char → Option (Entries × List Char)
  | 0, _, _ => none
  | fuel + 1, entries, text =>
    match readPair? readValue text with
    | none => none
    | some ((key, value), rest) =>
      let (path, last) := splitKey key
      match entries.add path last (.value value) with
      | none => none
      | some entries =>
        match skipSpace rest with
        | '\x7d' :: rest => some (entries, rest)
        | ',' :: rest => readPairs? readValue fuel entries rest
        | _ => none

/-- Read a value; arrays and tables between braces nest at most `depth` deep. -/
def readValue? : Nat → List Char → Option (Value × List Char)
  | depth, text =>
    match text with
    | '"' :: _ | '\'' :: _ =>
      match readQuoted? text with
      | some (string, rest) => some (.string string, rest)
      | none => none
    | '[' :: rest =>
      match depth with
      | 0 => none
      | depth + 1 =>
        match readArray? (readValue? depth) (rest.length + 1) rest with
        | some (values, rest) => some (.array values, rest)
        | none => none
    | '\x7b' :: rest =>
      match depth with
      | 0 => none
      | depth + 1 =>
        match skipSpace rest with
        | '\x7d' :: rest => some (.table [], rest)
        | rest =>
          match readPairs? (readValue? depth) (rest.length + 1) [] rest with
          | some (entries, rest) => some (.table (entriesToValues entries), rest)
          | none => none
    | _ => readScalar? text

/-- A document on the way: the tables that are complete, and the one that is being read. -/
structure Draft where
  root : Entries
  path : List String
  isElement : Bool
  current : Entries

def Draft.start : Draft := ⟨[], [], false, []⟩

/-- Put the table that is being read where it belongs. -/
def Draft.close? (draft : Draft) : Option Entries :=
  match draft.path with
  | [] => some draft.current
  | _ =>
    let (path, key) := splitKey draft.path
    let change (_ : Origin) (entries : Entries) : Option (Entries × Unit) :=
      if draft.isElement then
        match entries.find? key with
        | some (.tables elements) =>
          some (entries.put key (.tables (draft.current :: elements)), ())
        | some _ => none
        | none => some (entries.put key (.tables [draft.current]), ())
      else some (entries.put key (.table ⟨false, false⟩ draft.current), ())
    match Entries.update false change path ⟨false, false⟩ draft.root with
    | some (root, _) => some root
    | none => none

/-- Begin a table with a header.  A table that was only on the way to others so far is taken up. -/
def Draft.openTable? (draft : Draft) (header : List String) : Option Draft :=
  match draft.close? with
  | none => none
  | some root =>
    let (path, key) := splitKey header
    let change (_ : Origin) (entries : Entries) : Option (Entries × Entries) :=
      match entries.find? key with
      | none => some (entries, [])
      | some (.table origin inner) =>
        if origin.implicit && !origin.dotted then some (entries.remove key, inner) else none
      | some _ => none
    match Entries.update false change path ⟨false, false⟩ root with
    | some (root, current) => some ⟨root, header, false, current⟩
    | none => none

/-- Begin an element of an array of tables. -/
def Draft.openElement? (draft : Draft) (header : List String) : Option Draft :=
  match draft.close? with
  | none => none
  | some root =>
    let (path, key) := splitKey header
    let change (_ : Origin) (entries : Entries) : Option (Entries × Unit) :=
      match entries.find? key with
      | none => some (entries, ())
      | some (.tables _) => some (entries, ())
      | some _ => none
    match Entries.update false change path ⟨false, false⟩ root with
    | some (root, _) => some ⟨root, header, true, []⟩
    | none => none

/-- Read a header after its opening bracket. -/
def readHeader? (draft : Draft) (text : List Char) : Option (Draft × List Char) :=
  match text with
  | '[' :: rest =>
    match readKey? rest with
    | some (header, ']' :: ']' :: rest) =>
      match draft.openElement? header with
      | some draft => some (draft, rest)
      | none => none
    | _ => none
  | _ =>
    match readKey? text with
    | some (header, ']' :: rest) =>
      match draft.openTable? header with
      | some draft => some (draft, rest)
      | none => none
    | _ => none

/-- Read what a line says: a header or a pair. -/
def readLine? (draft : Draft) (text : List Char) : Option (Draft × List Char) :=
  match text with
  | '[' :: rest => readHeader? draft rest
  | _ =>
    match readPair? (readValue? maxDepth) text with
    | none => none
    | some ((key, value), rest) =>
      let (path, last) := splitKey key
      match draft.current.add path last (.value value) with
      | some current => some ({ draft with current }, rest)
      | none => none

/-- Read lines to the end; the fuel bounds their number. -/
def readDraft? : Nat → Draft → List Char → Option Draft
  | 0, _, _ => none
  | fuel + 1, draft, text =>
    match skipFiller? text with
    | none => none
    | some [] => some draft
    | some start =>
      match readLine? draft start with
      | none => none
      | some (draft, rest) =>
        match finishLine? rest with
        | none => none
        | some rest => readDraft? fuel draft rest

/-- Read a document: its entries, or nothing if it is malformed.  A byte order mark at the start does
not count. -/
def read? (document : String) : Option (List (String × Value)) :=
  let text :=
    match document.toList with
    | '\uFEFF' :: rest => rest
    | text => text
  match readDraft? (text.length + 1) .start text with
  | none => none
  | some draft =>
    match draft.close? with
    | some entries => some (entriesToValues entries)
    | none => none

end StackPipeline.Toml
