/-!
Double-quoted literals that fit on one line.  A quote, a backslash and a line feed are written as
two characters; everything else stands for itself.
-/

namespace StackPipeline.Text.Quoted

/-- Why a literal cannot be read. -/
inductive Problem
  /-- The opening or the closing quote is missing. -/
  | unterminated
  /-- A backslash stands before a character that needs none. -/
  | badEscape (escape : Char)
deriving DecidableEq

def escape : Char → List Char
  | '"' => ['\\', '"']
  | '\\' => ['\\', '\\']
  | '\n' => ['\\', 'n']
  | c => [c]

def body (text : List Char) : List Char :=
  text.flatMap escape

/-- The literal for a text. -/
def literal (text : String) : List Char :=
  '"' :: (body text.toList ++ ['"'])

/-- Read up to the closing quote; gives the text and what follows the quote. -/
def splitBody : List Char → Except Problem (List Char × List Char)
  | [] => .error .unterminated
  | '"' :: rest => .ok ([], rest)
  | ['\\'] => .error .unterminated
  | '\\' :: '"' :: rest => prepend '"' (splitBody rest)
  | '\\' :: '\\' :: rest => prepend '\\' (splitBody rest)
  | '\\' :: 'n' :: rest => prepend '\n' (splitBody rest)
  | '\\' :: other :: _ => .error (.badEscape other)
  | c :: rest => prepend c (splitBody rest)
where
  /-- Put a character in front of the text read so far. -/
  prepend (c : Char) : Except Problem (List Char × List Char) → Except Problem (List Char × List Char)
    | .ok (text, rest) => .ok (c :: text, rest)
    | .error problem => .error problem

/-- Split a literal and what follows it. -/
def split : List Char → Except Problem (String × List Char)
  | '"' :: rest =>
    match splitBody rest with
    | .ok (text, tail) => .ok (String.ofList text, tail)
    | .error problem => .error problem
  | _ => .error .unterminated

end StackPipeline.Text.Quoted
