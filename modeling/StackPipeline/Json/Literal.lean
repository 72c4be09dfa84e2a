import StackPipeline.Json.Numeral

/-!
Strings in documents, read one character at a time.
-/

namespace StackPipeline.Json

/-- Where reading stands within a string. -/
inductive Spot
  | plain
  /-- After a backslash. -/
  | escape
  /-- Before the last `left` digits of a code unit; `high` is the first half of a pair. -/
  | digits (left : Nat) (unit : Nat) (high : Option Nat)
  /-- After the first half of a pair, before the backslash of the second. -/
  | pairSlash (high : Nat)
  /-- After that backslash. -/
  | pairMark (high : Nat)

def hexValue? (c : Char) : Option Nat :=
  if c.isDigit then some (c.toNat - 48)
  else if 'a' ≤ c && c ≤ 'f' then some (c.toNat - 87)
  else if 'A' ≤ c && c ≤ 'F' then some (c.toNat - 55)
  else none

/-- The character a backslash and this one stand for. -/
def escaped? : Char → Option Char
  | '"' => some '"'
  | '\\' => some '\\'
  | '/' => some '/'
  | 'b' => some (Char.ofNat 8)
  | 'f' => some (Char.ofNat 12)
  | 'n' => some '\n'
  | 'r' => some '\r'
  | 't' => some '\t'
  | _ => none

/-- Whether fewer than `count` bytes of text are left. -/
def isShorter (text : List Char) (count : Nat) : Bool :=
  (text.take count).foldl (fun bytes c => bytes + c.utf8Size) 0 < count

/-- What a finished code unit gives: a character, or the first half of a pair. -/
inductive Unit16
  | character (c : Char)
  | half (high : Nat)
  | wrong

/-- Judge a code unit, given the first half of a pair before it. -/
def judgeUnit (rules : Rules) (unit : Nat) : Option Nat → Unit16
  | none =>
    if 0xD800 ≤ unit && unit ≤ 0xDBFF && rules.strict then .half unit
    else if 0xD800 ≤ unit && unit ≤ 0xDFFF then
      if rules.strict then .wrong else .character (Char.ofNat 0xFFFD)
    else .character (Char.ofNat unit)
  | some high =>
    if 0xDC00 ≤ unit && unit ≤ 0xDFFF then
      .character (Char.ofNat (0x10000 + (high - 0xD800) * 1024 + (unit - 0xDC00)))
    else .wrong

/-- Put a character in front of the string read after it. -/
def prepend (c : Char) : Except ReadError (List Char × List Char) →
    Except ReadError (List Char × List Char)
  | .ok (text, rest) => .ok (c :: text, rest)
  | .error error => .error error

/-- Read on within a string, up to its closing quote; gives the text and what follows. -/
def readStringFrom (rules : Rules) : Spot → List Char → Except ReadError (List Char × List Char)
  | _, [] => .error .truncated
  | .plain, c :: rest =>
    if c = '"' then .ok ([], rest)
    else if c = '\\' then readStringFrom rules .escape rest
    else if c.toNat < 0x20 then .error .grammar
    else prepend c (readStringFrom rules .plain rest)
  | .escape, c :: rest =>
    if c = 'u' then readStringFrom rules (.digits 3 0 none) rest
    else match escaped? c with
      | some meant => prepend meant (readStringFrom rules .plain rest)
      | none => .error .grammar
  | .digits left unit high, c :: rest =>
    match hexValue? c with
    | none => .error (if isShorter (c :: rest) (left + 1) then .truncated else .grammar)
    | some digit =>
      let unit := unit * 16 + digit
      match left with
      | left + 1 => readStringFrom rules (.digits left unit high) rest
      | 0 =>
        match judgeUnit rules unit high with
        | .character meant => prepend meant (readStringFrom rules .plain rest)
        | .half high => readStringFrom rules (.pairSlash high) rest
        | .wrong => .error .grammar
  | .pairSlash high, c :: rest =>
    if c = '\\' then readStringFrom rules (.pairMark high) rest else .error .grammar
  | .pairMark high, c :: rest =>
    if c = 'u' then readStringFrom rules (.digits 3 0 (some high)) rest else .error .grammar

/-- Read a string after its opening quote. -/
def readString (rules : Rules) (text : List Char) : Except ReadError (String × List Char) :=
  match readStringFrom rules .plain text with
  | .ok (text, rest) => .ok (String.ofList text, rest)
  | .error error => .error error

end StackPipeline.Json
