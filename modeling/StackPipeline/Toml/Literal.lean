/-!
Strings in TOML documents: between double quotes with escapes, between single quotes without, each on
one line or between tripled quotes on several.
-/

namespace StackPipeline.Toml

/-- Whether a character may stand as itself: it is no control character other than a tab. -/
def isPrintable (c : Char) : Bool :=
  c == '\t' || (0x20 ≤ c.toNat && c.toNat != 0x7F)

def hexNumber? (digits : List Char) : Option Nat :=
  digits.foldl (fun value c =>
    match value with
    | none => none
    | some value =>
      let lower := c.toLower
      if c.isDigit then some (value * 16 + (c.toNat - 48))
      else if 'a' ≤ lower && lower ≤ 'f' then some (value * 16 + (lower.toNat - 87))
      else none) (some 0)

def scalarChar? (value : Nat) : Option Char :=
  if value < 0xD800 || (0xDFFF < value && value < 0x110000) then some (Char.ofNat value) else none

/-- The character written by so many hexadecimal digits at the front. -/
def hexChar? (count : Nat) (text : List Char) : Option Char :=
  let digits := text.take count
  if digits.length = count then (hexNumber? digits).bind scalarChar? else none

/-- The character that a backslash and this one stand for. -/
def simpleEscape? : Char → Option Char
  | 'b' => some (Char.ofNat 8)
  | 't' => some '\t'
  | 'n' => some '\n'
  | 'f' => some (Char.ofNat 12)
  | 'r' => some '\r'
  | '"' => some '"'
  | '\\' => some '\\'
  | _ => none

/-- An escape after its backslash: the character and how many characters the escape takes. -/
def escape? : List Char → Option (Char × Nat)
  | 'u' :: rest => (hexChar? 4 rest).map fun c => (c, 5)
  | 'U' :: rest => (hexChar? 8 rest).map fun c => (c, 9)
  | c :: _ => (simpleEscape? c).map fun meant => (meant, 1)
  | [] => none

/-- Read on in a string between double quotes on one line. -/
def readBasic? : List Char → Option (List Char × List Char)
  | [] => none
  | '"' :: rest => some ([], rest)
  | '\\' :: rest =>
    match escape? rest with
    | none => none
    | some (c, length) =>
      match readBasic? (rest.drop length) with
      | some (text, rest) => some (c :: text, rest)
      | none => none
  | c :: rest =>
    if isPrintable c then
      match readBasic? rest with
      | some (text, rest) => some (c :: text, rest)
      | none => none
    else none
termination_by text => text.length
decreasing_by
  all_goals simp only [List.length_drop, List.length_cons]
  all_goals omega

/-- Read on in a string between single quotes on one line. -/
def readLiteral? : List Char → Option (List Char × List Char)
  | [] => none
  | '\'' :: rest => some ([], rest)
  | c :: rest =>
    if isPrintable c then
      match readLiteral? rest with
      | some (text, rest) => some (c :: text, rest)
      | none => none
    else none

def dropNewline? : List Char → Option (List Char)
  | '\n' :: rest => some rest
  | '\r' :: '\n' :: rest => some rest
  | _ => none

/-- The end of a string between tripled quotes: up to two more of the same quotes belong to it. -/
def closing? (quote : Char) (text : List Char) : Option (List Char × List Char) :=
  let quotes := text.takeWhile (· == quote)
  if quotes.length < 3 then none
  else
    let extra := min (quotes.length - 3) 2
    some (List.replicate extra quote, text.drop (3 + extra))

/-- The blanks and line ends after a backslash at the end of a line, if it stands there. -/
def lineJoin? (text : List Char) : Option (List Char) :=
  let rest := text.dropWhile fun c => c == ' ' || c == '\t'
  match dropNewline? rest with
  | none => none
  | some _ => some (skip text.length rest)
where
  /-- Skip blanks and line ends. -/
  skip : Nat → List Char → List Char
    | 0, rest => rest
    | fuel + 1, rest =>
      match rest with
      | ' ' :: rest => skip fuel rest
      | '\t' :: rest => skip fuel rest
      | rest =>
        match dropNewline? rest with
        | some rest => skip fuel rest
        | none => rest

/-- Read on in a string between tripled double quotes; the fuel bounds its characters. -/
def readLongBasic? : Nat → List Char → Option (List Char × List Char)
  | 0, _ => none
  | fuel + 1, text =>
    match closing? '"' text with
    | some result => some result
    | none =>
      match text with
      | [] => none
      | '\\' :: rest =>
        match lineJoin? rest with
        | some rest => readLongBasic? fuel rest
        | none =>
          match escape? rest with
          | none => none
          | some (c, length) =>
            match readLongBasic? fuel (rest.drop length) with
            | some (text, rest) => some (c :: text, rest)
            | none => none
      | c :: rest =>
        match dropNewline? text with
        | some rest =>
          match readLongBasic? fuel rest with
          | some (text, rest) => some ('\n' :: text, rest)
          | none => none
        | none =>
          if isPrintable c then
            match readLongBasic? fuel rest with
            | some (text, rest) => some (c :: text, rest)
            | none => none
          else none

/-- Read on in a string between tripled single quotes; the fuel bounds its characters. -/
def readLongLiteral? : Nat → List Char → Option (List Char × List Char)
  | 0, _ => none
  | fuel + 1, text =>
    match closing? '\'' text with
    | some result => some result
    | none =>
      match text with
      | [] => none
      | c :: rest =>
        match dropNewline? text with
        | some rest =>
          match readLongLiteral? fuel rest with
          | some (text, rest) => some ('\n' :: text, rest)
          | none => none
        | none =>
          if isPrintable c then
            match readLongLiteral? fuel rest with
            | some (text, rest) => some (c :: text, rest)
            | none => none
          else none

/-- A line end right after the opening quotes does not count. -/
def dropFirstNewline (text : List Char) : List Char :=
  (dropNewline? text).getD text

def readQuoted? (text : List Char) : Option (String × List Char) :=
  let result :=
    match text with
    | '"' :: '"' :: '"' :: rest => readLongBasic? (rest.length + 1) (dropFirstNewline rest)
    | '\'' :: '\'' :: '\'' :: rest => readLongLiteral? (rest.length + 1) (dropFirstNewline rest)
    | '"' :: rest => readBasic? rest
    | '\'' :: rest => readLiteral? rest
    | _ => none
  match result with
  | some (chars, rest) => some (String.ofList chars, rest)
  | none => none

end StackPipeline.Toml
