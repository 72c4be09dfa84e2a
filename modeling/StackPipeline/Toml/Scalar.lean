import StackPipeline.Number.Reader
import StackPipeline.Toml.Basic

/-!
Numbers, truth values, dates and times in TOML documents.  Each is one run of letters, digits and a
few marks, so it is cut off as a whole and then judged.
-/

namespace StackPipeline.Toml

/-- Whether a character can stand in such a run. -/
def isScalarChar (c : Char) : Bool :=
  c.isAlphanum || c == '+' || c == '-' || c == '.' || c == '_' || c == ':'

/-- Digits with single underscores between them, without those. -/
def plainDigits? (isDigit : Char → Bool) : List Char → Option (List Char)
  | [] => none
  | [c] => if isDigit c then some [c] else none
  | c :: '_' :: rest =>
    if isDigit c then
      match plainDigits? isDigit rest with
      | some digits => some (c :: digits)
      | none => none
    else none
  | c :: rest =>
    if isDigit c then
      match plainDigits? isDigit rest with
      | some digits => some (c :: digits)
      | none => none
    else none

/-- Decimal digits without a zero in front. -/
def wholeDigits? (text : List Char) : Option (List Char) :=
  match plainDigits? Char.isDigit text with
  | some ('0' :: _ :: _) => none
  | digits => digits

def digitValue (c : Char) : Nat :=
  if c.isDigit then c.toNat - 48 else c.toLower.toNat - 87

def isDigitOf (base : Nat) (c : Char) : Bool :=
  (c.isDigit || ('a' ≤ c.toLower && c.toLower ≤ 'f')) && digitValue c < base

/-- A whole number if it fits 64 bits with sign. -/
def fit? (n : Int) : Option Value :=
  if -(Nat.pow 2 63 : Int) ≤ n && n < (Nat.pow 2 63 : Int) then some (.integer n) else none

def basedInteger? (base : Nat) (text : List Char) : Option Value :=
  match plainDigits? (isDigitOf base) text with
  | some digits => fit? (digits.foldl (fun n c => n * base + digitValue c) 0 : Nat)
  | none => none

def integer? (text : List Char) : Option Value :=
  match text with
  | '0' :: 'x' :: rest => basedInteger? 16 rest
  | '0' :: 'o' :: rest => basedInteger? 8 rest
  | '0' :: 'b' :: rest => basedInteger? 2 rest
  | _ =>
    let (negative, digits) := Number.splitSign text
    match wholeDigits? digits with
    | some digits =>
      let size : Int := Number.ofDigits digits
      fit? (if negative then -size else size)
    | none => none

/-- Whether a text is an exponent after its mark. -/
def isExponent (text : List Char) : Bool :=
  (plainDigits? Char.isDigit (Number.splitSign text).2).isSome

/-- Whether a text without its sign is a number with point or exponent. -/
def isFloatBody (text : List Char) : Bool :=
  let (whole, rest) := text.span fun c => c.isDigit || c == '_'
  (wholeDigits? whole).isSome &&
    match rest with
    | '.' :: rest =>
      let (fraction, rest) := rest.span fun c => c.isDigit || c == '_'
      (plainDigits? Char.isDigit fraction).isSome &&
        match rest with
        | [] => true
        | mark :: rest => (mark == 'e' || mark == 'E') && isExponent rest
    | mark :: rest => (mark == 'e' || mark == 'E') && isExponent rest
    | [] => false

/-- A number that need not be whole.  One that is too large is refused. -/
def float? (text : List Char) : Option Value :=
  let body := (Number.splitSign text).2
  if body = ['i', 'n', 'f'] || body = ['n', 'a', 'n'] then some (.float (String.ofList text))
  else if isFloatBody body then
    match Number.read? (text.filter fun c => c != '_') with
    | some x => if x == Number.infinity then none else some (.float (String.ofList text))
    | none => none
  else none

/-- The number written by so many digits at the front, and what follows them. -/
def fixedDigits? (count : Nat) (text : List Char) : Option (Nat × List Char) :=
  let digits := text.take count
  if digits.length = count && digits.all Char.isDigit then
    some (Number.ofDigits digits, text.drop count)
  else none

/-- A mark and then a number of two digits between bounds. -/
def twoDigits? (mark : Char) (low high : Nat) : List Char → Option (Nat × List Char)
  | [] => none
  | c :: rest =>
    if c = mark then
      match fixedDigits? 2 rest with
      | some (n, rest) => if low ≤ n && n ≤ high then some (n, rest) else none
      | none => none
    else none

def daysOfMonth (year month : Nat) : Nat :=
  if month = 2 then
    if (year % 4 = 0 && year % 100 != 0) || year % 400 = 0 then 29 else 28
  else if month = 4 || month = 6 || month = 9 || month = 11 then 30
  else 31

/-- What follows a date at the front. -/
def afterDate? (text : List Char) : Option (List Char) :=
  match fixedDigits? 4 text with
  | none => none
  | some (year, rest) =>
    match twoDigits? '-' 1 12 rest with
    | none => none
    | some (month, rest) =>
      match twoDigits? '-' 1 (daysOfMonth year month) rest with
      | none => none
      | some (_, rest) => some rest

/-- What follows a time of day at the front. -/
def afterTime? (text : List Char) : Option (List Char) :=
  match twoDigits? ':' 0 23 (':' :: text) with
  | none => none
  | some (_, rest) =>
    match twoDigits? ':' 0 59 rest with
    | none => none
    | some (_, rest) =>
      match twoDigits? ':' 0 60 rest with
      | none => none
      | some (_, '.' :: rest) =>
        let (digits, rest) := Number.spanDigits rest
        if digits.isEmpty then none else some rest
      | some (_, rest) => some rest

/-- Whether a text is nothing or an offset from universal time. -/
def isOffset : List Char → Bool
  | [] => true
  | ['Z'] => true
  | ['z'] => true
  | mark :: rest =>
    (mark == '+' || mark == '-') &&
      match twoDigits? ':' 0 23 (':' :: rest) with
      | none => false
      | some (_, rest) =>
        match twoDigits? ':' 0 59 rest with
        | some (_, []) => true
        | _ => false

/-- Whether a text is a time of day and perhaps an offset. -/
def isTimeWithOffset (text : List Char) : Bool :=
  match afterTime? text with
  | some rest => isOffset rest
  | none => false

/-- A date, a time of day, or both. -/
def moment? (text : List Char) : Option Value :=
  let valid :=
    match afterDate? text with
    | some [] => true
    | some (mark :: rest) =>
      (mark == 'T' || mark == 't' || mark == ' ') && isTimeWithOffset rest
    | none => afterTime? text == some []
  if valid then some (.moment (String.ofList text)) else none

def scalar? (text : List Char) : Option Value :=
  if text = "true".toList then some (.boolean true)
  else if text = "false".toList then some (.boolean false)
  else (moment? text).orElse fun _ => (integer? text).orElse fun _ => float? text

/-- Cut off a run.  A date and a time may have one space between them. -/
def splitScalar (text : List Char) : List Char × List Char :=
  let (run, rest) := text.span isScalarChar
  match afterDate? run, rest with
  | some [], ' ' :: c :: more =>
    if c.isDigit then
      let (time, rest) := (c :: more).span isScalarChar
      (run ++ ' ' :: time, rest)
    else (run, rest)
  | _, _ => (run, rest)

/-- Read a number, a truth value, a date or a time. -/
def readScalar? (text : List Char) : Option (Value × List Char) :=
  let (run, rest) := splitScalar text
  match scalar? run with
  | some value => some (value, rest)
  | none => none

end StackPipeline.Toml
