import StackPipeline.Number.Shortest

/-!
Reading numbers.  A number is an optional sign and then either digits with an optional point and an
optional exponent, at least one digit before the exponent, or one of the words `inf`, `infinity`,
`nan` in any case.  The value is the double nearest to what is written.
-/

namespace StackPipeline.Number

def infinity : Float := Float.ofBits 0x7FF0000000000000

def notANumber : Float := Float.ofBits 0x7FF8000000000000

def ofDigits (digits : List Char) : Nat :=
  digits.foldl (fun n c => n * 10 + (c.toNat - 48)) 0

/-- The double nearest to `mantissa · 10^exponent`.  A value of more than 400 digits is infinite, and
one that begins 400 places after the point is zero, whatever its digits are. -/
def ofDecimal (mantissa : Nat) (exponent : Int) : Float :=
  if mantissa = 0 then 0
  else
    let size := (digitCount mantissa : Int) + exponent
    if 400 < size then infinity
    else if size < -400 then 0
    else Float.ofScientific mantissa (exponent < 0) exponent.natAbs

/-- The digits at the front and what follows them. -/
def spanDigits (text : List Char) : List Char × List Char :=
  text.span Char.isDigit

/-- A sign at the front, and whether it is a minus. -/
def splitSign : List Char → Bool × List Char
  | '-' :: rest => (true, rest)
  | '+' :: rest => (false, rest)
  | rest => (false, rest)

/-- An exponent up to the end of the text; no text is the exponent zero. -/
def readExponent? : List Char → Option Int
  | [] => some 0
  | mark :: rest =>
    if mark = 'e' || mark = 'E' then
      let (negative, digits) := splitSign rest
      if digits.isEmpty || !digits.all Char.isDigit then none
      else
        let size : Int := ofDigits digits
        some (if negative then -size else size)
    else none

/-- Digits, point and exponent, up to the end of the text. -/
def readDecimal? (text : List Char) : Option Float :=
  let (whole, rest) := spanDigits text
  let (fraction, rest) :=
    match rest with
    | '.' :: rest => spanDigits rest
    | rest => ([], rest)
  if whole.isEmpty && fraction.isEmpty then none
  else match readExponent? rest with
    | none => none
    | some exponent => some (ofDecimal (ofDigits (whole ++ fraction)) (exponent - fraction.length))

def readUnsigned? (text : List Char) : Option Float :=
  match text.map Char.toLower with
  | ['i', 'n', 'f'] => some infinity
  | ['i', 'n', 'f', 'i', 'n', 'i', 't', 'y'] => some infinity
  | ['n', 'a', 'n'] => some notANumber
  | _ => readDecimal? text

/-- Read a number; the text holds nothing else. -/
def read? (text : List Char) : Option Float :=
  match splitSign text with
  | (true, rest) => (readUnsigned? rest).map fun x => -x
  | (false, rest) => readUnsigned? rest

/-- Read a whole number of 64 bits with sign; the text holds nothing else. -/
def readInteger? (text : List Char) : Option Int :=
  let (negative, digits) := splitSign text
  if digits.isEmpty || !digits.all Char.isDigit then none
  else
    let size := ofDigits digits
    if negative then if size ≤ Nat.pow 2 63 then some (-(size : Int)) else none
    else if size < Nat.pow 2 63 then some size else none

end StackPipeline.Number
