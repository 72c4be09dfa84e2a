import StackPipeline.Json.Problem
import StackPipeline.Number.Reader

/-!
Numbers in documents.

A whole number of at most 64 bits is kept as it is.  Any other number is a double that is found by
scaling: as many leading digits as fit 64 bits, rounded to a double, times or divided by a power of
ten, itself rounded.  A number too large for a double is refused.
-/

namespace StackPipeline.Json

/-- How strictly a value is read. -/
structure Rules where
  /-- Whether numbers must fit a double and surrogates must pair up; a number that ends with the
  document is then too short rather than malformed. -/
  strict : Bool

/-- Values that are kept. -/
def Rules.kept : Rules := ⟨true⟩

/-- Values that are only passed over. -/
def Rules.skipped : Rules := ⟨false⟩

/-- The error for a number that breaks off before `rest`. -/
def Rules.brokenOff (rules : Rules) (rest : List Char) : ReadError :=
  if rules.strict && rest.isEmpty then .truncated else .grammar

/-- Take digits into a number as long as it fits 64 bits; the digits left over. -/
def takeDigits : Nat → List Char → Nat × List Char
  | significand, [] => (significand, [])
  | significand, c :: digits =>
    let next := significand * 10 + (c.toNat - 48)
    if Nat.pow 2 64 ≤ next then (significand, c :: digits) else takeDigits next digits

def powerOfTen (exponent : Nat) : Float :=
  Float.ofScientific 1 false exponent

/-- Scale by a power of ten, in several steps if one power is no double.  Three steps bring every
significand to zero. -/
def scale : Nat → Float → Int → Option Float
  | 0, _, _ => none
  | tries + 1, x, exponent =>
    if exponent.natAbs ≤ 308 then
      if 0 ≤ exponent then
        let scaled := x * powerOfTen exponent.natAbs
        if scaled == Number.infinity then none else some scaled
      else some (x / powerOfTen exponent.natAbs)
    else if x == 0 then some x
    else if 0 ≤ exponent then none
    else scale tries (x / powerOfTen 308) (exponent + 308)

def signedFloat (negative : Bool) (x : Float) : Float :=
  if negative then -x else x

/-- The number with this significand and exponent. -/
def ofParts (negative : Bool) (significand : Nat) (exponent : Int) : Except ReadError Numeral :=
  match scale 8 (Float.ofNat significand) exponent with
  | some x => .ok (.float (signedFloat negative x))
  | none => .error .grammar

/-- The number when its exponent is beyond 32 bits. -/
def ofHugeExponent (negative : Bool) (significand : Nat) (negativeExponent : Bool) :
    Except ReadError Numeral :=
  if significand != 0 && !negativeExponent then .error .grammar
  else .ok (.float (signedFloat negative 0))

/-- The whole number of 64 bits. -/
def ofWhole (negative : Bool) (significand : Nat) : Numeral :=
  if !negative then .integer significand
  else if significand = 0 || Nat.pow 2 63 < significand then .float (-(Float.ofNat significand))
  else .integer (-(significand : Int))

/-- The exponent after its mark: its sign, its digits and what follows. -/
def readExponent (rules : Rules) (text : List Char) :
    Except ReadError (Bool × List Char × List Char) :=
  let (negative, rest) := Number.splitSign text
  match Number.spanDigits rest with
  | ([], rest) => .error (rules.brokenOff rest)
  | (digits, rest) => .ok (negative, digits, rest)

/-- Finish a number after its digits and point: read an exponent if there is one. -/
def finishNumber (rules : Rules) (negative : Bool) (significand : Nat) (exponent : Int)
    (whole : Bool) (text : List Char) : Except ReadError (Numeral × List Char) :=
  match text with
  | 'e' :: rest | 'E' :: rest =>
    match readExponent rules rest with
    | .error error => .error error
    | .ok (negativeExponent, digits, rest) =>
      let size := Number.ofDigits digits
      let result :=
        if Nat.pow 2 31 ≤ size then ofHugeExponent negative significand negativeExponent
        else ofParts negative significand
          (if negativeExponent then exponent - (size : Int) else exponent + (size : Int))
      if !rules.strict then .ok (.integer 0, rest)
      else match result with
        | .ok numeral => .ok (numeral, rest)
        | .error error => .error error
  | rest =>
    if !rules.strict then .ok (.integer 0, rest)
    else if whole then .ok (ofWhole negative significand, rest)
    else match ofParts negative significand exponent with
      | .ok numeral => .ok (numeral, rest)
      | .error error => .error error

/-- Read a number after its sign. -/
def readNumeral (rules : Rules) (negative : Bool) (text : List Char) :
    Except ReadError (Numeral × List Char) :=
  match Number.spanDigits text with
  | ([], rest) => .error (rules.brokenOff rest)
  | ('0' :: _ :: _, _) => .error .grammar
  | (digits, rest) =>
    let (significand, left) := takeDigits 0 digits
    match rest with
    | '.' :: rest =>
      match Number.spanDigits rest with
      | ([], rest) => .error (rules.brokenOff rest)
      | (fraction, rest) =>
        let (significand, unused) := takeDigits significand fraction
        let exponent := (left.length : Int) - (fraction.length - unused.length : Nat)
        finishNumber rules negative significand exponent false rest
    | rest => finishNumber rules negative significand left.length left.isEmpty rest

end StackPipeline.Json
