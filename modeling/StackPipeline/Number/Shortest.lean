/-!
The shortest decimal that reads back as a given double.

A double is taken apart into `mantissa · 2^exponent`; the decimals that round to it form an interval
around it, whose ends belong to it when the mantissa is even.  Of the grids with one, two, three …
significant digits the first that meets the interval wins, and on that grid the point nearest to the
double.  Two points can be equally near; which of them is taken is up to the written form.
-/

namespace StackPipeline.Number

/-- The number `mantissa · 2^exponent`.  `isBoundary` says that the next smaller double is only half
as far away as the next larger one. -/
structure Binary where
  mantissa : Nat
  exponent : Int
  isBoundary : Bool

/-- The number `digits · 10^exponent`. -/
structure Decimal where
  digits : Nat
  exponent : Int
deriving DecidableEq

/-- What a double is. -/
inductive Parts
  | nan
  | infinite (negative : Bool)
  | zero (negative : Bool)
  | finite (negative : Bool) (magnitude : Binary)

/-- Take a double apart. -/
def parts (x : Float) : Parts :=
  let bits := x.toBits.toNat
  let negative := bits / Nat.pow 2 63 == 1
  let exponent : Nat := bits / Nat.pow 2 52 % 2048
  let fraction : Nat := bits % Nat.pow 2 52
  if exponent == 2047 then
    if fraction == 0 then .infinite negative else .nan
  else if exponent == 0 then
    if fraction == 0 then .zero negative
    else .finite negative ⟨fraction, -1074, false⟩
  else
    .finite negative
      ⟨Nat.pow 2 52 + fraction, (exponent : Int) - 1075, fraction == 0 && exponent != 1⟩

/-- A double and the ends of its interval as fractions with one denominator. -/
structure Interval where
  low : Nat
  value : Nat
  high : Nat
  denominator : Nat
  /-- Whether the ends read back as the double too. -/
  closed : Bool

/-- The interval of the reals that read back as this double. -/
def Binary.interval (b : Binary) : Interval :=
  let scale := Nat.pow 2 b.exponent.toNat
  { low := (4 * b.mantissa - (if b.isBoundary then 1 else 2)) * scale
    value := 4 * b.mantissa * scale
    high := (4 * b.mantissa + 2) * scale
    denominator := 4 * Nat.pow 2 (-b.exponent).toNat
    closed := b.mantissa % 2 == 0 }

/-- Rescale so that the points of the grid of step `10^exponent` are the multiples of the
denominator. -/
def Interval.onGrid (i : Interval) (exponent : Int) : Interval :=
  let shrink := Nat.pow 10 exponent.toNat
  let grow := Nat.pow 10 (-exponent).toNat
  { low := i.low * grow, value := i.value * grow, high := i.high * grow
    denominator := i.denominator * shrink, closed := i.closed }

/-- Whether the multiple `n` of the denominator lies in the interval. -/
def Interval.holds (i : Interval) (n : Nat) : Bool :=
  let point := n * i.denominator
  if i.closed then i.low ≤ point && point ≤ i.high else i.low < point && point < i.high

/-- Which of two equally near points is taken. -/
inductive Tie
  | larger
  | even

/-- Whether the point after `below` is taken when both are equally near. -/
def Tie.goesUp : Tie → Nat → Bool
  | .larger, _ => true
  | .even, below => below % 2 == 1

/-- Whether the point after `below` is nearer to the double than `below`, or as near and taken. -/
def Interval.roundsUp (i : Interval) (tie : Tie) (below : Nat) : Bool :=
  let remainder := i.value % i.denominator
  i.denominator < 2 * remainder || (i.denominator == 2 * remainder && tie.goesUp below)

/-- The grid point in the interval that is nearest to the double. -/
def Interval.nearest? (i : Interval) (tie : Tie) : Option Nat :=
  let below := i.value / i.denominator
  match i.holds below, i.holds (below + 1) with
  | true, true => some (if i.roundsUp tie below then below + 1 else below)
  | true, false => some below
  | false, true => some (below + 1)
  | false, false => none

def digitCount (n : Nat) : Nat :=
  (Nat.toDigits 10 n).length

/-- The `e` with `10^e ≤ value < 10^(e+1)`. -/
def Interval.magnitude (i : Interval) : Int :=
  let whole := i.value / i.denominator
  if whole = 0 then -(digitCount (i.denominator / i.value) : Int) else (digitCount whole : Int) - 1

/-- Remove the zeros at the end of the digits. -/
def Decimal.strip : Nat → Decimal → Decimal
  | 0, d => d
  | fuel + 1, d =>
    if d.digits % 10 = 0 then Decimal.strip fuel ⟨d.digits / 10, d.exponent + 1⟩ else d

/-- Try the grids from `digits` significant digits on, `tries` more after this one. -/
def Interval.search (i : Interval) (tie : Tie) (magnitude : Int) : Nat → Nat → Decimal
  | digits, tries =>
    let exponent := magnitude + 1 - digits
    let grid := i.onGrid exponent
    match grid.nearest? tie, tries with
    | some n, _ => ⟨n, exponent⟩
    | none, 0 => ⟨grid.value / grid.denominator, exponent⟩
    | none, tries + 1 => i.search tie magnitude (digits + 1) tries

/-- The shortest decimal that reads back as the double; seventeen digits always suffice. -/
def Binary.shortest (b : Binary) (tie : Tie) : Decimal :=
  Decimal.strip 17 (b.interval.search tie b.interval.magnitude 1 16)

end StackPipeline.Number
