import StackPipeline.Number.Shortest

/-!
The written forms of a number.

* `plain`, in program output and listings: never an exponent, no point for whole numbers.
* `pointed`, in messages about values: always a point or an exponent, which begins at `1e16` and
  below `1e-4`.
* `documented`, in messages about documents: as `pointed`, but an exponent begins below `1e-5`, it
  has a sign, and of two equally near decimals the even one is written.
* `signed`, for operands of the listing: infinities and NaN carry a sign, so that no name looks
  like them.
-/

namespace StackPipeline.Number

def digitsOf (n : Nat) : List Char :=
  Nat.toDigits 10 n

/-- The exponent of the first digit, as in scientific notation. -/
def Decimal.order (d : Decimal) : Int :=
  d.exponent + (digitsOf d.digits).length - 1

/-- Without exponent; `whole` stands after the digits of a whole number. -/
def Decimal.positional (d : Decimal) (whole : List Char) : List Char :=
  let digits := digitsOf d.digits
  let point := d.exponent + digits.length
  if 0 ≤ d.exponent then digits ++ List.replicate d.exponent.toNat '0' ++ whole
  else if 0 < point then digits.take point.toNat ++ '.' :: digits.drop point.toNat
  else '0' :: '.' :: (List.replicate (-point).toNat '0' ++ digits)

/-- With exponent; `mark` gives the text before the exponent's digits from its sign. -/
def Decimal.scientific (d : Decimal) (mark : Bool → List Char) : List Char :=
  let tail :=
    match digitsOf d.digits with
    | [] => []
    | [c] => [c]
    | c :: rest => c :: '.' :: rest
  tail ++ mark (d.order < 0) ++ digitsOf d.order.natAbs

/-- A minus sign, if the number is negative. -/
def sign (negative : Bool) : List Char :=
  if negative then ['-'] else []

/-- Program output: `5`, `-0`, `0.1`, `inf`, `NaN`. -/
def plain (x : Float) : List Char :=
  match parts x with
  | .nan => ['N', 'a', 'N']
  | .infinite negative => sign negative ++ ['i', 'n', 'f']
  | .zero negative => sign negative ++ ['0']
  | .finite negative b => sign negative ++ (b.shortest .larger).positional []

/-- Values in messages: `5.0`, `-0.0`, `1e16`, `1.5e-5`. -/
def pointed (x : Float) : List Char :=
  match parts x with
  | .nan => ['N', 'a', 'N']
  | .infinite negative => sign negative ++ ['i', 'n', 'f']
  | .zero negative => sign negative ++ ['0', '.', '0']
  | .finite negative b =>
    let d := b.shortest .larger
    sign negative ++
      if -4 ≤ d.order && d.order < 16 then d.positional ['.', '0']
      else d.scientific fun below => if below then ['e', '-'] else ['e']

/-- Numbers in messages about documents: `1.5`, `1e+16`. -/
def documented (x : Float) : List Char :=
  match parts x with
  | .nan => ['N', 'a', 'N']
  | .infinite negative => sign negative ++ ['i', 'n', 'f']
  | .zero negative => sign negative ++ ['0', '.', '0']
  | .finite negative b =>
    let d := b.shortest .even
    sign negative ++
      if -5 ≤ d.order && d.order < 16 then d.positional ['.', '0']
      else d.scientific fun below => if below then ['e', '-'] else ['e', '+']

/-- Operands of the listing: `5`, `+inf`, `-inf`, `+nan`. -/
def signed (x : Float) : List Char :=
  match parts x with
  | .nan => ['+', 'n', 'a', 'n']
  | .infinite negative => (if negative then '-' else '+') :: ['i', 'n', 'f']
  | _ => plain x

end StackPipeline.Number
