/-!
Blanks (the Unicode property `White_Space`) and the ways to cut a text at them: trimming, words,
lines, pieces.  Texts are lists of characters here, so that every function is a recursion on the
text itself.
-/

namespace StackPipeline.Text

/-- The 25 characters of the property `White_Space`. -/
def isBlank (c : Char) : Bool :=
  let code := c.toNat
  (9 ≤ code && code ≤ 13) || code == 0x20 || code == 0x85 || code == 0xA0 || code == 0x1680 ||
    (0x2000 ≤ code && code ≤ 0x200A) || code == 0x2028 || code == 0x2029 || code == 0x202F ||
    code == 0x205F || code == 0x3000

def trimFront (text : List Char) : List Char :=
  text.dropWhile isBlank

/-- Drop from the end every character that satisfies `p`. -/
def dropBack (p : Char → Bool) (text : List Char) : List Char :=
  (text.reverse.dropWhile p).reverse

def trim (text : List Char) : List Char :=
  dropBack isBlank (trimFront text)

/-- The text after `lead`, if it starts with `lead`. -/
def after? : List Char → List Char → Option (List Char)
  | [], text => some text
  | _ :: _, [] => none
  | p :: lead, c :: text => if p = c then after? lead text else none

/-- Cut at the first character that satisfies `p`; that character belongs to neither part. -/
def cut? (p : Char → Bool) : List Char → Option (List Char × List Char)
  | [] => none
  | c :: text =>
    if p c then some ([], text)
    else match cut? p text with
      | none => none
      | some (front, back) => some (c :: front, back)

/-- The pieces between the separators: one more than there are separators. -/
def pieces (separator : Char) : List Char → List (List Char)
  | [] => [[]]
  | c :: text =>
    if c = separator then [] :: pieces separator text
    else match pieces separator text with
      | [] => [[c]]
      | piece :: rest => (c :: piece) :: rest

/-- The longest runs of characters that are not blank. -/
def words : List Char → List (List Char)
  | [] => []
  | c :: text =>
    if isBlank c then words text
    else match text with
      | [] => [[c]]
      | d :: _ =>
        if isBlank d then [c] :: words text
        else match words text with
          | [] => [[c]]
          | word :: rest => (c :: word) :: rest

/-- The lines of a text.  A line ends at a line feed, and one carriage return right before that
line feed belongs to the line's end; nothing follows a last line feed. -/
def lines : List Char → List (List Char)
  | [] => []
  | '\n' :: text => [] :: lines text
  | '\r' :: '\n' :: text => [] :: lines text
  | c :: text =>
    match lines text with
    | [] => [[c]]
    | line :: rest => (c :: line) :: rest

/-- Lines set one under the other, without a line feed after the last. -/
def joinLines : List (List Char) → List Char
  | [] => []
  | [line] => line
  | line :: rest => line ++ '\n' :: joinLines rest

/-- Pair each element with its number, counted from `start`. -/
def numbered {α : Type} (start : Nat) : List α → List (Nat × α)
  | [] => []
  | x :: rest => (start, x) :: numbered (start + 1) rest

/-- The trimmed text if it is one word: not empty and without blanks inside. -/
def singleWord? (text : List Char) : Option (List Char) :=
  let word := trim text
  if word.isEmpty || word.any isBlank then none else some word

end StackPipeline.Text
