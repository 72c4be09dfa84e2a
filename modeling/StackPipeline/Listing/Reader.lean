import StackPipeline.Listing.Basic
import StackPipeline.Text.Blank
import StackPipeline.Text.Quoted

/-!
Reading a listing.  Each line is held against the forms of an instruction in a fixed order; the
first form that claims it decides, even when it then finds the line malformed.
-/

namespace StackPipeline.Listing

open Text

/-- Why a line is not an instruction.  Lines count from one. -/
inductive ReadError
  | malformed (line : Nat) (text : String)
  | unknownOperator (line : Nat) (symbol : String)
  | unterminated (line : Nat)
  | badEscape (line : Nat) (escape : Char)
deriving DecidableEq

def ReadError.message : ReadError → String
  | .malformed line text => s!"line {line}: malformed instruction `{text}`"
  | .unknownOperator line symbol => s!"line {line}: unknown operator `{symbol}`"
  | .unterminated line => s!"line {line}: unterminated string literal"
  | .badEscape line escape =>
    s!"line {line}: invalid escape `\\" ++ String.singleton escape ++ "` in string literal"

/-- Whether a token looks like a literal: it starts with a digit, a point or a sign. -/
def looksNumeric : List Char → Bool
  | [] => false
  | c :: _ => c == '+' || c == '-' || c == '.' || c.isDigit

/-- Read one token.  A token that looks like a literal but is none is a name. -/
def Operand.ofToken (token : List Char) : Operand :=
  if looksNumeric token then
    match Number.read? token with
    | some value => .number value
    | none => .name (String.ofList token)
  else .name (String.ofList token)

/-- A line of a listing: its number and its text without blanks around it. -/
structure Line where
  number : Nat
  text : List Char

/-- What reading one form of line gives: nothing if the line has another form. -/
abbrev Form := Line → Option (Except ReadError Instruction)

/-- The error for a line whose form is broken. -/
def Line.malformed (line : Line) : ReadError :=
  .malformed line.number (String.ofList line.text)

def Line.badLiteral (line : Line) : Quoted.Problem → ReadError
  | .unterminated => .unterminated line.number
  | .badEscape escape => .badEscape line.number escape

/-- The instruction made from a word, or the line is malformed. -/
def Line.withWord (line : Line) (text : List Char) (make : List Char → Instruction) :
    Except ReadError Instruction :=
  match singleWord? text with
  | some word => .ok (make word)
  | none => .error line.malformed

/-- A comment: `# text`. -/
def commentForm : Form := fun line =>
  match after? ['#'] line.text with
  | some text => some (.ok (.comment (String.ofList (trim text))))
  | none => none

/-- An instruction of one word. -/
def wordForm : Form := fun line =>
  if line.text = "break".toList then some (.ok .breakLoop)
  else if line.text = "continue".toList then some (.ok .continueLoop)
  else if line.text = "return".toList then some (.ok (.ret none))
  else none

/-- A return with a value: `return x`. -/
def returnForm : Form := fun line =>
  match after? "return ".toList line.text with
  | some rest => some (line.withWord rest fun word => .ret (some (.ofToken word)))
  | none => none

/-- The arguments of a print: tokens between commas, empty ones skipped. -/
def printArguments (tail : List Char) : List Operand :=
  (((pieces ',' tail).map trim).filter fun token => !token.isEmpty).map Operand.ofToken

/-- Whether nothing or a comma follows the text of a print. -/
def isPrintTail (tail : List Char) : Bool :=
  match trimFront tail with
  | [] => true
  | c :: _ => c == ','

/-- A print: `print "text", x, y`.  Without the quote this is no print. -/
def printForm : Form := fun line =>
  match (after? "print ".toList line.text).map trimFront with
  | some ('"' :: rest) =>
    match Quoted.split ('"' :: rest) with
    | .error problem => some (.error (line.badLiteral problem))
    | .ok (text, tail) =>
      if isPrintTail tail then some (.ok (.print text (printArguments tail)))
      else some (.error line.malformed)
  | _ => none

/-- An unconditional jump: `goto label`. -/
def gotoForm : Form := fun line =>
  match after? "goto ".toList line.text with
  | some rest => some (line.withWord rest fun word => .goto (String.ofList word))
  | none => none

/-- A conditional jump: `if x goto label`. -/
def branchForm : Form := fun line =>
  match after? "if ".toList line.text with
  | none => none
  | some rest =>
    match words rest with
    | [condition, keyword, label] =>
      if keyword = "goto".toList then
        some (.ok (.branch (.ofToken condition) (String.ofList label)))
      else some (.error line.malformed)
    | _ => some (.error line.malformed)

/-- A label: `name:`. -/
def labelForm : Form := fun line =>
  match line.text.reverse with
  | ':' :: front => some (line.withWord front.reverse fun word => .label (String.ofList word))
  | _ => none

/-- The right side of an assignment that reads a line: `READ "prompt"`. -/
def readSource (line : Line) (text : List Char) : Option (Except ReadError Source) :=
  match (after? "READ".toList text).map trimFront with
  | some ('"' :: rest) =>
    match Quoted.split ('"' :: rest) with
    | .error problem => some (.error (line.badLiteral problem))
    | .ok (prompt, tail) =>
      if (trim tail).isEmpty then some (.ok (.read prompt)) else some (.error line.malformed)
  | _ => none

/-- The right side of an assignment that computes: one token, or two around an operator. -/
def computedSource (line : Line) (text : List Char) : Except ReadError Source :=
  match words text with
  | [value] => .ok (.operand (.ofToken value))
  | [left, symbol, right] =>
    match Operator.ofSymbol? (String.ofList symbol) with
    | some op => .ok (.operation op (.ofToken left) (.ofToken right))
    | none => .error (.unknownOperator line.number (String.ofList symbol))
  | _ => .error line.malformed

/-- An assignment: `x = …`, cut at the first equals sign. -/
def assignForm : Form := fun line =>
  match cut? (· == '=') line.text with
  | none => none
  | some (left, right) =>
    match singleWord? left with
    | none => some (.error line.malformed)
    | some target =>
      match (readSource line (trim right)).getD (computedSource line (trim right)) with
      | .ok source => some (.ok (.assign (String.ofList target) source))
      | .error problem => some (.error problem)

/-- Read a line by the first form that claims it. -/
def Line.read (line : Line) : Except ReadError Instruction :=
  (commentForm line <|> wordForm line <|> returnForm line <|> printForm line <|> gotoForm line <|>
    branchForm line <|> labelForm line <|> assignForm line).getD (.error line.malformed)

/-- The lines of a listing that are not blank. -/
def linesOf (text : List Char) : List Line :=
  ((numbered 1 (lines text)).map fun line => ⟨line.1, trim line.2⟩).filter
    fun line => !line.text.isEmpty

/-- Read lines up to the first one that is no instruction. -/
def readLines : List Line → Except ReadError Listing
  | [] => .ok []
  | line :: rest =>
    match line.read with
    | .error problem => .error problem
    | .ok instruction =>
      match readLines rest with
      | .error problem => .error problem
      | .ok listing => .ok (instruction :: listing)

/-- Read a listing. -/
def read (text : String) : Except ReadError Listing :=
  readLines (linesOf text.toList)

/-- Read a single instruction as line one. -/
def Instruction.read (text : String) : Except ReadError Instruction :=
  Line.read ⟨1, trim text.toList⟩

end StackPipeline.Listing
