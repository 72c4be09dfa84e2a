import StackPipeline.Number.Layout
import StackPipeline.Number.Reader
import StackPipeline.Text.Blank
import StackPipeline.Text.Escaped

/-!
The values of a running program: numbers, and lines of input that are no numbers.
-/

namespace StackPipeline.Machine

/-- A value. -/
inductive Value
  | number (value : Float)
  | text (text : String)
deriving DecidableEq

namespace Value

/-- The value of a name that was never set. -/
def zero : Value := .number 0

/-- The value of a line of input: a whole number, else a number, else the line as it is.  Blanks
around a number do not count. -/
def ofLine (line : List Char) : Value :=
  let word := Text.trim line
  match Number.readInteger? word with
  | some n => .number (Float.ofInt n)
  | none =>
    match Number.read? word with
    | some x => .number x
    | none => .text (String.ofList line)

/-- The printed form of a value. -/
def chars : Value → List Char
  | .number x => Number.plain x
  | .text line => line.toList

def render (value : Value) : String :=
  String.ofList value.chars

/-- The form of a value in messages. -/
def shown : Value → List Char
  | .number x => "Number(".toList ++ Number.pointed x ++ [')']
  | .text line => "Text(".toList ++ Text.Escaped.literal line ++ [')']

end Value

end StackPipeline.Machine
