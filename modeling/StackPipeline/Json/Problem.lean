import StackPipeline.Json.Basic
import StackPipeline.Number.Layout
import StackPipeline.Text.Escaped

/-!
How a document fails: it is no JSON, it ends too early, or it is JSON of another shape than the one
that is wanted.
-/

namespace StackPipeline.Json

/-- What stands where something else is wanted. -/
inductive Found
  | null
  | boolean (value : Bool)
  | number (value : Numeral)
  | string (text : String)
  | sequence
  | map

/-- The outline of a value. -/
def Value.found : Value → Found
  | .null => .null
  | .boolean value => .boolean value
  | .number value => .number value
  | .string text => .string text
  | .array _ => .sequence
  | .object _ => .map

def Found.message : Found → String
  | .null => "null"
  | .boolean value => s!"boolean `{value}`"
  | .number (.integer value) => s!"integer `{value}`"
  | .number (.float value) =>
    let digits := String.ofList (Number.documented value)
    s!"floating point `{digits}`"
  | .string text => "string " ++ String.ofList (Text.Escaped.literal text)
  | .sequence => "sequence"
  | .map => "map"

/-- How a value does not fit. -/
inductive Problem
  | missingField (name : String)
  | duplicateField (name : String)
  | unknownVariant (name : String) (known : List String)
  /-- The number of a variant of which there are fewer. -/
  | unknownIndex (index : Int) (count : Nat)
  | wrongType (found : Found) (wanted : String)
  | wrongLength (length : Nat) (wanted : String)
  /-- A variant written as an object that has not exactly one member. -/
  | notSingle

/-- A name between backticks. -/
def ticked (name : String) : String :=
  s!"`{name}`"

/-- The names of which one is wanted. -/
def oneOf : List String → String
  | [] => "there are no variants"
  | [name] => "expected " ++ ticked name
  | [first, second] => "expected " ++ ticked first ++ " or " ++ ticked second
  | names => "expected one of " ++ ", ".intercalate (names.map ticked)

def Problem.message : Problem → String
  | .missingField name => s!"missing field `{name}`"
  | .duplicateField name => s!"duplicate field `{name}`"
  | .unknownVariant name known => s!"unknown variant `{name}`, " ++ oneOf known
  | .unknownIndex index count =>
    s!"invalid value: integer `{index}`, expected variant index 0 <= i < {count}"
  | .wrongType found wanted => s!"invalid type: {found.message}, expected {wanted}"
  | .wrongLength length wanted => s!"invalid length {length}, expected {wanted}"
  | .notSingle => "invalid value: map, expected map with a single key"

/-- Why a document cannot be read. -/
inductive ReadError
  /-- It is not JSON. -/
  | grammar
  /-- It ends too early. -/
  | truncated
  /-- It does not fit; this is what was left to read when that was found. -/
  | unfit (problem : Problem) (rest : List Char)

/-- A place in a document: the line, and the bytes before it on that line. -/
structure Position where
  line : Nat
  column : Nat
deriving DecidableEq

def Position.advance : Position → List Char → Position
  | position, [] => position
  | position, c :: rest =>
    if c = '\n' then Position.advance ⟨position.line + 1, 0⟩ rest
    else Position.advance ⟨position.line, position.column + c.utf8Size⟩ rest

/-- The place in a document with this much of it left. -/
def Position.ofRest (document rest : List Char) : Position :=
  Position.advance ⟨1, 0⟩ (document.take (document.length - rest.length))

/-- Why a document cannot be read, with places instead of texts. -/
inductive DocumentError
  | grammar
  | truncated
  | unfit (problem : Problem) (position : Position)

/-- The error within its document. -/
def ReadError.within (document : List Char) : ReadError → DocumentError
  | .grammar => .grammar
  | .truncated => .truncated
  | .unfit problem rest => .unfit problem (Position.ofRest document rest)

def DocumentError.message : DocumentError → String
  | .grammar => "the document is not well formed"
  | .truncated => "the document ends too early"
  | .unfit problem position =>
    s!"{problem.message} at line {position.line} column {position.column}"

end StackPipeline.Json
