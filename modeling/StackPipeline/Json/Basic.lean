/-!
JSON values.  Members of an object keep their order, and a name may occur more than once.
-/

namespace StackPipeline.Json

/-- A number as it was written: whole and within 64 bits, or a double. -/
inductive Numeral
  | integer (value : Int)
  | float (value : Float)
deriving DecidableEq

def Numeral.toFloat : Numeral → Float
  | .integer value => Float.ofInt value
  | .float value => value

/-- A JSON value. -/
inductive Value
  | null
  | boolean (value : Bool)
  | number (value : Numeral)
  | string (text : String)
  | array (items : List Value)
  | object (members : List (String × Value))

end StackPipeline.Json
