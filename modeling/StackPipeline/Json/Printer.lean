import StackPipeline.Json.Basic
import StackPipeline.Number.Layout

/-!
The text of JSON values, without blanks.
-/

namespace StackPipeline.Json

def hexDigit (digit : Nat) : Char :=
  if digit < 10 then Char.ofNat (48 + digit) else Char.ofNat (87 + digit)

def escapeChar (c : Char) : List Char :=
  if c = '"' then ['\\', '"']
  else if c = '\\' then ['\\', '\\']
  else if c = '\n' then ['\\', 'n']
  else if c = '\r' then ['\\', 'r']
  else if c = '\t' then ['\\', 't']
  else if c.toNat = 8 then ['\\', 'b']
  else if c.toNat = 12 then ['\\', 'f']
  else if c.toNat < 0x20 then
    ['\\', 'u', '0', '0', hexDigit (c.toNat / 16), hexDigit (c.toNat % 16)]
  else [c]

def stringChars (text : String) : List Char :=
  '"' :: (text.toList.flatMap escapeChar ++ ['"'])

/-- A number.  JSON has no word for infinity or NaN; null stands for them. -/
def Numeral.chars : Numeral → List Char
  | .integer value => (toString value).toList
  | .float value =>
    match Number.parts value with
    | .nan => ['n', 'u', 'l', 'l']
    | .infinite _ => ['n', 'u', 'l', 'l']
    | _ => Number.documented value

mutual

def Value.chars : Value → List Char
  | .null => ['n', 'u', 'l', 'l']
  | .boolean true => ['t', 'r', 'u', 'e']
  | .boolean false => ['f', 'a', 'l', 's', 'e']
  | .number numeral => numeral.chars
  | .string text => stringChars text
  | .array items => '[' :: (itemsChars items ++ [']'])
  | .object members => '\x7b' :: (membersChars members ++ ['\x7d'])

def itemsChars : List Value → List Char
  | [] => []
  | [item] => item.chars
  | item :: rest => item.chars ++ ',' :: itemsChars rest

def membersChars : List (String × Value) → List Char
  | [] => []
  | [(name, value)] => stringChars name ++ ':' :: value.chars
  | (name, value) :: rest => stringChars name ++ ':' :: (value.chars ++ ',' :: membersChars rest)

end

def Value.render (value : Value) : String :=
  String.ofList value.chars

end StackPipeline.Json
