import StackPipeline.Text.Extending

/-!
Texts shown inside messages: between quotes, with everything that would not show as itself written
as an escape.
-/

namespace StackPipeline.Text.Escaped

def hex (code : Nat) : List Char :=
  Nat.toDigits 16 code

/-- How one character is shown. -/
def escape (c : Char) : List Char :=
  match c with
  | '"' => ['\\', '"']
  | '\\' => ['\\', '\\']
  | '\n' => ['\\', 'n']
  | '\r' => ['\\', 'r']
  | '\t' => ['\\', 't']
  | c =>
    if c.toNat = 0 then ['\\', '0']
    else if isInvisible c || isExtending c then
      ['\\', 'u', '\x7b'] ++ hex c.toNat ++ ['\x7d']
    else [c]

/-- The shown form of a text, quotes included. -/
def literal (text : String) : List Char :=
  '"' :: (text.toList.flatMap escape ++ ['"'])

end StackPipeline.Text.Escaped
