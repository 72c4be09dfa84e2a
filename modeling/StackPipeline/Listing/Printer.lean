import StackPipeline.Listing.Basic
import StackPipeline.Number.Layout
import StackPipeline.Text.Blank
import StackPipeline.Text.Quoted

/-!
The text of a listing: one instruction a line.

    cont = 5
    t0 = cont > 3
    if t0 goto L1
    L1:
    print "done", cont
-/

namespace StackPipeline.Listing

open Text

def Operand.chars : Operand → List Char
  | .number value => Number.signed value
  | .name x => x.toList

def Source.chars : Source → List Char
  | .operand value => value.chars
  | .operation op left right =>
    left.chars ++ ' ' :: (op.symbol.toList ++ ' ' :: right.chars)
  | .read prompt => "READ ".toList ++ Quoted.literal prompt

def Instruction.chars : Instruction → List Char
  | .assign target source => target.toList ++ " = ".toList ++ source.chars
  | .label name => name.toList ++ [':']
  | .goto target => "goto ".toList ++ target.toList
  | .branch condition target =>
    "if ".toList ++ condition.chars ++ " goto ".toList ++ target.toList
  | .print text arguments =>
    "print ".toList ++ Quoted.literal text ++
      arguments.flatMap fun argument => ',' :: ' ' :: argument.chars
  | .breakLoop => "break".toList
  | .continueLoop => "continue".toList
  | .ret none => "return".toList
  | .ret (some value) => "return ".toList ++ value.chars
  | .comment text => "# ".toList ++ text.toList

def Instruction.render (instruction : Instruction) : String :=
  String.ofList instruction.chars

def chars (listing : Listing) : List Char :=
  joinLines (listing.map Instruction.chars)

/-- The text of a listing. -/
def render (listing : Listing) : String :=
  String.ofList (chars listing)

end StackPipeline.Listing
