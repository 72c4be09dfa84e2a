/-!
What the operating system can answer instead of doing what it was asked.
-/

namespace StackPipeline

/-- A failure of a file, an input or an output. -/
inductive SystemError
  | notFound
  | alreadyExists
  | notDirectory
  | isDirectory
  /-- The bytes read are not UTF-8. -/
  | invalidText
  /-- The output took only a part of what was written. -/
  | outputFull
  | other (text : String)
deriving DecidableEq

def SystemError.message : SystemError → String
  | .notFound => "No such file or directory (os error 2)"
  | .alreadyExists => "File exists (os error 17)"
  | .notDirectory => "Not a directory (os error 20)"
  | .isDirectory => "Is a directory (os error 21)"
  | .invalidText => "stream did not contain valid UTF-8"
  | .outputFull => "failed to write whole buffer"
  | .other text => text

end StackPipeline
