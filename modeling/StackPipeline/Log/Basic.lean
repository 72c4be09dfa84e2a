/-!
The log: entries with a level, of which those at or above a threshold are shown, one a line.
-/

namespace StackPipeline.Log

/-- How much an entry matters. -/
inductive Level
  | trace
  | debug
  | info
  | warn
  | error
deriving DecidableEq

namespace Level

/-- The name of a level in settings. -/
def name : Level → String
  | trace => "trace"
  | debug => "debug"
  | info => "info"
  | warn => "warn"
  | error => "error"

/-- All levels, the least important first. -/
def all : List Level := [trace, debug, info, warn, error]

/-- The level with exactly this name. -/
def ofName? (name : String) : Option Level :=
  all.find? fun level => level.name == name

/-- The level named by a text in any case; `warning` is another name of `warn`. -/
def ofText? (text : String) : Option Level :=
  let lower := text.map Char.toLower
  if lower == "warning" then some warn else ofName? lower

def unknownMessage (text : String) : String :=
  let lower := text.map Char.toLower
  s!"unknown log level `{lower}`"

/-- The name of a level in the log, five characters wide. -/
def label : Level → String
  | trace => "TRACE"
  | debug => "DEBUG"
  | info => " INFO"
  | warn => " WARN"
  | error => "ERROR"

def rank : Level → Nat
  | trace => 0
  | debug => 1
  | info => 2
  | warn => 3
  | error => 4

def isShown (level threshold : Level) : Bool :=
  threshold.rank ≤ level.rank

end Level

/-- One entry. -/
structure Entry where
  level : Level
  text : String
deriving DecidableEq

def trace (text : String) : Entry := ⟨.trace, text⟩

def debug (text : String) : Entry := ⟨.debug, text⟩

def warn (text : String) : Entry := ⟨.warn, text⟩

/-- How a character of an entry is shown.  Characters that steer a terminal are escaped. -/
def showChar (c : Char) : List Char :=
  let code := c.toNat
  let hex := Nat.toDigits 16 code
  if code = 0x07 || code = 0x08 || code = 0x0C then ['\\', 'x', '0'] ++ hex
  else if code = 0x1B || code = 0x7F then ['\\', 'x'] ++ hex
  else if 0x80 ≤ code && code ≤ 0x9F then ['\\', 'u', '\x7b'] ++ hex ++ ['\x7d']
  else [c]

def Entry.render (entry : Entry) : String :=
  entry.level.label ++ " " ++ String.ofList (entry.text.toList.flatMap showChar)

end StackPipeline.Log
