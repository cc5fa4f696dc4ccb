/-!
# Lines of logs

Every line of a log has a level, a message and perhaps further fields.
-/

namespace ConferenceLedger

/-- How much a line of a log matters. -/
inductive LogLevel where
  /-- Something happened. -/
  | info
  /-- Something is not as it should be. -/
  | warn
  deriving DecidableEq

namespace LogLevel

/-- The name of a level. -/
def name : LogLevel → String
  | info => "INFO"
  | warn => "WARN"

/-- The place of a level among the thresholds. -/
def rank : LogLevel → Nat
  | info => 3
  | warn => 2

end LogLevel

/-- One line of a log. -/
structure LogLine where
  /-- How much it matters. -/
  level : LogLevel
  /-- What it says. -/
  message : String
  /-- The names and the values of its further fields, in order. -/
  fields : List (String × String)
  deriving DecidableEq

namespace LogLine

/-- The text of a line: the message and then the further fields. -/
def text (l : LogLine) : String :=
  l.fields.foldl (fun s f => s ++ " " ++ f.1 ++ "=" ++ f.2) l.message

/-- Whether a line has a field of a name; the message is one. -/
def hasField (l : LogLine) (name : String) : Bool := name = "message" || l.fields.any (·.1 = name)

end LogLine

end ConferenceLedger
