namespace MarkerBus.Log

inductive Level where
  | trace
  | debug
  | info
  | warning
  | error
  | severe
deriving DecidableEq, Repr, Inhabited

namespace Level

def severity : Level → Nat
  | .trace => 0
  | .debug => 1
  | .info => 2
  | .warning => 3
  | .error => 4
  | .severe => 5

def name : Level → String
  | .trace => "TRACE"
  | .debug => "DEBUG"
  | .info => "INFO"
  | .warning => "WARNING"
  | .error => "ERROR"
  | .severe => "SEVERE"

def spellings : List (String × Level) :=
  [("TRACE", .trace), ("DEBUG", .debug), ("INFO", .info), ("WARNING", .warning),
   ("WARN", .warning), ("ERROR", .error), ("SEVERE", .severe), ("FATAL", .severe)]

/-- The level that a text spells, in any case.  Only the letters a to z have
capitals here. -/
def ofText? (text : String) : Option Level :=
  spellings.lookup (text.map Char.toUpper)

end Level

/-- A line that an operation has for the log, apart from where it is written. -/
structure Entry where
  level : Level
  text : String
deriving DecidableEq, Repr

end MarkerBus.Log
