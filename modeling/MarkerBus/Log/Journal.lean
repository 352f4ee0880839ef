import MarkerBus.Environment
import MarkerBus.FileTree.Handles
import MarkerBus.Log.Level
import MarkerBus.Message
import MarkerBus.Text.Terminated

namespace MarkerBus.Log

/-! The journal: one line in the making, and where finished lines go.

Text is gathered in the logger until it is flushed as one line.  The line
carries the level, the indentation and the time of that moment, and it goes to
the tee, if there is one, and to the target: an open log file, or the console.
The tee gets the line as it is; the target gets it up to its first NUL.
-/

inductive Piece where
  | text (text : String)
  | number (value : Int)
  | flag (value : Bool)
  | phase (phase : Phase)
  | message (message : Message)
  | path (path : String)
  /-- End the line and flush it. -/
  | endLine
deriving DecidableEq, Repr

def Piece.written : Piece → String
  | .text words | .path words => words
  | .number value => toString value
  | .flag value => if value then "1" else "0"
  | .phase reached => reached.name
  | .message said => said.text
  | .endLine => "\n"

structure Logger where
  pending : String := ""
  level : Level := .info
  indent : Int := 0
deriving DecidableEq, Repr

/-- The logger after a flush.  The indentation outlives it. -/
def Logger.cleared (logger : Logger) : Logger :=
  { indent := logger.indent }

def threadName : String := "CKPBUS"

structure Journal where
  threshold : Level := .warning
  logger : Logger := {}
  clock : String
  teeing : Bool := false
  /-- The handle of the log file; without one, lines go to the console. -/
  target? : Option Nat := none
  files : FileTree := {}
  teed : List String := []
  console : List String := []

namespace Journal

def line (journal : Journal) : String :=
  let logger := journal.logger
  let tabs := String.ofList (List.replicate logger.indent.toNat '\t')
  let ending := if logger.pending.toList.getLast? = some '\n' then "" else "\n"
  journal.clock ++ " [" ++ logger.level.name ++ "] [" ++ threadName ++ "] " ++
    tabs ++ logger.pending ++ ending

def print (journal : Journal) (text : String) : Journal :=
  { journal with console := journal.console ++ [text] }

def deliver (journal : Journal) (line : String) : Journal :=
  let journal := if journal.teeing then { journal with teed := journal.teed ++ [line] } else journal
  let record := Text.beforeNul line
  match journal.target? with
  | none => journal.print record
  | some handle => { journal with files := journal.files.write handle record.toUTF8 }

/-- Finish the line.  If nothing is pending, there is no line. -/
def flush (journal : Journal) : Journal :=
  let cleared := { journal with logger := journal.logger.cleared }
  if journal.logger.pending = "" then cleared else cleared.deliver journal.line

def append (journal : Journal) (text : String) : Journal :=
  { journal with logger := { journal.logger with pending := journal.logger.pending ++ text } }

def stream (journal : Journal) (piece : Piece) : Journal :=
  let journal := journal.append piece.written
  if piece = .endLine then journal.flush else journal

def streamAll (journal : Journal) (pieces : List Piece) : Journal :=
  pieces.foldl stream journal

def setLevel (journal : Journal) (level : Level) : Journal :=
  { journal with logger := { journal.logger with level } }

def indent (journal : Journal) : Journal :=
  { journal with logger := { journal.logger with indent := journal.logger.indent + 1 } }

def dedent (journal : Journal) : Journal :=
  { journal with logger := { journal.logger with indent := journal.logger.indent - 1 } }

end Journal

/-- A statement: a piece of code that streams into the journal and flushes it in
the end.  One below the threshold is not accepted and does nothing; one that has
ended a line by itself flushes no more. -/
structure Statement where
  accepted : Bool
  flushes : Bool
deriving DecidableEq, Repr

namespace Statement

def start (journal : Journal) (level : Level) : Statement × Journal :=
  if level.severity < journal.threshold.severity then
    (⟨false, false⟩, journal)
  else
    (⟨true, true⟩, journal.setLevel level)

def stream (statement : Statement) (journal : Journal) (piece : Piece) : Statement × Journal :=
  if statement.accepted then
    ({ statement with flushes := statement.flushes ∧ piece ≠ .endLine }, journal.stream piece)
  else
    (statement, journal)

def streamAll (statement : Statement) (journal : Journal) : List Piece → Statement × Journal
  | [] => (statement, journal)
  | piece :: rest =>
      let (statement, journal) := statement.stream journal piece
      statement.streamAll journal rest

def finish (statement : Statement) (journal : Journal) : Journal :=
  if statement.accepted ∧ statement.flushes then journal.flush else journal

end Statement

namespace Journal

def log (journal : Journal) (level : Level) (pieces : List Piece) : Journal :=
  let (statement, journal) := Statement.start journal level
  let (statement, journal) := statement.streamAll journal pieces
  statement.finish journal

def logEntry (journal : Journal) (entry : Entry) : Journal :=
  journal.log entry.level [.text entry.text]

def logIndented (journal : Journal) (level : Level) (pieces : List Piece) : Journal :=
  (journal.indent.log level pieces).dedent

def setThreshold (journal : Journal) (text : String) : Bool × Journal :=
  match Level.ofText? text with
  | some threshold => (true, { journal with threshold })
  | none => (false, journal)

def adopt (journal : Journal) (environment : Environment) : Journal :=
  match environment.value? "LOG_LEVEL" with
  | none => journal
  | some text =>
      match journal.setThreshold text with
      | (true, journal) => journal
      | (false, journal) =>
          journal.print ("Warning: Invalid LOG_LEVEL '" ++ text ++
            "'. Valid levels: TRACE, DEBUG, INFO, WARNING, ERROR, SEVERE\n")

end Journal

end MarkerBus.Log
