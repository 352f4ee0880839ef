import MarkerBus.Log.Session

namespace MarkerBus.Log

/-- What a line leaves in a file. -/
def record (line : String) : ByteArray :=
  (Text.beforeNul line).toUTF8

def recordAll : List String → ByteArray
  | [] => .empty
  | line :: rest => record line ++ recordAll rest

namespace Journal

/-- The line that a flush finishes, if there is anything to flush. -/
def finished (journal : Journal) : List String :=
  if journal.logger.pending = "" then [] else [journal.line]

def linesOf (journal : Journal) : List Piece → List String
  | [] => []
  | piece :: rest =>
      (if piece = .endLine then (journal.append piece.written).finished else []) ++
        (journal.stream piece).linesOf rest

end Journal

namespace Statement

def linesOf (statement : Statement) (journal : Journal) (pieces : List Piece) : List String :=
  if statement.accepted then journal.linesOf pieces else []

def finished (statement : Statement) (journal : Journal) : List String :=
  if statement.accepted ∧ statement.flushes then journal.finished else []

end Statement

def Journal.linesLogged (journal : Journal) (level : Level) (pieces : List Piece) : List String :=
  let (statement, journal) := Statement.start journal level
  let (streamed, after) := statement.streamAll journal pieces
  statement.linesOf journal pieces ++ streamed.finished after

/-- The events that do nothing but write to the journal or change how it is written to. -/
def Event.Speaks : Event → Prop
  | .start .. | .write .. | .finish _ | .log .. | .logIndented .. | .stream _ | .setLevel _ | .flush
  | .indent | .dedent | .setTee _ | .setThreshold _ => True
  | _ => False

namespace Session

def finishedOf (session : Session) (name : String) (journal : Journal) : List String :=
  match session.statements.get? name with
  | none => []
  | some statement => statement.finished journal

/-- The lines that an event finishes. -/
def lines (session : Session) : Event → List String
  | .start name level => session.finishedOf name (Statement.start session.journal level).2
  | .write name pieces =>
      match session.statements.get? name with
      | none => []
      | some statement => statement.linesOf session.journal pieces
  | .finish name => session.finishedOf name session.journal
  | .log level pieces => session.journal.linesLogged level pieces
  | .logIndented level pieces => session.journal.indent.linesLogged level pieces
  | .stream pieces => session.journal.linesOf pieces
  | .flush => session.journal.finished
  | _ => []

theorem lines_eq_nil {session : Session} {event : Event} (silent : ¬ event.Speaks) :
    session.lines event = [] := by
  cases event with
  | adopt | openFile | rotateFile | rotateFileIfDue | closeFile | startSetup | stopSetup
  | rotateSetup | closeSetup | startGuard | closeGuard | elapse => rfl
  | start | write | finish | log | logIndented | stream | setLevel | flush | indent | dedent
  | setTee | setThreshold => exact absurd trivial silent

end Session

/-- One journal is the other after these lines. -/
structure Says (before : Journal) (lines : List String) (after : Journal) : Prop where
  target : after.target? = before.target?
  files : after.files = match before.target? with
    | none => before.files
    | some handle => lines.foldl (fun files line => files.write handle (record line)) before.files
  console : after.console = match before.target? with
    | none => before.console ++ lines.map Text.beforeNul
    | some _ => before.console

namespace Says

variable {before middle after : Journal} {lines more : List String}

/-- What becomes of the journal's own state is of no account. -/
theorem of_quiet (target : after.target? = before.target?) (files : after.files = before.files)
    (console : after.console = before.console) : Says before [] after where
  target := target
  files := by cases before.target? <;> simp [files]
  console := by cases before.target? <;> simp [console]

theorem refl (journal : Journal) : Says journal [] journal :=
  of_quiet rfl rfl rfl

theorem trans (first : Says before lines middle) (second : Says middle more after) :
    Says before (lines ++ more) after where
  target := second.target.trans first.target
  files := by
    rw [second.files, first.target, first.files]
    cases before.target? <;> simp
  console := by
    rw [second.console, first.target, first.console]
    cases before.target? <;> simp

end Says

variable {journal : Journal} {statement : Statement} {session : Session}

theorem says_deliver (journal : Journal) (line : String) :
    Says journal [line] (journal.deliver line) := by
  rcases journal with ⟨threshold, logger, clock, teeing, target, files, teed, console⟩
  cases target <;> cases teeing <;> exact ⟨rfl, rfl, rfl⟩

theorem says_flush (journal : Journal) : Says journal journal.finished journal.flush := by
  unfold Journal.flush Journal.finished
  split
  · exact .of_quiet rfl rfl rfl
  · have cleared : Says journal [] { journal with logger := journal.logger.cleared } :=
      .of_quiet rfl rfl rfl
    exact cleared.trans (says_deliver _ journal.line)

theorem says_stream (journal : Journal) (piece : Piece) :
    Says journal (if piece = .endLine then (journal.append piece.written).finished else [])
      (journal.stream piece) := by
  have gathered : Says journal [] (journal.append piece.written) := .of_quiet rfl rfl rfl
  unfold Journal.stream
  split
  · exact gathered.trans (says_flush _)
  · exact gathered

theorem says_streamAll (pieces : List Piece) :
    Says journal (journal.linesOf pieces) (journal.streamAll pieces) := by
  induction pieces generalizing journal with
  | nil => exact .refl journal
  | cons piece rest ih => exact (says_stream journal piece).trans ih

namespace Statement

theorem says_start (journal : Journal) (level : Level) :
    Says journal [] (Statement.start journal level).2 := by
  unfold Statement.start
  split <;> exact .of_quiet rfl rfl rfl

/-- A statement that is not accepted leaves the journal alone, one that is streams
like the journal itself. -/
theorem streamAll_snd (pieces : List Piece) :
    (statement.streamAll journal pieces).2 =
      if statement.accepted then journal.streamAll pieces else journal := by
  induction pieces generalizing statement journal with
  | nil => simp [Statement.streamAll, Journal.streamAll]
  | cons piece rest ih =>
      unfold Statement.streamAll
      cases accepted : statement.accepted <;>
        simp [Statement.stream, accepted, ih, Journal.streamAll]

theorem says_streamAll (statement : Statement) (journal : Journal) (pieces : List Piece) :
    Says journal (statement.linesOf journal pieces) (statement.streamAll journal pieces).2 := by
  rw [streamAll_snd, Statement.linesOf]
  split
  · exact Log.says_streamAll pieces
  · exact .refl journal

theorem says_finish (statement : Statement) (journal : Journal) :
    Says journal (statement.finished journal) (statement.finish journal) := by
  unfold Statement.finished Statement.finish
  split
  · exact says_flush journal
  · exact .refl journal

end Statement

theorem says_log (journal : Journal) (level : Level) (pieces : List Piece) :
    Says journal (journal.linesLogged level pieces) (journal.log level pieces) :=
  (Statement.says_start journal level).trans
    ((Statement.says_streamAll _ _ pieces).trans (Statement.says_finish _ _))

theorem says_finish (session : Session) (name : String) :
    Says session.journal (session.finishedOf name session.journal)
      (session.finish name).journal := by
  unfold Session.finishedOf Session.finish
  cases session.statements.get? name with
  | none => exact .refl _
  | some statement => exact Statement.says_finish statement _

/-- What only speaks leaves everything alive as it is, but for statements. -/
theorem perform_of_speaks (session : Session) {event : Event} (speaks : event.Speaks) :
    (session.perform event).2.files = session.files ∧
      (session.perform event).2.setups = session.setups ∧
      (session.perform event).2.guards = session.guards := by
  cases event with
  | start name level =>
      simp only [Session.perform, Session.start, Session.finish]
      split <;> exact ⟨rfl, rfl, rfl⟩
  | write name pieces =>
      simp only [Session.perform, Session.write]
      split <;> exact ⟨rfl, rfl, rfl⟩
  | finish name =>
      simp only [Session.perform, Session.finish]
      split <;> exact ⟨rfl, rfl, rfl⟩
  | log | logIndented | stream | setLevel | flush | indent | dedent | setTee | setThreshold =>
      exact ⟨rfl, rfl, rfl⟩
  | adopt | openFile | rotateFile | rotateFileIfDue | closeFile | startSetup | stopSetup
  | rotateSetup | closeSetup | startGuard | closeGuard | elapse => cases speaks

/-- An event of the journal says its lines. -/
theorem says_perform {event : Event} (speaks : event.Speaks) :
    Says session.journal (session.lines event) (session.perform event).2.journal := by
  cases event with
  | start name level =>
      exact (Statement.says_start session.journal level).trans
        (says_finish { session with journal := (Statement.start session.journal level).2 } name)
  | write name pieces =>
      simp only [Session.lines, Session.perform, Session.write]
      cases session.statements.get? name with
      | none => exact .refl _
      | some statement => exact Statement.says_streamAll statement _ pieces
  | finish name => exact says_finish session name
  | log level pieces => exact says_log session.journal level pieces
  | logIndented level pieces =>
      have inwards : Says session.journal [] session.journal.indent := .of_quiet rfl rfl rfl
      have outwards : Says (session.journal.indent.log level pieces) []
          (session.journal.logIndented level pieces) := .of_quiet rfl rfl rfl
      have said := inwards.trans ((says_log session.journal.indent level pieces).trans outwards)
      rwa [List.nil_append, List.append_nil] at said
  | stream pieces => exact says_streamAll pieces
  | flush => exact says_flush session.journal
  | setThreshold text =>
      change Says _ [] (session.journal.setThreshold text).2
      unfold Journal.setThreshold
      split <;> exact .of_quiet rfl rfl rfl
  | setLevel | indent | dedent | setTee => exact .of_quiet rfl rfl rfl
  | adopt | openFile | rotateFile | rotateFileIfDue | closeFile | startSetup | stopSetup
  | rotateSetup | closeSetup | startGuard | closeGuard | elapse => cases speaks

end MarkerBus.Log
