import Mathlib.Logic.Function.Basic
import MarkerBus.Proofs.Log.Lines

namespace MarkerBus.Log

/-! The transcript: what is done to the logger, and what the tee gets of it.

A script lists the strokes that the logger gets, each with its time, whoever made
them.  It settles what is uttered: every flush with something pending utters all of
it, with the time, the level and the indentation of that moment.  Log files have no
part in this.
-/

variable {journal before middle after : Journal} {session : Session} {event : Event}
  {logger : Logger} {time : String} {script more : List (String × Stroke)}
  {made further : List Stroke} {lines rest : List String}

structure Utterance where
  time : String
  level : Level
  indent : Int
  text : String
deriving DecidableEq, Repr

/-- The time, the level, and a tab for each step inwards. -/
def Utterance.head (utterance : Utterance) : String :=
  utterance.time ++ " [" ++ utterance.level.name ++ "] [CKPBUS] " ++
    String.ofList (List.replicate utterance.indent.toNat '\t')

/-- The text follows the head, and is ended if it has no line end of its own. -/
def Utterance.line (utterance : Utterance) : String :=
  utterance.head ++
    if utterance.text.toList.getLast? = some '\n' then utterance.text else utterance.text ++ "\n"

def texts : List Utterance → String
  | [] => ""
  | utterance :: rest => utterance.text ++ texts rest

theorem texts_append (utterances others : List Utterance) :
    texts (utterances ++ others) = texts utterances ++ texts others := by
  induction utterances with
  | nil => exact String.empty_append.symm
  | cons utterance rest ih => rw [List.cons_append, texts, texts, ih, String.append_assoc]

/-- What is done to the logger at one time. -/
inductive Stroke where
  | text (text : String)
  | level (level : Level)
  | indent
  | dedent
  | flush
deriving DecidableEq, Repr

def Stroke.written : Stroke → String
  | .text words => words
  | _ => ""

namespace Logger

/-- A flush leaves nothing pending, and the level that lines have on their own.  The
indentation outlives it. -/
def struck (logger : Logger) : Stroke → Logger
  | .text text => ⟨logger.pending ++ text, logger.level, logger.indent⟩
  | .level level => ⟨logger.pending, level, logger.indent⟩
  | .indent => ⟨logger.pending, logger.level, logger.indent + 1⟩
  | .dedent => ⟨logger.pending, logger.level, logger.indent - 1⟩
  | .flush => ⟨"", .info, logger.indent⟩

def uttered (logger : Logger) (time : String) : Stroke → List Utterance
  | .flush =>
      if logger.pending = "" then []
      else [⟨time, logger.level, logger.indent, logger.pending⟩]
  | _ => []

def struckAll (logger : Logger) : List (String × Stroke) → Logger
  | [] => logger
  | (_, stroke) :: rest => (logger.struck stroke).struckAll rest

def utteredAll (logger : Logger) : List (String × Stroke) → List Utterance
  | [] => []
  | (time, stroke) :: rest => logger.uttered time stroke ++ (logger.struck stroke).utteredAll rest

theorem struckAll_append (logger : Logger) (script more : List (String × Stroke)) :
    logger.struckAll (script ++ more) = (logger.struckAll script).struckAll more := by
  induction script generalizing logger with
  | nil => rfl
  | cons entry rest ih => exact ih (logger.struck entry.2)

theorem utteredAll_append (logger : Logger) (script more : List (String × Stroke)) :
    logger.utteredAll (script ++ more) =
      logger.utteredAll script ++ (logger.struckAll script).utteredAll more := by
  induction script generalizing logger with
  | nil => rfl
  | cons entry rest ih =>
      simp only [List.cons_append, utteredAll, struckAll, ih, List.append_assoc]

end Logger

/-- All text of a script. -/
def writtenIn : List (String × Stroke) → String
  | [] => ""
  | (_, stroke) :: rest => stroke.written ++ writtenIn rest

theorem writtenIn_append (script more : List (String × Stroke)) :
    writtenIn (script ++ more) = writtenIn script ++ writtenIn more := by
  induction script with
  | nil => exact String.empty_append.symm
  | cons entry rest ih => rw [List.cons_append, writtenIn, writtenIn, ih, String.append_assoc]

/-- A stroke adds its text to what is pending, and a flush takes all of that away. -/
theorem texts_uttered (logger : Logger) (time : String) (stroke : Stroke) :
    texts (logger.uttered time stroke) ++ (logger.struck stroke).pending =
      logger.pending ++ stroke.written := by
  cases stroke with
  | flush =>
      by_cases nothing : logger.pending = ""
      · simp [Logger.uttered, Logger.struck, Stroke.written, texts, nothing]
      · simp [Logger.uttered, Logger.struck, Stroke.written, texts, nothing]
  | text | level | indent | dedent =>
      simp [Logger.uttered, Logger.struck, Stroke.written, texts]

/-- The texts that are uttered, and then what is pending, are all text of the script. -/
theorem texts_utteredAll (logger : Logger) (script : List (String × Stroke)) :
    texts (logger.utteredAll script) ++ (logger.struckAll script).pending =
      logger.pending ++ writtenIn script := by
  induction script generalizing logger with
  | nil => exact String.empty_append.trans String.append_empty.symm
  | cons entry rest ih =>
      obtain ⟨time, stroke⟩ := entry
      calc texts (logger.uttered time stroke ++ (logger.struck stroke).utteredAll rest) ++
            ((logger.struck stroke).struckAll rest).pending
        _ = texts (logger.uttered time stroke) ++
              ((logger.struck stroke).pending ++ writtenIn rest) := by
          rw [texts_append, String.append_assoc, ih]
        _ = logger.pending ++ (stroke.written ++ writtenIn rest) := by
          rw [← String.append_assoc, texts_uttered, String.append_assoc]

theorem time_of_utteredAll {utterance : Utterance} (member : utterance ∈ logger.utteredAll script) :
    utterance.time ∈ script.map (·.1) := by
  induction script generalizing logger with
  | nil => cases member
  | cons entry rest ih =>
      rcases List.mem_append.mp member with now | later
      · obtain ⟨time, stroke⟩ := entry
        cases stroke with
        | flush =>
            simp only [Logger.uttered] at now
            split at now
            · cases now
            · rw [List.mem_singleton.mp now]
              exact List.mem_cons_self
        | text | level | indent | dedent => cases now
      · exact List.mem_cons_of_mem _ (ih later)

/-- Strokes that are made at the same time. -/
def timed (time : String) (strokes : List Stroke) : List (String × Stroke) :=
  strokes.map (time, ·)

theorem timed_append (time : String) (strokes others : List Stroke) :
    timed time (strokes ++ others) = timed time strokes ++ timed time others :=
  List.map_append

/-- What a flush would say now. -/
def Journal.utterance (journal : Journal) : Utterance :=
  ⟨journal.clock, journal.logger.level, journal.logger.indent, journal.logger.pending⟩

theorem Journal.line_eq (journal : Journal) : journal.line = journal.utterance.line := by
  have named : "] [" ++ (threadName ++ "] ") = "] [CKPBUS] " := by decide
  unfold Journal.line Utterance.line Utterance.head utterance
  dsimp only
  split <;> simp only [String.append_assoc, String.append_empty, ← named]

/-- After these strokes, which have finished these lines. -/
structure Carries (before : Journal) (strokes : List Stroke) (lines : List String)
    (after : Journal) : Prop where
  clock : after.clock = before.clock
  teeing : after.teeing = before.teeing
  teed : after.teed = before.teed ++ if before.teeing then lines else []
  lines : lines = (before.logger.utteredAll (timed before.clock strokes)).map Utterance.line
  logger : after.logger = before.logger.struckAll (timed before.clock strokes)

/-- One journal is the other, as far as the transcript is concerned. -/
structure SameTranscript (before after : Journal) : Prop where
  clock : after.clock = before.clock
  teeing : after.teeing = before.teeing
  teed : after.teed = before.teed
  logger : after.logger = before.logger

theorem SameTranscript.refl (journal : Journal) : SameTranscript journal journal :=
  ⟨rfl, rfl, rfl, rfl⟩

theorem SameTranscript.trans (first : SameTranscript before middle)
    (second : SameTranscript middle after) : SameTranscript before after :=
  ⟨second.clock.trans first.clock, second.teeing.trans first.teeing,
    second.teed.trans first.teed, second.logger.trans first.logger⟩

namespace Carries

theorem of_same (same : SameTranscript before after) : Carries before [] [] after where
  clock := same.clock
  teeing := same.teeing
  teed := by rw [same.teed, ite_self, List.append_nil]
  lines := rfl
  logger := same.logger

theorem refl (journal : Journal) : Carries journal [] [] journal :=
  of_same (.refl journal)

/-- Nothing but a flush finishes a line. -/
theorem of_quiet {stroke : Stroke} (quiet : stroke ≠ .flush) (clock : after.clock = before.clock)
    (teeing : after.teeing = before.teeing) (teed : after.teed = before.teed)
    (logger : after.logger = before.logger.struck stroke) :
    Carries before [stroke] [] after where
  clock := clock
  teeing := teeing
  teed := by rw [teed, ite_self, List.append_nil]
  lines := by
    cases stroke with
    | flush => exact absurd rfl quiet
    | text | level | indent | dedent => rfl
  logger := logger

theorem trans (first : Carries before made lines middle)
    (second : Carries middle further rest after) :
    Carries before (made ++ further) (lines ++ rest) after where
  clock := second.clock.trans first.clock
  teeing := second.teeing.trans first.teeing
  teed := by
    rw [second.teed, first.teed, first.teeing]
    split <;> simp
  lines := by
    rw [timed_append, Logger.utteredAll_append, List.map_append, first.lines, second.lines,
      first.clock, first.logger]
  logger := by
    rw [timed_append, Logger.struckAll_append, second.logger, first.clock, first.logger]

end Carries

theorem carries_append (journal : Journal) (text : String) :
    Carries journal [.text text] [] (journal.append text) :=
  .of_quiet nofun rfl rfl rfl rfl

theorem deliver_fields (journal : Journal) (line : String) :
    let after := journal.deliver line
    after.clock = journal.clock ∧ after.teeing = journal.teeing ∧
      after.teed = journal.teed ++ (if journal.teeing then [line] else []) ∧
      after.logger = journal.logger := by
  rcases journal with ⟨threshold, logger, clock, teeing, target, files, teed, console⟩
  cases target <;> cases teeing <;> simp [Journal.deliver, Journal.print]

theorem carries_flush (journal : Journal) :
    Carries journal [.flush] journal.finished journal.flush := by
  unfold Journal.flush Journal.finished
  split
  · rename_i nothing
    refine ⟨rfl, rfl, by simp, ?_, rfl⟩
    simp [timed, Logger.utteredAll, Logger.uttered, nothing]
  · rename_i something
    obtain ⟨clock, teeing, teed, logger⟩ :=
      deliver_fields { journal with logger := journal.logger.cleared } journal.line
    refine ⟨clock, teeing, teed, ?_, logger⟩
    rw [Journal.line_eq]
    simp [timed, Logger.utteredAll, Logger.uttered, something, Journal.utterance]

/-- All that the pieces write. -/
def writtenAll : List Piece → String
  | [] => ""
  | piece :: rest => piece.written ++ writtenAll rest

def Piece.strokes (piece : Piece) : List Stroke :=
  .text piece.written :: if piece = .endLine then [.flush] else []

theorem carries_stream (journal : Journal) (piece : Piece) :
    Carries journal piece.strokes
      (if piece = .endLine then (journal.append piece.written).finished else [])
      (journal.stream piece) := by
  have gathered := carries_append journal piece.written
  unfold Journal.stream Piece.strokes
  split
  · exact gathered.trans (carries_flush (journal.append piece.written))
  · exact gathered

theorem carries_streamAll (journal : Journal) (pieces : List Piece) :
    Carries journal (pieces.flatMap Piece.strokes) (journal.linesOf pieces)
      (journal.streamAll pieces) := by
  induction pieces generalizing journal with
  | nil => exact .refl journal
  | cons piece rest ih => exact (carries_stream journal piece).trans (ih _)

theorem writtenIn_pieces (time : String) (pieces : List Piece) :
    writtenIn (timed time (pieces.flatMap Piece.strokes)) = writtenAll pieces := by
  have written (piece : Piece) : writtenIn (timed time piece.strokes) = piece.written := by
    unfold Piece.strokes
    split <;> simp [timed, writtenIn, Stroke.written]
  induction pieces with
  | nil => rfl
  | cons piece rest ih => rw [List.flatMap_cons, timed_append, writtenIn_append, written, ih,
      writtenAll]

namespace Statement

/-- One that was filtered when it was started, or none at all. -/
def filtered : Statement :=
  ⟨false, false⟩

/-- After these pieces.  One that has ended a line flushes no more. -/
def told (statement : Statement) (pieces : List Piece) : Statement :=
  if statement.accepted then
    ⟨true, statement.flushes && decide (.endLine ∉ pieces)⟩
  else
    statement

/-- What its end does. -/
def closing (statement : Statement) : List Stroke :=
  if statement.accepted ∧ statement.flushes then [.flush] else []

theorem streamAll_fst (statement : Statement) (journal : Journal) (pieces : List Piece) :
    (statement.streamAll journal pieces).1 = statement.told pieces := by
  induction pieces generalizing statement journal with
  | nil => rcases statement with ⟨_ | _, flushes⟩ <;> simp [Statement.streamAll, told]
  | cons piece rest ih =>
      unfold Statement.streamAll Statement.stream
      rcases statement with ⟨_ | _, flushes⟩
      · simp [ih, told]
      · by_cases ends : piece = .endLine
        · simp [ih, told, ends]
        · simp [ih, told, ends, Ne.symm ends]

theorem start_fst (journal : Journal) (level : Level) :
    (Statement.start journal level).1 =
      if journal.threshold.severity ≤ level.severity then ⟨true, true⟩ else .filtered := by
  unfold Statement.start
  split
  · exact (if_neg (by omega)).symm
  · exact (if_pos (by omega)).symm

theorem carries_start (journal : Journal) (level : Level) :
    Carries journal (if journal.threshold.severity ≤ level.severity then [.level level] else []) []
      (Statement.start journal level).2 := by
  unfold Statement.start
  by_cases below : level.severity < journal.threshold.severity
  · rw [if_pos below, if_neg (by omega)]
    exact .refl journal
  · rw [if_neg below, if_pos (by omega)]
    exact .of_quiet nofun rfl rfl rfl rfl

theorem carries_streamAll (statement : Statement) (journal : Journal) (pieces : List Piece) :
    Carries journal (if statement.accepted then pieces.flatMap Piece.strokes else [])
      (statement.linesOf journal pieces) (statement.streamAll journal pieces).2 := by
  rw [streamAll_snd, Statement.linesOf]
  split
  · exact Log.carries_streamAll journal pieces
  · exact .refl journal

theorem carries_finish (statement : Statement) (journal : Journal) :
    Carries journal statement.closing (statement.finished journal) (statement.finish journal) := by
  unfold closing Statement.finished Statement.finish
  split
  · exact carries_flush journal
  · exact .refl journal

end Statement

/-- What a statement does that is admitted, and done at once. -/
def logged (level : Level) (pieces : List Piece) : List Stroke :=
  .level level :: pieces.flatMap Piece.strokes ++ if .endLine ∈ pieces then [] else [.flush]

theorem carries_log (journal : Journal) (level : Level) (pieces : List Piece) :
    Carries journal
      (if journal.threshold.severity ≤ level.severity then logged level pieces else [])
      (journal.linesLogged level pieces) (journal.log level pieces) := by
  have started := Statement.carries_start journal level
  have streamed := Statement.carries_streamAll (Statement.start journal level).1
    (Statement.start journal level).2 pieces
  have finished := Statement.carries_finish
    ((Statement.start journal level).1.streamAll (Statement.start journal level).2 pieces).1
    ((Statement.start journal level).1.streamAll (Statement.start journal level).2 pieces).2
  have all : Carries journal _ (journal.linesLogged level pieces) (journal.log level pieces) :=
    started.trans (streamed.trans finished)
  have statement := Statement.start_fst journal level
  by_cases admitted : journal.threshold.severity ≤ level.severity
  · rw [if_pos admitted] at statement ⊢
    rw [Statement.streamAll_fst, statement, if_pos admitted] at all
    by_cases ends : .endLine ∈ pieces
    · simpa [logged, Statement.told, Statement.closing, ends] using all
    · simpa [logged, Statement.told, Statement.closing, ends] using all
  · rw [if_neg admitted] at statement ⊢
    rw [Statement.streamAll_fst, statement, if_neg admitted] at all
    exact all

/-- What is not accepted leaves the journal as it is. -/
theorem log_eq_self (pieces : List Piece) {level : Level}
    (below : level.severity < journal.threshold.severity) : journal.log level pieces = journal := by
  have refused : Statement.start journal level = (⟨false, false⟩, journal) := if_pos below
  unfold Journal.log
  rw [refused]
  dsimp only
  rw [Statement.streamAll_fst, Statement.streamAll_snd]
  rfl

namespace RotatingFile

theorem same_release (file : RotatingFile) (journal : Journal) :
    SameTranscript journal (file.release journal).2 := by
  unfold release
  split <;> exact ⟨rfl, rfl, rfl, rfl⟩

theorem same_reopen (file : RotatingFile) (mode : FileTree.Mode) (journal : Journal) :
    SameTranscript journal (file.reopen mode journal).journal := by
  unfold reopen
  split
  · exact .refl journal
  · rename_i handle files _
    have directed : SameTranscript journal { journal with files, target? := some handle } :=
      ⟨rfl, rfl, rfl, rfl⟩
    exact directed.trans (same_release file _)

theorem same_create (directory : String) (policy : RotationPolicy) (journal : Journal) :
    SameTranscript journal (create directory policy journal).2 := by
  rw [create_startable]
  unfold openIn
  dsimp only
  generalize (if directory = "" then journal.files.originPath else directory) = place
  split
  · exact ⟨rfl, rfl, rfl, rfl⟩
  · rename_i files _
    have made : SameTranscript journal { journal with files } := ⟨rfl, rfl, rfl, rfl⟩
    split
    · exact made
    · exact made.trans (same_reopen _ _ _)

theorem same_setAside (file : RotatingFile) (journal : Journal) :
    SameTranscript journal (file.setAside journal) := by
  unfold setAside
  split <;> exact ⟨rfl, rfl, rfl, rfl⟩

theorem same_rotate (file : RotatingFile) (journal : Journal) :
    SameTranscript journal (file.rotate journal).journal := by
  unfold rotate
  split
  · exact same_reopen file _ journal
  · have shifted : SameTranscript journal
        { journal with files := file.shiftAll journal.files, target? := none } :=
      ⟨rfl, rfl, rfl, rfl⟩
    exact shifted.trans ((same_release file _).trans
      ((same_setAside _ _).trans (same_reopen _ _ _)))

theorem same_rotateIfDue (file : RotatingFile) (journal : Journal) :
    SameTranscript journal (file.rotateIfDue journal).journal := by
  unfold rotateIfDue
  split
  · exact same_rotate file journal
  · exact .refl journal

theorem same_check (file : RotatingFile) (journal : Journal) :
    SameTranscript journal (file.check journal).2 := by
  have checked := same_rotateIfDue file journal
  unfold check
  dsimp only
  split
  · exact checked
  · exact checked.trans ⟨rfl, rfl, rfl, rfl⟩

theorem same_elapse (file : RotatingFile) (journal : Journal) :
    SameTranscript journal (file.elapse journal).2 := by
  unfold elapse
  split
  · exact .refl journal
  · split
    · exact .refl journal
    · exact same_check file journal

theorem same_close (file : RotatingFile) (journal : Journal) :
    SameTranscript journal (file.close journal) := by
  have silenced : SameTranscript journal { journal with target? := none } := ⟨rfl, rfl, rfl, rfl⟩
  exact silenced.trans (same_release file _)

end RotatingFile

theorem same_adopt (journal : Journal) (environment : Environment) :
    SameTranscript journal (journal.adopt environment) := by
  unfold Journal.adopt Journal.setThreshold
  split
  · exact .refl journal
  · split <;> rename_i told <;> split at told <;> cases told <;> exact ⟨rfl, rfl, rfl, rfl⟩

namespace Setup

theorem same_start (settings : Settings) (environment : Environment) (journal : Journal) :
    SameTranscript journal (start settings environment journal).2 := by
  have set : SameTranscript journal { journal with threshold := settings.initial } :=
    ⟨rfl, rfl, rfl, rfl⟩
  have adopted := set.trans (same_adopt _ environment)
  have created := adopted.trans (RotatingFile.same_create settings.directory settings.policy _)
  unfold start
  dsimp only
  split
  · split <;> rename_i made <;> rw [made] at created <;> exact created
  · exact adopted

theorem same_stop (setup : Setup) (journal : Journal) :
    SameTranscript journal (setup.stop journal).2 := by
  unfold stop
  split
  · rename_i file _
    exact (RotatingFile.same_close file journal).trans ⟨rfl, rfl, rfl, rfl⟩
  · exact ⟨rfl, rfl, rfl, rfl⟩

theorem same_rotate (setup : Setup) (journal : Journal) :
    SameTranscript journal (setup.rotate journal).2.2 := by
  unfold rotate
  split
  · exact .refl journal
  · exact RotatingFile.same_rotate _ journal

theorem same_elapse (setup : Setup) (journal : Journal) :
    SameTranscript journal (setup.elapse journal).2 := by
  unfold elapse
  split
  · exact .refl journal
  · exact RotatingFile.same_elapse _ journal

end Setup

namespace Session

theorem same_closeFile (session : Session) (name : String) :
    SameTranscript session.journal (session.closeFile name).journal ∧
      (session.closeFile name).statements = session.statements := by
  unfold closeFile
  split
  · exact ⟨.refl _, rfl⟩
  · exact ⟨RotatingFile.same_close _ _, rfl⟩

theorem same_closeSetup (session : Session) (name : String) :
    SameTranscript session.journal (session.closeSetup name).journal ∧
      (session.closeSetup name).statements = session.statements := by
  unfold closeSetup
  split
  · exact ⟨.refl _, rfl⟩
  · exact ⟨Setup.same_stop _ _, rfl⟩

theorem same_closeGuard (session : Session) (name : String) :
    SameTranscript session.journal (session.closeGuard name).journal ∧
      (session.closeGuard name).statements = session.statements := by
  unfold closeGuard
  split
  · exact ⟨.refl _, rfl⟩
  · exact ⟨(Setup.same_stop _ _).trans ⟨rfl, rfl, rfl, rfl⟩, rfl⟩

theorem same_onFile {α : Type} {operation : RotatingFile → Journal → FileOutcome α}
    {respond : α → Response} (name : String)
    (same : ∀ file journal, SameTranscript journal (operation file journal).journal) :
    SameTranscript session.journal (session.onFile name operation respond).2.journal ∧
      (session.onFile name operation respond).2.statements = session.statements := by
  unfold onFile
  split
  · exact ⟨.refl _, rfl⟩
  · exact ⟨same _ _, rfl⟩

theorem same_elapseFor (session : Session) (holder : Holder) :
    SameTranscript session.journal (session.elapseFor holder).journal ∧
      (session.elapseFor holder).statements = session.statements := by
  unfold elapseFor
  split <;> split
  · exact ⟨.refl _, rfl⟩
  · exact ⟨RotatingFile.same_elapse _ _, rfl⟩
  · exact ⟨.refl _, rfl⟩
  · exact ⟨Setup.same_elapse _ _, rfl⟩
  · exact ⟨.refl _, rfl⟩
  · exact ⟨Setup.same_elapse _ _, rfl⟩

theorem same_elapse (session : Session) (holders : List Holder) :
    SameTranscript session.journal (holders.foldl elapseFor session).journal ∧
      (holders.foldl elapseFor session).statements = session.statements := by
  induction holders generalizing session with
  | nil => exact ⟨.refl _, rfl⟩
  | cons holder rest ih =>
      obtain ⟨now, kept⟩ := same_elapseFor session holder
      obtain ⟨later, still⟩ := ih (session.elapseFor holder)
      exact ⟨now.trans later, still.trans kept⟩

theorem same_perform (silent : ¬ event.Speaks) :
    SameTranscript session.journal (session.perform event).2.journal ∧
      (session.perform event).2.statements = session.statements := by
  cases event with
  | adopt environment => exact ⟨same_adopt session.journal environment, rfl⟩
  | openFile name directory policy =>
      obtain ⟨closed, kept⟩ := session.same_closeFile name
      have created := closed.trans (RotatingFile.same_create directory policy _)
      unfold perform openFile
      dsimp only
      split <;> rename_i made <;> rw [made] at created <;> exact ⟨created, kept⟩
  | rotateFile name => exact same_onFile name RotatingFile.same_rotate
  | rotateFileIfDue name => exact same_onFile name RotatingFile.same_rotateIfDue
  | closeFile name => exact session.same_closeFile name
  | startSetup name settings environment =>
      obtain ⟨closed, kept⟩ := session.same_closeSetup name
      have started := closed.trans (Setup.same_start settings environment _)
      unfold perform startSetup
      dsimp only
      split <;> rename_i made <;> rw [made] at started <;> exact ⟨started, kept⟩
  | stopSetup name =>
      unfold perform stopSetup
      dsimp only
      split
      · exact ⟨.refl _, rfl⟩
      · exact ⟨Setup.same_stop _ _, rfl⟩
  | rotateSetup name =>
      unfold perform rotateSetup
      dsimp only
      split
      · exact ⟨.refl _, rfl⟩
      · exact ⟨Setup.same_rotate _ _, rfl⟩
  | closeSetup name => exact session.same_closeSetup name
  | startGuard name settings environment =>
      obtain ⟨closed, kept⟩ := session.same_closeGuard name
      have started := closed.trans (Setup.same_start settings environment _)
      unfold perform startGuard Guard.start
      dsimp only
      generalize Setup.start settings environment _ = made at started
      obtain ⟨_ | _, _⟩ := made <;> exact ⟨started, kept⟩
  | closeGuard name => exact session.same_closeGuard name
  | elapse => exact same_elapse session session.holders
  | start | write | finish | log | logIndented | stream | setLevel | flush | indent | dedent
  | setTee | setThreshold => exact absurd trivial silent

end Session

end MarkerBus.Log
