import MarkerBus.Proofs.Log.Desk
import MarkerBus.Proofs.Log.Transcript

namespace MarkerBus.Log

variable {before middle after : Journal} {session : Session} {event : Event} {name : String}
  {more : List (String × Stroke)} {lines rest : List String} {known : String → Statement}

namespace Session

/-- What is known of the statement of each name, from what was done with it. -/
def knownAfter (session : Session) (known : String → Statement) : Event → String → Statement
  | .start name level =>
      Function.update known name
        (if session.journal.threshold.severity ≤ level.severity then ⟨true, true⟩ else .filtered)
  | .write name pieces => Function.update known name ((known name).told pieces)
  | .finish name => Function.update known name .filtered
  | _ => known

/-- What an event streams, but for what goes to statements that were filtered. -/
def said (session : Session) (known : String → Statement) : Event → String
  | .write name pieces => if (known name).accepted then writtenAll pieces else ""
  | .log level pieces | .logIndented level pieces =>
      if session.journal.threshold.severity ≤ level.severity then writtenAll pieces else ""
  | .stream pieces => writtenAll pieces
  | _ => ""

/-- What an event does to the logger. -/
def strokes (session : Session) (known : String → Statement) : Event → List Stroke
  | .start name level =>
      (if session.journal.threshold.severity ≤ level.severity then [.level level] else []) ++
        (known name).closing
  | .write name pieces => if (known name).accepted then pieces.flatMap Piece.strokes else []
  | .finish name => (known name).closing
  | .log level pieces =>
      if session.journal.threshold.severity ≤ level.severity then logged level pieces else []
  | .logIndented level pieces =>
      .indent ::
        (if session.journal.threshold.severity ≤ level.severity then logged level pieces else []) ++
        [.dedent]
  | .stream pieces => pieces.flatMap Piece.strokes
  | .setLevel level => [.level level]
  | .flush => [.flush]
  | .indent => [.indent]
  | .dedent => [.dedent]
  | _ => []

/-- All text of the strokes is what the event streams. -/
theorem writtenIn_strokes (session : Session) (known : String → Statement) (time : String)
    (event : Event) : writtenIn (timed time (session.strokes known event)) =
      session.said known event := by
  have closing (statement : Statement) : writtenIn (timed time statement.closing) = "" := by
    unfold Statement.closing
    split <;> rfl
  have logged (level : Level) (pieces : List Piece) :
      writtenIn (timed time (logged level pieces)) = writtenAll pieces := by
    unfold Log.logged
    change "" ++ writtenIn (timed time (_ ++ _)) = _
    rw [timed_append, writtenIn_append, writtenIn_pieces]
    split <;> simp [timed, writtenIn, Stroke.written]
  cases event with
  | start name level =>
      change writtenIn (timed time (_ ++ _)) = ""
      rw [timed_append, writtenIn_append, closing]
      split <;> rfl
  | write name pieces =>
      rw [strokes, said]
      split
      · exact writtenIn_pieces time pieces
      · rfl
  | finish name => exact closing (known name)
  | log level pieces =>
      rw [strokes, said]
      split
      · exact logged level pieces
      · rfl
  | logIndented level pieces =>
      rw [strokes, timed_append, writtenIn_append, said]
      split
      · change "" ++ writtenIn (timed time (Log.logged level pieces)) ++ "" = _
        rw [logged, String.empty_append, String.append_empty]
      · rfl
  | stream pieces => exact writtenIn_pieces time pieces
  | setLevel | flush | indent | dedent | setTee | setThreshold | adopt | openFile | rotateFile
  | rotateFileIfDue | closeFile | startSetup | stopSetup | rotateSetup | closeSetup | startGuard
  | closeGuard | elapse => rfl

def Knows (session : Session) (known : String → Statement) : Prop :=
  known = (·.getD .filtered) ∘ session.statements.get?

theorem strokes_eq_nil (known : String → Statement) (silent : ¬ event.Speaks) :
    session.strokes known event = [] := by
  cases event with
  | adopt | openFile | rotateFile | rotateFileIfDue | closeFile | startSetup | stopSetup
  | rotateSetup | closeSetup | startGuard | closeGuard | elapse => rfl
  | start | write | finish | log | logIndented | stream | setLevel | flush | indent | dedent
  | setTee | setThreshold => exact absurd trivial silent

theorem carries_finish (session : Session) (name : String) :
    Carries session.journal ((session.statements.get? name).getD .filtered).closing
      (session.finishedOf name session.journal) (session.finish name).journal := by
  unfold finishedOf finish
  cases session.statements.get? name with
  | none => exact .refl _
  | some statement => exact Statement.carries_finish statement _

theorem get?_finish (session : Session) (name : String) :
    (session.finish name).statements.get? =
      Function.update session.statements.get? name none := by
  unfold finish
  split
  · rename_i unknown
    rw [← unknown, Function.update_eq_self]
  · exact get?_erase session.statements name

theorem carries_perform (knows : session.Knows known) (attentive : session.journal.teeing = true)
    (kept : event ≠ .setTee false) :
    Carries session.journal (session.strokes known event) (session.lines event)
      (session.perform event).2.journal := by
  subst knows
  cases event with
  | start name level =>
      have started := Statement.carries_start session.journal level
      exact started.trans
        (carries_finish { session with journal := (Statement.start session.journal level).2 } name)
  | write name pieces =>
      cases found : session.statements.get? name with
      | none =>
          simp only [strokes, lines, perform, write, Function.comp_apply, found]
          exact .refl _
      | some statement =>
          simp only [strokes, lines, perform, write, Function.comp_apply, found]
          exact Statement.carries_streamAll statement _ pieces
  | finish name => exact carries_finish session name
  | log level pieces => exact carries_log session.journal level pieces
  | logIndented level pieces =>
      have inwards : Carries session.journal [.indent] [] session.journal.indent :=
        .of_quiet (by simp) rfl rfl rfl rfl
      have outwards : Carries (session.journal.indent.log level pieces) [.dedent] []
          (session.journal.logIndented level pieces) := .of_quiet (by simp) rfl rfl rfl rfl
      have logged := inwards.trans ((carries_log session.journal.indent level pieces).trans outwards)
      rwa [List.nil_append, List.append_nil] at logged
  | stream pieces => exact carries_streamAll session.journal pieces
  | flush => exact carries_flush session.journal
  | setTee installed =>
      cases installed with
      | false => exact absurd rfl kept
      | true => exact .of_same ⟨rfl, attentive.symm, rfl, rfl⟩
  | setThreshold spelling =>
      change Carries _ [] [] (session.journal.setThreshold spelling).2
      unfold Journal.setThreshold
      split <;> exact .of_same ⟨rfl, rfl, rfl, rfl⟩
  | setLevel | indent | dedent => exact .of_quiet (by simp) rfl rfl rfl rfl
  | adopt | openFile | rotateFile | rotateFileIfDue | closeFile | startSetup | stopSetup
  | rotateSetup | closeSetup | startGuard | closeGuard | elapse =>
      rw [lines_eq_nil id, strokes_eq_nil _ id]
      exact .of_same (same_perform id).1

theorem knows_perform (knows : session.Knows known) (event : Event) :
    (session.perform event).2.Knows (session.knownAfter known event) := by
  subst knows
  cases event with
  | start name level =>
      let journal := (Statement.start session.journal level).2
      have finished := get?_finish { session with journal } name
      unfold Knows
      simp only [perform, Session.start, knownAfter, get?_insert]
      rw [finished, Function.update_idem, Function.comp_update, Option.getD_some,
        Statement.start_fst]
  | write name pieces =>
      simp only [perform, write, knownAfter, Function.comp_apply]
      cases found : session.statements.get? name with
      | none =>
          refine Function.update_eq_self_iff.mpr ?_
          rw [Function.comp_apply, found]
          rfl
      | some statement =>
          unfold Knows
          simp only [get?_insert, Function.comp_update, Option.getD_some,
            Statement.streamAll_fst]
  | finish name =>
      unfold Knows
      simp only [perform, knownAfter, get?_finish, Function.comp_update]
      rfl
  | log | logIndented | stream | setLevel | flush | indent | dedent | setTee | setThreshold => rfl
  | adopt | openFile | rotateFile | rotateFileIfDue | closeFile | startSetup | stopSetup
  | rotateSetup | closeSetup | startGuard | closeGuard | elapse =>
      unfold Knows knownAfter
      rw [(same_perform id).2]

/-- The session when the clock shows this time. -/
def atTime (session : Session) (time : String) : Session :=
  { session with journal := { session.journal with clock := time } }

/-- Events one after the other, each at its time. -/
def runTimed (session : Session) : List (String × Event) → Session
  | [] => session
  | (time, event) :: rest => ((session.atTime time).perform event).2.runTimed rest

def linesTimed (session : Session) : List (String × Event) → List String
  | [] => []
  | (time, event) :: rest =>
      (session.atTime time).lines event ++ ((session.atTime time).perform event).2.linesTimed rest

def knownTimed (session : Session) (known : String → Statement) :
    List (String × Event) → String → Statement
  | [] => known
  | (time, event) :: rest =>
      ((session.atTime time).perform event).2.knownTimed (session.knownAfter known event) rest

/-- What is streamed in a run, in the order of time, but for what goes to statements
that were filtered. -/
def saidTimed (session : Session) (known : String → Statement) : List (String × Event) → String
  | [] => ""
  | (time, event) :: rest =>
      session.said known event ++
        ((session.atTime time).perform event).2.saidTimed (session.knownAfter known event) rest

/-- What a run does to the logger. -/
def script (session : Session) (known : String → Statement) :
    List (String × Event) → List (String × Stroke)
  | [] => []
  | (time, event) :: rest =>
      timed time (session.strokes known event) ++
        ((session.atTime time).perform event).2.script (session.knownAfter known event) rest

theorem writtenIn_script (session : Session) (known : String → Statement)
    (timetable : List (String × Event)) :
    writtenIn (session.script known timetable) = session.saidTimed known timetable := by
  induction timetable generalizing session known with
  | nil => rfl
  | cons entry rest ih => rw [script, writtenIn_append, writtenIn_strokes, ih, saidTimed]

theorem times_script (session : Session) (known : String → Statement)
    (timetable : List (String × Event)) :
    (session.script known timetable).map (·.1) ⊆ timetable.map (·.1) := by
  induction timetable generalizing session known with
  | nil => exact List.Subset.refl _
  | cons entry rest ih =>
      intro time member
      rw [script, List.map_append] at member
      rcases List.mem_append.mp member with now | later
      · simp only [timed, List.map_map, List.mem_map, Function.comp_apply] at now
        obtain ⟨_, _, rfl⟩ := now
        exact List.mem_cons_self
      · exact List.mem_cons_of_mem _ (ih _ _ later)

/-- Like `Carries`, for a run with this script, and the tee always there. -/
structure Transcribes (before : Journal) (script : List (String × Stroke)) (lines : List String)
    (after : Journal) : Prop where
  teeing : after.teeing = true
  teed : after.teed = before.teed ++ lines
  lines : lines = (before.logger.utteredAll script).map Utterance.line
  logger : after.logger = before.logger.struckAll script

theorem Transcribes.cons {time : String} {made : List Stroke} (attentive : before.teeing = true)
    (now : Carries { before with clock := time } made lines middle)
    (later : Transcribes middle more rest after) :
    Transcribes before (timed time made ++ more) (lines ++ rest) after where
  teeing := later.teeing
  teed := by
    have teed := now.teed
    rw [attentive, if_pos rfl] at teed
    rw [later.teed, teed, List.append_assoc]
  lines := by
    rw [Logger.utteredAll_append, List.map_append, now.lines, later.lines, now.logger]
  logger := by
    rw [Logger.struckAll_append, later.logger, now.logger]

theorem transcribes_runTimed {timetable : List (String × Event)} (knows : session.Knows known)
    (attentive : session.journal.teeing = true)
    (kept : ∀ entry ∈ timetable, entry.2 ≠ .setTee false) :
    (session.runTimed timetable).Knows (session.knownTimed known timetable) ∧
      Transcribes session.journal (session.script known timetable) (session.linesTimed timetable)
        (session.runTimed timetable).journal := by
  induction timetable generalizing session known with
  | nil => exact ⟨knows, attentive, (List.append_nil _).symm, rfl, rfl⟩
  | cons entry rest ih =>
      obtain ⟨time, event⟩ := entry
      have knowing : (session.atTime time).Knows known := knows
      have now : Carries (session.atTime time).journal _ _ _ :=
        carries_perform knowing attentive (kept _ List.mem_cons_self)
      obtain ⟨still, later⟩ := ih (knows_perform knowing event)
        (now.teeing.trans attentive) fun _ member => kept _ (List.mem_cons_of_mem _ member)
      exact ⟨still, later.cons attentive now⟩

/-- Does the event belong to a statement that was filtered when it was started? -/
def Muted (session : Session) (known : String → Statement) : Event → Prop
  | .write name _ | .finish name => (known name).accepted = false
  | .log level _ | .logIndented level _ => level.severity < session.journal.threshold.severity
  | _ => False

theorem journal_of_muted (knows : session.Knows known) (muted : session.Muted known event) :
    (session.perform event).2.journal = session.journal := by
  subst knows
  cases event with
  | write name pieces =>
      simp only [perform, write]
      cases found : session.statements.get? name with
      | none => rfl
      | some statement =>
          have deaf : statement.accepted = false := by
            simpa [Muted, found] using muted
          dsimp only
          rw [Statement.streamAll_snd, deaf, if_neg Bool.false_ne_true]
  | finish name =>
      simp only [perform, finish]
      cases found : session.statements.get? name with
      | none => rfl
      | some statement =>
          have deaf : statement.accepted = false := by
            simpa [Muted, found] using muted
          dsimp only
          rw [Statement.finish, if_neg (by simp [deaf])]
  | log level pieces => exact log_eq_self pieces muted
  | logIndented level pieces =>
      have filtered : session.journal.indent.log level pieces = session.journal.indent :=
        log_eq_self pieces muted
      change (session.journal.indent.log level pieces).dedent = _
      rw [filtered]
      unfold Journal.indent Journal.dedent
      dsimp only
      rw [Int.add_sub_cancel]
  | start | stream | setLevel | flush | indent | dedent | setTee | setThreshold | adopt | openFile
  | rotateFile | rotateFileIfDue | closeFile | startSetup | stopSetup | rotateSetup | closeSetup
  | startGuard | closeGuard | elapse => cases muted

/-- The logger neither loses nor repeats nor rearranges text.  As long as the tee is
there, it gets a line for every flush with something pending, with the time, the
level and the indentation of that moment.  The texts of the lines, and then what is
pending, are all that was streamed so far, in order, and what goes to a statement
that was filtered when it was started changes nothing. -/
theorem text_is_conserved (bare : session.statements = {})
    (attentive : session.journal.teeing = true) {timetable : List (String × Event)}
    (kept : ∀ entry ∈ timetable, entry.2 ≠ .setTee false) :
    let after := session.runTimed timetable
    let unknown : String → Statement := fun _ => .filtered
    let script := session.script unknown timetable
    let utterances := session.journal.logger.utteredAll script
    after.journal.teed = session.journal.teed ++ utterances.map Utterance.line ∧
      after.journal.logger = session.journal.logger.struckAll script ∧
      (∀ utterance ∈ utterances, utterance.time ∈ timetable.map (·.1)) ∧
      texts utterances ++ after.journal.logger.pending =
        session.journal.logger.pending ++ session.saidTimed unknown timetable ∧
      ∀ event, after.Muted (session.knownTimed unknown timetable) event →
        (after.perform event).2.journal = after.journal := by
  intro after unknown script utterances
  have knows : session.Knows unknown := by
    unfold Knows
    rw [bare]
    rfl
  obtain ⟨still, transcribes⟩ := transcribes_runTimed knows attentive kept
  have logger : after.journal.logger = session.journal.logger.struckAll script :=
    transcribes.logger
  refine ⟨?_, logger, ?_, ?_, fun event muted => journal_of_muted still muted⟩
  · rw [transcribes.teed, transcribes.lines]
  · exact fun utterance member => times_script _ _ _ (time_of_utteredAll member)
  · rw [logger, texts_utteredAll, writtenIn_script]

/-- Two statements that overlap, and one that is filtered.  The second line has text
of both, and the last text is pending. -/
theorem overlapping_statements_conserve :
    let session : Session := { journal := { clock := "t", teeing := true } }
    let timetable : List (String × Event) := [
      ("t", .start "a" .error), ("t", .write "a" [.text "one", .endLine, .text "two "]),
      ("u", .start "b" .warning), ("u", .write "b" [.text "three"]), ("u", .start "c" .debug),
      ("v", .write "c" [.text "unheard"]), ("v", .setThreshold "trace"), ("v", .indent),
      ("w", .finish "b"), ("w", .log .severe [.text "now"]), ("w", .dedent), ("w", .dedent),
      ("x", .log .trace [.text "then", .endLine]), ("x", .write "a" [.text "four"]),
      ("x", .finish "a")]
    let after := session.runTimed timetable
    session.statements = {} ∧ session.journal.teeing = true ∧
      (∀ entry ∈ timetable, entry.2 ≠ .setTee false) ∧
      after.journal.teed = ["t [ERROR] [CKPBUS] one\n", "w [WARNING] [CKPBUS] \ttwo three\n",
        "w [SEVERE] [CKPBUS] \tnow\n", "x [TRACE] [CKPBUS] then\n"] ∧
      after.journal.logger = ⟨"four", .info, -1⟩ ∧
      session.saidTimed (fun _ => .filtered) timetable =
        "one\ntwo threenowthen\n" ++ after.journal.logger.pending ∧
      (after.perform (.write "c" [.endLine])).2.journal = after.journal := by
  intro session timetable after
  have bare : session.statements = {} := rfl
  have attentive : session.journal.teeing = true := rfl
  have kept : ∀ entry ∈ timetable, entry.2 ≠ .setTee false := by simp [timetable]
  have initially : session.journal.teed = [] ∧ session.journal.logger = {} := ⟨rfl, rfl⟩
  have deaf : (session.knownTimed (fun _ => .filtered) timetable "c").accepted = false := by
    decide +kernel
  let script : List (String × Stroke) := [
    ("t", .level .error), ("t", .text "one"), ("t", .text "\n"), ("t", .flush),
    ("t", .text "two "), ("u", .level .warning), ("u", .text "three"), ("v", .indent),
    ("w", .flush), ("w", .level .severe), ("w", .text "now"), ("w", .flush), ("w", .dedent),
    ("w", .dedent), ("x", .level .trace), ("x", .text "then"), ("x", .text "\n"), ("x", .flush),
    ("x", .text "four")]
  have scripted : session.script (fun _ => .filtered) timetable = script := by decide +kernel
  have uttered : ({} : Logger).utteredAll script = [⟨"t", .error, 0, "one\n"⟩,
      ⟨"w", .warning, 1, "two three"⟩, ⟨"w", .severe, 1, "now"⟩, ⟨"x", .trace, -1, "then\n"⟩] := by
    decide +kernel
  have struck : ({} : Logger).struckAll script = ⟨"four", .info, -1⟩ := by decide +kernel
  -- nothing is left to be evaluated but the lines
  clear_value script timetable session
  obtain ⟨teed, logger, _, conserved, unheard⟩ := text_is_conserved bare attentive kept
  rw [initially.2, scripted] at teed logger conserved
  rw [uttered] at teed conserved
  rw [initially.1, List.nil_append] at teed
  refine ⟨bare, attentive, kept, teed.trans (by decide +kernel), logger.trans struck, ?_,
    unheard _ deaf⟩
  have whole : _ = session.saidTimed (fun _ => .filtered) timetable :=
    conserved.trans String.empty_append
  rw [← whole]
  rfl

end Session

end MarkerBus.Log
