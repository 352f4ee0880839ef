import MarkerBus.Proofs.Log.Transcript

namespace MarkerBus.Log

/-! What one statement delivers.

The pieces of a statement are cut at the line ends.  A line end finishes a line and
leaves the logger with the level that it has on its own, and a statement that has
ended a line by itself does not flush when it is finished.  So the text behind the
last line end is left pending, and only the first line has the level of the
statement.
-/

variable {journal : Journal} {level : Level} {piece : Piece} {pieces rest : List Piece}

/-- The texts between the line ends. -/
def sections (pieces : List Piece) : List String :=
  (pieces.splitOn .endLine).map writtenAll

/-- The texts that a line end follows. -/
def ended (pieces : List Piece) : List String :=
  (sections pieces).dropLast

/-- The text behind the last line end. -/
def unended (pieces : List Piece) : String :=
  (sections pieces).getLastD ""

theorem exists_sections (pieces : List Piece) :
    ∃ first more, sections pieces = first :: more := by
  unfold sections
  cases cuts : pieces.splitOn .endLine with
  | nil => exact absurd cuts (List.splitOn_ne_nil _ _)
  | cons first more => exact ⟨_, _, rfl⟩

theorem sections_endLine (rest : List Piece) :
    sections (.endLine :: rest) = "" :: sections rest := by
  rw [sections, List.splitOn_cons_eq_if_modifyHead, if_pos (beq_self_eq_true _)]
  rfl

theorem sections_cons (other : piece ≠ .endLine) (rest : List Piece) :
    sections (piece :: rest) = (sections rest).modifyHead (piece.written ++ ·) := by
  rw [sections, sections, List.splitOn_cons_eq_if_modifyHead,
    if_neg (by simpa using other)]
  cases rest.splitOn .endLine <;> rfl

theorem ended_endLine (rest : List Piece) : ended (.endLine :: rest) = "" :: ended rest := by
  obtain ⟨first, more, cuts⟩ := exists_sections rest
  rw [ended, ended, sections_endLine, cuts, List.dropLast_cons_cons]

theorem unended_endLine (rest : List Piece) : unended (.endLine :: rest) = unended rest := by
  obtain ⟨first, more, cuts⟩ := exists_sections rest
  rw [unended, unended, sections_endLine, cuts]
  rfl

theorem ended_cons (other : piece ≠ .endLine) (rest : List Piece) :
    ended (piece :: rest) = (ended rest).modifyHead (piece.written ++ ·) := by
  obtain ⟨first, more, cuts⟩ := exists_sections rest
  rw [ended, ended, sections_cons other, cuts]
  cases more <;> rfl

theorem ended_eq_nil_iff : ended pieces = [] ↔ .endLine ∉ pieces := by
  induction pieces with
  | nil => exact ⟨fun _ => List.not_mem_nil, fun _ => rfl⟩
  | cons piece rest ih =>
      by_cases ends : piece = .endLine
      · simp [ends, ended_endLine]
      · rw [ended_cons ends, List.modifyHead_eq_nil_iff, ih]
        simp [Ne.symm ends]

theorem unended_cons (other : piece ≠ .endLine) (rest : List Piece) :
    unended (piece :: rest) =
      if .endLine ∈ rest then unended rest else piece.written ++ unended rest := by
  obtain ⟨first, more, cuts⟩ := exists_sections rest
  have more_eq_nil_iff : more = [] ↔ .endLine ∉ rest := by
    rw [← ended_eq_nil_iff, ended, cuts]
    cases more <;> simp
  rw [unended, unended, sections_cons other, cuts]
  cases more with
  | nil => exact (if_neg (more_eq_nil_iff.mp rfl)).symm
  | cons next others =>
      have later : .endLine ∈ rest := by simpa using more_eq_nil_iff
      exact (if_pos later).symm

namespace Journal

/-- The lines of texts that are ended one after the other.  The first one is added to
what is pending. -/
def endedLines (journal : Journal) : List String → List Utterance
  | [] => []
  | first :: more =>
      ⟨journal.clock, journal.logger.level, journal.logger.indent,
          journal.logger.pending ++ first ++ "\n"⟩ ::
        more.map fun text => ⟨journal.clock, .info, journal.logger.indent, text ++ "\n"⟩

/-- What a statement has to say: all of its texts, at its level. -/
def wanted (journal : Journal) (level : Level) (pieces : List Piece) : List Utterance :=
  let line (text : String) : Utterance := ⟨journal.clock, level, journal.logger.indent, text⟩
  (ended pieces).map (fun text => line (text ++ "\n")) ++
    if unended pieces = "" then [] else [line (unended pieces)]

/-- What it does say. -/
def delivered (journal : Journal) (level : Level) (pieces : List Piece) : List Utterance :=
  if .endLine ∈ pieces then (journal.setLevel level).endedLines (ended pieces)
  else journal.wanted level pieces

/-- What is left of it in the logger. -/
def leftover (pieces : List Piece) : String :=
  if .endLine ∈ pieces then unended pieces else ""

end Journal

open Journal

theorem flush_fields (journal : Journal) :
    journal.flush.clock = journal.clock ∧ journal.flush.logger = journal.logger.cleared := by
  unfold Journal.flush
  split
  · exact ⟨rfl, rfl⟩
  · obtain ⟨clock, _, _, logger⟩ :=
      deliver_fields { journal with logger := journal.logger.cleared } journal.line
    exact ⟨clock, logger⟩

theorem stream_of_ne (other : piece ≠ .endLine) (journal : Journal) :
    journal.stream piece = journal.append piece.written :=
  if_neg other

theorem logger_streamAll (journal : Journal) (pieces : List Piece) :
    (journal.streamAll pieces).logger =
      if .endLine ∈ pieces then { journal.logger.cleared with pending := unended pieces }
      else { journal.logger with pending := journal.logger.pending ++ unended pieces } := by
  induction pieces generalizing journal with
  | nil => exact congrArg (fun pending => { journal.logger with pending }) String.append_empty.symm
  | cons piece rest ih =>
      change ((journal.stream piece).streamAll rest).logger = _
      rw [ih]
      by_cases ends : piece = .endLine
      · have flushed : (journal.stream .endLine).logger = journal.logger.cleared :=
          (flush_fields (journal.append "\n")).2
        have bare : journal.logger.cleared.pending ++ unended rest = unended rest :=
          String.empty_append
        rw [ends, flushed, unended_endLine, if_pos List.mem_cons_self, bare]
        exact ite_self _
      · have same : .endLine ∈ piece :: rest ↔ .endLine ∈ rest := by simp [Ne.symm ends]
        rw [stream_of_ne ends, unended_cons ends]
        by_cases later : .endLine ∈ rest
        · rw [if_pos later, if_pos (same.mpr later), if_pos later]
          rfl
        · rw [if_neg later, if_neg (later ∘ same.mp), if_neg later, ← String.append_assoc]
          rfl

/-- A flush leaves a logger that begins anew. -/
theorem endedLines_flush (journal : Journal) (texts : List String) :
    journal.flush.endedLines texts = texts.map fun text =>
      ⟨journal.clock, .info, journal.logger.indent, text ++ "\n"⟩ := by
  cases texts with
  | nil => rfl
  | cons first more =>
      obtain ⟨clock, logger⟩ := flush_fields journal
      rw [endedLines, clock, logger, List.map_cons]
      congr 2

theorem linesOf_eq (journal : Journal) (pieces : List Piece) :
    journal.linesOf pieces = (journal.endedLines (ended pieces)).map Utterance.line := by
  induction pieces generalizing journal with
  | nil => rfl
  | cons piece rest ih =>
      rw [linesOf, ih]
      by_cases ends : piece = .endLine
      · have something : (journal.append "\n").logger.pending ≠ "" := by simp [Journal.append]
        have finished : (journal.append "\n").finished =
            [(journal.append "\n").utterance.line] := by
          rw [Journal.finished, if_neg something, line_eq]
        have flushed : (journal.stream .endLine).endedLines (ended rest) = _ :=
          endedLines_flush (journal.append "\n") (ended rest)
        rw [ends, if_pos rfl, ended_endLine, flushed, endedLines, String.append_empty]
        change (journal.append "\n").finished ++ _ = _
        rw [finished]
        rfl
      · rw [stream_of_ne ends, if_neg ends, ended_cons ends]
        cases ended rest with
        | nil => rfl
        | cons first more => simp [endedLines, Journal.append, String.append_assoc]

section

variable (bare : journal.logger.pending = "")
  (admitted : ¬ level.severity < journal.threshold.severity)

include admitted

theorem log_eq (pieces : List Piece) : journal.log level pieces =
    if .endLine ∈ pieces then (journal.setLevel level).streamAll pieces
    else ((journal.setLevel level).streamAll pieces).flush := by
  have started : Statement.start journal level = (⟨true, true⟩, journal.setLevel level) :=
    if_neg admitted
  unfold Journal.log
  rw [started]
  dsimp only
  rw [Statement.streamAll_fst, Statement.streamAll_snd, Statement.finish, Statement.told]
  by_cases ends : .endLine ∈ pieces <;> simp [ends]

theorem linesLogged_eq_append (pieces : List Piece) : journal.linesLogged level pieces =
    (journal.setLevel level).linesOf pieces ++
      if .endLine ∈ pieces then [] else ((journal.setLevel level).streamAll pieces).finished := by
  have started : Statement.start journal level = (⟨true, true⟩, journal.setLevel level) :=
    if_neg admitted
  unfold Journal.linesLogged
  rw [started]
  dsimp only
  rw [Statement.streamAll_fst, Statement.streamAll_snd, Statement.linesOf, Statement.finished,
    Statement.told]
  by_cases ends : .endLine ∈ pieces <;> simp [ends]

theorem logger_log (pieces : List Piece) : (journal.log level pieces).logger =
    { journal.logger.cleared with pending := leftover pieces } := by
  rw [log_eq admitted, leftover]
  by_cases ends : .endLine ∈ pieces
  · rw [if_pos ends, if_pos ends, logger_streamAll, if_pos ends]
    rfl
  · rw [if_neg ends, if_neg ends, (flush_fields _).2, logger_streamAll, if_neg ends]
    rfl

include bare in
theorem linesLogged_eq (pieces : List Piece) :
    journal.linesLogged level pieces = (journal.delivered level pieces).map Utterance.line := by
  rw [linesLogged_eq_append admitted, linesOf_eq, delivered]
  by_cases ends : .endLine ∈ pieces
  · rw [if_pos ends, if_pos ends, List.append_nil]
  · have streamed := logger_streamAll (journal.setLevel level) pieces
    have clock : ((journal.setLevel level).streamAll pieces).clock = journal.clock :=
      (carries_streamAll (journal.setLevel level) pieces).clock
    have pending : (journal.setLevel level).logger.pending ++ unended pieces = unended pieces := by
      change journal.logger.pending ++ _ = _
      rw [bare, String.empty_append]
    rw [if_neg ends, pending] at streamed
    rw [if_neg ends, if_neg ends, ended_eq_nil_iff.mpr ends, wanted,
      ended_eq_nil_iff.mpr ends, finished, line_eq, utterance, streamed, clock]
    dsimp only
    split <;> rfl

end

theorem level_eq_of_head?_name {other : Level}
    (same : level.name.toList.head? = other.name.toList.head?) : level = other := by
  revert same
  cases level <;> cases other <;> decide +kernel

/-- A line tells its level. -/
theorem level_eq_of_line {first second : Utterance} (time : first.time = second.time)
    (same : first.line = second.line) : first.level = second.level := by
  have initial (level : Level) : ∃ char, level.name.toList.head? = some char := by
    cases level <;> exact ⟨_, rfl⟩
  obtain ⟨one, first_name⟩ := initial first.level
  obtain ⟨two, second_name⟩ := initial second.level
  unfold Utterance.line Utterance.head at same
  simp only [time, String.append_assoc, String.append_right_inj] at same
  have heads := congrArg (fun text => text.toList.head?) same
  simp only [String.toList_append, List.head?_append, first_name, second_name] at heads
  exact level_eq_of_head?_name (first_name.trans (heads.trans second_name.symm))

section

variable (bare : journal.logger.pending = "")

include bare

theorem delivered_eq_wanted_iff (tidy : leftover pieces = "") :
    (journal.delivered level pieces).map Utterance.line =
        (journal.wanted level pieces).map Utterance.line ↔
      (ended pieces).length ≤ 1 ∨ level = .info := by
  unfold leftover at tidy
  unfold delivered
  by_cases ends : .endLine ∈ pieces
  · rw [if_pos ends] at tidy
    rw [if_pos ends, wanted, tidy, if_pos rfl, List.append_nil]
    rcases ended pieces with _ | ⟨first, _ | ⟨next, others⟩⟩
    · simp [endedLines]
    · simp [endedLines, Journal.setLevel, bare]
    · simp only [endedLines, Journal.setLevel, bare, List.map_cons, String.empty_append]
      constructor
      · intro same
        have second := (List.cons.inj (List.cons.inj same).2).1
        exact .inr (level_eq_of_line (by rfl) second).symm
      · rintro (short | rfl)
        · simp at short
        · rfl
  · rw [if_neg ends, ended_eq_nil_iff.mpr ends]
    simp

/-- A statement delivers all of its text at its own level exactly if it ends its lines
last and at most one of them, or has the level that lines have anyway.  Whatever it
has, the lines behind the first one are at that level, and what is behind the last
line end stays pending. -/
theorem statement_delivers_iff (attentive : journal.teeing = true)
    (admitted : ¬ level.severity < journal.threshold.severity) (pieces : List Piece) :
    let after := journal.log level pieces
    after.teed = journal.teed ++ (journal.delivered level pieces).map Utterance.line ∧
      after.logger = { journal.logger.cleared with pending := leftover pieces } ∧
      ((after.teed = journal.teed ++ (journal.wanted level pieces).map Utterance.line ∧
          after.logger.pending = "") ↔
        leftover pieces = "" ∧ ((ended pieces).length ≤ 1 ∨ level = .info)) := by
  intro after
  have teed : after.teed = _ := (carries_log journal level pieces).teed
  rw [attentive, if_pos rfl, linesLogged_eq bare admitted] at teed
  have logger : after.logger = _ := logger_log admitted pieces
  refine ⟨teed, logger, ?_⟩
  rw [teed, logger, List.append_cancel_left_eq]
  constructor
  · rintro ⟨same, tidy⟩
    exact ⟨tidy, (delivered_eq_wanted_iff bare tidy).mp same⟩
  · rintro ⟨tidy, plain⟩
    exact ⟨(delivered_eq_wanted_iff bare tidy).mpr plain, tidy⟩

end

/-- A statement of two lines and a half: the second line has lost the level, and the
rest is left for whoever comes next. -/
theorem second_line_loses_level :
    let journal : Journal := { clock := "t", teeing := true }
    let pieces : List Piece := [.text "a", .endLine, .text "b", .endLine, .text "c"]
    let after := journal.log .error pieces
    journal.logger.pending = "" ∧ journal.teeing = true ∧
      ¬ Level.error.severity < journal.threshold.severity ∧
      after.teed = ["t [ERROR] [CKPBUS] a\n", "t [INFO] [CKPBUS] b\n"] ∧
      after.logger.pending = "c" ∧
      (journal.wanted .error pieces).map Utterance.line = ["t [ERROR] [CKPBUS] a\n",
        "t [ERROR] [CKPBUS] b\n", "t [ERROR] [CKPBUS] c\n"] ∧
      ¬ (after.teed = journal.teed ++ (journal.wanted .error pieces).map Utterance.line ∧
        after.logger.pending = "") := by
  intro journal pieces after
  have bare : journal.logger.pending = "" := rfl
  have attentive : journal.teeing = true := rfl
  have admitted : ¬ Level.error.severity < journal.threshold.severity := by decide
  have left : leftover pieces ≠ "" := by decide +kernel
  obtain ⟨teed, logger, complete⟩ := statement_delivers_iff bare attentive admitted pieces
  refine ⟨bare, attentive, admitted, teed.trans (by decide +kernel), ?_, by decide +kernel,
    fun all => left (complete.mp all).1⟩
  rw [logger]
  decide +kernel

end MarkerBus.Log
