import MarkerBus.Proofs.Log.Conservation
import MarkerBus.Proofs.Log.Outlet

namespace MarkerBus.Log

variable {session : Session} {file : RotatingFile} {content : ByteArray} {line text : String}
  {lines : List String} {utterance : Utterance}

/-- The lines as they are. -/
def bytesOf : List String → ByteArray
  | [] => .empty
  | line :: rest => line.toUTF8 ++ bytesOf rest

theorem record_eq_self (free : '\x00' ∉ line.toList) : record line = line.toUTF8 := by
  rw [record, Text.beforeNul_eq_self free]

theorem beforeNul_append (free : '\x00' ∉ line.toList) (text : String) :
    Text.beforeNul (line ++ text) = line ++ Text.beforeNul text := by
  have kept (char : Char) (member : char ∈ line.toList) : decide (char ≠ '\x00') = true :=
    decide_eq_true fun same => free (same ▸ member)
  rw [Text.beforeNul, String.toList_append, List.takeWhile_append_of_pos kept,
    String.ofList_append, String.ofList_toList]
  rfl

/-- A text with a NUL, cut at the first one. -/
theorem exists_split_of_nul (nul : '\x00' ∈ text.toList) :
    ∃ rest, text = Text.beforeNul text ++ ("\x00" ++ rest) := by
  obtain ⟨front, back, split, free⟩ := List.eq_append_cons_of_mem nul
  have cut : text = String.ofList front ++ ("\x00" ++ String.ofList back) := by
    rw [← String.toList_inj, split]
    simp
  have before : Text.beforeNul text = String.ofList front := by
    have stopped : Text.beforeNul ("\x00" ++ String.ofList back) = "" := by
      simp [Text.beforeNul]
    rw [cut, beforeNul_append (by simpa using free), stopped, String.append_empty]
  exact ⟨String.ofList back, by rw [before, ← cut]⟩

theorem nul_notMem_beforeNul (text : String) : '\x00' ∉ (Text.beforeNul text).toList := by
  intro member
  rw [Text.beforeNul, String.toList_ofList] at member
  simpa using List.all_eq_true.mp List.all_takeWhile _ member

theorem beforeNul_append_of_nul (nul : '\x00' ∈ text.toList) (more : String) :
    Text.beforeNul (text ++ more) = Text.beforeNul text := by
  obtain ⟨rest, split⟩ := exists_split_of_nul nul
  have stopped : Text.beforeNul ("\x00" ++ (rest ++ more)) = "" := by
    simp [Text.beforeNul]
  have cut : text ++ more = Text.beforeNul text ++ ("\x00" ++ (rest ++ more)) := by
    conv_lhs => rw [split]
    simp only [String.append_assoc]
  rw [cut, beforeNul_append (nul_notMem_beforeNul text), stopped, String.append_empty]

theorem record_size_lt (nul : '\x00' ∈ line.toList) : (record line).size < line.toUTF8.size := by
  obtain ⟨rest, split⟩ := exists_split_of_nul nul
  have sizes := congrArg String.utf8ByteSize split
  rw [String.utf8ByteSize_append, String.utf8ByteSize_append] at sizes
  have one : "\x00".utf8ByteSize = 1 := rfl
  change (Text.beforeNul line).utf8ByteSize < line.utf8ByteSize
  omega

theorem record_size_le (line : String) : (record line).size ≤ line.toUTF8.size := by
  by_cases nul : '\x00' ∈ line.toList
  · exact (record_size_lt nul).le
  · rw [record_eq_self nul]

theorem recordAll_append (lines others : List String) :
    recordAll (lines ++ others) = recordAll lines ++ recordAll others := by
  induction lines with
  | nil => exact ByteArray.empty_append.symm
  | cons line rest ih => rw [List.cons_append, recordAll, recordAll, ih, ByteArray.append_assoc]

theorem recordAll_size_le (lines : List String) : (recordAll lines).size ≤ (bytesOf lines).size := by
  induction lines with
  | nil => exact Nat.le_refl _
  | cons line rest ih =>
      rw [recordAll, bytesOf, ByteArray.size_append, ByteArray.size_append]
      exact Nat.add_le_add (record_size_le line) ih

/-- The records are the lines exactly if no line has a NUL. -/
theorem recordAll_eq_iff (lines : List String) :
    recordAll lines = bytesOf lines ↔ ∀ line ∈ lines, '\x00' ∉ line.toList := by
  induction lines with
  | nil => exact ⟨fun _ => nofun, fun _ => rfl⟩
  | cons line rest ih =>
      rw [recordAll, bytesOf, List.forall_mem_cons, ← ih]
      constructor
      · intro same
        -- nothing is made up for by another line, for none becomes longer
        have free : '\x00' ∉ line.toList := by
          intro nul
          have sizes := congrArg ByteArray.size same
          rw [ByteArray.size_append, ByteArray.size_append] at sizes
          have shorter := record_size_lt nul
          have others := recordAll_size_le rest
          omega
        rw [record_eq_self free] at same
        exact ⟨free, (ByteArray.append_right_inj _).mp same⟩
      · rintro ⟨free, same⟩
        rw [record_eq_self free, same]

theorem nul_notMem_name (level : Level) : '\x00' ∉ level.name.toList := by
  cases level <;> decide +kernel

theorem nul_notMem_head (proper : '\x00' ∉ utterance.time.toList) :
    '\x00' ∉ utterance.head.toList := by
  unfold Utterance.head
  simp [proper, nul_notMem_name]

/-- A line with a NUL in its text loses what follows, and the line end with it. -/
theorem record_line (proper : '\x00' ∉ utterance.time.toList) :
    record utterance.line =
      if '\x00' ∈ utterance.text.toList then
        (utterance.head ++ Text.beforeNul utterance.text).toUTF8
      else utterance.line.toUTF8 := by
  unfold Utterance.line record
  rw [beforeNul_append (nul_notMem_head proper)]
  by_cases nul : '\x00' ∈ utterance.text.toList
  · rw [if_pos nul]
    split
    · rfl
    · rw [beforeNul_append_of_nul nul]
  · have free : '\x00' ∉ (utterance.text ++ "\n").toList := by simp [nul]
    rw [if_neg nul]
    split
    · rw [Text.beforeNul_eq_self nul]
    · rw [Text.beforeNul_eq_self free]

theorem nul_mem_line_iff (proper : '\x00' ∉ utterance.time.toList) :
    '\x00' ∈ utterance.line.toList ↔ '\x00' ∈ utterance.text.toList := by
  have head := nul_notMem_head proper
  unfold Utterance.line
  split <;> simp [head]

/-- The events of the logger alone, with the tee and the target left as they are. -/
def Event.KeepsSinks : Event → Prop
  | .setTee installed => installed = true
  | .adopt _ => True
  | event => event.Speaks

namespace Session

variable {event : Event} {timetable : List (String × Event)}

theorem receives_perform (keeps : event.KeepsSinks) (receives : Receives session.journal file content) :
    Receives (session.perform event).2.journal file (content ++ recordAll (session.lines event)) := by
  by_cases speaks : event.Speaks
  · exact receives.of_said (says_perform speaks)
  · cases event with
    | adopt environment =>
        obtain ⟨target, files⟩ := Desk.files_adopt session.journal environment
        rw [lines_eq_nil speaks, recordAll, ByteArray.append_empty]
        exact receives.of_refused target (files ▸ .refl _) (files ▸ .refl _)
    | openFile | rotateFile | rotateFileIfDue | closeFile | startSetup | stopSetup | rotateSetup
    | closeSetup | startGuard | closeGuard | elapse => cases keeps
    | start | write | finish | log | logIndented | stream | setLevel | flush | indent | dedent
    | setTee | setThreshold => exact absurd trivial speaks

theorem receives_runTimed (keeps : ∀ entry ∈ timetable, entry.2.KeepsSinks)
    (receives : Receives session.journal file content) :
    Receives (session.runTimed timetable).journal file
      (content ++ recordAll (session.linesTimed timetable)) := by
  induction timetable generalizing session content with
  | nil => rwa [linesTimed, recordAll, ByteArray.append_empty]
  | cons entry rest ih =>
      obtain ⟨time, event⟩ := entry
      have timed : Receives (session.atTime time).journal file content :=
        ⟨receives.placed, receives.serves⟩
      have later := ih (fun _ member => keeps _ (List.mem_cons_of_mem _ member))
        (receives_perform (keeps _ List.mem_cons_self) timed)
      rwa [linesTimed, recordAll_append, ← ByteArray.append_assoc]

/-- As long as the tee and the log file are there, both get the same lines, the file
each of them up to the first NUL.  The bytes are the same exactly if no line has a
NUL in its text. -/
theorem file_gets_lines_up_to_nul (receives : Receives session.journal file content)
    (attentive : session.journal.teeing = true)
    (keeps : ∀ entry ∈ timetable, entry.2.KeepsSinks)
    (proper : ∀ entry ∈ timetable, '\x00' ∉ entry.1.toList) :
    let after := (session.runTimed timetable).journal
    ∃ utterances : List Utterance,
      let lines := utterances.map Utterance.line
      after.teed = session.journal.teed ++ lines ∧
        after.files.read? file.path = some (content ++ recordAll lines) ∧
        (∀ utterance ∈ utterances, record utterance.line =
          if '\x00' ∈ utterance.text.toList then
            (utterance.head ++ Text.beforeNul utterance.text).toUTF8
          else utterance.line.toUTF8) ∧
        (recordAll lines = bytesOf lines ↔
          ∀ utterance ∈ utterances, '\x00' ∉ utterance.text.toList) := by
  intro after
  have kept : ∀ entry ∈ timetable, entry.2 ≠ .setTee false := by
    intro entry member removed
    have keeping := keeps entry member
    rw [removed] at keeping
    cases keeping
  obtain ⟨known, knows⟩ : ∃ known, session.Knows known := ⟨_, rfl⟩
  obtain ⟨_, transcribes⟩ := transcribes_runTimed knows attentive kept
  have receiving := receives_runTimed keeps receives
  rw [transcribes.lines] at receiving
  have timely (utterance : Utterance)
      (member : utterance ∈ session.journal.logger.utteredAll (session.script known timetable)) :
      '\x00' ∉ utterance.time.toList := by
    obtain ⟨entry, member, time⟩ :=
      List.mem_map.mp (times_script _ _ _ (time_of_utteredAll member))
    exact time ▸ proper entry member
  refine ⟨_, transcribes.teed.trans (by rw [transcribes.lines]), receiving.read?_eq,
    fun utterance member => record_line (timely utterance member), ?_⟩
  rw [recordAll_eq_iff, List.forall_mem_map]
  exact forall₂_congr fun utterance member =>
    not_congr (nul_mem_line_iff (timely utterance member))

/-- A line with a NUL and another one.  The file has lost the end of the first one,
and the second one goes on in the same line. -/
theorem nul_runs_lines_together :
    let session := ({ journal := { clock := "s", teeing := true } } : Session).run
      [.openFile "m" "a" {}]
    let timetable : List (String × Event) :=
      [("t", .log .warning [.text "a\x00b"]), ("u", .log .warning [.text "c"])]
    let after := (session.runTimed timetable).journal
    ∃ file, session.files.get? "m" = some file ∧ Receives session.journal file .empty ∧
      session.journal.teeing = true ∧ (∀ entry ∈ timetable, entry.2.KeepsSinks) ∧
      (∀ entry ∈ timetable, '\x00' ∉ entry.1.toList) ∧
      after.teed = ["t [WARNING] [CKPBUS] a\x00b\n", "u [WARNING] [CKPBUS] c\n"] ∧
      after.files.read? file.path =
        some "t [WARNING] [CKPBUS] au [WARNING] [CKPBUS] c\n".toUTF8 := by
  intro session timetable after
  let file : RotatingFile := {
    path := "a/ckpbus.log", policy := {}, seniority := 0, untilCheck := 1000, handle? := some 0 }
  have known : session.files.get? "m" = some file := by decide +kernel
  have receives : Receives session.journal file .empty := by
    let first : Session := { journal := { clock := "s", teeing := true } }
    have fresh : first.Fresh :=
      ⟨fun holder => by cases holder <;> rfl, rfl, List.nodup_nil, nofun⟩
    have outlet : first.outlet none [.openFile "m" "a" {}] = some (.file "m") := by decide +kernel
    have directed : Directed _ (session.desk (some (.file "m"))) :=
      outlet ▸ (leads_run _).preserves (Directed _) Desk.Step.directed fresh.directed
    obtain ⟨given, content, holds, receives⟩ := directed.file _ rfl
    have same : given = file := Option.some.inj (holds.symm.trans known)
    have bare : session.journal.files.read? file.path = some .empty := by decide +kernel
    subst same
    exact Option.some.inj (receives.read?_eq.symm.trans bare) ▸ receives
  have attentive : session.journal.teeing = true := rfl
  have silent : session.journal.teed = [] := rfl
  have keeps : ∀ entry ∈ timetable, entry.2.KeepsSinks := by
    simp [timetable, Event.KeepsSinks, Event.Speaks]
  have proper : ∀ entry ∈ timetable, '\x00' ∉ entry.1.toList := by decide +kernel
  have teed : after.teed = ["t [WARNING] [CKPBUS] a\x00b\n", "u [WARNING] [CKPBUS] c\n"] := by
    decide +kernel
  have records : recordAll ["t [WARNING] [CKPBUS] a\x00b\n", "u [WARNING] [CKPBUS] c\n"] =
      "t [WARNING] [CKPBUS] au [WARNING] [CKPBUS] c\n".toUTF8 := by decide +kernel
  -- nothing is left to be evaluated
  clear_value file timetable session
  obtain ⟨utterances, lines, read, _⟩ := file_gets_lines_up_to_nul receives attentive keeps proper
  rw [silent, List.nil_append] at lines
  rw [← lines, ByteArray.empty_append] at read
  refine ⟨file, known, receives, attentive, keeps, proper, teed, read.trans ?_⟩
  exact congrArg some ((congrArg recordAll teed).trans records)

end Session

end MarkerBus.Log
