import MarkerBus.Proofs.Log.Custody

namespace MarkerBus.Log

variable {before after : Journal} {file : RotatingFile} {first : Nat} {holder : Holder}

/-- What lines add to a file, one after the other. -/
theorem serves_lines {tree : FileTree} {path : String} {handle : Nat} {content : ByteArray}
    (serves : tree.Serves path handle content) (lines : List String) :
    (lines.foldl (fun files line => files.write handle (record line)) tree).Serves path handle
      (content ++ recordAll lines) := by
  induction lines generalizing tree content with
  | nil => rwa [recordAll, ByteArray.append_empty]
  | cons line rest ih =>
      rw [recordAll, ← ByteArray.append_assoc]
      exact ih (serves.write (record line))

/-- The file is open, and what the journal is told goes to its end. -/
structure Receives (journal : Journal) (file : RotatingFile) (content : ByteArray) : Prop where
  placed : file.Placed
  serves : ∃ handle, file.handle? = some handle ∧ journal.target? = some handle ∧
    journal.files.Serves file.path handle content

namespace Receives

variable {content : ByteArray}

theorem read?_eq (receives : Receives before file content) :
    before.files.read? file.path = some content := by
  obtain ⟨handle, _, _, serves⟩ := receives.serves
  exact serves.read?_eq

theorem of_said {lines : List String} (receives : Receives before file content)
    (said : Says before lines after) : Receives after file (content ++ recordAll lines) := by
  obtain ⟨placed, handle, has, target, serves⟩ := receives
  refine ⟨placed, handle, has, said.target.trans target, ?_⟩
  rw [said.files, target]
  exact serves_lines serves lines

theorem of_refused (receives : Receives before file content)
    (target : after.target? = before.target?) (same : before.files.SameHandles after.files)
    (grows : before.files.Grows after.files) : Receives after file content := by
  obtain ⟨placed, handle, has, aimed, serves⟩ := receives
  exact ⟨placed, handle, has, target.trans aimed,
    serves.of_grows grows (congrArg _ same.handles)⟩

theorem of_acquired {old? : Option Nat} (placed : file.Placed)
    (acquires : Acquires before file.path old? after)
    (has : file.handle? = some before.files.opened) : ∃ content, Receives after file content := by
  obtain ⟨content, serves⟩ := acquires.serves
  exact ⟨content, placed, _, has, acquires.target, serves⟩

end Receives

/-- The outlet is what it says. -/
structure Directed (first : Nat) (desk : Desk) : Prop where
  custody : Custody first desk.journal (owners desk.held [])
  placed : ∀ holder file, desk.held holder = some file → file.Placed
  console : desk.outlet? = none → desk.journal.target? = none
  file : ∀ holder, desk.outlet? = some holder →
    ∃ given content, desk.held holder = some given ∧ Receives desk.journal given content

namespace Desk

variable {desk next : Desk}

theorem placed_update {held : Holder → Option RotatingFile} {file? : Option RotatingFile}
    (placed : ∀ holder file, held holder = some file → file.Placed)
    (given : ∀ file, file? = some file → file.Placed) :
    ∀ other file, Function.update held holder file? other = some file → file.Placed := by
  intro other file holds
  by_cases same : other = holder
  · rw [same, Function.update_self] at holds
    exact given file holds
  · rw [Function.update_of_ne same] at holds
    exact placed other file holds

/-- As long as the outlet stays, its file need only go on receiving. -/
theorem directed_of_kept (directed : Directed first desk)
    (custody : Custody first after (owners desk.held []))
    (target : after.target? = desk.journal.target?)
    (receives : ∀ file content, Receives desk.journal file content →
      ∃ more, Receives after file more) : Directed first { desk with journal := after } where
  custody := custody
  placed := directed.placed
  console none := target.trans (directed.console none)
  file holder outlet := by
    obtain ⟨file, content, holds, receiving⟩ := directed.file holder outlet
    obtain ⟨more, still⟩ := receives file content receiving
    exact ⟨file, more, holds, still⟩

/-- Whoever takes a new handle becomes the outlet. -/
theorem directed_of_acquired {held : Holder → Option RotatingFile} {old? : Option Nat}
    (custody : Custody first after (owners (Function.update held holder (some file)) []))
    (placed : ∀ holder file, held holder = some file → file.Placed) (own : file.Placed)
    (acquires : Acquires before file.path old? after)
    (has : file.handle? = some before.files.opened) :
    Directed first ⟨after, Function.update held holder (some file), some holder⟩ := by
  obtain ⟨content, receives⟩ := Receives.of_acquired own acquires has
  refine ⟨custody, placed_update placed ?_, nofun, ?_⟩ <;> rintro _ ⟨⟩
  · exact own
  · exact ⟨file, content, Function.update_self .., receives⟩

theorem Step.directed (step : Step desk next) (directed : Directed first desk) :
    Directed first next := by
  have custody := step.custody directed.custody
  cases step with
  | speaks said =>
      exact directed_of_kept directed custody said.target fun _ _ receives =>
        ⟨_, receives.of_said said⟩
  | settles target files =>
      exact directed_of_kept directed custody target fun _ content receives =>
        ⟨content, receives.of_refused target (files ▸ .refl _) (files ▸ .refl _)⟩
  | refuses refused =>
      obtain ⟨target, same, grows⟩ := RotatingFile.create_error refused
      exact directed_of_kept directed custody target fun _ content receives =>
        ⟨content, receives.of_refused target same grows⟩
  | silences => exact ⟨custody, directed.placed, fun _ => rfl, nofun⟩
  | opens free created =>
      obtain ⟨own, has, acquires⟩ := RotatingFile.create_ok created
      exact directed_of_acquired custody directed.placed own acquires has
  | @rotates holder file holds =>
      have own := directed.placed holder file holds
      have issued (old : Nat) (has : file.handle? = some old) : old < desk.journal.files.opened :=
        (directed.custody.live (.holder holder) old ((owners_of_held holds).trans has)).2.1
      unfold outletRotated at custody ⊢
      rcases RotatingFile.rotate_cases issued with
        ⟨result, rotated, acquires⟩ |
          ⟨⟨error, result⟩, ⟨empties, rotated, stays⟩ | ⟨keeps, rotated, drops⟩⟩ <;>
        rw [result] at custody ⊢ <;> rw [rotated] at custody ⊢
      · exact directed_of_acquired custody directed.placed own acquires rfl
      · rw [stays, held_eq_update holds, if_pos empties] at custody ⊢
        exact directed
      · rw [if_neg keeps] at custody ⊢
        refine ⟨custody, placed_update directed.placed ?_, fun _ => drops.target, nofun⟩
        rintro _ ⟨⟩
        exact own
  | @waits holder file holds untilCheck =>
      refine ⟨custody, placed_update directed.placed ?_, directed.console, fun other outlet => ?_⟩
      · rintro _ ⟨⟩
        exact directed.placed holder file holds
      · obtain ⟨another, content, has, receives⟩ := directed.file other outlet
        by_cases same : other = holder
        · subst same
          rw [holds] at has
          cases has
          exact ⟨_, content, Function.update_self .., receives.placed, receives.serves⟩
        · exact ⟨another, content, (Function.update_of_ne same ..).trans has, receives⟩
  | @closes holder file holds =>
      exact ⟨custody, placed_update directed.placed nofun, fun _ => RotatingFile.drops_close.target,
        nofun⟩

end Desk

namespace Session

variable {session : Session}

theorem Fresh.directed (fresh : session.Fresh) :
    Directed session.journal.files.opened (session.desk none) where
  custody := fresh.custody
  placed holder _ holds := nomatch (fresh.unheld holder).symm.trans holds
  console _ := fresh.silent
  file := nofun

/-- What is said after a run goes to the log file of the outlet, if there is one.
That holder is alive then.  Otherwise it goes to the console, no matter which log
files are still alive. -/
theorem lines_go_to_outlet (fresh : session.Fresh) (events : List Event) {event : Event}
    (speaks : event.Speaks) :
    let before := session.run events
    let after := (before.perform event).2.journal
    let lines := before.lines event
    match session.outlet none events with
    | some holder =>
        after.console = before.journal.console ∧
          ∃ file directory content, before.fileOf holder = some file ∧
            file.path = Path.join directory RotatingFile.fileName ∧
            before.journal.files.read? file.path = some content ∧
            after.files.read? file.path = some (content ++ recordAll lines)
    | none =>
        after.console = before.journal.console ++ lines.map Text.beforeNul ∧
          after.files = before.journal.files := by
  have directed : Directed session.journal.files.opened
      ((session.run events).desk (session.outlet none events)) :=
    (leads_run events).preserves (Directed _) Desk.Step.directed fresh.directed
  have said : Says (session.run events).journal _ _ := says_perform speaks
  cases outlet : session.outlet none events with
  | none =>
      have target : (session.run events).journal.target? = none := directed.console outlet
      have console := said.console
      have files := said.files
      rw [target] at console files
      exact ⟨console, files⟩
  | some holder =>
      obtain ⟨file, content, holds, receives⟩ := directed.file holder outlet
      obtain ⟨directory, placed⟩ := receives.placed
      obtain ⟨_, _, target, _⟩ := receives.serves
      have console := said.console
      have target : (session.run events).journal.target? = some _ := target
      rw [target] at console
      exact ⟨console, file, directory, content, holds, placed, receives.read?_eq,
        (receives.of_said said).read?_eq⟩

/-- Two log files are open and the second one is given up.  The first one is alive,
yet the next line goes to the console. -/
theorem live_file_misses_line :
    let session : Session := { journal := { clock := "t" } }
    let events : List Event := [.openFile "m" "a" {}, .openFile "n" "b" {}, .closeFile "n"]
    let event : Event := .log .warning [.text "x"]
    let before := session.run events
    let after := (before.perform event).2.journal
    session.Fresh ∧ event.Speaks ∧ session.outlet none events = none ∧
      (handleOf before.fileOf (.file "m")).isSome ∧
      after.console = before.journal.console ++ (before.lines event).map Text.beforeNul ∧
      after.files = before.journal.files ∧ before.lines event = ["t [WARNING] [CKPBUS] x\n"] := by
  intro session events event
  have fresh : session.Fresh :=
    ⟨fun holder => by cases holder <;> rfl, rfl, List.nodup_nil, nofun⟩
  have silent : session.outlet none events = none := by decide +kernel
  have alive : (handleOf (session.run events).fileOf (.file "m")).isSome := by decide +kernel
  have line : (session.run events).lines event = ["t [WARNING] [CKPBUS] x\n"] := by
    decide +kernel
  have speaks : event.Speaks := trivial
  -- nothing is left to be evaluated
  clear_value event events session
  have said := lines_go_to_outlet fresh events speaks
  dsimp only at said
  rw [silent] at said
  exact ⟨fresh, speaks, silent, alive, said.1, said.2, line⟩

end Session

end MarkerBus.Log
