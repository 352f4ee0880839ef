import MarkerBus.Proofs.Log.Custody

namespace MarkerBus.Log

variable {before after journal : Journal} {directory : String} {error : FileError}
  {settings : Settings} {environment : Environment} {session : Session} {event : Event}
  {events : List Event} {name : String} {path? : Option String}

/-- The threshold that is asked for: the one in the environment, if that names one. -/
def Settings.asked (settings : Settings) (environment : Environment) : Level :=
  ((environment.value? "LOG_LEVEL").bind Level.ofText?).getD settings.initial

theorem threshold_adopt (journal : Journal) (environment : Environment) :
    (journal.adopt environment).threshold =
      ((environment.value? "LOG_LEVEL").bind Level.ofText?).getD journal.threshold := by
  unfold Journal.adopt Journal.setThreshold
  cases environment.value? "LOG_LEVEL" with
  | none => rfl
  | some text =>
      dsimp only [Option.bind_some]
      cases Level.ofText? text <;> rfl

namespace RotatingFile

theorem threshold_reopen (file : RotatingFile) (mode : FileTree.Mode) (journal : Journal) :
    (file.reopen mode journal).journal.threshold = journal.threshold := by
  unfold reopen
  cases journal.files.openFile file.path mode with
  | error => rfl
  | ok =>
      unfold release
      cases file.handle? <;> rfl

theorem threshold_create (directory : String) (policy : RotationPolicy) (journal : Journal) :
    (create directory policy journal).2.threshold = journal.threshold := by
  rw [create_startable]
  unfold openIn
  dsimp only
  generalize (if directory = "" then journal.files.originPath else directory) = place
  split
  · rfl
  · split
    · rfl
    · exact threshold_reopen _ _ _

/-- The directory of a log file for which this one is given. -/
def home (directory : String) (files : FileTree) : String :=
  if directory = "" then files.originPath else directory

inductive Refused (files : FileTree) (directory : String) : FileError → Prop where
  | unmade {made : FileTree} {code : ErrorNumber}
      (making : files.makeDirectories (home directory files) = (.error code, made)) :
      Refused files directory (.unusableDirectory (home directory files))
  | occupied {made : FileTree}
      (making : files.makeDirectories (home directory files) = (.ok (), made))
      (other : made.isDirectoryAt (home directory files) = false) :
      Refused files directory (.unusableDirectory (home directory files))
  | unopened {made : FileTree} {code : ErrorNumber}
      (making : files.makeDirectories (home directory files) = (.ok (), made))
      (place : made.isDirectoryAt (home directory files) = true)
      (opening : made.openFile (Path.join (home directory files) fileName) .append = .error code) :
      Refused files directory (.cannotOpen (Path.join (home directory files) fileName) code)

section Create

variable {made : FileTree} {code : ErrorNumber} (policy : RotationPolicy)

theorem create_of_unmade
    (making : journal.files.makeDirectories (home directory journal.files) = (.error code, made)) :
    (create directory policy journal).1 =
      .error (.unusableDirectory (home directory journal.files)) := by
  unfold home at *
  simp only [create_startable, openIn, making]

variable (making : journal.files.makeDirectories (home directory journal.files) = (.ok (), made))
include making

theorem create_of_occupied (other : made.isDirectoryAt (home directory journal.files) = false) :
    (create directory policy journal).1 =
      .error (.unusableDirectory (home directory journal.files)) := by
  unfold home at *
  simp only [create_startable, openIn, making, other]
  rfl

variable (place : made.isDirectoryAt (home directory journal.files) = true)
include place

theorem create_of_unopened (opening : made.openFile
    (Path.join (home directory journal.files) fileName) .append = .error code) :
    (create directory policy journal).1 =
      .error (.cannotOpen (Path.join (home directory journal.files) fileName) code) := by
  unfold home at *
  simp only [create_startable, openIn, making, place, reopen, opening]
  rfl

theorem create_of_opened {opened : Nat × FileTree} (opening : made.openFile
    (Path.join (home directory journal.files) fileName) .append = .ok opened) :
    ∃ file, (create directory policy journal).1 = .ok file := by
  unfold home at *
  simp only [create_startable, openIn, making, place, reopen, opening]
  exact ⟨_, rfl⟩

end Create

/-- Nothing but the three reasons keeps a log file from being opened. -/
theorem create_error_iff (directory : String) (policy : RotationPolicy) :
    (create directory policy journal).1 = .error error ↔
      Refused journal.files directory error := by
  constructor
  · intro failed
    cases making : journal.files.makeDirectories (home directory journal.files) with
    | mk result made =>
      cases result with
      | error code =>
          rw [create_of_unmade policy making] at failed
          cases failed
          exact .unmade making
      | ok =>
          cases place : made.isDirectoryAt (home directory journal.files) with
          | false =>
              rw [create_of_occupied policy making place] at failed
              cases failed
              exact .occupied making place
          | true =>
              cases opening : made.openFile
                  (Path.join (home directory journal.files) fileName) .append with
              | error code =>
                  rw [create_of_unopened policy making place opening] at failed
                  cases failed
                  exact .unopened making place opening
              | ok =>
                  obtain ⟨_, created⟩ := create_of_opened policy making place opening
                  rw [created] at failed
                  cases failed
  · intro refused
    cases refused with
    | unmade making => exact create_of_unmade policy making
    | occupied making other => exact create_of_occupied policy making other
    | unopened making place opening => exact create_of_unopened policy making place opening

end RotatingFile

open RotatingFile

/-- The journal lets the same lines through, to the same target. -/
structure SameOutput (before after : Journal) : Prop where
  threshold : after.threshold = before.threshold
  target : after.target? = before.target?
  handles : before.files.SameHandles after.files

/-- How the start of a set-up is answered, and the journal after it. -/
inductive Starts (settings : Settings) (environment : Environment) (before : Journal) :
    Response → Journal → Prop where
  | opens {path? : Option String} {after : Journal}
      (possible : settings.toFile → ∀ error, ¬ Refused before.files settings.directory error)
      (opened : path?.isSome = settings.toFile)
      (target : settings.toFile = false → after.target? = before.target?)
      (threshold : after.threshold = settings.asked environment) :
      Starts settings environment before (.opened path?) after
  | fails {error : FileError} {after : Journal}
      (toFile : settings.toFile)
      (refused : Refused before.files settings.directory error)
      (target : after.target? = before.target?)
      (handles : before.files.SameHandles after.files)
      (grows : before.files.Grows after.files)
      (threshold : after.threshold = settings.asked environment) :
      Starts settings environment before (.failed error) after

theorem Starts.sameOutput_iff {response : Response}
    (starts : Starts settings environment before response after)
    (failed : response = .failed error) :
    SameOutput before after ↔ before.threshold = settings.asked environment := by
  cases starts with
  | opens => cases failed
  | fails toFile refused target handles grows threshold =>
      exact ⟨fun same => same.threshold.symm.trans threshold,
        fun same => ⟨threshold.trans same.symm, target, handles⟩⟩

/-- How a session answers. -/
def Setup.responded : Except FileError Setup → Response
  | .ok setup => .opened (setup.file?.map (·.path))
  | .error error => .failed error

theorem Setup.starts (settings : Settings) (environment : Environment) (before : Journal) :
    Starts settings environment before (responded (start settings environment before).1)
      (start settings environment before).2 := by
  unfold start
  dsimp only
  have same := Desk.files_adopt { before with threshold := settings.initial } environment
  have threshold : _ = settings.asked environment := threshold_adopt
    { before with threshold := settings.initial } environment
  generalize { before with threshold := settings.initial }.adopt environment = adopted at *
  obtain ⟨target, files⟩ : adopted.target? = before.target? ∧ adopted.files = before.files := same
  cases toFile : settings.toFile with
  | false => exact .opens (by simp [toFile]) (by rw [toFile]; rfl) (fun _ => target) threshold
  | true =>
      rw [if_pos rfl]
      have refused (error : FileError) : _ ↔ Refused adopted.files settings.directory error :=
        create_error_iff settings.directory settings.policy
      have kept := threshold_create settings.directory settings.policy adopted
      rw [files] at refused
      cases made : create settings.directory settings.policy adopted with
      | mk result after =>
        rw [made] at refused kept
        cases result with
        | ok file =>
            exact .opens (fun _ error because => nomatch (refused error).mpr because)
              (by rw [toFile]; rfl) (by simp [toFile]) (kept.trans threshold)
        | error error =>
            obtain ⟨still, handles, grows⟩ := create_error made
            rw [files] at handles grows
            exact .fails toFile ((refused error).mp rfl) (still.trans target) handles grows
              (kept.trans threshold)

namespace Session

theorem starts_setup (session : Session) (name : String) (settings : Settings)
    (environment : Environment) :
    let started := session.perform (.startSetup name settings environment)
    Starts settings environment (session.closeSetup name).journal started.1 started.2.journal := by
  have starts := Setup.starts settings environment (session.closeSetup name).journal
  unfold perform startSetup
  dsimp only
  generalize Setup.start settings environment _ = made at starts ⊢
  obtain ⟨_ | _, _⟩ := made <;> exact starts

theorem starts_guard (session : Session) (name : String) (settings : Settings)
    (environment : Environment) :
    let started := session.perform (.startGuard name settings environment)
    Starts settings environment (session.closeGuard name).journal started.1 started.2.journal := by
  have starts := Setup.starts settings environment (session.closeGuard name).journal
  unfold perform startGuard Guard.start
  dsimp only
  generalize Setup.start settings environment _ = made at starts ⊢
  obtain ⟨_ | _, _⟩ := made <;> exact starts

def saved? (session : Session) (name : String) : Option Level :=
  (session.guards.get? name).map (·.saved)

theorem saved?_startGuard (opened : (session.perform
    (.startGuard name settings environment)).1 = .opened path?) :
    (session.perform (.startGuard name settings environment)).2.saved? name =
      some (session.closeGuard name).journal.threshold := by
  unfold perform startGuard Guard.start at opened ⊢
  dsimp only at opened ⊢
  generalize Setup.start settings environment _ = made at opened ⊢
  obtain ⟨_ | setup, _⟩ := made
  · cases opened
  · exact congrArg (Option.map _) (Named.get?_insert_self _)

theorem closeGuard_of_saved? {level : Level} (kept : session.saved? name = some level) :
    (session.closeGuard name).journal.threshold = level ∧
      (session.closeGuard name).journal.target? = none := by
  obtain ⟨guard, known, rfl⟩ := Option.map_eq_some_iff.mp kept
  unfold closeGuard
  rw [known]
  exact ⟨rfl, rfl⟩

end Session

/-- This guard is closed, also to make way for another one. -/
def Event.ClosesGuard (name : String) : Event → Prop
  | .startGuard other .. | .closeGuard other => other = name
  | _ => False

namespace Session

theorem saved?_closeGuard {other : String} (apart : other ≠ name) :
    (session.closeGuard other).saved? name = session.saved? name := by
  unfold closeGuard
  cases session.guards.get? other with
  | none => rfl
  | some guard => exact congrArg (Option.map _) (Named.get?_erase_of_ne _ apart.symm)

theorem saved?_elapseFor (session : Session) (holder : Holder) :
    (session.elapseFor holder).saved? name = session.saved? name := by
  unfold elapseFor
  cases holder with
  | file other =>
      dsimp only
      cases session.files.get? other <;> rfl
  | setup other =>
      dsimp only
      cases session.setups.get? other <;> rfl
  | guard other =>
      dsimp only
      cases known : session.guards.get? other with
      | none => rfl
      | some guard =>
          change ((session.guards.insert other _).get? name).map _ = _
          by_cases same : name = other
          · subst same
            rw [Named.get?_insert_self, saved?, known]
            rfl
          · rw [Named.get?_insert_of_ne _ same]
            rfl

theorem saved?_elapse (session : Session) (holders : List Holder) :
    (holders.foldl elapseFor session).saved? name = session.saved? name := by
  induction holders generalizing session with
  | nil => rfl
  | cons holder rest ih => exact (ih _).trans (saved?_elapseFor session holder)

theorem saved?_of_guards {after : Session} (same : after.guards = session.guards) :
    after.saved? name = session.saved? name := by
  rw [saved?, same, saved?]

theorem guards_closeFile (session : Session) (name : String) :
    (session.closeFile name).guards = session.guards := by
  unfold closeFile
  split <;> rfl

theorem guards_closeSetup (session : Session) (name : String) :
    (session.closeSetup name).guards = session.guards := by
  unfold closeSetup
  split <;> rfl

theorem guards_onFile {α : Type} (session : Session) (name : String)
    (operation : RotatingFile → Journal → FileOutcome α) (respond : α → Response) :
    (session.onFile name operation respond).2.guards = session.guards := by
  unfold onFile
  split <;> rfl

/-- A guard keeps what it has saved whatever is done, until it is closed. -/
theorem saved?_perform (stays : ¬ event.ClosesGuard name) :
    (session.perform event).2.saved? name = session.saved? name := by
  by_cases speaks : event.Speaks
  · exact saved?_of_guards (perform_of_speaks session speaks).2.2
  cases event with
  | startGuard other settings environment =>
      have closed : (session.closeGuard other).saved? name = _ := saved?_closeGuard stays
      unfold perform startGuard
      dsimp only
      split
      · exact closed
      · exact (congrArg (Option.map _) (Named.get?_insert_of_ne _ (Ne.symm stays))).trans closed
  | closeGuard other => exact saved?_closeGuard stays
  | elapse => exact saved?_elapse session session.holders
  | openFile other directory policy =>
      refine saved?_of_guards ?_
      unfold perform openFile
      dsimp only
      split <;> exact guards_closeFile session other
  | rotateFile other | rotateFileIfDue other =>
      exact saved?_of_guards (guards_onFile session other _ _)
  | closeFile other => exact saved?_of_guards (guards_closeFile session other)
  | startSetup other settings environment =>
      refine saved?_of_guards ?_
      unfold perform startSetup
      dsimp only
      split <;> exact guards_closeSetup session other
  | stopSetup other =>
      refine saved?_of_guards ?_
      unfold perform stopSetup
      dsimp only
      split <;> rfl
  | rotateSetup other =>
      refine saved?_of_guards ?_
      unfold perform rotateSetup
      dsimp only
      split <;> rfl
  | closeSetup other => exact saved?_of_guards (guards_closeSetup session other)
  | adopt environment => rfl
  | start | write | finish | log | logIndented | stream | setLevel | flush | indent | dedent
  | setTee | setThreshold => exact absurd trivial speaks

theorem saved?_run (stay : ∀ event ∈ events, ¬ event.ClosesGuard name) :
    (session.run events).saved? name = session.saved? name := by
  induction events generalizing session with
  | nil => rfl
  | cons event rest ih =>
      rw [List.forall_mem_cons] at stay
      exact (ih stay.2).trans (saved?_perform stay.1)

/-- Where the log file cannot be opened, the target and the open files are what they
were, but the threshold is the one that was asked for, under a guard as well.  A guard
that does start restores the threshold from before it, whatever is done in between. -/
theorem failed_start_leaves_threshold (session : Session) (name : String) (settings : Settings)
    (environment : Environment) :
    (let before := (session.closeSetup name).journal
      let started := session.perform (.startSetup name settings environment)
      Starts settings environment before started.1 started.2.journal ∧
        ∀ error, started.1 = .failed error → (SameOutput before started.2.journal ↔
          before.threshold = settings.asked environment)) ∧
    let before := (session.closeGuard name).journal
    let started := session.perform (.startGuard name settings environment)
    Starts settings environment before started.1 started.2.journal ∧
      (∀ error, started.1 = .failed error → (SameOutput before started.2.journal ↔
        before.threshold = settings.asked environment)) ∧
      ∀ path? events, started.1 = .opened path? → (∀ event ∈ events, ¬ event.ClosesGuard name) →
        let closed := (started.2.run events).closeGuard name
        closed.journal.threshold = before.threshold ∧ closed.journal.target? = none := by
  have setup := session.starts_setup name settings environment
  have guard := session.starts_guard name settings environment
  refine ⟨⟨setup, fun _ failed => Starts.sameOutput_iff setup failed⟩,
    guard, fun _ failed => Starts.sameOutput_iff guard failed, ?_⟩
  intro path? events opened stay
  exact closeGuard_of_saved? ((saved?_run stay).trans (saved?_startGuard opened))

/-- The directory of the log file is a file: the guard fails, and lines from debug on
are let through from then on. -/
theorem guard_on_file_leaves_debug :
    let session : Session := { journal := {
      clock := "t", files := ({} : FileTree).insertFile (Location.root.child "f") } }
    let settings (directory : String) : Settings :=
      { toFile := true, directory, initial := .debug }
    let failed := session.perform (.startGuard "g" (settings "f") ⟨[]⟩)
    let started := session.perform (.startGuard "g" (settings "a") ⟨[]⟩)
    failed.1 = .failed (.unusableDirectory "f") ∧ session.journal.threshold = .warning ∧
      failed.2.journal.threshold = .debug ∧ ¬ SameOutput session.journal failed.2.journal ∧
      started.1 = .opened (some "a/ckpbus.log") ∧
      ((started.2.run [.setThreshold "error"]).closeGuard "g").journal.threshold = .warning := by
  intro session settings failed started
  have refuses : failed.1 = .failed (.unusableDirectory "f") := by decide +kernel
  have opened : started.1 = .opened (some "a/ckpbus.log") := by decide +kernel
  have quiet : session.journal.threshold = .warning := rfl
  have loud : failed.2.journal.threshold = .debug := by decide +kernel
  have fresh : session.closeGuard "g" = session := rfl
  have asked : (settings "f").asked ⟨[]⟩ = .debug := rfl
  -- nothing is left to be evaluated
  clear_value session settings
  obtain ⟨-, -, unchanged_iff, -⟩ := failed_start_leaves_threshold session "g" (settings "f") ⟨[]⟩
  obtain ⟨-, -, -, restores⟩ := failed_start_leaves_threshold session "g" (settings "a") ⟨[]⟩
  rw [fresh] at unchanged_iff restores
  refine ⟨refuses, quiet, loud, fun same => ?_, opened, ?_⟩
  · have claimed := (unchanged_iff _ refuses).mp same
    rw [quiet, asked] at claimed
    cases claimed
  · have restored := restores _ [.setThreshold "error"] opened (by simp [Event.ClosesGuard])
    exact restored.1.trans quiet

end Session

end MarkerBus.Log
