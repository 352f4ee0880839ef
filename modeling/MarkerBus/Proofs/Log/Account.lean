import MarkerBus.Proofs.Log.Rotation

namespace MarkerBus.Log

variable {shelf : Shelf} {session : Session} {name : String} {file : RotatingFile} {event : Event}
  {before after : Journal}

/-- The directory that a log file is opened in, when none is given or this one is. -/
def Shelf.home (shelf : Shelf) (directory : String) : String :=
  if directory = "" then FileTree.originPath { origin := shelf.origin } else directory

theorem originPath_eq {tree : FileTree} (origin : tree.origin = shelf.origin) (directory : String) :
    (if directory = "" then tree.originPath else directory) = shelf.home directory := by
  rw [Shelf.home, FileTree.originPath, FileTree.originPath, origin]

theorem Shelf.Ready.origin {tree : FileTree} (ready : shelf.Ready tree) :
    tree.origin = shelf.origin :=
  (FileTree.grows_makeDirectories tree shelf.directory).origin.symm.trans ready.stands.origin

theorem Works.congr (works : Works shelf file before) (target : after.target? = before.target?)
    (files : after.files = before.files) : Works shelf file after := by
  obtain ⟨on, handle, has, aimed, appends⟩ := works
  exact ⟨on, handle, has, target.trans aimed, files ▸ appends⟩

namespace Session

/-- The events that open log files on the shelf only, and only while no other is
open, and do nothing else with the target of the journal. -/
def Tends (session : Session) (shelf : Shelf) : Event → Prop
  | .openFile name directory policy =>
      shelf.home directory = shelf.directory ∧ policy.maxFiles = shelf.count ∧
        ∀ other, other ≠ name → session.files.get? other = none
  | .rotateFile _ | .rotateFileIfDue _ | .closeFile _ | .elapse | .adopt _ => True
  | event => event.Speaks

def TendsAll (session : Session) (shelf : Shelf) : List Event → Prop
  | [] => True
  | event :: rest => session.Tends shelf event ∧ (session.perform event).2.TendsAll shelf rest

/-- Does the event rotate a log file? -/
def rotates (session : Session) : Event → Bool
  | .rotateFile name => (session.files.get? name).isSome
  | .rotateFileIfDue name => (session.files.get? name).any (·.isDue session.journal.files)
  | .elapse => session.files.entries.any fun (_, file) => file.comesDue session.journal.files
  | _ => false

theorem rotates_of_speaks (session : Session) (speaks : event.Speaks) :
    session.rotates event = false := by
  cases event with
  | start | write | finish | log | logIndented | stream | setLevel | flush | indent | dedent
  | setTee | setThreshold => rfl
  | adopt | openFile | rotateFile | rotateFileIfDue | closeFile | startSetup | stopSetup
  | rotateSetup | closeSetup | startGuard | closeGuard | elapse => cases speaks

/-- What the lines of an event leave, if a log file is open. -/
def writes (session : Session) (event : Event) : ByteArray :=
  if session.files.entries.isEmpty then .empty else recordAll (session.lines event)

/-- What is in the last slot, if the event is a rotation. -/
def loses (session : Session) (shelf : Shelf) (event : Event) : ByteArray :=
  if session.rotates event then shelf.oldest session.journal.files else .empty

def written (session : Session) : List Event → ByteArray
  | [] => .empty
  | event :: rest => session.writes event ++ (session.perform event).2.written rest

def lost (session : Session) (shelf : Shelf) : List Event → ByteArray
  | [] => .empty
  | event :: rest => session.loses shelf event ++ (session.perform event).2.lost shelf rest

/-- Nothing is alive, and a log file can be opened on the shelf. -/
structure Idle (shelf : Shelf) (session : Session) : Prop where
  files : session.files = {}
  setups : session.setups = {}
  guards : session.guards = {}
  silent : session.journal.target? = none
  ready : shelf.Ready session.journal.files

/-- Nothing is alive but one log file, which works. -/
structure Busy (shelf : Shelf) (name : String) (file : RotatingFile) (session : Session) :
    Prop where
  files : session.files = ⟨[(name, file)]⟩
  setups : session.setups = {}
  guards : session.guards = {}
  works : Works shelf file session.journal

def Tended (shelf : Shelf) (session : Session) : Prop :=
  session.Idle shelf ∨ ∃ name file, session.Busy shelf name file

theorem get?_singleton (name : String) (file : RotatingFile) (other : String) :
    Named.get? ⟨[(name, file)]⟩ other = if other = name then some file else none := by
  by_cases same : other = name
  · simp [Named.get?, same]
  · simp [Named.get?, List.lookup_cons, same, beq_eq_false_iff_ne.mpr same]

theorem Tended.idle_of_unknown (tended : session.Tended shelf)
    (unknown : ∀ name, session.files.get? name = none) : session.Idle shelf := by
  rcases tended with idle | ⟨name, file, busy⟩
  · exact idle
  · have known := unknown name
    rw [busy.files, get?_singleton, if_pos rfl] at known
    cases known

theorem Tended.busy_of_known (tended : session.Tended shelf)
    (known : session.files.get? name = some file) : session.Busy shelf name file := by
  rcases tended with idle | ⟨other, held, busy⟩
  · rw [idle.files] at known
    cases known
  · rw [busy.files, get?_singleton] at known
    split at known
    · cases known
      subst name
      exact busy
    · cases known

/-- What an event makes of a tended session: it is tended again, and every byte is
accounted for. -/
structure Accounts (shelf : Shelf) (session : Session) (event : Event) (after : Session) :
    Prop where
  tended : after.Tended shelf
  bytes : shelf.whole session.journal.files ++ session.writes event =
    session.loses shelf event ++ shelf.whole after.journal.files

/-- Most events neither say anything nor rotate. -/
theorem accounts_of_quiet {after : Session} (tended : after.Tended shelf)
    (silent : ¬ event.Speaks) (stays : session.rotates event = false)
    (same : shelf.whole after.journal.files = shelf.whole session.journal.files) :
    session.Accounts shelf event after := by
  refine ⟨tended, ?_⟩
  rw [writes, loses, lines_eq_nil silent, stays, same, recordAll, ite_self, ByteArray.append_empty]
  exact ByteArray.empty_append.symm

theorem Tended.accounts_of_speaks (tended : session.Tended shelf) (speaks : event.Speaks) :
    session.Accounts shelf event (session.perform event).2 := by
  have said : Says session.journal _ _ := says_perform speaks
  obtain ⟨files, setups, guards⟩ := perform_of_speaks session speaks
  have stays := session.rotates_of_speaks speaks
  rcases tended with idle | ⟨name, file, busy⟩
  · have unchanged := said.files
    rw [idle.silent] at unchanged
    refine ⟨.inl ⟨files.trans idle.files, setups.trans idle.setups, guards.trans idle.guards,
      said.target.trans idle.silent, unchanged ▸ idle.ready⟩, ?_⟩
    rw [writes, loses, idle.files, stays, unchanged]
    simp
  · obtain ⟨working, whole⟩ := busy.works.of_said said
    refine ⟨.inr ⟨name, file, files.trans busy.files, setups.trans busy.setups,
      guards.trans busy.guards, working⟩, ?_⟩
    rw [writes, loses, busy.files, stays, whole]
    simp

theorem Tended.accounts_adopt (tended : session.Tended shelf) (environment : Environment) :
    session.Accounts shelf (.adopt environment) (session.perform (.adopt environment)).2 := by
  obtain ⟨target, files⟩ := Desk.files_adopt session.journal environment
  refine accounts_of_quiet ?_ id rfl (congrArg shelf.whole files)
  rcases tended with idle | ⟨name, file, busy⟩
  · exact .inl ⟨idle.files, idle.setups, idle.guards, target.trans idle.silent,
      files.symm ▸ idle.ready⟩
  · exact .inr ⟨name, file, busy.files, busy.setups, busy.guards, busy.works.congr target files⟩

theorem get?_closeFile (session : Session) (name : String) :
    (session.closeFile name).files.get? = Function.update session.files.get? name none := by
  unfold closeFile
  split
  · rename_i unknown
    rw [← unknown, Function.update_eq_self]
  · exact get?_erase session.files name

/-- A log file that is closed leaves its shelf as it is. -/
theorem Tended.closeFile (tended : session.Tended shelf) (name : String) :
    (session.closeFile name).Tended shelf ∧
      shelf.whole (session.closeFile name).journal.files = shelf.whole session.journal.files := by
  unfold Session.closeFile
  split
  · exact ⟨tended, rfl⟩
  · rename_i file known
    have busy := tended.busy_of_known known
    have files := RotatingFile.files_close file session.journal
    obtain ⟨closed, same⟩ := RotatingFile.stands_closing busy.works.stands file
    refine ⟨.inl ⟨?_, busy.setups, busy.guards, RotatingFile.drops_close.target, ?_⟩, ?_⟩
    · simp [busy.files, Named.erase]
    · exact files.symm ▸ closed.ready
    · exact (congrArg shelf.whole files).trans (congrArg (trail · shelf.count) same)

/-- A log file that is opened in place of another finds what that one left. -/
theorem Tended.accounts_openFile {directory : String} {policy : RotationPolicy}
    (tended : session.Tended shelf)
    (tends : session.Tends shelf (.openFile name directory policy)) :
    session.Accounts shelf (.openFile name directory policy)
      (session.perform (.openFile name directory policy)).2 := by
  obtain ⟨home, keeps, alone⟩ := tends
  obtain ⟨closed, same⟩ := tended.closeFile name
  have idle : (session.closeFile name).Idle shelf := closed.idle_of_unknown fun other => by
    rw [get?_closeFile]
    by_cases own : other = name
    · rw [own, Function.update_self]
    · rw [Function.update_of_ne own, alone other own]
  obtain ⟨file, after, created, works, kept⟩ := RotatingFile.create_works idle.ready
    ((originPath_eq idle.ready.origin directory).trans home) keeps
  have opened : (session.openFile name directory policy).2 = { session.closeFile name with
      journal := after, files := (session.closeFile name).files.insert name file } := by
    unfold openFile
    dsimp only
    rw [created]
  refine accounts_of_quiet (.inr ⟨name, file, ?_⟩) id rfl ?_ <;> rw [perform, opened]
  · exact ⟨by simp [idle.files, Named.insert, Named.erase], idle.setups, idle.guards, works⟩
  · exact kept.trans same

/-- A log file that goes on working, or is rotated. -/
theorem Busy.accounts_of_passes {rotated : Bool} {changed : RotatingFile} {journal : Journal}
    (busy : session.Busy shelf name file)
    (passes : Passes shelf session.journal rotated changed journal) (silent : ¬ event.Speaks)
    (rotates : session.rotates event = rotated) :
    session.Accounts shelf event
      { session with journal, files := session.files.insert name changed } := by
  refine ⟨.inr ⟨name, changed, ?_, busy.setups, busy.guards, passes.works⟩, ?_⟩
  · simp [busy.files, Named.insert, Named.erase]
  · rw [writes, loses, lines_eq_nil silent, rotates, recordAll, ite_self, ByteArray.append_empty]
    exact passes.bytes

theorem Tended.accounts_onFile {α : Type} {operation : RotatingFile → Journal → FileOutcome α}
    {respond : α → Response} {due : RotatingFile → Bool} (tended : session.Tended shelf)
    (silent : ¬ event.Speaks) (name : String)
    (rotates : session.rotates event = (session.files.get? name).any due)
    (passes : ∀ file, Works shelf file session.journal →
      Passes shelf session.journal (due file) (operation file session.journal).file
        (operation file session.journal).journal) :
    session.Accounts shelf event (session.onFile name operation respond).2 := by
  unfold onFile
  cases known : session.files.get? name with
  | none => exact accounts_of_quiet tended silent (by rw [rotates, known]; rfl) rfl
  | some file =>
      have busy := tended.busy_of_known known
      exact busy.accounts_of_passes (passes file busy.works) silent (by rw [rotates, known]; rfl)

theorem Tended.accounts_elapse (tended : session.Tended shelf) (positive : 0 < shelf.count) :
    session.Accounts shelf .elapse (session.perform .elapse).2 := by
  rcases tended with idle | ⟨name, file, busy⟩
  · have unheld : session.holders = [] := by
      simp [holders, idle.files, idle.setups, idle.guards]
    have same : (session.perform .elapse).2 = session := by
      rw [perform, elapse, unheld]
      rfl
    rw [same]
    exact accounts_of_quiet (.inl idle) id (by rw [rotates, idle.files]; rfl) rfl
  · have held : session.holders = [.file name] := by
      simp [holders, busy.files, busy.setups, busy.guards]
    have known : session.files.get? name = some file := by
      rw [busy.files, get?_singleton, if_pos rfl]
    have reached : (session.perform .elapse).2 = { session with
        journal := (file.elapse session.journal).2
        files := session.files.insert name (file.elapse session.journal).1 } := by
      simp only [perform, elapse, held, List.foldl_cons, List.foldl_nil, elapseFor, known]
    rw [reached]
    exact busy.accounts_of_passes (RotatingFile.passes_elapse busy.works positive) id
      (by simp [rotates, busy.files])

theorem Tended.accounts_perform (tended : session.Tended shelf) (positive : 0 < shelf.count)
    (tends : session.Tends shelf event) :
    session.Accounts shelf event (session.perform event).2 := by
  cases event with
  | openFile name directory policy => exact tended.accounts_openFile tends
  | rotateFile name =>
      have always : session.rotates (.rotateFile name) =
          (session.files.get? name).any fun _ => true := by
        cases known : session.files.get? name <;> rw [rotates, known] <;> rfl
      exact tended.accounts_onFile id name always fun _ works =>
        RotatingFile.passes_rotate works positive
  | rotateFileIfDue name =>
      exact tended.accounts_onFile id name rfl fun _ works =>
        RotatingFile.passes_rotateIfDue works positive
  | closeFile name =>
      obtain ⟨closed, same⟩ := tended.closeFile name
      exact accounts_of_quiet closed id rfl same
  | elapse => exact tended.accounts_elapse positive
  | adopt environment => exact tended.accounts_adopt environment
  | startSetup | stopSetup | rotateSetup | closeSetup | startGuard | closeGuard => cases tends
  | start | write | finish | log | logIndented | stream | setLevel | flush | indent | dedent
  | setTee | setThreshold => exact tended.accounts_of_speaks trivial

theorem Tended.run (tended : session.Tended shelf) (positive : 0 < shelf.count)
    {events : List Event} (tends : session.TendsAll shelf events) :
    (session.run events).Tended shelf ∧
      shelf.whole session.journal.files ++ session.written events =
        session.lost shelf events ++ shelf.whole (session.run events).journal.files := by
  induction events generalizing session with
  | nil => exact ⟨tended, ByteArray.append_empty.trans ByteArray.empty_append.symm⟩
  | cons event rest ih =>
      obtain ⟨now, later⟩ := tends
      obtain ⟨next, step⟩ := tended.accounts_perform positive now
      obtain ⟨last, steps⟩ := ih next later
      refine ⟨last, ?_⟩
      calc shelf.whole session.journal.files ++ session.written (event :: rest)
        _ = shelf.whole session.journal.files ++ session.writes event ++
              (session.perform event).2.written rest := by rw [written, ByteArray.append_assoc]
        _ = session.loses shelf event ++ (shelf.whole (session.perform event).2.journal.files ++
              (session.perform event).2.written rest) := by rw [step, ByteArray.append_assoc]
        _ = session.lost shelf (event :: rest) ++
              shelf.whole (session.run (event :: rest)).journal.files := by
          rw [steps, lost, ByteArray.append_assoc]
          rfl

/-- Rotation loses the oldest files and nothing else.  At every moment, those in the
middle of a rotation included, what is on the shelf is what was there at first and
all that was written since, less whole files that stood in the last slot when a
rotation came. -/
theorem rotation_loses_oldest_only (tended : session.Tended shelf) (positive : 0 < shelf.count)
    {events : List Event} (tends : session.TendsAll shelf events) :
    let after := session.run events
    let files := after.journal.files
    shelf.whole session.journal.files ++ session.written events =
        session.lost shelf events ++ shelf.whole files ∧
      ∀ name file, after.files.get? name = some file → ∀ done,
        shelf.whole session.journal.files ++ session.written events =
          session.lost shelf events ++ (if done = 0 then .empty else shelf.oldest files) ++
            shelf.whole (callAll (file.calls.take done) files) := by
  obtain ⟨last, bytes⟩ := tended.run positive tends
  refine ⟨bytes, fun name file known done => ?_⟩
  have works := (last.busy_of_known known).works
  rw [ByteArray.append_assoc, ← (works.on.stands_calls works.stands positive done).2]
  exact bytes

/-- A log file is rotated twice where one is in the last slot and none in the first. -/
theorem filled_shelf_loses_old :
    let place := Location.root.child "a"
    let start := ((({} : FileTree).insert place .directory).insertFile
      (place.child (slot 2))).modify 0 (· ++ "old".toUTF8)
    let shelf : Shelf := { origin := .root, directory := "a", place, count := 2 }
    let session : Session := { journal := { clock := "t", files := start } }
    let log (line : String) : Event := .log .warning [.text line]
    let events : List Event := [.openFile "m" "a" { maxFiles := 2 }, log "x", .rotateFile "m",
      log "y", .closeFile "m", .openFile "n" "a" { maxFiles := 2 }, .rotateFile "n"]
    let files := (session.run events).journal.files
    session.Tended shelf ∧ 0 < shelf.count ∧ session.TendsAll shelf events ∧
      session.lost shelf events = "old".toUTF8 ∧
      "old".toUTF8 ++ session.written events = "old".toUTF8 ++ shelf.whole files := by
  intro place start shelf session log events files
  have sound : start.Sound :=
    ((FileTree.sound_empty.insert FileTree.entry?_root rfl).insertFile rfl rfl).modify 0 _
  have stated : start.stat "a" = .ok (place, .directory) := rfl
  have stands : shelf.Stands start :=
    .of_checked sound rfl stated (by decide +kernel) (by decide +kernel)
  have tended : session.Tended shelf := .inl ⟨rfl, rfl, rfl, rfl, stands.ready⟩
  have whole : shelf.whole start = "old".toUTF8 := by decide +kernel
  have lost : session.lost shelf events = "old".toUTF8 := by decide +kernel
  -- nobody has a log file when the second one is opened
  have closed : (session.run (events.take 5)).files = {} := by decide +kernel
  have tends : session.TendsAll shelf events := by
    refine ⟨⟨rfl, rfl, fun _ _ => rfl⟩, trivial, trivial, trivial, trivial,
      ⟨rfl, rfl, fun other _ => ?_⟩, trivial, trivial⟩
    change Named.get? (session.run (events.take 5)).files other = none
    rw [closed]
    rfl
  have bytes := (rotation_loses_oldest_only tended Nat.two_pos tends).1
  rw [lost] at bytes
  exact ⟨tended, Nat.two_pos, tends, lost, whole ▸ bytes⟩

end Session

end MarkerBus.Log
