import MarkerBus.Proofs.Log.Account

namespace MarkerBus.Log

variable {shelf : Shelf} {tree middle after : FileTree} {entries : Nat → Option FileTree.Entry}
  {file : RotatingFile} {before journal : Journal} {session : Session} {name : String}
  {event : Event} {number first last limit : Nat}

/-- The slots behind the first one, up to the last, take what was in the one before,
and the first one is left vacant. -/
def shifted (first last : Nat) (entries : Nat → Option FileTree.Entry) (number : Nat) :
    Option FileTree.Entry :=
  if number = first then none
  else if first < number ∧ number ≤ last then entries (number - 1)
  else entries number

theorem shifted_beyond (within : first ≤ last) (beyond : last < number) :
    shifted first last entries number = entries number := by
  rw [shifted, if_neg (by omega), if_neg (by omega)]

theorem shifted_succ (within : number < limit) :
    shifted 0 limit entries (number + 1) = entries number := by
  rw [shifted, if_neg (Nat.succ_ne_zero number), if_pos ⟨Nat.succ_pos number, within⟩,
    Nat.add_sub_cancel]

theorem shifted_self (vacant : entries first = none) : shifted first first entries = entries := by
  funext number
  unfold shifted
  split
  · rename_i same
    rw [same, vacant]
  · rw [if_neg (by omega)]

theorem shifted_zero : shifted 0 0 entries = Function.update entries 0 none := by
  funext number
  cases number with
  | zero => rw [Function.update_self]; rfl
  | succ number =>
      rw [shifted_beyond (Nat.le_refl 0) (Nat.succ_pos number),
        Function.update_of_ne (Nat.succ_ne_zero number)]

/-- One move out of many: the slot before the last gives the last one what it has. -/
theorem shifted_move (below : first ≤ last) :
    shifted first last
        (Function.update (Function.update entries (last + 1) (entries last)) last none) =
      shifted first (last + 1) entries := by
  funext number
  by_cases moved : number = last + 1
  · rw [moved, shifted, shifted, if_neg (by omega), if_neg (by omega), if_neg (by omega),
      if_pos (by omega), Function.update_of_ne (by omega), Function.update_self, Nat.add_sub_cancel]
  · unfold shifted
    split
    · rfl
    · by_cases inside : first < number ∧ number ≤ last
      · rw [if_pos inside, if_pos (by omega), Function.update_of_ne (by omega),
          Function.update_of_ne (by omega)]
      · rw [if_neg inside, if_neg (by omega), Function.update_of_ne (by omega),
          Function.update_of_ne moved]

theorem shifted_discard (within : first ≤ last) :
    shifted first last (Function.update entries last none) = shifted first last entries := by
  funext number
  unfold shifted
  split
  · rfl
  · split
    · rw [Function.update_of_ne (by omega)]
    · rw [Function.update_of_ne (by omega)]

/-- The last move takes the current file aside. -/
theorem shifted_first (positive : 0 < limit) :
    Function.update (Function.update (shifted 1 limit entries) 1 (shifted 1 limit entries 0)) 0
      none = shifted 0 limit entries := by
  funext number
  match number with
  | 0 => rw [Function.update_self]; rfl
  | 1 =>
      rw [Function.update_of_ne (Nat.succ_ne_zero 0), Function.update_self, shifted_succ positive]
      rfl
  | number + 2 =>
      have apart : number + 2 ≠ 1 := by omega
      rw [Function.update_of_ne (Nat.succ_ne_zero _), Function.update_of_ne apart, shifted, shifted,
        if_neg apart, if_neg (Nat.succ_ne_zero _)]
      exact if_congr (by omega) rfl rfl

namespace Shelf

/-- Is there a file in the slot? -/
def taken (shelf : Shelf) (tree : FileTree) (number : Nat) : Bool :=
  (shelf.slots tree number).isSome

/-- The shelf still stands, and beyond its last slot nothing has come or gone. -/
structure Spares (shelf : Shelf) (tree after : FileTree) : Prop where
  stands : shelf.Stands after
  beyond : ∀ number, shelf.count < number → shelf.taken after number = shelf.taken tree number

namespace Spares

theorem refl (stands : shelf.Stands tree) : shelf.Spares tree tree :=
  ⟨stands, fun _ _ => rfl⟩

theorem trans (first : shelf.Spares tree middle) (second : shelf.Spares middle after) :
    shelf.Spares tree after :=
  ⟨second.stands, fun number beyond =>
    (second.beyond number beyond).trans (first.beyond number beyond)⟩

/-- Handles are not part of the shelf. -/
theorem congr (spares : shelf.Spares tree middle) (entries : after.entries = middle.entries)
    (origin : after.origin = middle.origin) (files : after.files = middle.files) :
    shelf.Spares tree after := by
  obtain ⟨stood, same⟩ := spares.stands.congr entries origin files
  exact ⟨stood, fun number beyond => by rw [taken, same]; exact spares.beyond number beyond⟩

end Spares

namespace Stands

variable (stands : shelf.Stands tree)

include stands

/-- Whichever file is modified, it stays where it is. -/
theorem spares_modify (file : Nat) (change : ByteArray → ByteArray) :
    shelf.Spares tree (tree.modify file change) := by
  have keeps : tree.Keeps (tree.modify file change) := FileTree.keeps_modify file change
  have modified (number : Nat) : shelf.slots (tree.modify file change) number =
      (shelf.slots tree number).map (FileTree.Entry.modified file change) :=
    FileTree.entry?_modify
  refine ⟨⟨stands.sound.modify file change, keeps.origin.trans stands.origin,
    keeps.stat stands.stated, fun number within entry held => ?_, stands.admits⟩,
    fun number _ => by rw [taken, modified, Option.isSome_map, taken]⟩
  rw [modified] at held
  rcases stands.vacant_or_regular within with vacant | ⟨known, content, regular⟩
  · rw [vacant] at held
    cases held
  · rw [regular, Option.map_some, FileTree.Entry.modified] at held
    split at held <;> exact Option.some.inj held ▸ rfl

theorem spares_write (handle : Nat) (bytes : ByteArray) :
    shelf.Spares tree (tree.write handle bytes) := by
  unfold FileTree.write
  split
  · exact .refl stands
  · exact stands.spares_modify _ _
  · exact (stands.spares_modify _ _).congr rfl rfl rfl

theorem spares_lines (handle : Nat) (lines : List String) : shelf.Spares tree
    (lines.foldl (fun files line => files.write handle (record line)) tree) := by
  induction lines generalizing tree with
  | nil => exact .refl stands
  | cons line rest ih =>
      have written := stands.spares_write handle (record line)
      exact written.trans (ih written.stands)

omit stands in
theorem spares_said {lines : List String} (stands : shelf.Stands before.files)
    (said : Says before lines journal) : shelf.Spares before.files journal.files := by
  rw [said.files]
  cases before.target? with
  | none => exact .refl stands
  | some handle => exact stands.spares_lines handle lines

end Stands

/-- A log file with this limit has been rotated. -/
structure Rotated (shelf : Shelf) (limit : Nat) (tree after : FileTree) : Prop where
  stands : shelf.Stands after
  slots : ∃ file, shelf.slots after =
    Function.update (shifted 0 limit (shelf.slots tree)) 0 (some (.regular file .empty))

namespace Rotated

variable (rotated : shelf.Rotated limit tree after)

include rotated

theorem current : ∃ file, shelf.slots after 0 = some (.regular file .empty) := by
  obtain ⟨file, slots⟩ := rotated.slots
  exact ⟨file, by rw [slots, Function.update_self]⟩

theorem next (within : number < limit) :
    shelf.slots after (number + 1) = shelf.slots tree number := by
  obtain ⟨file, slots⟩ := rotated.slots
  rw [slots, Function.update_of_ne (Nat.succ_ne_zero number), shifted_succ within]

/-- What is beyond the limit stays, as long as it has been there. -/
theorem beyond (beyond : limit < number) : shelf.slots after number = shelf.slots tree number := by
  obtain ⟨file, slots⟩ := rotated.slots
  rw [slots, Function.update_of_ne (Nat.ne_zero_of_lt beyond),
    shifted_beyond (Nat.zero_le limit) beyond]

theorem spares (within : limit ≤ shelf.count) : shelf.Spares tree after :=
  ⟨rotated.stands, fun number beyond => by
    rw [taken, rotated.beyond (Nat.lt_of_le_of_lt within beyond), taken]⟩

end Rotated

end Shelf

namespace RotatingFile

/-- The file is the current one of the shelf, and none of its slots is beyond the last. -/
structure Fits (file : RotatingFile) (shelf : Shelf) : Prop where
  path : file.path = shelf.path 0
  within : file.policy.maxFiles ≤ shelf.count

namespace Fits

variable (fits : file.Fits shelf)

include fits

theorem generation_eq (number : Nat) : file.generation (number + 1) = shelf.path (number + 1) := by
  have on : file.On { shelf with count := file.policy.maxFiles } := ⟨fits.path, rfl⟩
  exact on.generation_eq number

/-- The moves from the last slot down, which is vacant, to the first. -/
theorem slots_pushes (stands : shelf.Stands tree) (within : number + 1 ≤ shelf.count)
    (vacant : shelf.slots tree (number + 1) = none) :
    let moved := callAll (file.pushes (number + 1)) tree
    shelf.Stands moved ∧ shelf.slots moved = shifted 1 (number + 1) (shelf.slots tree) := by
  induction number generalizing tree with
  | zero => exact ⟨stands, (shifted_self vacant).symm⟩
  | succ number ih =>
      -- the first move leaves the slot below vacant, which is the last one of the rest
      obtain ⟨moved, changed⟩ := stands.displace_slot within vacant
      have left := congrFun changed (number + 1)
      rw [Function.update_self] at left
      obtain ⟨stood, slots⟩ := ih moved (Nat.le_of_succ_le within) left
      change shelf.Stands (callAll _ (pushOn _ _ tree)) ∧
        shelf.slots (callAll _ (pushOn _ _ tree)) = _
      rw [fits.generation_eq, fits.generation_eq, stands.pushOn_eq within]
      exact ⟨stood, slots.trans (by rw [changed, shifted_move (Nat.succ_pos number)])⟩

/-- What a rotation that keeps files does before it opens the new one. -/
theorem slots_calls (stands : shelf.Stands tree) (positive : 0 < file.policy.maxFiles) :
    shelf.Stands (callAll file.calls tree) ∧
      shelf.slots (callAll file.calls tree) =
        shifted 0 file.policy.maxFiles (shelf.slots tree) := by
  obtain ⟨number, last⟩ := Nat.exists_eq_succ_of_ne_zero positive.ne'
  have within : number + 1 ≤ shelf.count := Nat.le_trans last.ge fits.within
  obtain ⟨discarded, vacant⟩ := stands.discard_slot within
  have left := congrFun vacant (number + 1)
  rw [Function.update_self] at left
  obtain ⟨moved, slots⟩ := fits.slots_pushes discarded within left
  rw [vacant, shifted_discard (Nat.succ_pos number)] at slots
  -- by now the first slot is vacant, and the current file moves there
  obtain ⟨closed, same⟩ := stands_closing moved file
  obtain ⟨aside, changed⟩ := closed.displace_slot (Nat.le_trans (Nat.succ_pos number) within)
    (by rw [same, slots]; rfl)
  rw [same, slots, shifted_first (Nat.succ_pos number)] at changed
  rw [calls, last, callAll, List.foldl_cons, ← callAll, callAll_append, fits.path,
    fits.generation_eq, fits.generation_eq]
  exact ⟨aside, changed⟩

theorem reopen (stands : shelf.Stands journal.files) (mode : FileTree.Mode) :
    let opened := file.reopen mode journal
    opened.result = .ok () ∧ opened.file.Fits shelf ∧ shelf.Stands opened.journal.files ∧
      ∃ number, shelf.slots opened.journal.files = Function.update (shelf.slots journal.files) 0
        (some (.regular number
          (if mode = .truncate then .empty else contentOf (shelf.slots journal.files 0)))) := by
  obtain ⟨files, number, opened, _, _, stood, slots⟩ := stands.openFile_slots mode
  dsimp only
  unfold RotatingFile.reopen
  rw [fits.path, opened]
  dsimp only
  rw [release_fst]
  unfold release
  cases file.handle? with
  | none => exact ⟨rfl, ⟨fits.path, fits.within⟩, stood, number, slots⟩
  | some old =>
      obtain ⟨closed, same⟩ : shelf.Stands (files.close old) ∧ _ := stood.congr rfl rfl rfl
      exact ⟨rfl, ⟨fits.path, fits.within⟩, closed, number, same.trans slots⟩

/-- Rotation goes by the limit of the file, also if that is zero. -/
theorem rotate (stands : shelf.Stands journal.files) :
    let rotated := file.rotate journal
    rotated.result = .ok () ∧ rotated.file.Fits shelf ∧
      shelf.Rotated file.policy.maxFiles journal.files rotated.journal.files := by
  dsimp only
  by_cases zero : file.policy.maxFiles = 0
  · unfold RotatingFile.rotate
    rw [if_pos zero, zero]
    obtain ⟨result, still, stood, number, slots⟩ := fits.reopen stands .truncate
    exact ⟨result, still, stood, number, by rw [slots, shifted_zero, Function.update_idem]; rfl⟩
  · obtain ⟨cleared, files, same⟩ := rotate_eq file journal zero
    obtain ⟨called, moved⟩ := fits.slots_calls stands (Nat.pos_of_ne_zero zero)
    rw [← files] at called moved
    have closed : Fits { file with handle? := none } shelf := ⟨fits.path, fits.within⟩
    obtain ⟨result, still, stood, number, slots⟩ := closed.reopen called .append
    rw [same]
    exact ⟨result, still, stood, number, by rw [slots, moved]; rfl⟩

/-- Only how the file is reached and its limit matter, not when it is checked next. -/
theorem waits (untilCheck : Nat) : Fits { file with untilCheck } shelf :=
  ⟨fits.path, fits.within⟩

end Fits

/-- The log file goes on, and what is beyond the last slot has been spared. -/
structure Continues (shelf : Shelf) (before : Journal) (file : RotatingFile) (after : Journal) :
    Prop where
  fits : file.Fits shelf
  spares : shelf.Spares before.files after.files

theorem continues_create {directory : String} {policy : RotationPolicy}
    (stands : shelf.Stands journal.files)
    (home : (if directory = "" then journal.files.originPath else directory) = shelf.directory)
    (within : policy.maxFiles ≤ shelf.count) :
    ∃ file after, create directory policy journal = (.ok file, after) ∧
      Continues shelf journal file after := by
  have there : journal.files.isDirectoryAt shelf.directory = true := by
    rw [FileTree.isDirectoryAt, stands.stated]
    rfl
  let fresh : RotatingFile := {
    path := Path.join shelf.directory fileName
    policy
    seniority := journal.files.opened
    untilCheck := policy.period }
  have fits : fresh.Fits shelf := ⟨rfl, within⟩
  obtain ⟨opened, still, stood, number, slots⟩ := fits.reopen stands .append
  refine ⟨(fresh.reopen .append journal).file, (fresh.reopen .append journal).journal, ?_, still,
    stood, fun other beyond => ?_⟩
  · rw [create_startable]
    unfold openIn
    simp only [home, FileTree.makeDirectories_of_stat stands.stated, there, Bool.not_true,
      Bool.false_eq_true, if_false]
    rw [opened]
    rfl
  · rw [Shelf.taken, slots, Function.update_of_ne (Nat.ne_zero_of_lt beyond), Shelf.taken]

variable (fits : file.Fits shelf) (stands : shelf.Stands journal.files)

include fits stands

theorem continues_rotate : Continues shelf journal (file.rotate journal).file
    (file.rotate journal).journal := by
  obtain ⟨_, still, rotated⟩ := fits.rotate stands
  exact ⟨still, rotated.spares fits.within⟩

theorem continues_rotateIfDue : Continues shelf journal (file.rotateIfDue journal).file
    (file.rotateIfDue journal).journal := by
  unfold rotateIfDue
  split
  · exact continues_rotate fits stands
  · exact ⟨fits, .refl stands⟩

theorem continues_check : Continues shelf journal (file.check journal).1
    (file.check journal).2 := by
  obtain ⟨still, spares⟩ := continues_rotateIfDue fits stands
  unfold check
  dsimp only
  split <;> exact ⟨still, spares⟩

theorem continues_elapse : Continues shelf journal (file.elapse journal).1
    (file.elapse journal).2 := by
  unfold elapse
  split
  · exact ⟨fits, .refl stands⟩
  · split
    · exact ⟨fits.waits _, .refl stands⟩
    · obtain ⟨still, spares⟩ := continues_check fits stands
      exact ⟨still.waits _, spares⟩

end RotatingFile

/-- The events that open log files on the shelf only, each with a limit of its own. -/
def Event.Shares (shelf : Shelf) : Event → Prop
  | .openFile _ directory policy =>
      shelf.home directory = shelf.directory ∧ policy.maxFiles ≤ shelf.count
  | .rotateFile _ | .rotateFileIfDue _ | .closeFile _ | .elapse | .adopt _ => True
  | event => event.Speaks

namespace Session

/-- All log files that are alive are on the shelf. -/
structure Shared (shelf : Shelf) (session : Session) : Prop where
  stands : shelf.Stands session.journal.files
  fits : ∀ name file, session.files.get? name = some file → file.Fits shelf
  setups : session.setups = {}
  guards : session.guards = {}

structure Stays (shelf : Shelf) (session after : Session) : Prop where
  shared : after.Shared shelf
  spares : shelf.Spares session.journal.files after.journal.files

theorem Stays.trans {session middle after : Session} (first : session.Stays shelf middle)
    (second : middle.Stays shelf after) : session.Stays shelf after :=
  ⟨second.shared, first.spares.trans second.spares⟩

namespace Shared

variable (shared : session.Shared shelf)

include shared

theorem refl : session.Stays shelf session :=
  ⟨shared, .refl shared.stands⟩

theorem stays_insert {changed : RotatingFile}
    (continues : RotatingFile.Continues shelf session.journal changed journal) (name : String) :
    session.Stays shelf
      { session with journal, files := session.files.insert name changed } := by
  refine ⟨⟨continues.spares.stands, fun other file known => ?_, shared.setups, shared.guards⟩,
    continues.spares⟩
  dsimp only at known
  rw [get?_insert] at known
  by_cases own : other = name
  · rw [own, Function.update_self] at known
    exact Option.some.inj known ▸ continues.fits
  · rw [Function.update_of_ne own] at known
    exact shared.fits other file known

theorem stays_onFile {α : Type} {operation : RotatingFile → Journal → FileOutcome α}
    {respond : α → Response} (continues : ∀ file : RotatingFile, file.Fits shelf →
      RotatingFile.Continues shelf session.journal (operation file session.journal).file
        (operation file session.journal).journal) (name : String) :
    session.Stays shelf (session.onFile name operation respond).2 := by
  unfold onFile
  cases known : session.files.get? name with
  | none => exact shared.refl
  | some file => exact shared.stays_insert (continues file (shared.fits name file known)) name

theorem stays_of_speaks (speaks : event.Speaks) :
    session.Stays shelf (session.perform event).2 := by
  have spares := shared.stands.spares_said (says_perform speaks)
  obtain ⟨files, setups, guards⟩ := perform_of_speaks session speaks
  exact ⟨⟨spares.stands, files ▸ shared.fits, setups.trans shared.setups,
    guards.trans shared.guards⟩, spares⟩

theorem stays_adopt (environment : Environment) :
    session.Stays shelf (session.perform (.adopt environment)).2 := by
  obtain ⟨_, files⟩ := Desk.files_adopt session.journal environment
  have spares : shelf.Spares session.journal.files (session.journal.adopt environment).files :=
    files.symm ▸ .refl shared.stands
  exact ⟨⟨spares.stands, shared.fits, shared.setups, shared.guards⟩, spares⟩

theorem stays_closeFile (name : String) : session.Stays shelf (session.closeFile name) := by
  have named := get?_closeFile session name
  unfold closeFile at named ⊢
  cases known : session.files.get? name with
  | none => exact shared.refl
  | some file =>
      rw [known] at named
      obtain ⟨closed, same⟩ := RotatingFile.stands_closing shared.stands file
      rw [← RotatingFile.files_close] at closed same
      refine ⟨⟨closed, fun other held known => ?_, shared.setups, shared.guards⟩, closed,
        fun number _ => by rw [Shelf.taken, same, Shelf.taken]⟩
      have remains := congrFun named other
      by_cases own : other = name
      · rw [own, Function.update_self] at remains
        rw [own] at known
        cases remains.symm.trans known
      · rw [Function.update_of_ne own] at remains
        exact shared.fits other held (remains.symm.trans known)

theorem stays_openFile {directory : String} {policy : RotationPolicy}
    (home : shelf.home directory = shelf.directory) (within : policy.maxFiles ≤ shelf.count)
    (name : String) : session.Stays shelf (session.openFile name directory policy).2 := by
  have closed := shared.stays_closeFile name
  obtain ⟨file, after, created, continues⟩ := RotatingFile.continues_create closed.shared.stands
    ((originPath_eq closed.shared.stands.origin directory).trans home) within
  have opened := closed.shared.stays_insert continues name
  unfold openFile
  dsimp only
  rw [created]
  exact closed.trans opened

theorem stays_elapseFor (holder : Holder) : session.Stays shelf (session.elapseFor holder) := by
  cases holder with
  | file name =>
      unfold elapseFor
      dsimp only
      cases known : session.files.get? name with
      | none => exact shared.refl
      | some file =>
          have continues := RotatingFile.continues_elapse (shared.fits name file known)
            shared.stands
          exact shared.stays_insert continues name
  | setup name =>
      unfold elapseFor
      rw [shared.setups]
      exact shared.refl
  | guard name =>
      unfold elapseFor
      rw [shared.guards]
      exact shared.refl

theorem stays_elapse : session.Stays shelf session.elapse := by
  unfold elapse
  generalize session.holders = holders
  induction holders generalizing session with
  | nil => exact shared.refl
  | cons holder rest ih =>
      have waited := shared.stays_elapseFor holder
      exact waited.trans (ih waited.shared)

theorem stays_perform (shares : event.Shares shelf) :
    session.Stays shelf (session.perform event).2 := by
  cases event with
  | openFile name directory policy => exact shared.stays_openFile shares.1 shares.2 name
  | rotateFile name =>
      exact shared.stays_onFile
        (fun _ fits => RotatingFile.continues_rotate fits shared.stands) name
  | rotateFileIfDue name =>
      exact shared.stays_onFile
        (fun _ fits => RotatingFile.continues_rotateIfDue fits shared.stands) name
  | closeFile name => exact shared.stays_closeFile name
  | elapse => exact shared.stays_elapse
  | adopt environment => exact shared.stays_adopt environment
  | startSetup | stopSetup | rotateSetup | closeSetup | startGuard | closeGuard => cases shares
  | start | write | finish | log | logIndented | stream | setLevel | flush | indent | dedent
  | setTee | setThreshold => exact shared.stays_of_speaks trivial

theorem stays_run {events : List Event} (shares : ∀ event ∈ events, event.Shares shelf) :
    session.Stays shelf (session.run events) := by
  induction events generalizing session with
  | nil => exact shared.refl
  | cons event rest ih =>
      have stepped := shared.stays_perform (shares event List.mem_cons_self)
      exact stepped.trans
        (ih stepped.shared fun later member => shares later (List.mem_cons_of_mem event member))

end Shared

theorem perform_rotateFile (known : session.files.get? name = some file)
    (came : (file.rotate session.journal).result = .ok ()) :
    (session.perform (.rotateFile name)).1 = .nothing ∧
      (session.perform (.rotateFile name)).2.journal = (file.rotate session.journal).journal := by
  simp only [perform, onFile, known, came, and_self]

/-- A check that rotates the file does what a rotation does. -/
theorem perform_rotateFileIfDue (known : session.files.get? name = some file)
    (flagged : (session.perform (.rotateFileIfDue name)).1 = .flag true) :
    (session.perform (.rotateFileIfDue name)).2 = (session.perform (.rotateFile name)).2 := by
  simp only [perform, onFile, known, RotatingFile.rotateIfDue] at flagged ⊢
  split
  · rfl
  · rename_i due
    rw [if_neg due] at flagged
    cases flagged

/-- A rotation moves everything up to its limit one slot further, and leaves everything
beyond the limit in its place.  So there is nothing beyond the limit afterwards exactly
if there was nothing before; what an earlier log file with a higher limit left there is
not dropped.  The slots beyond the highest limit of all are never used. -/
theorem rotation_leaves_slots_beyond_limit (shared : session.Shared shelf) {events : List Event}
    (shares : ∀ event ∈ events, event.Shares shelf)
    (known : (session.run events).files.get? name = some file) :
    let before := session.run events
    let after := (before.perform (.rotateFile name)).2
    let limit := file.policy.maxFiles
    let slots (session : Session) := shelf.slots session.journal.files
    (before.perform (.rotateFile name)).1 = .nothing ∧
      (∀ checked, before.perform (.rotateFileIfDue name) = (.flag true, checked) →
        checked = after) ∧
      (∃ number, slots after 0 = some (.regular number .empty)) ∧
      (∀ number < limit, slots after (number + 1) = slots before number) ∧
      (∀ number, limit < number → slots after number = slots before number) ∧
      ((∀ number, limit < number → slots after number = none) ↔
        ∀ number, limit < number → slots before number = none) ∧
      ∀ number, shelf.count < number →
        (slots before number).isSome = (slots session number).isSome := by
  obtain ⟨⟨stands, fits, _, _⟩, spares⟩ := shared.stays_run shares
  obtain ⟨came, _, rotated⟩ := (fits name file known).rotate stands
  obtain ⟨response, same⟩ := perform_rotateFile known came
  rw [← same] at rotated
  refine ⟨response, fun checked flagged => ?_, rotated.current, fun _ => rotated.next,
    fun _ => rotated.beyond, ?_, spares.beyond⟩
  · have due := perform_rotateFileIfDue known (congrArg Prod.fst flagged)
    rwa [flagged] at due
  · exact forall₂_congr fun number beyond => Eq.congr_left (rotated.beyond beyond)

/-- A log file with a limit of two is followed by one with a limit of one. -/
theorem lowered_limit_leaves_file :
    let place := Location.root.child "a"
    let shelf : Shelf := { origin := .root, directory := "a", place, count := 2 }
    let start := ({} : FileTree).insert place .directory
    let session : Session := { journal := { clock := "t", files := start } }
    let events : List Event := [.openFile "m" "a" { maxFiles := 2 }, .rotateFile "m",
      .rotateFile "m", .closeFile "m", .openFile "n" "a" { maxFiles := 1 }]
    let before := session.run events
    let after := (before.perform (.rotateFile "n")).2
    session.Shared shelf ∧ (∀ event ∈ events, event.Shares shelf) ∧
      (∃ file, before.files.get? "n" = some file ∧ file.policy.maxFiles = 1) ∧
      slot 2 = "ckpbus.log.2" ∧ (shelf.slots after.journal.files 2).isSome = true := by
  intro place shelf start session events before after
  have sound : start.Sound := FileTree.sound_empty.insert FileTree.entry?_root rfl
  have stated : start.stat "a" = .ok (place, .directory) := rfl
  have stands : shelf.Stands start :=
    .of_checked sound rfl stated (by decide +kernel) (by decide +kernel)
  have shared : session.Shared shelf := ⟨stands, nofun, rfl, rfl⟩
  have shares : ∀ event ∈ events, event.Shares shelf := by
    simp [events, Event.Shares, Shelf.home, shelf]
  have held : (before.files.get? "n").map (·.policy.maxFiles) = some 1 := by decide +kernel
  have left : (shelf.slots before.journal.files 2).isSome = true := by decide +kernel
  have named : slot 2 = "ckpbus.log.2" := by decide +kernel
  -- nothing is left to be evaluated
  clear_value events session start shelf
  obtain ⟨file, known, limit⟩ := Option.map_eq_some_iff.mp held
  have beyond := (rotation_leaves_slots_beyond_limit shared shares known).2.2.2.2.1 2 (by omega)
  exact ⟨shared, shares, ⟨file, known, limit⟩, named, (congrArg Option.isSome beyond).trans left⟩

end Session

end MarkerBus.Log
