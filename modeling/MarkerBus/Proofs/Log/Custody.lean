import MarkerBus.Proofs.FileTree.Handles
import MarkerBus.Proofs.Log.Desk

namespace MarkerBus.Log

/-! Who has which handle.

A log file has a handle of its own as long as it is open.  Opening it takes the
next handle and closes the one it had before; giving it up closes its handle.  So
every handle that was ever given out is either closed, and was closed once, or
belongs to one owner, and the journal's target is one of those.  The owner is a
holder, or nobody, where the log file failed after it had taken the handle.
-/

variable {before middle after journal : Journal} {tree files : FileTree} {file : RotatingFile}
  {mode : FileTree.Mode} {path directory : String} {policy : RotationPolicy} {old? : Option Nat}
  {first handle : Nat} {holder : Holder} {stranded : List Nat}

/-- After the next handle has been taken, for a path, in place of the old one. -/
structure Acquires (before : Journal) (path : String) (old? : Option Nat) (after : Journal) :
    Prop where
  target : after.target? = some before.files.opened
  opened : after.files.opened = before.files.opened + 1
  closed : after.files.closed = old?.toList ++ before.files.closed
  others : ∀ handle, handle ≠ before.files.opened → some handle ≠ old? →
    after.files.handles.lookup handle = before.files.handles.lookup handle
  serves : ∃ content, after.files.Serves path before.files.opened content

/-- After the old handle has been closed without another one. -/
structure Drops (before : Journal) (old? : Option Nat) (after : Journal) : Prop where
  target : after.target? = none
  opened : after.files.opened = before.files.opened
  closed : after.files.closed = old?.toList ++ before.files.closed
  others : ∀ handle, some handle ≠ old? →
    after.files.handles.lookup handle = before.files.handles.lookup handle

theorem Acquires.of_same (same : before.files.SameHandles middle.files)
    (acquires : Acquires middle path old? after) : Acquires before path old? after where
  target := acquires.target.trans (congrArg some same.opened)
  opened := acquires.opened.trans (congrArg (· + 1) same.opened)
  closed := same.closed ▸ acquires.closed
  others handle apart older := by
    rw [acquires.others handle (same.opened ▸ apart) older, same.handles]
  serves := same.opened ▸ acquires.serves

theorem Drops.acquires (drops : Drops before old? middle)
    (acquires : Acquires middle path none after) : Acquires before path old? after where
  target := acquires.target.trans (congrArg some drops.opened)
  opened := acquires.opened.trans (congrArg (· + 1) drops.opened)
  closed := acquires.closed.trans drops.closed
  others handle apart older :=
    (acquires.others handle (drops.opened ▸ apart) nofun).trans (drops.others handle older)
  serves := drops.opened ▸ acquires.serves

theorem Drops.then_same (drops : Drops before old? middle) (target : after.target? = none)
    (same : middle.files.SameHandles after.files) : Drops before old? after where
  target := target
  opened := same.opened.trans drops.opened
  closed := same.closed.trans drops.closed
  others handle older := (congrArg _ same.handles).trans (drops.others handle older)

namespace RotatingFile

def Placed (file : RotatingFile) : Prop :=
  ∃ directory, file.path = Path.join directory fileName

theorem release_fst : (file.release journal).1 = { file with handle? := none } := by
  unfold release
  cases file with
  | mk path policy seniority untilCheck handle? => cases handle? <;> rfl

theorem drops_close : Drops journal file.handle? (file.close journal) := by
  unfold close release
  cases file.handle? with
  | none => exact ⟨rfl, rfl, rfl, fun _ _ => rfl⟩
  | some old =>
      refine ⟨rfl, rfl, rfl, fun handle other => ?_⟩
      exact (FileTree.lookup_close _ old handle).trans
        (if_neg fun same => other (congrArg some same))

theorem reopen_cases (file : RotatingFile) (journal : Journal)
    (issued : ∀ old, file.handle? = some old → old < journal.files.opened) (mode : FileTree.Mode) :
    (∃ error, file.reopen mode journal = ⟨.error error, file, journal⟩) ∨
      (file.reopen mode journal).result = .ok () ∧
        (file.reopen mode journal).file = { file with handle? := some journal.files.opened } ∧
        Acquires journal file.path file.handle? (file.reopen mode journal).journal := by
  unfold reopen
  cases opened : journal.files.openFile file.path mode with
  | error code => exact .inl ⟨_, rfl⟩
  | ok taken =>
      obtain ⟨handle, files⟩ := taken
      obtain ⟨rfl, next, closed, others, content, serves⟩ := FileTree.serves_of_openFile opened
      refine .inr ⟨rfl, ?_, ?_⟩
      · dsimp only
        rw [release_fst]
      · unfold release
        cases had : file.handle? with
        | none =>
            exact ⟨rfl, next, closed, fun handle apart _ => others handle apart, content, serves⟩
        | some old =>
            have apart : journal.files.opened ≠ old := (issued old had).ne'
            have kept (handle : Nat) (other : handle ≠ old) :
                (files.close old).handles.lookup handle = files.handles.lookup handle :=
              (FileTree.lookup_close files old handle).trans (if_neg other)
            refine ⟨rfl, next, congrArg (old :: ·) closed, fun handle fresh other => ?_, content,
              ?_⟩
            · exact (kept handle fun same => other (congrArg some same)).trans (others handle fresh)
            · have grows : files.Grows (files.close old) :=
                ⟨rfl, rfl, fun _ _ held => held, fun _ _ held => .inl held⟩
              exact serves.of_grows grows (kept _ apart)

theorem sameHandles_shift (file : RotatingFile) (tree : FileTree) (number : Nat) :
    tree.SameHandles (file.shift tree number) := by
  induction number generalizing tree with
  | zero => exact .refl tree
  | succ number ih =>
      cases number with
      | zero => exact .refl tree
      | succ number =>
          unfold shift
          refine FileTree.SameHandles.trans ?_ (ih _)
          split
          · split
            · exact FileTree.sameHandles_rename ‹_›
            · exact .refl tree
          · exact .refl tree

theorem sameHandles_shiftAll (file : RotatingFile) (tree : FileTree) :
    tree.SameHandles (file.shiftAll tree) := by
  unfold shiftAll
  refine FileTree.SameHandles.trans ?_ (sameHandles_shift file _ _)
  split
  · exact FileTree.sameHandles_remove ‹_›
  · exact .refl tree

theorem sameHandles_setAside (file : RotatingFile) (journal : Journal) :
    (file.setAside journal).target? = journal.target? ∧
      journal.files.SameHandles (file.setAside journal).files := by
  unfold setAside
  split
  · exact ⟨rfl, FileTree.sameHandles_rename ‹_›⟩
  · exact ⟨rfl, .refl _⟩

/-- Rotation takes a new handle, or fails.  If it fails, nothing has happened where
the file was to be emptied, and otherwise the file has been given up. -/
theorem rotate_cases (issued : ∀ old, file.handle? = some old → old < journal.files.opened) :
    (file.rotate journal).result = .ok () ∧
        (file.rotate journal).file = { file with handle? := some journal.files.opened } ∧
        Acquires journal file.path file.handle? (file.rotate journal).journal ∨
      (∃ error, (file.rotate journal).result = .error error) ∧
        (file.policy.maxFiles = 0 ∧ (file.rotate journal).file = file ∧
            (file.rotate journal).journal = journal ∨
          file.policy.maxFiles ≠ 0 ∧ (file.rotate journal).file = { file with handle? := none } ∧
            Drops journal file.handle? (file.rotate journal).journal) := by
  unfold rotate
  by_cases emptied : file.policy.maxFiles = 0
  · simp only [if_pos emptied]
    rcases reopen_cases file journal issued .truncate with ⟨error, failed⟩ | opened
    · rw [failed]
      exact .inr ⟨⟨error, rfl⟩, .inl ⟨emptied, rfl, rfl⟩⟩
    · exact .inl opened
  · simp only [if_neg emptied]
    -- the journal when the old files are out of the way and the current one is closed
    let shifted : Journal := { journal with files := file.shiftAll journal.files }
    have dropped : Drops journal file.handle? (file.close shifted) := by
      have same := sameHandles_shiftAll file journal.files
      have drops : Drops shifted file.handle? (file.close shifted) := drops_close
      exact ⟨drops.target, drops.opened.trans same.opened,
        drops.closed.trans (congrArg _ same.closed),
        fun handle other => (drops.others handle other).trans (congrArg _ same.handles)⟩
    have aside := sameHandles_setAside { file with handle? := none } (file.close shifted)
    have cleared : Drops journal file.handle?
        (setAside { file with handle? := none } (file.close shifted)) :=
      dropped.then_same (aside.1.trans dropped.target) aside.2
    have released : file.release { journal with
        files := file.shiftAll journal.files, target? := none } =
          ({ file with handle? := none }, file.close shifted) :=
      Prod.ext release_fst rfl
    rw [released]
    dsimp only
    rcases reopen_cases { file with handle? := none }
      (setAside { file with handle? := none } (file.close shifted)) nofun .append with
        ⟨error, failed⟩ | ⟨result, file', acquires⟩
    · rw [failed]
      exact .inr ⟨⟨error, rfl⟩, .inr ⟨emptied, rfl, cleared⟩⟩
    · exact .inl ⟨result, cleared.opened ▸ file', cleared.acquires acquires⟩

theorem create_cases (directory : String) (policy : RotationPolicy) (journal : Journal) :
    (∃ file after, create directory policy journal = (.ok file, after) ∧ file.Placed ∧
        file.handle? = some journal.files.opened ∧ Acquires journal file.path none after) ∨
      ∃ error after, create directory policy journal = (.error error, after) ∧
        after.target? = journal.target? ∧ journal.files.SameHandles after.files ∧
        journal.files.Grows after.files := by
  rw [create_startable]
  unfold openIn
  dsimp only
  generalize (if directory = "" then journal.files.originPath else directory) = place
  have same := FileTree.sameHandles_makeDirectories journal.files place
  have grows := FileTree.grows_makeDirectories journal.files place
  split
  · rename_i files made
    rw [made] at same grows
    exact .inr ⟨_, _, rfl, rfl, same, grows⟩
  · rename_i files made
    rw [made] at same grows
    split
    · exact .inr ⟨_, _, rfl, rfl, same, grows⟩
    · let file : RotatingFile := {
        path := Path.join place fileName
        policy
        seniority := files.opened
        untilCheck := policy.period }
      rcases reopen_cases file { journal with files } nofun .append with
        ⟨error, failed⟩ | ⟨result, opened, acquires⟩
      · refine .inr ⟨error, { journal with files }, ?_, rfl, same, grows⟩
        rw [failed]
        rfl
      · refine .inl ⟨{ file with handle? := some files.opened }, _, ?_, ⟨place, rfl⟩,
          congrArg some same.opened, Acquires.of_same same acquires⟩
        rw [result, opened]
        rfl

theorem create_ok (created : create directory policy journal = (.ok file, after)) :
    file.Placed ∧ file.handle? = some journal.files.opened ∧
      Acquires journal file.path none after := by
  rcases create_cases directory policy journal with ⟨_, _, made, opened⟩ | ⟨_, _, failed, _⟩
  · rw [created] at made
    cases made
    exact opened
  · rw [created] at failed
    cases failed

theorem create_error {error : FileError}
    (refused : create directory policy journal = (.error error, after)) :
    after.target? = journal.target? ∧ journal.files.SameHandles after.files ∧
      journal.files.Grows after.files := by
  rcases create_cases directory policy journal with ⟨_, _, made, _⟩ | ⟨_, _, failed, stays⟩
  · rw [refused] at made
    cases made
  · rw [refused] at failed
    cases failed
    exact stays

end RotatingFile

def handleOf (held : Holder → Option RotatingFile) (holder : Holder) : Option Nat :=
  (held holder).bind (·.handle?)

/-- Who has a handle: a holder, or nobody, where the start that took it has failed since. -/
inductive Owner where
  | holder (holder : Holder)
  | nobody (handle : Nat)
deriving DecidableEq

/-- What the owners have, when failed starts have left these handles stranded. -/
def owners (held : Holder → Option RotatingFile) (stranded : List Nat) : Owner → Option Nat
  | .holder holder => handleOf held holder
  | .nobody handle => if handle ∈ stranded then some handle else none

theorem owners_update {held : Holder → Option RotatingFile} {file? : Option RotatingFile} :
    owners (Function.update held holder file?) stranded =
      Function.update (owners held stranded) (.holder holder) (file?.bind (·.handle?)) := by
  funext owner
  cases owner with
  | nobody handle => rw [Function.update_of_ne (by simp), owners, owners]
  | holder other =>
      by_cases same : other = holder
      · subst same
        rw [Function.update_self, owners, handleOf, Function.update_self]
      · rw [Function.update_of_ne (by simpa using same), owners, owners, handleOf, handleOf,
          Function.update_of_ne same]

theorem owners_append (held : Holder → Option RotatingFile) (stranded : List Nat) (handle : Nat) :
    owners held (stranded ++ [handle]) =
      Function.update (owners held stranded) (.nobody handle) (some handle) := by
  funext owner
  cases owner with
  | holder holder => rw [Function.update_of_ne (by simp), owners, owners]
  | nobody other =>
      by_cases same : other = handle
      · simp [owners, same]
      · rw [Function.update_of_ne (by simpa using same)]
        simp [owners, same]

theorem owners_of_held {held : Holder → Option RotatingFile} (holds : held holder = some file) :
    owners held stranded (.holder holder) = file.handle? := by
  rw [owners, handleOf, holds]
  rfl

/-- Where the handles are that have been given out from the first one on. -/
structure Custody (first : Nat) (journal : Journal) (owned : Owner → Option Nat) : Prop where
  since : first ≤ journal.files.opened
  target : ∀ handle, journal.target? = some handle → ∃ owner, owned owner = some handle
  alone : ∀ owner other handle, owned owner = some handle → owned other = some handle →
    owner = other
  live : ∀ owner handle, owned owner = some handle →
    first ≤ handle ∧ handle < journal.files.opened ∧ handle ∉ journal.files.closed ∧
      (journal.files.handles.lookup handle).isSome
  once : journal.files.closed.Nodup
  issued : ∀ handle ∈ journal.files.closed, handle < journal.files.opened
  settled : ∀ handle, first ≤ handle → handle < journal.files.opened →
    handle ∈ journal.files.closed ∨ ∃ owner, owned owner = some handle

namespace Custody

variable {owner : Owner} {owned : Owner → Option Nat}

theorem of_same (custody : Custody first before owned)
    (target : after.target? = before.target? ∨ after.target? = none)
    (opened : after.files.opened = before.files.opened)
    (closed : after.files.closed = before.files.closed)
    (live : ∀ handle, (after.files.handles.lookup handle).isSome =
      (before.files.handles.lookup handle).isSome) : Custody first after owned where
  since := opened ▸ custody.since
  target handle aimed := by
    rcases target with same | none
    · exact custody.target handle (same ▸ aimed)
    · rw [none] at aimed
      cases aimed
  alone := custody.alone
  live owner handle owns := by
    rw [opened, closed, live]
    exact custody.live owner handle owns
  once := closed ▸ custody.once
  issued := by
    rw [opened, closed]
    exact custody.issued
  settled := by
    rw [opened, closed]
    exact custody.settled

/-- A handle that is closed now belonged to one owner, and was open. -/
theorem closes (custody : Custody first before owned)
    (closed : after.files.closed = (owned owner).toList ++ before.files.closed) :
    after.files.closed.Nodup ∧
      (∀ handle ∈ after.files.closed, handle < before.files.opened) ∧
      ∀ other handle, other ≠ owner → owned other = some handle →
        some handle ≠ owned owner ∧ handle ∉ after.files.closed := by
  have apart (other : Owner) (handle : Nat) (different : other ≠ owner)
      (owns : owned other = some handle) : some handle ≠ owned owner := by
    intro same
    exact different (custody.alone other owner handle owns same.symm)
  rw [closed]
  cases owns : owned owner with
  | none =>
      refine ⟨custody.once, custody.issued, fun other handle different holds => ⟨nofun, ?_⟩⟩
      exact (custody.live other handle holds).2.2.1
  | some old =>
      obtain ⟨_, below, fresh, _⟩ := custody.live owner old owns
      refine ⟨List.nodup_cons.mpr ⟨fresh, custody.once⟩, ?_, ?_⟩
      · intro handle member
        rcases List.mem_cons.mp member with rfl | earlier
        · exact below
        · exact custody.issued handle earlier
      · intro other handle different holds
        have distinct := apart other handle different holds
        rw [owns] at distinct
        refine ⟨distinct, fun member => ?_⟩
        rcases List.mem_cons.mp member with same | earlier
        · exact distinct (congrArg some same)
        · exact (custody.live other handle holds).2.2.1 earlier

/-- Handles of the others are where they were, and the owner's own is closed. -/
theorem settles (custody : Custody first before owned)
    (closed : after.files.closed = (owned owner).toList ++ before.files.closed)
    (since : first ≤ handle) (below : handle < before.files.opened) :
    handle ∈ after.files.closed ∨ ∃ other, other ≠ owner ∧ owned other = some handle := by
  rw [closed, List.mem_append, Option.mem_toList]
  rcases custody.settled handle since below with gone | ⟨other, owns⟩
  · exact .inl (.inr gone)
  · by_cases same : other = owner
    · exact .inl (.inl (same ▸ owns))
    · exact .inr ⟨other, same, owns⟩

theorem drops (custody : Custody first before owned) (drops : Drops before (owned owner) after) :
    Custody first after (Function.update owned owner none) := by
  obtain ⟨once, issued, spared⟩ := custody.closes drops.closed
  have others {other : Owner} {handle : Nat}
      (owns : Function.update owned owner none other = some handle) :
      other ≠ owner ∧ owned other = some handle := by
    by_cases same : other = owner
    · rw [same, Function.update_self] at owns
      cases owns
    · rw [Function.update_of_ne same] at owns
      exact ⟨same, owns⟩
  refine ⟨drops.opened ▸ custody.since, ?_, ?_, ?_, once, drops.opened ▸ issued, ?_⟩
  · intro handle aimed
    rw [drops.target] at aimed
    cases aimed
  · intro one another handle owns holds
    exact custody.alone one another handle (others owns).2 (others holds).2
  · intro other handle owns
    obtain ⟨different, owns⟩ := others owns
    obtain ⟨since, below, _, known⟩ := custody.live other handle owns
    obtain ⟨distinct, unclosed⟩ := spared other handle different owns
    exact ⟨since, drops.opened ▸ below, unclosed, drops.others handle distinct ▸ known⟩
  · intro handle since below
    exact (custody.settles drops.closed since (drops.opened ▸ below)).imp_right
      fun ⟨other, different, owns⟩ => ⟨other, by rwa [Function.update_of_ne different]⟩

theorem acquires (custody : Custody first before owned)
    (acquires : Acquires before path (owned owner) after) :
    Custody first after (Function.update owned owner (some before.files.opened)) := by
  obtain ⟨once, issued, spared⟩ := custody.closes acquires.closed
  have fresh : before.files.opened ∉ after.files.closed :=
    fun member => Nat.lt_irrefl _ (issued _ member)
  have others {other : Owner} {handle : Nat}
      (owns : Function.update owned owner (some before.files.opened) other = some handle) :
      other = owner ∧ handle = before.files.opened ∨
        other ≠ owner ∧ owned other = some handle ∧ handle < before.files.opened := by
    by_cases same : other = owner
    · rw [same, Function.update_self] at owns
      exact .inl ⟨same, (Option.some.inj owns).symm⟩
    · rw [Function.update_of_ne same] at owns
      exact .inr ⟨same, owns, (custody.live other handle owns).2.1⟩
  refine ⟨?_, ?_, ?_, ?_, once, ?_, ?_⟩
  · rw [acquires.opened]
    exact Nat.le_succ_of_le custody.since
  · intro handle aimed
    rw [acquires.target] at aimed
    exact ⟨owner, (Function.update_self ..).trans aimed⟩
  · intro one another handle owns holds
    rcases others owns with ⟨rfl, rfl⟩ | ⟨_, owns, below⟩ <;>
      rcases others holds with ⟨rfl, same⟩ | ⟨_, holds, under⟩
    · rfl
    · exact absurd under (Nat.lt_irrefl _)
    · exact absurd (same ▸ below) (Nat.lt_irrefl _)
    · exact custody.alone one another handle owns holds
  · intro other handle owns
    rw [acquires.opened]
    rcases others owns with ⟨rfl, rfl⟩ | ⟨different, owns, below⟩
    · obtain ⟨content, location, file, position?, _, known, _⟩ := acquires.serves
      exact ⟨custody.since, Nat.lt_succ_self _, fresh, by rw [known]; rfl⟩
    · obtain ⟨since, _, _, known⟩ := custody.live other handle owns
      obtain ⟨distinct, unclosed⟩ := spared other handle different owns
      exact ⟨since, Nat.lt_succ_of_lt below, unclosed,
        acquires.others handle below.ne distinct ▸ known⟩
  · intro handle member
    rw [acquires.opened]
    exact Nat.lt_succ_of_lt (issued handle member)
  · intro handle since below
    rw [acquires.opened] at below
    rcases Nat.lt_succ_iff_lt_or_eq.mp below with earlier | rfl
    · exact (custody.settles acquires.closed since earlier).imp_right
        fun ⟨other, different, owns⟩ => ⟨other, by rwa [Function.update_of_ne different]⟩
    · exact .inr ⟨owner, Function.update_self ..⟩

end Custody

/-- What lines do to the table of handles: they move a position, and nothing else. -/
theorem Says.handles {lines : List String} (said : Says before lines after) :
    after.files.opened = before.files.opened ∧ after.files.closed = before.files.closed ∧
      ∀ handle, (after.files.handles.lookup handle).isSome =
        (before.files.handles.lookup handle).isSome := by
  rw [said.files]
  clear said
  cases before.target? with
  | none => exact ⟨rfl, rfl, fun _ => rfl⟩
  | some target =>
      dsimp only
      generalize before.files = tree
      induction lines generalizing tree with
      | nil => exact ⟨rfl, rfl, fun _ => rfl⟩
      | cons line rest ih =>
          obtain ⟨opened, closed, known⟩ := ih (tree.write target (record line))
          refine ⟨opened.trans (FileTree.opened_write ..), closed.trans (FileTree.closed_write ..),
            fun handle => (known handle).trans ?_⟩
          rw [FileTree.lookup_write]
          split
          · rename_i own
            rw [own, Option.isSome_map]
          · rfl

namespace Desk

variable {desk next : Desk}

theorem Step.custody (step : Step desk next)
    (custody : Custody first desk.journal (owners desk.held stranded)) :
    Custody first next.journal (owners next.held stranded) := by
  cases step with
  | speaks said =>
      obtain ⟨opened, closed, live⟩ := said.handles
      exact custody.of_same (.inl said.target) opened closed live
  | settles target files =>
      exact custody.of_same (.inl target) (by rw [files]) (by rw [files]) (by rw [files]; simp)
  | silences => exact custody.of_same (.inr rfl) rfl rfl fun _ => rfl
  | @opens holder directory policy file after free created =>
      obtain ⟨_, handle, acquires⟩ := RotatingFile.create_ok created
      have unowned : owners desk.held stranded (.holder holder) = none := by
        rw [owners, handleOf, free]
        rfl
      rw [owners_update, Option.bind_some, handle]
      exact custody.acquires (unowned ▸ acquires)
  | refuses refused =>
      obtain ⟨target, same, _⟩ := RotatingFile.create_error refused
      exact custody.of_same (.inl target) same.opened same.closed fun handle => by
        rw [same.handles]
  | @rotates holder file holds =>
      have owns : owners desk.held stranded (.holder holder) = file.handle? := owners_of_held holds
      have issued (old : Nat) (has : file.handle? = some old) : old < desk.journal.files.opened :=
        (custody.live (.holder holder) old (owns.trans has)).2.1
      rw [owners_update, Option.bind_some]
      rcases RotatingFile.rotate_cases issued with
        ⟨_, rotated, acquires⟩ | ⟨_, ⟨_, rotated, stays⟩ | ⟨_, rotated, drops⟩⟩ <;> rw [rotated]
      · exact custody.acquires (owns ▸ acquires)
      · rw [stays, ← owns, Function.update_eq_self]
        exact custody
      · exact custody.drops (owns ▸ drops)
  | @waits holder file holds untilCheck =>
      have owns : owners desk.held stranded (.holder holder) = file.handle? := owners_of_held holds
      rw [owners_update, Option.bind_some]
      change Custody first desk.journal
        (Function.update (owners desk.held stranded) (.holder holder) file.handle?)
      rw [← owns, Function.update_eq_self]
      exact custody
  | @closes holder file holds =>
      have owns : owners desk.held stranded (.holder holder) = file.handle? := owners_of_held holds
      rw [owners_update]
      exact custody.drops (owns ▸ RotatingFile.drops_close)

end Desk

namespace Session

variable {session : Session}

/-- Nothing that is alive has a log file yet. -/
structure Fresh (session : Session) : Prop where
  unheld : ∀ holder, session.fileOf holder = none
  silent : session.journal.target? = none
  once : session.journal.files.closed.Nodup
  issued : ∀ handle ∈ session.journal.files.closed, handle < session.journal.files.opened

theorem Fresh.unowned (fresh : session.Fresh) (owner : Owner) (handle : Nat) :
    owners session.fileOf [] owner ≠ some handle := by
  cases owner with
  | holder holder => simp [owners, handleOf, fresh.unheld]
  | nobody other => simp [owners]

theorem Fresh.custody (fresh : session.Fresh) :
    Custody session.journal.files.opened session.journal (owners session.fileOf []) where
  since := Nat.le_refl _
  target handle aimed := by
    rw [fresh.silent] at aimed
    cases aimed
  alone owner _ handle owns _ := absurd owns (fresh.unowned owner handle)
  live owner handle owns := absurd owns (fresh.unowned owner handle)
  once := fresh.once
  issued := fresh.issued
  settled handle since below := absurd since (Nat.not_le_of_lt below)

end Session

end MarkerBus.Log
