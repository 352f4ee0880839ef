import MarkerBus.Proofs.Log.Custody
import MarkerBus.Proofs.Log.Shelf

namespace MarkerBus.Log

variable {shelf : Shelf} {tree after : FileTree} {before journal : Journal} {file : RotatingFile}
  {number : Nat}

def callAll (calls : List (FileTree → FileTree)) (tree : FileTree) : FileTree :=
  calls.foldl (fun tree call => call tree) tree

theorem callAll_append (first second : List (FileTree → FileTree)) :
    callAll (first ++ second) tree = callAll second (callAll first tree) :=
  List.foldl_append

namespace RotatingFile

/-- Every file that was moved aside before goes one place further, from the given
place down. -/
def pushes (file : RotatingFile) : Nat → List (FileTree → FileTree)
  | 0 => []
  | 1 => []
  | number + 2 =>
      pushOn (file.generation (number + 1)) (file.generation (number + 2)) ::
        file.pushes (number + 1)

def closing (file : RotatingFile) (files : FileTree) : FileTree :=
  match file.handle? with
  | none => files
  | some handle => files.close handle

/-- What a rotation does before it opens the new file. -/
def calls (file : RotatingFile) : List (FileTree → FileTree) :=
  discard (file.generation file.policy.maxFiles) ::
    (file.pushes file.policy.maxFiles ++
      [file.closing, displace file.path (file.generation 1)])

theorem shift_eq (file : RotatingFile) (tree : FileTree) (number : Nat) :
    file.shift tree number = callAll (file.pushes number) tree := by
  induction number generalizing tree with
  | zero => rfl
  | succ number ih =>
      cases number with
      | zero => rfl
      | succ number => exact ih _

theorem shiftAll_eq (file : RotatingFile) (tree : FileTree) : file.shiftAll tree =
    callAll (file.pushes file.policy.maxFiles)
      (discard (file.generation file.policy.maxFiles) tree) :=
  shift_eq file _ _

theorem files_close (file : RotatingFile) (journal : Journal) :
    (file.close journal).files = file.closing journal.files := by
  unfold close release closing
  cases file.handle? <;> rfl

theorem files_setAside (file : RotatingFile) (journal : Journal) :
    (file.setAside journal).files = displace file.path (file.generation 1) journal.files := by
  unfold setAside displace
  cases journal.files.rename file.path (file.generation 1) <;> rfl

/-- A rotation that keeps files is its calls, and then the new file. -/
theorem rotate_eq (file : RotatingFile) (journal : Journal) (kept : file.policy.maxFiles ≠ 0) :
    ∃ cleared : Journal, cleared.files = callAll file.calls journal.files ∧
      file.rotate journal = reopen { file with handle? := none } .append cleared := by
  let shifted : Journal := { journal with files := file.shiftAll journal.files }
  have released : file.release { journal with
      files := file.shiftAll journal.files, target? := none } =
        ({ file with handle? := none }, file.close shifted) :=
    Prod.ext release_fst rfl
  refine ⟨setAside { file with handle? := none } (file.close shifted), ?_, ?_⟩
  · rw [files_setAside, files_close]
    change displace _ _ (file.closing (file.shiftAll journal.files)) = _
    rw [shiftAll_eq]
    exact (callAll_append (file.pushes _) [file.closing, displace file.path _]).symm
  · unfold rotate
    rw [if_neg kept]
    dsimp only
    rw [released]

theorem length_pushes (file : RotatingFile) (number : Nat) :
    (file.pushes number).length = number - 1 := by
  induction number with
  | zero => rfl
  | succ number ih =>
      cases number with
      | zero => rfl
      | succ number => rw [pushes, List.length_cons, ih]; rfl

theorem stands_closing (stands : shelf.Stands tree) (file : RotatingFile) :
    shelf.Stands (file.closing tree) ∧ shelf.slots (file.closing tree) = shelf.slots tree := by
  unfold closing
  cases file.handle? with
  | none => exact ⟨stands, rfl⟩
  | some old => exact stands.congr rfl rfl rfl

/-- The file is the one on the shelf. -/
structure On (file : RotatingFile) (shelf : Shelf) : Prop where
  path : file.path = shelf.path 0
  keeps : file.policy.maxFiles = shelf.count

namespace On

variable (on : file.On shelf)

include on

theorem generation_eq (number : Nat) : file.generation (number + 1) = shelf.path (number + 1) := by
  rw [generation, on.path, Shelf.path, Shelf.path, join_slot]
  rfl

/-- After so many of the moves the bytes are the same, and the first slot is vacant
after all of them. -/
theorem stands_pushes (stands : shelf.Stands tree) (positive : 0 < number)
    (within : number ≤ shelf.count) (vacant : shelf.slots tree number = none) (done : Nat) :
    let stage := callAll ((file.pushes number).take done) tree
    shelf.Stands stage ∧ shelf.whole stage = shelf.whole tree ∧
      (number ≤ done + 1 → shelf.slots stage 1 = none) := by
  induction number generalizing tree done with
  | zero => exact absurd positive (Nat.lt_irrefl 0)
  | succ number ih =>
      cases number with
      | zero => exact ⟨by simpa [pushes, callAll], by simp [pushes, callAll], fun _ => by
          simpa [pushes, callAll]⟩
      | succ number =>
          cases done with
          | zero => exact ⟨stands, rfl, fun enough => by omega⟩
          | succ done =>
              -- the first move leaves the slot below vacant, and the rest start there
              obtain ⟨moved, changed⟩ := stands.displace_slot within vacant
              have left : shelf.slots (displace (shelf.path (number + 1))
                  (shelf.path (number + 1 + 1)) tree) (number + 1) = none := by
                rw [changed, Function.update_self]
              obtain ⟨stood, same, last⟩ := ih moved (Nat.succ_pos number)
                (Nat.le_of_succ_le within) left done
              rw [pushes, List.take_succ_cons]
              change shelf.Stands (callAll _ (pushOn _ _ tree)) ∧
                shelf.whole (callAll _ (pushOn _ _ tree)) = _ ∧
                (_ → shelf.slots (callAll _ (pushOn _ _ tree)) 1 = none)
              rw [on.generation_eq, on.generation_eq, stands.pushOn_eq within]
              exact ⟨stood, same.trans (stands.whole_displace within vacant),
                fun enough => last (Nat.le_of_succ_le_succ enough)⟩

theorem stands_discard (stands : shelf.Stands tree) (positive : 0 < shelf.count) :
    let left := discard (file.generation file.policy.maxFiles) tree
    shelf.Stands left ∧ shelf.slots left shelf.count = none ∧
      shelf.whole tree = shelf.oldest tree ++ shelf.whole left := by
  obtain ⟨number, last⟩ := Nat.exists_eq_succ_of_ne_zero positive.ne'
  obtain ⟨stood, changed⟩ := stands.discard_slot (Nat.le_refl shelf.count)
  have removed : file.generation file.policy.maxFiles = shelf.path shelf.count := by
    rw [on.keeps, last]
    exact on.generation_eq number
  dsimp only
  rw [removed]
  refine ⟨stood, by rw [changed, Function.update_self], ?_⟩
  rw [Shelf.whole, Shelf.whole, Shelf.oldest, changed, last]
  exact trail_update_last number

/-- The file is closed and moved to the first slot, which is vacant. -/
theorem stands_aside (stands : shelf.Stands tree) (positive : 0 < shelf.count)
    (vacant : shelf.slots tree 1 = none) (done : Nat) :
    let stage := callAll ([file.closing, displace file.path (file.generation 1)].take done) tree
    shelf.Stands stage ∧ shelf.whole stage = shelf.whole tree := by
  obtain ⟨closed, same⟩ := stands_closing stands file
  have kept : shelf.whole (file.closing tree) = shelf.whole tree :=
    congrArg (trail · shelf.count) same
  match done with
  | 0 => exact ⟨stands, rfl⟩
  | 1 => exact ⟨closed, kept⟩
  | done + 2 =>
      have free : shelf.slots (file.closing tree) 1 = none := same ▸ vacant
      rw [List.take_of_length_le (Nat.le_add_left 2 done), on.path, on.generation_eq]
      exact ⟨(closed.displace_slot positive free).1,
        (closed.whole_displace positive free).trans kept⟩

/-- After so many calls of a rotation, nothing but the oldest file has gone. -/
theorem stands_calls (stands : shelf.Stands tree) (positive : 0 < shelf.count) (done : Nat) :
    let stage := callAll (file.calls.take done) tree
    shelf.Stands stage ∧
      shelf.whole tree = (if done = 0 then .empty else shelf.oldest tree) ++ shelf.whole stage := by
  cases done with
  | zero => exact ⟨stands, by rw [if_pos rfl, ByteArray.empty_append]; rfl⟩
  | succ done =>
      obtain ⟨stood, vacant, split⟩ := on.stands_discard stands positive
      obtain ⟨pushed, same, last⟩ :=
        on.stands_pushes stood positive (Nat.le_refl shelf.count) vacant done
      rw [← on.keeps] at pushed same last
      dsimp only
      rw [if_neg (Nat.succ_ne_zero done), split, calls, List.take_succ_cons, List.take_append]
      change shelf.Stands (callAll _ (discard _ tree)) ∧
        _ = _ ++ shelf.whole (callAll _ (discard _ tree))
      rw [callAll_append, ← same, length_pushes]
      by_cases moving : done ≤ file.policy.maxFiles - 1
      · rw [Nat.sub_eq_zero_of_le moving, List.take_zero]
        exact ⟨pushed, rfl⟩
      · obtain ⟨moved, kept⟩ := on.stands_aside pushed positive (last (by omega))
          (done - (file.policy.maxFiles - 1))
        exact ⟨moved, by rw [← kept]⟩

end On

end RotatingFile

/-- The file is open on the shelf, and the journal is directed to it. -/
structure Works (shelf : Shelf) (file : RotatingFile) (journal : Journal) : Prop where
  on : file.On shelf
  appends : ∃ handle, file.handle? = some handle ∧ journal.target? = some handle ∧
    shelf.Appends journal.files handle

theorem Works.stands (works : Works shelf file journal) : shelf.Stands journal.files := by
  obtain ⟨_, _, _, _, appends⟩ := works
  exact appends.stands

/-- Only how the file is reached matters, not when it is checked next. -/
theorem Works.waits (works : Works shelf file journal) (untilCheck : Nat) :
    Works shelf { file with untilCheck } journal := by
  obtain ⟨on, handle, has, target, appends⟩ := works
  exact ⟨⟨on.path, on.keeps⟩, handle, has, target, appends⟩

namespace RotatingFile

theorem reopen_works (file : RotatingFile) (journal : Journal) (on : file.On shelf)
    (stands : shelf.Stands journal.files)
    (issued : ∀ old, file.handle? = some old → old < journal.files.opened) :
    let opened := file.reopen .append journal
    opened.result = .ok () ∧ Works shelf opened.file opened.journal ∧
      shelf.whole opened.journal.files = shelf.whole journal.files := by
  obtain ⟨files, opened, appends, same⟩ := stands.openFile
  dsimp only
  unfold reopen
  rw [on.path, opened]
  dsimp only
  rw [release_fst]
  unfold release
  cases has : file.handle? with
  | none => exact ⟨rfl, ⟨⟨on.path, on.keeps⟩, _, rfl, rfl, appends⟩, same⟩
  | some old =>
      obtain ⟨closed, still⟩ := appends.close (issued old has).ne'
      exact ⟨rfl, ⟨⟨on.path, on.keeps⟩, _, rfl, rfl, closed⟩, still.trans same⟩

theorem rotate_works (works : Works shelf file journal) (positive : 0 < shelf.count) :
    let rotated := file.rotate journal
    rotated.result = .ok () ∧ Works shelf rotated.file rotated.journal ∧
      shelf.whole journal.files =
        shelf.oldest journal.files ++ shelf.whole rotated.journal.files := by
  have on := works.on
  obtain ⟨cleared, files, same⟩ := rotate_eq file journal (on.keeps ▸ positive.ne')
  obtain ⟨stands, split⟩ := on.stands_calls works.stands positive file.calls.length
  rw [List.take_length, ← files] at stands split
  have still : On { file with handle? := none } shelf := ⟨on.path, on.keeps⟩
  obtain ⟨result, opened, kept⟩ := reopen_works _ cleared still stands nofun
  dsimp only
  rw [same]
  exact ⟨result, opened, kept.symm ▸ split⟩

theorem create_works {directory : String} {policy : RotationPolicy}
    (ready : shelf.Ready journal.files)
    (home : (if directory = "" then journal.files.originPath else directory) = shelf.directory)
    (keeps : policy.maxFiles = shelf.count) :
    ∃ file after, create directory policy journal = (.ok file, after) ∧ Works shelf file after ∧
      shelf.whole after.files = shelf.whole journal.files := by
  have whole := ready.whole_eq
  obtain ⟨made, stands⟩ := ready
  generalize same : journal.files.makeDirectories shelf.directory = making at made stands whole
  obtain ⟨result, files⟩ := making
  cases made
  have there : files.isDirectoryAt shelf.directory = true := by
    rw [FileTree.isDirectoryAt, stands.stated]
    rfl
  let fresh : RotatingFile := {
    path := Path.join shelf.directory fileName
    policy
    seniority := files.opened
    untilCheck := policy.period }
  obtain ⟨opened, works, kept⟩ :=
    reopen_works fresh { journal with files } ⟨rfl, keeps⟩ stands nofun
  refine ⟨_, _, ?_, works, kept.trans whole⟩
  rw [create_startable]
  unfold openIn
  simp only [home, same, there, Bool.not_true, Bool.false_eq_true, if_false]
  rw [opened]
  rfl

end RotatingFile

/-- The file goes on working, and has been rotated or has not. -/
structure Passes (shelf : Shelf) (before : Journal) (rotated : Bool) (file : RotatingFile)
    (after : Journal) : Prop where
  works : Works shelf file after
  bytes : shelf.whole before.files =
    (if rotated then shelf.oldest before.files else .empty) ++ shelf.whole after.files

namespace RotatingFile

/-- Does the next millisecond rotate the file? -/
def comesDue (file : RotatingFile) (files : FileTree) : Bool :=
  file.policy.automatic && file.untilCheck ≤ 1 && file.isDue files

theorem passes_of_works (works : Works shelf file journal) :
    Passes shelf journal false file journal where
  works := works
  bytes := ByteArray.empty_append.symm

theorem passes_rotate (works : Works shelf file journal) (positive : 0 < shelf.count) :
    Passes shelf journal true (file.rotate journal).file (file.rotate journal).journal where
  works := (rotate_works works positive).2.1
  bytes := (rotate_works works positive).2.2

theorem passes_rotateIfDue (works : Works shelf file journal) (positive : 0 < shelf.count) :
    Passes shelf journal (file.isDue journal.files) (file.rotateIfDue journal).file
      (file.rotateIfDue journal).journal := by
  unfold rotateIfDue
  cases file.isDue journal.files with
  | true => exact passes_rotate works positive
  | false => exact passes_of_works works

theorem check_eq (works : Works shelf file journal) (positive : 0 < shelf.count) :
    file.check journal =
      ((file.rotateIfDue journal).file, (file.rotateIfDue journal).journal) := by
  unfold check rotateIfDue
  cases file.isDue journal.files with
  | true =>
      dsimp only
      rw [if_pos rfl, (rotate_works works positive).1]
      rfl
  | false => rfl

theorem passes_elapse (works : Works shelf file journal) (positive : 0 < shelf.count) :
    Passes shelf journal (file.comesDue journal.files) (file.elapse journal).1
      (file.elapse journal).2 := by
  unfold elapse comesDue
  cases automatic : file.policy.automatic with
  | false => exact passes_of_works works
  | true =>
      by_cases early : 1 < file.untilCheck
      · rw [if_neg (by simp), if_pos early, decide_eq_false (Nat.not_le_of_lt early)]
        exact passes_of_works (works.waits _)
      · rw [if_neg (by simp), if_neg early, decide_eq_true (Nat.le_of_not_lt early),
          check_eq works positive]
        obtain ⟨checked, bytes⟩ := passes_rotateIfDue works positive
        exact ⟨checked.waits _, bytes⟩

end RotatingFile

theorem appends_lines {handle : Nat} (appends : shelf.Appends tree handle) (lines : List String) :
    let after := lines.foldl (fun files line => files.write handle (record line)) tree
    shelf.Appends after handle ∧ shelf.whole after = shelf.whole tree ++ recordAll lines := by
  induction lines generalizing tree with
  | nil => exact ⟨appends, by rw [recordAll, ByteArray.append_empty]; rfl⟩
  | cons line rest ih =>
      obtain ⟨written, longer⟩ := appends.write (record line)
      obtain ⟨last, whole⟩ := ih written
      exact ⟨last, by rw [recordAll, ← ByteArray.append_assoc, ← longer]; exact whole⟩

/-- Lines go to the end of everything that is on the shelf. -/
theorem Works.of_said {lines : List String} (works : Works shelf file before)
    (said : Says before lines journal) : Works shelf file journal ∧
      shelf.whole journal.files = shelf.whole before.files ++ recordAll lines := by
  obtain ⟨on, handle, has, target, appends⟩ := works
  have files := said.files
  rw [target] at files
  rw [files]
  obtain ⟨last, whole⟩ := appends_lines appends lines
  exact ⟨⟨on, handle, has, said.target.trans target, files ▸ last⟩, whole⟩

end MarkerBus.Log
