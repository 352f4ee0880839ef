import MarkerBus.Proofs.FileTree.Walk
import MarkerBus.Storage.Directory

namespace MarkerBus.Storage.Directory

open FileTree

variable {tree : FileTree} {path name : String} {directory location : Location}

theorem plain_create (plain : tree.Plain) (path : String) : (create tree path).storage.Plain := by
  unfold create
  split
  · exact plain.createExclusive ‹_›
  · split
    · have made := plain.ensureDirectory (Path.parent path)
      dsimp only
      split
      · rename_i same
        rwa [same] at made
      · rename_i same
        rw [same] at made
        split
        · exact made.createExclusive ‹_›
        · unfold create.refused
          split <;> exact made
    · unfold create.refused
      split <;> exact plain

theorem plain_remove (plain : tree.Plain) (path : String) : (remove tree path).2.Plain := by
  unfold remove
  split
  · exact plain.of_sublist (sublist_unlink ‹_›)
  · split <;> exact plain

theorem plain_reset (plain : tree.Plain) (path : String) : (reset tree path).storage.Plain := by
  have emptied := plain.of_sublist (sublist_removeAll tree path)
  unfold reset
  split
  · rename_i same
    rwa [same] at emptied
  · rename_i same
    rw [same] at emptied
    have made := emptied.ensureDirectory path
    split
    · rename_i same
      rwa [same] at made
    · rename_i same
      rwa [same] at made

theorem plain_serve (plain : tree.Plain) (request : Request) :
    (serve request tree).storage.Plain := by
  cases request with
  | create path => exact plain_create plain path
  | list | probe => exact plain
  | remove path => exact plain_remove plain path
  | reset path => exact plain_reset plain path

/-- A creation that is answered made the file, or found the place taken. -/
theorem create_cases (plain : tree.Plain) {creation : Creation}
    (answered : (create tree path).result = .ok creation) :
    ∃ middle : FileTree, middle.Plain ∧
      (creation = .created ∧ middle.createExclusive path = .ok (create tree path).storage ∨
        creation = .present ∧ middle.createExclusive path = .error .alreadyExists ∧
          (create tree path).storage = middle) := by
  have refused {middle : FileTree} {code : ErrorNumber}
      (answered : (create.refused path middle code).result = .ok creation) :
      creation = .present ∧ code = .alreadyExists ∧
        (create.refused path middle code).storage = middle := by
    unfold create.refused at answered ⊢
    split at answered
    · rename_i taken
      cases answered
      rw [if_pos taken]
      exact ⟨rfl, taken, rfl⟩
    · cases answered
  cases first : tree.createExclusive path with
  | ok made =>
      simp only [create, first] at answered ⊢
      cases answered
      exact ⟨tree, plain, .inl ⟨rfl, first⟩⟩
  | error code =>
      by_cases missing : code = .noEntry
      · have grown := plain.ensureDirectory (Path.parent path)
        simp only [create, first, missing, if_true] at answered ⊢
        rcases ensured : tree.ensureDirectory (Path.parent path) with ⟨_ | _, middle⟩
        · simp only [ensured] at answered
          cases answered
        · rw [ensured] at grown
          simp only [ensured] at answered ⊢
          cases second : middle.createExclusive path with
          | ok made =>
              simp only [second] at answered ⊢
              cases answered
              exact ⟨middle, grown, .inl ⟨rfl, second⟩⟩
          | error other =>
              simp only [second] at answered ⊢
              obtain ⟨rfl, rfl, same⟩ := refused answered
              exact ⟨middle, grown, .inr ⟨rfl, second, same⟩⟩
      · simp only [create, first, if_neg missing] at answered ⊢
        obtain ⟨rfl, rfl, same⟩ := refused answered
        exact ⟨tree, plain, .inr ⟨rfl, first, same⟩⟩

/-- After a creation that was answered, something is under the name. -/
theorem entry_of_create (plain : tree.Plain) (nonempty : path ≠ "") (named : Path.Plain name)
    (proper : name ≠ "." ∧ name ≠ "..") {creation : Creation}
    (answered : (create tree (Path.join path name)).result = .ok creation) :
    let after := (create tree (Path.join path name)).storage
    ∃ directory entry, after.Houses path directory ∧
      after.stat path = .ok (directory, .directory) ∧
      after.entry? (directory.child name) = some entry ∧
      after.stat (Path.join path name) = .ok (directory.child name, entry) := by
  intro after
  have formed : after.Plain := plain_create plain _
  obtain ⟨directory, entry, houses, checked, short, held⟩ : ∃ directory entry,
      after.Houses path directory ∧ checkPath (Path.join path name) = .ok () ∧
      name.utf8ByteSize ≤ nameLimit ∧ after.entry? (directory.child name) = some entry := by
    obtain ⟨middle, before, ⟨_, made⟩ | ⟨_, refused, same⟩⟩ := create_cases plain answered
    · obtain ⟨there, other, approached, short, vacant, grown⟩ := createExclusive_eq_ok made
      obtain ⟨directory, same, houses, checked⟩ :=
        houses_of_approach nonempty named proper approached
      cases same
      have entries (place : Location) : after.entry? place =
          if place = there.child name then some (.regular middle.files .empty)
          else middle.entry? place := by
        rw [show after = _ from grown]
        exact entry?_insertFile (child_ne_root _ _)
      refine ⟨there, .regular middle.files .empty, houses.grow before formed ?_ ?_, checked, short, ?_⟩
      · rw [show after = _ from grown]
        rfl
      · intro place entry found
        rw [entries, if_neg (by rintro rfl; simp [vacant] at found)]
        exact found
      · rw [entries, if_pos rfl]
    · rw [show after = _ from same]
      exact before.of_alreadyExists nonempty named proper refused
  exact ⟨directory, entry, houses, formed.stat_of_houses houses (checkPath_of_join nonempty checked),
    held, formed.stat_join nonempty named proper houses checked short held⟩

theorem list_of_stat (stated : tree.stat path = .ok (directory, .directory)) :
    ∃ names, list tree path = .ok names ∧
      ∀ name, name ∈ names ↔ ∃ entry, (name, entry) ∈ tree.children directory ∧ entry.isRegular := by
  have opened : tree.directoryAt path = .ok directory := by
    simp only [directoryAt, stated, bind, Except.bind, Entry.isDirectory, if_true]
    rfl
  obtain ⟨names, told⟩ : ∃ names, tree.listRegular path = .ok names := by
    simp only [listRegular, opened, bind, Except.bind]
    exact ⟨_, rfl⟩
  refine ⟨names, ?_, ?_⟩
  · simp only [list, isDirectoryAt, stated, Entry.isDirectory, told, Bool.not_true,
      Bool.false_eq_true, if_false]
  · simp only [listRegular, opened, bind, Except.bind] at told
    cases told
    intro name
    rw [List.mem_mergeSort, List.mem_filterMap]
    constructor
    · intro given
      obtain ⟨⟨held, entry⟩, member, listed⟩ := given
      simp only [Option.ite_none_right_eq_some, Option.some.injEq] at listed
      obtain ⟨regular, rfl⟩ := listed
      exact ⟨entry, member, regular⟩
    · intro given
      obtain ⟨entry, member, regular⟩ := given
      exact ⟨_, member, by simp [regular]⟩

/-- A listing never fails, and lists files. -/
theorem list_answers (tree : FileTree) (path : String) : ∃ names, list tree path = .ok names ∧
    ∀ name ∈ names, ∃ known ∈ tree.entries, known.2.isRegular := by
  cases found : tree.isDirectoryAt path with
  | false => exact ⟨[], by simp only [list, found, Bool.not_false, if_true], nofun⟩
  | true =>
      unfold isDirectoryAt at found
      split at found
      · rename_i directory entry stated
        cases entry with
        | regular | link => cases found
        | directory =>
            obtain ⟨names, told, listed⟩ := list_of_stat stated
            refine ⟨names, told, fun name given => ?_⟩
            obtain ⟨entry, child, regular⟩ := (listed name).mp given
            obtain ⟨known, member, same⟩ := mem_entries_of_children child
            exact ⟨known, member, same ▸ regular⟩
      · cases found

end MarkerBus.Storage.Directory
