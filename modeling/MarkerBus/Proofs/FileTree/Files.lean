import Mathlib.Data.List.Find
import MarkerBus.Proofs.FileTree.Arrival
import MarkerBus.Proofs.FileTree.Chain

namespace MarkerBus.FileTree

variable {tree after : FileTree} {here place location other source target : Location}
  {directory name next : String} {entry : Entry} {file : Nat} {content : ByteArray}
  {change : ByteArray → ByteArray}

structure Sound (tree : FileTree) : Prop where
  nested : ∀ location entry, location ≠ .root → tree.entry? location = some entry →
    tree.entry? location.parent = some .directory
  origin : tree.entry? tree.origin = some .directory
  numbered : ∀ location file content, tree.entry? location = some (.regular file content) →
    file < tree.files
  unshared : ∀ location other file content more,
    tree.entry? location = some (.regular file content) →
    tree.entry? other = some (.regular file more) → location = other

theorem sound_empty : ({} : FileTree).Sound := by
  have bare (location : Location) (entry : Entry)
      (held : FileTree.entry? {} location = some entry) :
      location = .root ∧ entry = .directory := by
    unfold FileTree.entry? at held
    split at held
    · exact ⟨‹_›, (Option.some.inj held).symm⟩
    · cases held
  refine ⟨?_, entry?_root, ?_, ?_⟩
  · intro location entry apart held
    exact absurd (bare _ _ held).1 apart
  · intro location file content held
    cases (bare _ _ held).2
  · intro location other file content more held
    cases (bare _ _ held).2

/-- What a tree is like depends on its entries alone. -/
theorem entry?_congr (same : after.entries = tree.entries) :
    after.entry? location = tree.entry? location := by
  rw [FileTree.entry?, FileTree.entry?, same]

/-- The tree with one more handle. -/
def hold (tree : FileTree) (handle : Handle) : FileTree :=
  { tree with handles := (tree.opened, handle) :: tree.handles, opened := tree.opened + 1 }

theorem encloses_child : here.encloses (location.child name) = true ↔
    here = location.child name ∨ here.encloses location = true := by
  unfold Location.encloses
  rw [List.isSuffixOf_iff_suffix, List.isSuffixOf_iff_suffix, Location.eq_iff_names_eq]
  exact List.suffix_cons_iff

theorem encloses_root : here.encloses .root = true ↔ here = .root := by
  unfold Location.encloses
  rw [List.isSuffixOf_iff_suffix, Location.eq_iff_names_eq]
  exact List.suffix_nil

theorem encloses_self (here : Location) : here.encloses here = true :=
  List.isSuffixOf_iff_suffix.mpr List.suffix_rfl

theorem exists_child (apart : location ≠ .root) :
    ∃ (there : Location) (name : String), location = there.child name := by
  cases spelt : location.names with
  | nil => exact absurd (Location.eq_iff_names_eq.mpr spelt) apart
  | cons name names =>
      refine ⟨.ofNames names, name, Location.eq_iff_names_eq.mpr ?_⟩
      rw [spelt]
      rfl

theorem Sound.directory_of_encloses (sound : tree.Sound) (inside : here.encloses location = true)
    (apart : location ≠ here) (held : tree.entry? location = some entry) :
    tree.entry? here = some .directory := by
  -- outwards from the entry, one directory after the other
  generalize size : location.names.length = depth
  induction depth generalizing location entry with
  | zero =>
      have root : location = .root :=
        Location.eq_iff_names_eq.mpr (List.length_eq_zero_iff.mp size)
      subst root
      exact absurd (encloses_root.mp inside).symm apart
  | succ depth ih =>
      have inner : location ≠ .root := by
        rintro rfl
        cases size
      obtain ⟨there, name, rfl⟩ := exists_child inner
      have outer : tree.entry? there = some .directory := by
        simpa using sound.nested _ _ inner held
      rcases encloses_child.mp inside with same | further
      · exact absurd same.symm apart
      · by_cases same : there = here
        · exact same ▸ outer
        · exact ih further same outer (by simpa [Location.child] using size)

theorem Sound.eq_of_encloses (sound : tree.Sound)
    (held : tree.entry? source = some (.regular file content))
    (inside : source.encloses location = true) (found : tree.entry? location = some entry) :
    location = source := by
  by_contra apart
  rw [sound.directory_of_encloses inside apart found] at held
  cases held

theorem ne_root_of_regular (held : tree.entry? location = some (.regular file content)) :
    location ≠ .root := by
  rintro rfl
  rw [entry?_root] at held
  cases held

theorem ne_root_of_vacant (held : tree.entry? location = none) : location ≠ .root := by
  rintro rfl
  rw [entry?_root] at held
  cases held

theorem exists_entry {known : Location × Entry} (member : known ∈ tree.entries)
    (apart : known.1 ≠ .root) : ∃ entry, tree.entry? known.1 = some entry := by
  rw [FileTree.entry?, if_neg apart]
  have present : (tree.entries.find? fun other => other.1 = known.1).isSome :=
    List.find?_isSome.mpr ⟨known, member, decide_eq_true rfl⟩
  obtain ⟨found, same⟩ := Option.isSome_iff_exists.mp present
  exact ⟨found.2, by rw [same]; rfl⟩

theorem transplant_self (source target : Location) : source.transplant source target = target := by
  simp [Location.transplant, Location.namesFrom, Location.eq_iff_names_eq, Location.ofNames]

/-- What is found at a location after a file has been moved: only the file itself has
another place. -/
theorem entry?_move_eq_find? (sound : tree.Sound)
    (held : tree.entry? source = some (.regular file content)) (root : location ≠ .root) :
    FileTree.entry? (tree.move source target) location =
      (tree.entries.find? fun known =>
        (if known.1 = source then target else known.1) = location).map (·.2) := by
  have moved (known : Location × Entry) (member : known ∈ tree.entries) :
      (if source.encloses known.1 then (known.1.transplant source target, known.2) else known).1 =
        if known.1 = source then target else known.1 := by
    by_cases same : known.1 = source
    · simp [same, encloses_self, transplant_self]
    · rw [if_neg same, if_neg]
      intro inside
      by_cases outermost : known.1 = .root
      · rw [outermost, encloses_root] at inside
        exact ne_root_of_regular held inside
      · obtain ⟨entry, found⟩ := exists_entry member outermost
        exact same (sound.eq_of_encloses held inside found)
  have kept (known : Location × Entry) : (if source.encloses known.1
      then (known.1.transplant source target, known.2) else known).2 = known.2 := by
    split <;> rfl
  rw [FileTree.entry?, if_neg root, move, List.find?_map, Option.map_map]
  have same : (tree.entries.find? fun known => decide ((if source.encloses known.1
        then (known.1.transplant source target, known.2) else known).1 = location)) =
      tree.entries.find? fun known => (if known.1 = source then target else known.1) = location :=
    List.find?_congr fun known member => by rw [moved known member]
  change Option.map _ (tree.entries.find? fun known => decide ((if source.encloses known.1
    then (known.1.transplant source target, known.2) else known).1 = location)) = _
  rw [same]
  congr 1
  funext known
  exact kept known

theorem entry?_move (sound : tree.Sound)
    (held : tree.entry? source = some (.regular file content))
    (vacant : tree.entry? target = none) :
    FileTree.entry? (tree.move source target) location =
      if location = target then some (.regular file content)
      else if location = source then none else tree.entry? location := by
  have outer := ne_root_of_regular held
  by_cases root : location = .root
  · subst root
    rw [if_neg (ne_root_of_vacant vacant).symm, if_neg outer.symm, entry?_root, entry?_root]
  rw [entry?_move_eq_find? sound held root]
  by_cases arrived : location = target
  · subst arrived
    rw [if_pos rfl, ← held, FileTree.entry?, if_neg outer]
    congr 1
    refine List.find?_congr fun known member => ?_
    by_cases same : known.1 = source
    · simp [same]
    · rw [if_neg same, decide_eq_false same, decide_eq_false]
      intro there
      obtain ⟨entry, present⟩ := exists_entry member (there ▸ root)
      rw [there, vacant] at present
      cases present
  · rw [if_neg arrived]
    by_cases left : location = source
    · subst left
      rw [if_pos rfl, Option.map_eq_none_iff, List.find?_eq_none]
      intro known _
      by_cases same : known.1 = location
      · simpa [same] using Ne.symm arrived
      · simp [same]
    · rw [if_neg left, FileTree.entry?, if_neg root]
      congr 1
      refine List.find?_congr fun known _ => ?_
      by_cases same : known.1 = source
      · simp [same, Ne.symm arrived, Ne.symm left]
      · simp [same]

/-- What the entry becomes when the file with a number is changed. -/
def Entry.modified (file : Nat) (change : ByteArray → ByteArray) : Entry → Entry
  | .regular number content =>
      if number = file then .regular number (change content) else .regular number content
  | entry => entry

theorem entry?_modify : FileTree.entry? (tree.modify file change) location =
    (tree.entry? location).map (Entry.modified file change) := by
  by_cases root : location = .root
  · subst root
    rw [entry?_root, entry?_root]
    rfl
  rw [FileTree.entry?, if_neg root, FileTree.entry?, if_neg root, modify, List.find?_map,
    Option.map_map, Option.map_map]
  have same : (tree.entries.find? ((fun known : Location × Entry => decide (known.1 = location)) ∘
      fun known => match known.2 with
        | .regular number content =>
            if number = file then (known.1, .regular number (change content))
            else (known.1, known.2)
        | entry => (known.1, entry))) =
      tree.entries.find? fun known => known.1 = location := by
    refine List.find?_congr fun known _ => ?_
    obtain ⟨there, entry⟩ := known
    cases entry with
    | directory | link => rfl
    | regular number content =>
        simp only [Function.comp]
        split <;> rfl
  refine (congrArg _ same).trans ?_
  congr 1
  funext known
  obtain ⟨there, entry⟩ := known
  cases entry with
  | directory | link => rfl
  | regular number content =>
      simp only [Function.comp, Entry.modified]
      split <;> rfl

theorem entry?_modify_of_regular (held : tree.entry? location = some (.regular file content)) :
    FileTree.entry? (tree.modify file change) location = some (.regular file (change content)) := by
  rw [entry?_modify, held]
  simp [Entry.modified]

theorem Sound.entry?_modify_of_ne (sound : tree.Sound)
    (held : tree.entry? location = some (.regular file content)) (apart : other ≠ location) :
    FileTree.entry? (tree.modify file change) other = tree.entry? other := by
  rw [entry?_modify]
  cases found : tree.entry? other with
  | none => rfl
  | some entry =>
      cases entry with
      | directory | link => rfl
      | regular number more =>
          have distinct : number ≠ file := by
            rintro rfl
            exact apart (sound.unshared _ _ _ _ _ found held)
          rw [Option.map_some, Entry.modified, if_neg distinct]

/-- A file that is modified was a file before. -/
theorem entry?_of_modify {more : ByteArray} {number : Nat}
    (held : FileTree.entry? (tree.modify file change) location = some (.regular number more)) :
    ∃ content, tree.entry? location = some (.regular number content) := by
  rw [entry?_modify, Option.map_eq_some_iff] at held
  obtain ⟨entry, held, same⟩ := held
  cases entry with
  | directory | link => cases same
  | regular other content =>
      dsimp only [Entry.modified] at same
      split at same <;> cases same <;> exact ⟨_, held⟩

theorem keeps_erase (held : tree.entry? source = some (.regular file content)) :
    tree.Keeps (tree.erase source) where
  origin := rfl
  kept location entry other found := by
    rw [entry?_erase (ne_root_of_regular held), if_neg]
    · exact found
    · rintro rfl
      rw [held] at found
      cases found
      cases other

theorem keeps_insertFile (vacant : tree.entry? target = none) :
    tree.Keeps (tree.insertFile target) where
  origin := rfl
  kept location entry _ found := by
    rw [entry?_insertFile (ne_root_of_vacant vacant), if_neg]
    · exact found
    · rintro rfl
      rw [vacant] at found
      cases found

theorem keeps_modify (file : Nat) (change : ByteArray → ByteArray) :
    tree.Keeps (tree.modify file change) where
  origin := rfl
  kept location entry other found := by
    rw [entry?_modify, found]
    cases entry with
    | directory | link => rfl
    | regular => cases other

theorem Sound.keeps_move (sound : tree.Sound)
    (held : tree.entry? source = some (.regular file content))
    (vacant : tree.entry? target = none) : tree.Keeps (tree.move source target) where
  origin := rfl
  kept location entry other found := by
    rw [entry?_move sound held vacant, if_neg, if_neg]
    · exact found
    · rintro rfl
      rw [held] at found
      cases found
      cases other
    · rintro rfl
      rw [vacant] at found
      cases found

/-- A tree is sound if it has the directories of a sound one, and its entries are
in directories and its files apart from each other like there. -/
theorem Sound.of_keeps (sound : tree.Sound) (keeps : tree.Keeps after)
    (placed : ∀ location entry, location ≠ .root → after.entry? location = some entry →
      tree.entry? location.parent = some .directory)
    (numbered : ∀ location file content, after.entry? location = some (.regular file content) →
      file < after.files)
    (unshared : ∀ location other file content more,
      after.entry? location = some (.regular file content) →
      after.entry? other = some (.regular file more) → location = other) : after.Sound where
  nested location entry apart held := keeps.kept _ _ rfl (placed location entry apart held)
  origin := by
    rw [keeps.origin]
    exact keeps.kept _ _ rfl sound.origin
  numbered := numbered
  unshared := unshared

theorem Sound.erase (sound : tree.Sound)
    (held : tree.entry? source = some (.regular file content)) : (tree.erase source).Sound := by
  have fewer (location : Location) (entry : Entry)
      (found : FileTree.entry? (tree.erase source) location = some entry) :
      tree.entry? location = some entry := by
    rw [entry?_erase (ne_root_of_regular held)] at found
    split at found
    · cases found
    · exact found
  refine sound.of_keeps (keeps_erase held) ?_ ?_ ?_
  · intro location entry apart found
    exact sound.nested _ _ apart (fewer _ _ found)
  · intro location file content found
    exact sound.numbered _ _ _ (fewer _ _ found)
  · intro location other file content more found there
    exact sound.unshared _ _ _ _ _ (fewer _ _ found) (fewer _ _ there)

theorem Sound.move (sound : tree.Sound)
    (held : tree.entry? source = some (.regular file content))
    (vacant : tree.entry? target = none)
    (enclosed : tree.entry? target.parent = some .directory) :
    (tree.move source target).Sound := by
  -- where an entry of the new tree was before
  have before (location : Location) (entry : Entry)
      (found : FileTree.entry? (tree.move source target) location = some entry) :
      tree.entry? (if location = target then source else location) = some entry := by
    rw [entry?_move sound held vacant] at found
    split at found
    · rwa [if_pos ‹_›, held]
    · rw [if_neg ‹_›]
      split at found
      · cases found
      · exact found
  refine sound.of_keeps (sound.keeps_move held vacant) ?_ ?_ ?_
  · intro location entry apart found
    by_cases same : location = target
    · exact same ▸ enclosed
    · have old := before _ _ found
      rw [if_neg same] at old
      exact sound.nested _ _ apart old
  · intro location file content found
    exact sound.numbered _ _ _ (before _ _ found)
  · intro location other file content more found there
    have same := sound.unshared _ _ _ _ _ (before _ _ found) (before _ _ there)
    have left (place : Location) (entry : Entry)
        (found : FileTree.entry? (tree.move source target) place = some entry)
        (apart : place ≠ target) : place ≠ source := by
      rintro rfl
      rw [entry?_move sound held vacant, if_neg apart, if_pos rfl] at found
      cases found
    by_cases first : location = target <;> by_cases second : other = target
    · rw [first, second]
    · rw [if_pos first, if_neg second] at same
      exact absurd same.symm (left _ _ there second)
    · rw [if_neg first, if_pos second] at same
      exact absurd same (left _ _ found first)
    · rwa [if_neg first, if_neg second] at same

theorem Sound.insertFile (sound : tree.Sound) (vacant : tree.entry? target = none)
    (enclosed : tree.entry? target.parent = some .directory) : (tree.insertFile target).Sound := by
  have outer := ne_root_of_vacant vacant
  have before (location : Location) (entry : Entry)
      (found : FileTree.entry? (tree.insertFile target) location = some entry) :
      location = target ∧ entry = .regular tree.files .empty ∨
        location ≠ target ∧ tree.entry? location = some entry := by
    rw [entry?_insertFile outer] at found
    split at found
    · exact .inl ⟨‹_›, (Option.some.inj found).symm⟩
    · exact .inr ⟨‹_›, found⟩
  refine sound.of_keeps (keeps_insertFile vacant) ?_ ?_ ?_
  · intro location entry apart found
    rcases before _ _ found with ⟨rfl, _⟩ | ⟨_, old⟩
    · exact enclosed
    · exact sound.nested _ _ apart old
  · intro location file content found
    rcases before _ _ found with ⟨_, made⟩ | ⟨_, old⟩
    · cases made
      exact Nat.lt_succ_self _
    · exact Nat.lt_succ_of_lt (sound.numbered _ _ _ old)
  · intro location other file content more found there
    rcases before _ _ found with ⟨rfl, made⟩ | ⟨_, old⟩ <;>
      rcases before _ _ there with ⟨rfl, makes⟩ | ⟨_, older⟩
    · rfl
    · cases made
      exact absurd (sound.numbered _ _ _ older) (Nat.lt_irrefl _)
    · cases makes
      exact absurd (sound.numbered _ _ _ old) (Nat.lt_irrefl _)
    · exact sound.unshared _ _ _ _ _ old older

theorem Sound.modify (sound : tree.Sound) (file : Nat) (change : ByteArray → ByteArray) :
    (tree.modify file change).Sound := by
  refine sound.of_keeps (keeps_modify file change) ?_ ?_ ?_
  · intro location entry apart found
    rw [entry?_modify, Option.map_eq_some_iff] at found
    obtain ⟨old, held, _⟩ := found
    exact sound.nested _ _ apart held
  · intro location number content found
    obtain ⟨_, held⟩ := entry?_of_modify found
    exact sound.numbered _ _ _ held
  · intro location other number content more found there
    obtain ⟨_, held⟩ := entry?_of_modify found
    obtain ⟨_, older⟩ := entry?_of_modify there
    exact sound.unshared _ _ _ _ _ held older

/-- Handles are not part of what makes a tree sound. -/
theorem Sound.congr (sound : tree.Sound) (entries : after.entries = tree.entries)
    (origin : after.origin = tree.origin) (files : after.files = tree.files) : after.Sound := by
  have same (location : Location) : after.entry? location = tree.entry? location :=
    entry?_congr entries
  refine ⟨?_, ?_, ?_, ?_⟩
  · intro location entry apart held
    rw [same] at held ⊢
    exact sound.nested _ _ apart held
  · rw [same, origin]
    exact sound.origin
  · intro location file content held
    rw [same] at held
    exact files ▸ sound.numbered _ _ _ held
  · intro location other file content more held there
    rw [same] at held there
    exact sound.unshared _ _ _ _ _ held there

/-- A name that a file in the directory can have. -/
structure Admits (directory name : String) : Prop where
  plain : Path.Plain name
  fitting : Fitting name
  checked : checkPath (Path.join directory name) = .ok ()

section

variable (stated : tree.stat directory = .ok (place, .directory)) (admits : Admits directory name)

include stated admits

theorem approach_of_admits :
    tree.approach (Path.join directory name) = .ok (.name place name false) := by
  have houses : tree.statNames (tree.start directory) (namesOf directory) =
      .ok (place, .directory) := houses_of_stat stated
  rw [approach_join (nonempty_of_stat stated) admits.plain admits.fitting.proper admits.checked,
    houses]
  rfl

theorem stat_of_regular (held : tree.entry? (place.child name) = some (.regular file content)) :
    tree.stat (Path.join directory name) = .ok (place.child name, .regular file content) := by
  have nonempty := nonempty_of_stat stated
  obtain ⟨⟨left, arrives⟩, enclosing⟩ := statNames_eq_ok_iff_arrives.mp (houses_of_stat stated)
  rw [stat_of_checked admits.checked, stepsOf, endsInSlash_join nonempty admits.plain,
    namesOf_join nonempty admits.plain, start_join nonempty, if_neg Bool.false_ne_true,
    List.append_nil]
  exact statNames_eq_ok_iff_arrives.mpr ⟨⟨left, arrives.append enclosing
    (.file admits.fitting.proper admits.fitting.short held)⟩, held⟩

omit stated in
theorem peek_of_admits : tree.peek place name = .ok (tree.entry? (place.child name)) :=
  if_neg (Nat.not_lt.mpr admits.fitting.short)

theorem remove_of_vacant (vacant : tree.entry? (place.child name) = none) :
    tree.remove (Path.join directory name) = .error .noEntry := by
  have missing : tree.unlink (Path.join directory name) = .error .noEntry := by
    simp only [unlink, approach_of_admits stated admits, peek_of_admits admits, vacant, bind,
      Except.bind]
  simp only [remove, missing]
  rfl

theorem remove_of_regular (held : tree.entry? (place.child name) = some (.regular file content)) :
    tree.remove (Path.join directory name) = .ok (tree.erase (place.child name)) := by
  have unlinked : tree.unlink (Path.join directory name) = .ok (tree.erase (place.child name)) := by
    simp only [unlink, approach_of_admits stated admits, peek_of_admits admits, held, bind,
      Except.bind]
    rfl
  simp only [remove, unlinked]

theorem rename_of_vacant (other : Admits directory next)
    (held : tree.entry? (place.child name) = some (.regular file content))
    (vacant : tree.entry? (place.child next) = none) :
    tree.rename (Path.join directory name) (Path.join directory next) =
      .ok (tree.move (place.child name) (place.child next)) := by
  have apart : place.child name ≠ place.child next := by
    intro same
    rw [same, vacant] at held
    cases held
  simp only [rename, approach_of_admits stated admits, approach_of_admits stated other,
    peek_of_admits admits, peek_of_admits other, held, vacant, bind, Except.bind,
    if_neg apart, Entry.isDirectory]
  rfl

theorem rename_of_missing (other : Admits directory next)
    (missing : tree.entry? (place.child name) = none) :
    tree.rename (Path.join directory name) (Path.join directory next) = .error .noEntry := by
  simp only [rename, approach_of_admits stated admits, approach_of_admits stated other,
    peek_of_admits admits, missing, bind, Except.bind]

theorem walkToFile_of_vacant (vacant : tree.entry? (place.child name) = none) :
    tree.walkToFile (Path.join directory name) = .ok (.vacant place name) := by
  have nonempty := nonempty_of_stat stated
  obtain ⟨⟨left, arrives⟩, enclosing⟩ := statNames_eq_ok_iff_arrives.mp (houses_of_stat stated)
  simp only [walkToFile, admits.checked, bind, Except.bind, stepsOf,
    endsInSlash_join nonempty admits.plain, namesOf_join nonempty admits.plain,
    start_join nonempty, Bool.false_eq_true, if_false, List.append_nil,
    arrives.followToFile_concat enclosing, followToFile_eq_followNames]
  exact followNames_vacant admits.fitting.proper admits.fitting.short vacant

theorem walkToFile_of_regular
    (held : tree.entry? (place.child name) = some (.regular file content)) :
    ∃ left, tree.walkToFile (Path.join directory name) = .ok (.found (place.child name) left) := by
  have nonempty := nonempty_of_stat stated
  obtain ⟨⟨left, arrives⟩, enclosing⟩ := statNames_eq_ok_iff_arrives.mp (houses_of_stat stated)
  refine ⟨left, ?_⟩
  simp only [walkToFile, admits.checked, bind, Except.bind, stepsOf,
    endsInSlash_join nonempty admits.plain, namesOf_join nonempty admits.plain,
    start_join nonempty, Bool.false_eq_true, if_false, List.append_nil,
    arrives.followToFile_concat enclosing, followToFile_eq_followNames]
  exact followNames_regular admits.fitting.proper admits.fitting.short held

theorem locateFile_of_vacant (vacant : tree.entry? (place.child name) = none) :
    tree.locateFile (Path.join directory name) =
      .ok (place.child name, tree.insertFile (place.child name)) := by
  simp only [locateFile, approach_of_admits stated admits, bind, Except.bind,
    walkToFile_of_vacant stated admits vacant]
  rfl

theorem locateFile_of_regular
    (held : tree.entry? (place.child name) = some (.regular file content)) :
    tree.locateFile (Path.join directory name) = .ok (place.child name, tree) := by
  obtain ⟨left, walked⟩ := walkToFile_of_regular stated admits held
  simp only [locateFile, approach_of_admits stated admits, bind, Except.bind, walked]
  rfl

end

theorem openFile_of_located {path : String} {location : Location}
    (located : tree.locateFile path = .ok (location, after))
    (held : after.entry? location = some (.regular file content)) (mode : Mode) :
    tree.openFile path mode = .ok (after.opened,
      (if mode = .truncate then after.modify file fun _ => .empty else after).hold
        ⟨file, mode.position?⟩) := by
  simp only [openFile, located, bind, Except.bind, held]
  cases mode <;> rfl

/-- Opening takes a file that is there or makes one, and gives out the next handle. -/
theorem openFile_eq_ok {path : String} {mode : Mode} {handle : Nat}
    (opened : tree.openFile path mode = .ok (handle, after)) :
    ∃ middle location file content,
      tree.locateFile path = .ok (location, middle) ∧
      middle.entry? location = some (.regular file content) ∧ handle = middle.opened ∧
      after = (if mode = .truncate then middle.modify file fun _ => .empty else middle).hold
        ⟨file, mode.position?⟩ := by
  obtain ⟨⟨location, middle⟩, located, opened⟩ := bind_eq_ok opened
  dsimp only at opened
  split at opened
  · rename_i file content held
    cases opened
    refine ⟨middle, location, file, content, located, held, ?_, ?_⟩ <;> cases mode <;> rfl
  · cases opened

theorem locateFile_eq_ok {path : String} (located : tree.locateFile path = .ok (location, after)) :
    (∃ left, tree.walkToFile path = .ok (.found location left)) ∧ after = tree ∨
      ∃ there name, tree.walkToFile path = .ok (.vacant there name) ∧
        location = there.child name ∧ after = tree.insertFile location := by
  obtain ⟨ending, _, located⟩ := bind_eq_ok located
  rcases ending with _ | _ | _ | ⟨there, name, _ | _⟩
  · cases located
  · cases located
  · cases located
  · obtain ⟨destination, walked, located⟩ := bind_eq_ok located
    cases destination with
    | vacant there name =>
        cases located
        exact .inr ⟨there, name, walked, rfl, rfl⟩
    | found there left =>
        cases located
        exact .inl ⟨⟨left, walked⟩, rfl⟩
  · cases located

end MarkerBus.FileTree
