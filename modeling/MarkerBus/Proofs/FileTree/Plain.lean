import Mathlib.Data.List.Nodup
import MarkerBus.FileTree.Calls

namespace MarkerBus.FileTree

variable {tree after : FileTree} {here location other : Location} {name path : String}
  {entry : Entry} {names : List String} {links : Nat}

/-- At most one entry at each location, none of them a link. -/
structure Plain (tree : FileTree) : Prop where
  distinct : (tree.entries.map Prod.fst).Nodup
  rootless : .root ∉ tree.entries.map Prod.fst
  linkless : ∀ known ∈ tree.entries, ∀ target, known.2 ≠ .link target

theorem plain_empty : ({} : FileTree).Plain :=
  ⟨.nil, List.not_mem_nil, nofun⟩

theorem bind_eq_ok {ε α β : Type} {first : Except ε α} {next : α → Except ε β} {value : β}
    (bound : first >>= next = .ok value) : ∃ middle, first = .ok middle ∧ next middle = .ok value := by
  cases first with
  | error => cases bound
  | ok middle => exact ⟨middle, rfl, bound⟩

theorem child_ne_root (here : Location) (name : String) : here.child name ≠ .root := by
  intro same
  have depths := congrArg Location.depth same
  simp [Location.child, Location.root, Location.ofNames] at depths

theorem child_injective {there : Location} {other : String}
    (same : here.child name = there.child other) : here = there ∧ name = other := by
  have outwards := congrArg Location.parent same
  rw [Location.parent_child, Location.parent_child] at outwards
  have names := congrArg Location.names same
  simp only [Location.child, List.cons.injEq] at names
  exact ⟨outwards, names.1⟩

theorem entry?_root : tree.entry? .root = some .directory :=
  if_pos rfl

theorem entry?_insert (apart : location ≠ .root) :
    entry? (tree.insert location entry) other =
      if other = location then some entry else tree.entry? other := by
  unfold entry? insert
  by_cases root : other = .root
  · simp [root, Ne.symm apart]
  · by_cases same : other = location
    · simp [same, apart]
    · simp [root, same, Ne.symm same]

theorem entry?_insertFile (apart : location ≠ .root) :
    entry? (tree.insertFile location) other =
      if other = location then some (.regular tree.files .empty) else tree.entry? other :=
  entry?_insert apart

theorem entry?_erase (apart : location ≠ .root) :
    entry? (tree.erase location) other = if other = location then none else tree.entry? other := by
  unfold entry? erase
  by_cases root : other = .root
  · simp [root, Ne.symm apart]
  · by_cases same : other = location
    · subst same
      simp [root]
    · simp only [root, if_false, same, List.find?_filter]
      congr 2
      funext known
      by_cases found : known.1 = other
      · simp [found, same]
      · simp [found]

theorem entry?_eraseUnder :
    entry? (tree.eraseUnder here) other =
      if here.encloses other ∧ other ≠ here ∧ other ≠ .root then none else tree.entry? other := by
  unfold entry? eraseUnder
  by_cases root : other = .root
  · simp [root]
  · simp only [root, if_false, List.find?_filter, ne_eq, not_false_eq_true, and_true]
    by_cases gone : here.encloses other ∧ ¬ other = here
    · rw [if_pos gone, Option.map_eq_none_iff, List.find?_eq_none]
      intro known _ found
      simp only [Bool.decide_or, Bool.or_eq_true, decide_eq_true_eq,
        Bool.not_eq_eq_eq_not, Bool.not_true] at found
      obtain ⟨kept, rfl⟩ := found
      rcases kept with same | outside
      · exact gone.2 same
      · simp [gone.1] at outside
    · rw [if_neg gone]
      congr 2
      funext known
      by_cases found : known.1 = other
      · have kept : other = here ∨ here.encloses other = false := by
          by_cases same : other = here
          · exact .inl same
          · exact .inr (by simpa using fun inside => gone ⟨inside, same⟩)
        simp [found, kept]
      · simp [found]

theorem Plain.entry?_eq_some_iff (plain : tree.Plain) (apart : location ≠ .root) :
    tree.entry? location = some entry ↔ (location, entry) ∈ tree.entries := by
  rw [ entry?, if_neg apart, Option.map_eq_some_iff]
  constructor
  · intro given
    obtain ⟨⟨found, held⟩, first, rfl⟩ := given
    have same : found = location := by simpa using List.find?_some first
    subst same
    exact List.mem_of_find?_eq_some first
  · intro member
    obtain ⟨found, first⟩ : ∃ found,
        tree.entries.find? (fun known => known.1 = location) = some found := by
      rw [← Option.isSome_iff_exists, List.find?_isSome]
      exact ⟨_, member, decide_eq_true rfl⟩
    have same : found.1 = location := by simpa using List.find?_some first
    have once := List.inj_on_of_nodup_map plain.distinct (List.mem_of_find?_eq_some first) member same
    exact ⟨found, first, by rw [once]⟩

theorem Plain.entry?_ne_link (plain : tree.Plain) (location : Location) (target : String) :
    tree.entry? location ≠ some (.link target) := by
  intro found
  by_cases root : location = .root
  · rw [root, entry?_root] at found
    cases found
  · exact plain.linkless _ ((plain.entry?_eq_some_iff root).mp found) target rfl

theorem split?_eq_some_iff : location.split? = some (here, name) ↔ location = here.child name := by
  constructor
  · intro cut
    obtain ⟨last, first, same⟩ := Option.map_eq_some_iff.mp cut
    cases same
    obtain ⟨rest, spelt⟩ := List.head?_eq_some_iff.mp first
    apply Location.eq_iff_names_eq.mpr
    simp [Location.child, Location.parent, spelt]
  · rintro rfl
    exact Location.split?_child

theorem Plain.mem_children_iff (plain : tree.Plain) :
    (name, entry) ∈ tree.children here ↔ tree.entry? (here.child name) = some entry := by
  rw [plain.entry?_eq_some_iff (child_ne_root here name), children, List.mem_filterMap]
  constructor
  · intro given
    obtain ⟨⟨location, held⟩, member, listed⟩ := given
    cases cut : location.split? with
    | none => simp [cut] at listed
    | some parts =>
        simp only [cut, Option.ite_none_right_eq_some, Option.some.injEq, Prod.mk.injEq] at listed
        obtain ⟨inside, named, rfl⟩ := listed
        have same : location.split? = some (here, name) := by rw [cut, ← inside, ← named]
        rwa [split?_eq_some_iff.mp same] at member
  · intro member
    exact ⟨_, member, by simp⟩

theorem mem_entries_of_children (child : (name, entry) ∈ tree.children here) :
    ∃ known ∈ tree.entries, known.2 = entry := by
  obtain ⟨⟨location, held⟩, member, listed⟩ := List.mem_filterMap.mp child
  refine ⟨_, member, ?_⟩
  dsimp only at listed
  split at listed
  · split at listed <;> cases listed
    rfl
  · cases listed

theorem Plain.of_sublist (plain : tree.Plain) (sublist : after.entries.Sublist tree.entries) :
    after.Plain where
  distinct := plain.distinct.sublist (sublist.map Prod.fst)
  rootless member := plain.rootless ((sublist.map Prod.fst).subset member)
  linkless known member := plain.linkless known (sublist.subset member)

theorem Plain.insert (plain : tree.Plain) (vacant : tree.entry? (here.child name) = none)
    (linkless : ∀ target, entry ≠ .link target) : (tree.insert (here.child name) entry).Plain where
  distinct := by
    refine List.nodup_cons.mpr ⟨fun member => ?_, plain.distinct⟩
    obtain ⟨⟨location, held⟩, member, same⟩ := List.mem_map.mp member
    cases same
    rw [(plain.entry?_eq_some_iff (child_ne_root here name)).mpr member] at vacant
    cases vacant
  rootless member := by
    rcases List.mem_cons.mp member with same | earlier
    · exact child_ne_root here name same.symm
    · exact plain.rootless earlier
  linkless known member := by
    rcases List.mem_cons.mp member with rfl | earlier
    · exact linkless
    · exact plain.linkless known earlier

theorem Plain.insertFile (plain : tree.Plain) (vacant : tree.entry? (here.child name) = none) :
    (tree.insertFile (here.child name)).Plain :=
  have grown : (tree.insert (here.child name) (.regular tree.files .empty)).Plain :=
    plain.insert vacant nofun
  ⟨grown.distinct, grown.rootless, grown.linkless⟩

theorem peek_eq_ok {found : Option Entry} (peeked : tree.peek here name = .ok found) :
    name.utf8ByteSize ≤ nameLimit ∧ tree.entry? (here.child name) = found := by
  unfold peek at peeked
  split at peeked
  · cases peeked
  · exact ⟨Nat.le_of_not_lt ‹_›, Except.ok.inj peeked⟩

theorem createExclusive_eq_ok (made : tree.createExclusive path = .ok after) :
    ∃ directory name, tree.approach path = .ok (.name directory name false) ∧
      name.utf8ByteSize ≤ nameLimit ∧ tree.entry? (directory.child name) = none ∧
      after = tree.insertFile (directory.child name) := by
  obtain ⟨ending, approached, made⟩ := bind_eq_ok made
  rcases ending with _ | _ | _ | ⟨directory, name, _ | _⟩
  · cases made
  · cases made
  · cases made
  · obtain ⟨found, peeked, made⟩ := bind_eq_ok made
    cases found with
    | some entry => cases made
    | none =>
        cases made
        obtain ⟨short, vacant⟩ := peek_eq_ok peeked
        exact ⟨directory, name, approached, short, vacant, rfl⟩
  · cases made

theorem Plain.createExclusive (plain : tree.Plain) (made : tree.createExclusive path = .ok after) :
    after.Plain := by
  obtain ⟨directory, name, _, _, vacant, rfl⟩ := createExclusive_eq_ok made
  exact plain.insertFile vacant

theorem sublist_erase (tree : FileTree) (location : Location) :
    (tree.erase location).entries.Sublist tree.entries :=
  List.filter_sublist

theorem unlink_eq_ok (unlinked : tree.unlink path = .ok after) :
    ∃ location, after = tree.erase location := by
  obtain ⟨ending, _, unlinked⟩ := bind_eq_ok unlinked
  rcases ending with _ | _ | _ | ⟨directory, name, slash⟩
  · cases unlinked
  · cases unlinked
  · cases unlinked
  · obtain ⟨found, _, unlinked⟩ := bind_eq_ok unlinked
    rcases found with _ | _ | _ | _
    · cases unlinked
    · cases unlinked
    · cases slash <;> cases unlinked
      exact ⟨_, rfl⟩
    · cases slash <;> cases unlinked
      exact ⟨_, rfl⟩

theorem removeDirectory_eq_ok (removed : tree.removeDirectory path = .ok after) :
    ∃ location, after = tree.erase location := by
  obtain ⟨ending, _, removed⟩ := bind_eq_ok removed
  rcases ending with _ | _ | _ | ⟨directory, name, slash⟩
  · cases removed
  · cases removed
  · cases removed
  · obtain ⟨found, _, removed⟩ := bind_eq_ok removed
    rcases found with _ | _ | _ | _
    · cases removed
    · dsimp only at removed
      split at removed <;> cases removed
      exact ⟨_, rfl⟩
    · cases removed
    · cases removed

theorem remove_eq_ok (removed : tree.remove path = .ok after) :
    ∃ location, after = tree.erase location := by
  unfold remove at removed
  split at removed
  · cases removed
    exact unlink_eq_ok ‹_›
  · split at removed
    · exact removeDirectory_eq_ok removed
    · cases removed

theorem sublist_unlink (unlinked : tree.unlink path = .ok after) :
    after.entries.Sublist tree.entries := by
  obtain ⟨location, rfl⟩ := unlink_eq_ok unlinked
  exact sublist_erase tree location

theorem sublist_removeLeft (tree : FileTree) (path : String) :
    (tree.removeLeft path).2.entries.Sublist tree.entries := by
  unfold removeLeft
  split
  · obtain ⟨location, rfl⟩ := remove_eq_ok ‹_›
    exact sublist_erase tree location
  · split <;> exact List.Sublist.refl _

theorem sublist_removeAll (tree : FileTree) (path : String) :
    (tree.removeAll path).2.entries.Sublist tree.entries := by
  unfold removeAll
  split
  · exact (sublist_removeLeft _ _).trans List.filter_sublist
  · split
    · exact List.Sublist.refl _
    · split
      · exact sublist_removeLeft _ _
      · exact List.Sublist.refl _

theorem Plain.makeEach (plain : tree.Plain) : (tree.makeEach here links names).2.Plain := by
  induction names generalizing tree here links with
  | nil => exact plain
  | cons name rest ih =>
      unfold FileTree.makeEach
      split
      · exact ih plain
      · split
        · exact ih plain
        · split
          · exact plain
          · rename_i peeked
            exact ih (plain.insert (peek_eq_ok peeked).2 nofun)
          · split
            · split
              · exact ih plain
              · exact plain
            · exact plain

theorem Plain.ensureDirectory (plain : tree.Plain) (path : String) :
    (tree.ensureDirectory path).2.Plain := by
  have made : (tree.makeDirectories path).2.Plain := by
    unfold makeDirectories
    split
    · exact plain
    · split
      · exact plain
      · split
        · split
          · split
            · exact plain
            · exact plain.makeEach
          · exact plain
        · exact plain
  unfold FileTree.ensureDirectory
  split
  · rename_i same
    rwa [same] at made
  · rename_i same
    rw [same] at made
    split <;> exact made

end MarkerBus.FileTree
