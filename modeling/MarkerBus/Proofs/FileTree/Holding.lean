import MarkerBus.Proofs.FileTree.Chain

namespace MarkerBus.FileTree

variable {tree after : FileTree} {path name : String} {named : String → Prop}
  {front : List String}

/-- Where the directory of a path is. -/
def home (path : String) : Location :=
  Location.root.down (namesOf path)

/-- A name that an entry of the directory can have. -/
structure Suits (path name : String) : Prop where
  plain : Path.Plain name
  fitting : Fitting name
  short : (Path.join path name).utf8ByteSize < pathLimit

/-- There is nothing but the root. -/
structure Blank (tree : FileTree) : Prop where
  origin : tree.origin = .root
  bare : ∀ location, location ≠ .root → tree.entry? location = none

/-- The directory is there, and holds files of just these names. -/
structure Holds (tree : FileTree) (path : String) (named : String → Prop) : Prop where
  origin : tree.origin = .root
  chain : tree.Chain .root (namesOf path)
  regular : ∀ name entry, tree.entry? ((home path).child name) = some entry → entry.isRegular
  listed : ∀ name, named name ↔ tree.entry? ((home path).child name) ≠ none

theorem blank_empty : ({} : FileTree).Blank :=
  ⟨rfl, fun _ apart => if_neg apart⟩

theorem child_home_ne_down (inside : front <+: namesOf path) :
    (home path).child name ≠ Location.root.down front := by
  rw [home, ← Location.down_concat]
  intro same
  have long := inside.length_le
  rw [← Location.down_injective same, List.length_append] at long
  exact absurd long (by simp)

theorem child_home_ne : (home path).child name ≠ home path :=
  child_home_ne_down (List.prefix_refl _)

theorem home_eq {last : String} (split : namesOf path = front ++ [last]) :
    home path = (Location.root.down front).child last := by
  rw [home, split, Location.down_concat]

theorem Holds.congr {other : String → Prop} (holds : tree.Holds path named)
    (same : ∀ name, named name ↔ other name) : tree.Holds path other :=
  ⟨holds.origin, holds.chain, holds.regular, fun name => (same name).symm.trans (holds.listed name)⟩

theorem chain_root (tree : FileTree) : tree.Chain .root [] := by
  intro front inside
  rw [List.prefix_nil.mp inside]
  exact entry?_root

theorem Blank.bare_down (blank : tree.Blank) (names : List String) : tree.Bare .root names := by
  intro front _ inhabited
  refine blank.bare _ fun same => inhabited ?_
  exact Location.down_injective same

theorem Blank.statNames_eq (blank : tree.Blank) {names : List String} (more : names ≠ [])
    (fitting : ∀ name ∈ names, Fitting name) :
    tree.statNames .root names = .error .noEntry :=
  statNames_of_missing tree.chain_root (List.forall_mem_nil _) (blank.bare_down names) fitting more

theorem Holds.insertFile (holds : tree.Holds path named) (name : String) :
    (tree.insertFile ((home path).child name)).Holds path
      fun other => other = name ∨ named other where
  origin := holds.origin
  chain place inside := by
    rw [entry?_insertFile (child_ne_root _ _), if_neg (child_home_ne_down inside).symm]
    exact holds.chain place inside
  regular other entry found := by
    rw [entry?_insertFile (child_ne_root _ _)] at found
    split at found
    · cases found
      rfl
    · exact holds.regular other entry found
  listed other := by
    rw [entry?_insertFile (child_ne_root _ _), holds.listed other]
    by_cases same : other = name
    · simp [same]
    · rw [if_neg fun equal => same (child_injective equal).2]
      exact or_iff_right same

theorem Holds.erase (holds : tree.Holds path named) (name : String) :
    (tree.erase ((home path).child name)).Holds path
      fun other => named other ∧ other ≠ name where
  origin := holds.origin
  chain place inside := by
    rw [entry?_erase (child_ne_root _ _), if_neg (child_home_ne_down inside).symm]
    exact holds.chain place inside
  regular other entry found := by
    rw [entry?_erase (child_ne_root _ _)] at found
    split at found
    · cases found
    · exact holds.regular other entry found
  listed other := by
    rw [entry?_erase (child_ne_root _ _), holds.listed other]
    by_cases same : other = name
    · simp [same]
    · rw [if_neg fun equal => same (child_injective equal).2]
      exact and_iff_left same

/-- Everything under the directory goes, the directory stays. -/
theorem Holds.eraseUnder (holds : tree.Holds path named) :
    (tree.eraseUnder (home path)).Holds path fun _ => False := by
  have childless (name : String) :
      entry? (tree.eraseUnder (home path)) ((home path).child name) = none := by
    refine entry?_eraseUnder.trans (if_pos ⟨?_, ?_, child_ne_root _ _⟩)
    · rw [home, ← Location.down_concat]
      exact Location.encloses_down.mpr (List.prefix_append _ _)
    · exact child_home_ne
  refine ⟨holds.origin, fun place inside => ?_, fun name entry found => ?_, fun name => ?_⟩
  · rw [entry?_eraseUnder, if_neg]
    · exact holds.chain place inside
    · rintro ⟨encloses, other, _⟩
      have whole := Location.encloses_down.mp encloses
      exact other (congrArg _ (List.IsPrefix.eq_of_length_le inside whole.length_le))
  · rw [childless] at found
    cases found
  · simp [childless]

theorem Holds.childless (holds : tree.Holds path fun _ => False) (name : String) :
    tree.entry? ((home path).child name) = none :=
  not_not.mp fun present => (holds.listed name).mpr present

section

variable (ordinary : Ordinary path) (suits : Suits path name)

include ordinary

theorem Holds.houses (holds : tree.Holds path named) : tree.Houses path (home path) := by
  rw [Houses, start_of_origin holds.origin, statNames, (holds.chain.walks ordinary.fitting).follow_eq]
  simp only [bind, Except.bind, holds.chain.last, home]
  rfl

theorem Holds.stat (holds : tree.Holds path named) :
    tree.stat path = .ok (home path, .directory) := by
  have houses := holds.houses ordinary
  rwa [Houses, start_of_origin holds.origin, ← ordinary.stat_eq holds.origin] at houses

theorem Blank.stat (blank : tree.Blank) : tree.stat path = .error .noEntry := by
  rw [ordinary.stat_eq blank.origin]
  exact blank.statNames_eq ordinary.namesOf_ne_nil ordinary.fitting

include suits

theorem checkPath_of_suits : checkPath (Path.join path name) = .ok () := by
  refine checkPath_eq_ok_iff.mpr ⟨fun empty => ?_, suits.short⟩
  obtain ⟨front, spelt, _⟩ := Path.toList_join ordinary.nonempty name
  simp [empty] at spelt

theorem Holds.approach (holds : tree.Holds path named) :
    tree.approach (Path.join path name) = .ok (.name (home path) name false) := by
  have houses := holds.houses ordinary
  rw [approach_join ordinary.nonempty suits.plain suits.fitting.proper
    (checkPath_of_suits ordinary suits)]
  unfold Houses at houses
  simp only [houses, bind, Except.bind, Entry.isDirectory, if_true]
  rfl

theorem Blank.approach (blank : tree.Blank) :
    tree.approach (Path.join path name) = .error .noEntry := by
  rw [approach_join ordinary.nonempty suits.plain suits.fitting.proper
    (checkPath_of_suits ordinary suits), start_of_origin blank.origin,
    blank.statNames_eq ordinary.namesOf_ne_nil ordinary.fitting]
  rfl

theorem Holds.createExclusive_eq (holds : tree.Holds path named) (fresh : ¬ named name) :
    tree.createExclusive (Path.join path name) =
      .ok (tree.insertFile ((home path).child name)) := by
  have vacant := not_not.mp (mt (holds.listed name).mpr fresh)
  simp only [FileTree.createExclusive, holds.approach ordinary suits, peek,
    if_neg (Nat.not_lt.mpr suits.fitting.short), vacant, bind, Except.bind]
  rfl

theorem Holds.createExclusive_of_named (holds : tree.Holds path named) (taken : named name) :
    tree.createExclusive (Path.join path name) = .error .alreadyExists := by
  obtain ⟨entry, held⟩ := Option.ne_none_iff_exists'.mp ((holds.listed name).mp taken)
  simp only [FileTree.createExclusive, holds.approach ordinary suits, peek,
    if_neg (Nat.not_lt.mpr suits.fitting.short), held, bind, Except.bind]

theorem Blank.createExclusive_eq (blank : tree.Blank) :
    tree.createExclusive (Path.join path name) = .error .noEntry := by
  rw [FileTree.createExclusive, blank.approach ordinary suits]
  rfl

theorem Holds.unlink_eq (holds : tree.Holds path named) (present : named name) :
    tree.unlink (Path.join path name) = .ok (tree.erase ((home path).child name)) := by
  obtain ⟨entry, held⟩ := Option.ne_none_iff_exists'.mp ((holds.listed name).mp present)
  have regular := holds.regular name entry held
  simp only [FileTree.unlink, holds.approach ordinary suits, peek,
    if_neg (Nat.not_lt.mpr suits.fitting.short), held, bind, Except.bind]
  cases entry with
  | regular => rfl
  | directory | link => cases regular

theorem Holds.unlink_of_not_named (holds : tree.Holds path named) (absent : ¬ named name) :
    tree.unlink (Path.join path name) = .error .noEntry := by
  have vacant := not_not.mp (mt (holds.listed name).mpr absent)
  simp only [FileTree.unlink, holds.approach ordinary suits, peek,
    if_neg (Nat.not_lt.mpr suits.fitting.short), vacant, bind, Except.bind]

theorem Blank.unlink_eq (blank : tree.Blank) :
    tree.unlink (Path.join path name) = .error .noEntry := by
  rw [FileTree.unlink, blank.approach ordinary suits]
  rfl

end

section

variable (ordinary : Ordinary path)

include ordinary

theorem exists_last : ∃ front last, namesOf path = front ++ [last] := by
  obtain ⟨front, last, split⟩ :=
    (List.eq_nil_or_concat (namesOf path)).resolve_left ordinary.namesOf_ne_nil
  exact ⟨front, last, by rw [split, List.concat_eq_append]⟩

/-- Where nothing is from some name on, the directory can be made. -/
theorem ensureDirectory_holds {rest : List String} (split : namesOf path = front ++ rest)
    (more : rest ≠ []) (few : (namesOf path).length ≤ makingLimit) (origin : tree.origin = .root)
    (chain : tree.Chain .root front) (bare : tree.Bare (Location.root.down front) rest)
    (childless : ∀ name, tree.entry? ((home path).child name) = none) :
    ∃ after, tree.ensureDirectory path = (.ok (), after) ∧ after.Holds path fun _ => False := by
  have fewer : rest.length ≤ makingLimit := by
    rw [split, List.length_append] at few
    exact Nat.le_of_add_left_le few
  obtain ⟨after, ensured, makes⟩ :=
    ordinary.ensureDirectory_of_missing origin split chain bare more fewer
  have vacant (name : String) : after.entry? ((home path).child name) = none := by
    rw [makes.others, childless]
    intro further inside _
    rw [← Location.down_append]
    refine child_home_ne_down ?_
    rw [split]
    exact (List.prefix_append_right_inj front).mpr inside
  exact ⟨after, ensured, makes.origin.trans origin, split ▸ makes.chain chain,
    fun name entry found => by simp [vacant] at found, fun name => by simp [vacant]⟩

theorem Blank.ensureDirectory_eq (blank : tree.Blank)
    (few : (namesOf path).length ≤ makingLimit) :
    ∃ after, tree.ensureDirectory path = (.ok (), after) ∧ after.Holds path fun _ => False :=
  ensureDirectory_holds ordinary (List.nil_append _).symm ordinary.namesOf_ne_nil few blank.origin
    tree.chain_root (blank.bare_down _) fun _ => blank.bare _ (child_ne_root _ _)

section

variable {last : String} (split : namesOf path = front ++ [last])
  (origin : tree.origin = .root) (chain : tree.Chain .root front)

include split origin chain

theorem approach_of_chain :
    tree.approach path = .ok (.name (Location.root.down front) last false) := by
  have fitting := ordinary.fitting
  rw [split] at fitting
  have first : ∀ name ∈ front, Fitting name := fun name member =>
    fitting name (List.mem_append_left _ member)
  obtain ⟨proper, _⟩ := fitting last (List.mem_append_right _ List.mem_cons_self)
  have inside : tree.statNames .root front = .ok (Location.root.down front, .directory) := by
    rw [statNames, (chain.walks first).follow_eq]
    simp only [bind, Except.bind, chain.last]
    rfl
  simp only [FileTree.approach, ordinary.checkPath_eq, start_of_origin origin, split,
    ordinary.endsInSlash_eq, approachNames, List.getLast?_concat, List.dropLast_concat, inside, bind,
    Except.bind, Entry.isDirectory, Bool.not_true, Bool.false_eq_true, if_false, proper.1, proper.2]

theorem openDirectory_of_chain (short : last.utf8ByteSize ≤ nameLimit)
    (held : tree.entry? (home path) = some .directory) :
    tree.openDirectory path = .ok (home path) := by
  rw [home_eq split] at held ⊢
  simp only [openDirectory, approach_of_chain ordinary split origin chain, peek,
    if_neg (Nat.not_lt.mpr short), held, bind, Except.bind]
  rfl

end

theorem Holds.removeLeft_eq (holds : tree.Holds path fun _ => False) (plain : tree.Plain) :
    tree.removeLeft path = (.ok (), tree.erase (home path)) := by
  obtain ⟨front, last, split⟩ := exists_last ordinary
  have short : last.utf8ByteSize ≤ nameLimit :=
    (ordinary.fitting last (split ▸ List.mem_append_right _ List.mem_cons_self)).short
  have approached := approach_of_chain ordinary split holds.origin (split ▸ holds.chain).of_append
  have held : tree.entry? (home path) = some .directory := holds.chain.last
  have empty : tree.children (home path) = [] := by
    refine List.eq_nil_iff_forall_not_mem.mpr fun child member => ?_
    have found := plain.mem_children_iff.mp member
    rw [holds.childless] at found
    cases found
  rw [home_eq split] at held empty ⊢
  have kept : tree.unlink path = .error .isDirectory := by
    simp only [FileTree.unlink, approached, peek, if_neg (Nat.not_lt.mpr short), held, bind,
      Except.bind]
  have removed : tree.removeDirectory path =
      .ok (tree.erase ((Location.root.down front).child last)) := by
    simp only [removeDirectory, approached, peek, if_neg (Nat.not_lt.mpr short), held, empty, bind,
      Except.bind, List.isEmpty_nil, if_true]
    rfl
  simp only [removeLeft, remove, kept, if_true, removed]

theorem Holds.ensureDirectory_of_erase (holds : tree.Holds path fun _ => False)
    (few : (namesOf path).length ≤ makingLimit) :
    ∃ after, (tree.erase (home path)).ensureDirectory path = (.ok (), after) ∧
      after.Holds path fun _ => False := by
  obtain ⟨front, last, split⟩ := exists_last ordinary
  have inner : home path ≠ .root := home_eq split ▸ child_ne_root _ _
  refine ensureDirectory_holds ordinary split (List.cons_ne_nil _ _) few holds.origin ?_ ?_ ?_
  · intro place inside
    rw [entry?_erase inner, if_neg]
    · exact holds.chain place (inside.trans (split ▸ List.prefix_append _ _))
    · intro same
      have long := inside.length_le
      rw [Location.down_injective same, split, List.length_append] at long
      exact absurd long (by simp)
  · intro place inside inhabited
    obtain ⟨name, rest, rfl⟩ := List.exists_cons_of_ne_nil inhabited
    obtain ⟨rfl, more⟩ := List.cons_prefix_cons.mp inside
    rw [List.prefix_nil.mp more, Location.down_cons, Location.down_nil, ← home_eq split,
      entry?_erase inner, if_pos rfl]
  · intro name
    rw [entry?_erase inner, if_neg child_home_ne, holds.childless]

theorem Holds.removeAll_eq (holds : tree.Holds path named) (plain : tree.Plain) :
    tree.removeAll path = (.ok (), (tree.eraseUnder (home path)).erase (home path)) := by
  obtain ⟨front, last, split⟩ := exists_last ordinary
  have short : last.utf8ByteSize ≤ nameLimit :=
    (ordinary.fitting last (split ▸ List.mem_append_right _ List.mem_cons_self)).short
  have emptied : (tree.eraseUnder (home path)).Plain := plain.of_sublist List.filter_sublist
  have opened : tree.openDirectory path = .ok (home path) :=
    openDirectory_of_chain ordinary split holds.origin (split ▸ holds.chain).of_append short
      holds.chain.last
  rw [removeAll, opened]
  exact holds.eraseUnder.removeLeft_eq ordinary emptied

theorem Blank.removeAll_eq (blank : tree.Blank) : tree.removeAll path = (.ok (), tree) := by
  obtain ⟨front, last, split⟩ := exists_last ordinary
  have fitting := ordinary.fitting
  rw [split] at fitting
  have short := (fitting last (List.mem_append_right _ List.mem_cons_self)).short
  have missing : tree.openDirectory path = .error .noEntry := by
    by_cases top : front = []
    · subst top
      have vacant := (blank.bare_down [last]).head
      simp only [openDirectory, approach_of_chain ordinary split blank.origin tree.chain_root, peek,
        if_neg (Nat.not_lt.mpr short), Location.down_nil, vacant, bind, Except.bind]
    · have inside : tree.statNames .root front = .error .noEntry :=
        blank.statNames_eq top fun name member => fitting name (List.mem_append_left _ member)
      simp only [openDirectory, FileTree.approach, ordinary.checkPath_eq,
        start_of_origin blank.origin, split, approachNames,
        List.getLast?_concat, List.dropLast_concat, inside, bind, Except.bind]
  rw [removeAll, missing]
  rfl

end

end MarkerBus.FileTree
