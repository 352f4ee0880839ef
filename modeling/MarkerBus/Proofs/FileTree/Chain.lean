import MarkerBus.Proofs.FileTree.Walk

namespace MarkerBus

/-- The location that names lead to, one inside of the other. -/
def Location.down (here : Location) (names : List String) : Location :=
  names.foldl Location.child here

namespace Location

variable {here : Location} {name : String} {names front : List String}

@[simp] theorem down_nil : here.down [] = here :=
  rfl

@[simp] theorem down_cons : here.down (name :: names) = (here.child name).down names :=
  rfl

theorem down_append : here.down (front ++ names) = (here.down front).down names :=
  List.foldl_append

theorem down_concat : here.down (names ++ [name]) = (here.down names).child name :=
  down_append

theorem names_down : (here.down names).names = names.reverse ++ here.names := by
  induction names generalizing here with
  | nil => rfl
  | cons name rest ih => simp [ih, child]

theorem down_injective (same : here.down front = here.down names) : front = names := by
  have outwards := congrArg Location.names same
  rwa [names_down, names_down, List.append_left_inj, List.reverse_inj] at outwards

theorem encloses_down : (here.down front).encloses (here.down names) = true ↔ front <+: names := by
  rw [encloses, names_down, names_down, List.isSuffixOf_iff_suffix,
    List.suffix_append_inj_of_length_eq rfl, List.reverse_suffix]
  exact and_iff_left rfl

end Location

namespace FileTree

variable {tree after : FileTree} {here : Location} {name path : String}
  {names front rest : List String} {links : Nat}

/-- A name that an entry can have. -/
structure Fitting (name : String) : Prop where
  proper : name ≠ "." ∧ name ≠ ".."
  short : name.utf8ByteSize ≤ nameLimit

/-- The names lead through directories, and so does the location they start from. -/
def Chain (tree : FileTree) (here : Location) (names : List String) : Prop :=
  ∀ front, front <+: names → tree.entry? (here.down front) = some .directory

theorem Chain.head (chain : tree.Chain here names) : tree.entry? here = some .directory :=
  chain [] (List.nil_prefix)

theorem Chain.last (chain : tree.Chain here names) :
    tree.entry? (here.down names) = some .directory :=
  chain names (List.prefix_refl _)

theorem Chain.tail (chain : tree.Chain here (name :: names)) :
    tree.Chain (here.child name) names :=
  fun front inside => chain (name :: front) (List.prefix_cons_inj name |>.mpr inside)

theorem Chain.of_append (chain : tree.Chain here (front ++ names)) : tree.Chain here front :=
  fun _ inside => chain _ (inside.trans (List.prefix_append _ _))

/-- Nothing is at any of the names. -/
def Bare (tree : FileTree) (here : Location) (names : List String) : Prop :=
  ∀ front, front <+: names → front ≠ [] → tree.entry? (here.down front) = none

theorem Bare.head (bare : tree.Bare here (name :: names)) : tree.entry? (here.child name) = none :=
  bare [name] (List.prefix_cons_inj name |>.mpr List.nil_prefix) nofun

/-- The one tree is the other with directories at these names. -/
structure Makes (tree after : FileTree) (here : Location) (names : List String) : Prop where
  origin : after.origin = tree.origin
  made : ∀ front, front <+: names → front ≠ [] → after.entry? (here.down front) = some .directory
  others : ∀ location, (∀ front, front <+: names → front ≠ [] → location ≠ here.down front) →
    after.entry? location = tree.entry? location

section

variable (fitting : ∀ name ∈ names, Fitting name)

include fitting

theorem Chain.walks (chain : tree.Chain here names) :
    tree.Walks links here names (.ok (.found (here.down names) links)) := by
  induction names generalizing here with
  | nil => exact .arrived
  | cons name rest ih =>
      obtain ⟨proper, short⟩ := fitting name List.mem_cons_self
      exact .enter proper short chain.tail.head
        (ih (fun other member => fitting other (List.mem_cons_of_mem _ member)) chain.tail)

theorem makeEach_of_bare (bare : tree.Bare here names) :
    (tree.makeEach here links names).1 = .ok () ∧
      tree.Makes (tree.makeEach here links names).2 here names := by
  induction names generalizing tree here with
  | nil =>
      refine ⟨rfl, rfl, ?_, fun _ _ => rfl⟩
      intro front inside inhabited
      exact absurd (List.prefix_nil.mp inside) inhabited
  | cons name rest ih =>
      obtain ⟨proper, short⟩ := fitting name List.mem_cons_self
      have vacant := bare.head
      have apart : here.child name ≠ .root := child_ne_root here name
      have stepped : tree.makeEach here links (name :: rest) =
          (tree.insert (here.child name) .directory).makeEach (here.child name) links rest := by
        rw [makeEach, if_neg proper.1, if_neg proper.2, peek, if_neg (Nat.not_lt.mpr short), vacant]
      have below : (tree.insert (here.child name) .directory).Bare (here.child name) rest := by
        intro front inside inhabited
        rw [entry?_insert apart, if_neg]
        · exact bare (name :: front) (List.prefix_cons_inj name |>.mpr inside) nofun
        · intro same
          exact inhabited (Location.down_injective same)
      obtain ⟨succeeded, origin, made, others⟩ :=
        ih (fun other member => fitting other (List.mem_cons_of_mem _ member)) below
      rw [stepped]
      refine ⟨succeeded, origin, ?_, ?_⟩
      · intro front inside inhabited
        obtain ⟨first, later, rfl⟩ := List.exists_cons_of_ne_nil inhabited
        obtain ⟨rfl, deeper⟩ := List.cons_prefix_cons.mp inside
        by_cases last : later = []
        · subst last
          rw [Location.down_cons, Location.down_nil, others, entry?_insert apart, if_pos rfl]
          intro front _ inhabited same
          exact inhabited (Location.down_injective same.symm)
        · exact made later deeper last
      · intro location apart
        rw [others, entry?_insert (child_ne_root here name), if_neg]
        · exact apart [name] (List.prefix_cons_inj name |>.mpr List.nil_prefix) nofun
        · intro front inside inhabited
          exact apart (name :: front) (List.prefix_cons_inj name |>.mpr inside) nofun

end

section

variable (chain : tree.Chain here front) (first : ∀ name ∈ front, Fitting name)
  (bare : tree.Bare (here.down front) rest) (fitting : ∀ name ∈ rest, Fitting name)
  (more : rest ≠ [])

include chain first bare fitting more

theorem statNames_of_missing : tree.statNames here (front ++ rest) = .error .noEntry := by
  obtain ⟨name, later, rfl⟩ := List.exists_cons_of_ne_nil more
  obtain ⟨proper, short⟩ := fitting name List.mem_cons_self
  have arrives : tree.Walks linkLimit here front (.ok (.found (here.down front) linkLimit)) :=
    chain.walks first
  by_cases last : later = []
  · subst last
    have walks := arrives.append chain.last (.vacant proper short bare.head)
    simp only [statNames, walks.follow_eq, bind, Except.bind]
  · have walks := arrives.append chain.last (.missing proper short last bare.head)
    simp only [statNames, walks.follow_eq, bind, Except.bind]

theorem reach_of_missing :
    tree.reach here links (front ++ rest) = .ok (here.down front, links, rest) := by
  induction front generalizing here with
  | nil =>
      obtain ⟨name, later, rfl⟩ := List.exists_cons_of_ne_nil more
      obtain ⟨proper, short⟩ := fitting name List.mem_cons_self
      have vacant : tree.Walks links here [name] (.ok (.vacant here name)) :=
        .vacant proper short bare.head
      cases later with
      | nil => rfl
      | cons second others => simp only [List.nil_append, reach, vacant.follow_eq, Location.down_nil]
  | cons name front ih =>
      obtain ⟨proper, short⟩ := first name List.mem_cons_self
      have stepped : tree.Walks links here [name] (.ok (.found (here.child name) links)) :=
        .enter proper short chain.tail.head .arrived
      have inhabited : front ++ rest ≠ [] := by simp [more]
      obtain ⟨second, others, split⟩ := List.exists_cons_of_ne_nil inhabited
      have deeper := ih chain.tail (fun other member => first other (List.mem_cons_of_mem _ member))
        bare
      rw [split] at deeper
      simp only [List.cons_append, split, reach, stepped.follow_eq, chain.tail.head, deeper,
        Location.down_cons]

end

theorem Makes.chain (makes : tree.Makes after (here.down front) rest)
    (chain : tree.Chain here front) : after.Chain here (front ++ rest) := by
  have kept {place : List String} (inside : place <+: front) :
      after.entry? (here.down place) = some .directory := by
    rw [makes.others, chain place inside]
    intro further _ inhabited same
    rw [← Location.down_append] at same
    have spelt := Location.down_injective same
    have long := inside.length_le
    rw [spelt, List.length_append] at long
    exact inhabited (List.length_eq_zero_iff.mp (by omega))
  intro place inside
  rcases List.prefix_or_prefix_of_prefix inside (List.prefix_append front rest) with early | late
  · exact kept early
  · obtain ⟨further, rfl⟩ := late
    by_cases none : further = []
    · subst none
      exact kept (by simp)
    · rw [Location.down_append]
      exact makes.made further ((List.prefix_append_right_inj front).mp inside) none

theorem start_of_origin (origin : tree.origin = .root) : tree.start path = .root := by
  unfold start startOf
  split
  · rfl
  · exact origin

/-- A path of ordinary names, short enough for a system. -/
structure Ordinary (path : String) : Prop where
  proper : ∀ piece ∈ pieces path.toList, piece ≠ [] ∧ piece ≠ ['.'] ∧ piece ≠ ['.', '.']
  terminated : '\x00' ∉ path.toList
  names : ∀ name ∈ namesOf path, name.utf8ByteSize ≤ nameLimit
  short : path.utf8ByteSize < pathLimit

namespace Ordinary

variable (ordinary : Ordinary path)

include ordinary

theorem nonempty : path ≠ "" := by
  rintro rfl
  exact (ordinary.proper [] List.mem_cons_self).1 rfl

theorem namesOf_eq : namesOf path = (pieces path.toList).map String.ofList := by
  rw [namesOf, List.filter_eq_self.mpr]
  intro piece member
  exact decide_eq_true (ordinary.proper piece member).1

theorem namesOf_ne_nil : namesOf path ≠ [] := by
  rw [ordinary.namesOf_eq]
  simpa using pieces_ne_nil path.toList

theorem fitting : ∀ name ∈ namesOf path, Fitting name := by
  intro name member
  refine ⟨?_, ordinary.names name member⟩
  rw [ordinary.namesOf_eq] at member
  obtain ⟨piece, inside, rfl⟩ := List.mem_map.mp member
  obtain ⟨_, dot, dots⟩ := ordinary.proper piece inside
  constructor <;> intro same <;> rw [← String.toList_inj, String.toList_ofList] at same
  · exact dot same
  · exact dots same

theorem getLast?_ne_slash : path.toList.getLast? ≠ some '/' := by
  intro slash
  obtain ⟨front, spelt⟩ := List.getLast?_eq_some_iff.mp slash
  have empty : [] ∈ pieces path.toList := by
    rw [spelt, pieces_append_slash]
    exact List.mem_append_right _ List.mem_cons_self
  exact (ordinary.proper [] empty).1 rfl

theorem endsInSlash_eq : endsInSlash path = false :=
  decide_eq_false ordinary.getLast?_ne_slash

theorem stepsOf_eq : stepsOf path = namesOf path := by
  simp [stepsOf, ordinary.endsInSlash_eq]

theorem checkPath_eq : checkPath path = .ok () :=
  checkPath_eq_ok_iff.mpr ⟨ordinary.nonempty, ordinary.short⟩

theorem parent_join (named : Path.Plain name) : Path.parent (Path.join path name) = path := by
  have last := ordinary.getLast?_ne_slash
  have cut : Text.splitLast? '/' (Path.join path name).toList = some (path.toList, name.toList) := by
    rw [Path.toList_join_of_getLast? ordinary.nonempty last]
    exact Text.splitLast?_append named.2
  simp only [Path.parent, cut, Path.dropTrailingSlashes_eq_self last]
  cases spelt : path.toList with
  | nil => exact absurd (String.toList_eq_nil_iff.mp spelt) ordinary.nonempty
  | cons char others =>
      change String.ofList (char :: others) = path
      rw [← spelt, String.ofList_toList]

variable (origin : tree.origin = .root)

include origin

theorem stat_eq : tree.stat path = tree.statNames .root (namesOf path) := by
  rw [stat_of_checked ordinary.checkPath_eq, start_of_origin origin, ordinary.stepsOf_eq]

variable (split : namesOf path = front ++ rest) (chain : tree.Chain .root front)
  (bare : tree.Bare (Location.root.down front) rest) (more : rest ≠ [])

include split chain bare more

theorem makeDirectories_of_missing : tree.makeDirectories path =
    if makingLimit < rest.length then (.error .nameTooLong, tree)
    else tree.makeEach (Location.root.down front) linkLimit rest := by
  have fitting := ordinary.fitting
  rw [split] at fitting
  have first : ∀ name ∈ front, Fitting name := fun name member =>
    fitting name (List.mem_append_left _ member)
  have further : ∀ name ∈ rest, Fitting name := fun name member =>
    fitting name (List.mem_append_right _ member)
  have missing : tree.stat path = .error .noEntry := by
    rw [ordinary.stat_eq origin, split]
    exact statNames_of_missing chain first bare further more
  have proper : properNames rest = rest := by
    refine List.filter_eq_self.mpr fun name member => ?_
    simpa using (further name member).proper
  have asked : isMissing .noEntry = true := rfl
  simp only [makeDirectories, if_neg ordinary.nonempty, missing, asked, if_true,
    start_of_origin origin, split, reach_of_missing chain first bare further more, proper]

theorem ensureDirectory_of_missing (few : rest.length ≤ makingLimit) :
    ∃ after, tree.ensureDirectory path = (.ok (), after) ∧
      tree.Makes after (Location.root.down front) rest := by
  have further : ∀ name ∈ rest, Fitting name := fun name member =>
    ordinary.fitting name (split ▸ List.mem_append_right _ member)
  have made : (tree.makeEach (Location.root.down front) linkLimit rest).1 = .ok () ∧ _ :=
    makeEach_of_bare further bare
  rcases each : tree.makeEach (Location.root.down front) linkLimit rest with ⟨result, after⟩
  rw [each] at made
  obtain ⟨succeeded, makes⟩ := made
  subst succeeded
  refine ⟨after, ?_, makes⟩
  simp only [FileTree.ensureDirectory, if_neg (Nat.not_lt.mpr few), each,
    ordinary.makeDirectories_of_missing origin split chain bare more]

/-- More directories than this are not made. -/
theorem ensureDirectory_of_many (many : makingLimit < rest.length) :
    tree.ensureDirectory path = (.error (.failed .nameTooLong), tree) := by
  have fitting := ordinary.fitting
  rw [split] at fitting
  have missing : tree.stat path = .error .noEntry := by
    rw [ordinary.stat_eq origin, split]
    exact statNames_of_missing chain (fun name member => fitting name (List.mem_append_left _ member))
      bare (fun name member => fitting name (List.mem_append_right _ member)) more
  rw [FileTree.ensureDirectory, ordinary.makeDirectories_of_missing origin split chain bare more,
    if_pos many]
  simp only [missing]
  rfl

end Ordinary

end FileTree

end MarkerBus
