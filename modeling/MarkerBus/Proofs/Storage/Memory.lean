import Mathlib.Data.String.Basic
import MarkerBus.Proofs.Path
import MarkerBus.Storage.Memory

namespace MarkerBus.Storage.Memory

variable {memory after : Memory} {path directory name other : String}

/-- Every directory holds its names in ascending order, each once. -/
def WellFormed (memory : Memory) : Prop :=
  ∀ directory, (memory.namesAt directory).Pairwise (· < ·)

/-- A directory that has been made, known by its trimmed path. -/
def Known (memory : Memory) (directory : String) : Prop :=
  (memory.directories.lookup directory).isSome = true

theorem wellFormed_empty : ({} : Memory).WellFormed := by
  intro directory
  exact .nil

theorem not_known_empty : ¬ ({} : Memory).Known directory := by
  simp [Known]

theorem isDirectory_iff : memory.isDirectory path = true ↔ memory.Known (Path.trim path) :=
  Iff.rfl

theorem Known.of_mem (member : name ∈ memory.namesAt directory) : memory.Known directory := by
  unfold namesAt at member
  cases found : memory.directories.lookup directory with
  | none => simp [found] at member
  | some names => simp [Known, found]

theorem namesAt_of_not_known (unknown : ¬ memory.Known directory) :
    memory.namesAt directory = [] := by
  unfold Known at unknown
  cases found : memory.directories.lookup directory with
  | none => simp [namesAt, found]
  | some names => simp [found] at unknown

theorem mem_insertName {names : List String} :
    other ∈ insertName name names ↔ other = name ∨ other ∈ names := by
  induction names with
  | nil => simp [insertName]
  | cons head rest ih =>
      unfold insertName
      split
      · simp
      · split
        · rw [List.mem_cons, ih, List.mem_cons]
          exact or_left_comm
        · rename_i notBelow notAbove
          have same : head = name :=
            le_antisymm (not_lt.mp notBelow) (not_lt.mp notAbove)
          simp [same]

theorem pairwise_insertName {names : List String} (ascending : names.Pairwise (· < ·)) :
    (insertName name names).Pairwise (· < ·) := by
  induction names with
  | nil => exact List.pairwise_singleton _ _
  | cons head rest ih =>
      obtain ⟨headBelow, restAscending⟩ := List.pairwise_cons.mp ascending
      unfold insertName
      split
      · rename_i below
        refine List.pairwise_cons.mpr ⟨?_, ascending⟩
        intro other member
        rcases List.mem_cons.mp member with rfl | later
        · exact below
        · exact lt_trans below (headBelow other later)
      · split
        · rename_i above
          refine List.pairwise_cons.mpr ⟨?_, ih restAscending⟩
          intro other member
          rcases mem_insertName.mp member with rfl | later
          · exact above
          · exact headBelow other later
        · exact ascending

theorem lookup_update (change : List String → List String)
    (entries : List (String × List String)) :
    (update directory change entries).lookup other =
      if other = directory then some (change ((entries.lookup directory).getD []))
      else entries.lookup other := by
  induction entries with
  | nil =>
      by_cases same : other = directory
      · simp [update, same]
      · have elsewhere : (other == directory) = false := by simpa using same
        simp [update, List.lookup_cons, same, elsewhere]
  | cons entry rest ih =>
      obtain ⟨known, names⟩ := entry
      by_cases here : known = directory
      · subst here
        by_cases same : other = known
        · simp [update, same]
        · have elsewhere : (other == known) = false := by simpa using same
          simp [update, List.lookup_cons, same, elsewhere]
      · by_cases there : other = known
        · subst there
          simp [update, here]
        · have elsewhere : (other == known) = false := by simpa using there
          have passed : (directory == known) = false := by simpa using Ne.symm here
          simp [update, List.lookup_cons, here, elsewhere, passed, ih]

theorem namesAt_update (change : List String → List String) :
    namesAt ⟨update directory change memory.directories⟩ other =
      if other = directory then change (memory.namesAt directory) else memory.namesAt other := by
  simp only [namesAt, lookup_update]
  split <;> rfl

theorem known_update (change : List String → List String) :
    Known ⟨update directory change memory.directories⟩ other ↔
      other = directory ∨ memory.Known other := by
  simp only [Known, lookup_update]
  split <;> simp_all

/-- All that a creation can do: it is refused, it finds the name, or it adds it. -/
theorem create_cases {result : Except Failure Creation}
    (served : memory.create path = (result, after)) :
    (∃ report, result = .error (.reported report) ∧ after = memory) ∨
      (result = .ok .present ∧ after = memory ∧
        (place path).2 ∈ memory.namesAt (place path).1) ∨
      (result = .ok .created ∧ (place path).2 ≠ "" ∧
        after = ⟨update (place path).1 (insertName (place path).2) memory.directories⟩) := by
  rcases placed : place path with ⟨directory, name⟩
  simp only [create, placed] at served ⊢
  split at served
  · cases served
    exact .inl ⟨_, rfl, rfl⟩
  · rename_i named
    split at served
    · cases served
      exact .inl ⟨_, rfl, rfl⟩
    · split at served
      · rename_i present
        cases served
        exact .inr (.inl ⟨rfl, rfl, present⟩)
      · cases served
        exact .inr (.inr ⟨rfl, named, rfl⟩)

/-- No directory turns into an entry. -/
theorem not_known_of_created {creation : Creation}
    (created : memory.create path = (.ok creation, after)) : ¬ memory.Known (Path.trim path) := by
  intro known
  rcases placed : place path with ⟨directory, name⟩
  simp only [create, placed, isDirectory_iff.mpr known] at created
  split at created <;> cases created

theorem place_eq (path : String) :
    place path = (Path.trim (Path.split path).1, (Path.split path).2) :=
  rfl

theorem place_join (nonempty : path ≠ "") (free : '/' ∉ name.toList) :
    place (Path.join path name) = (Path.trim path, name) := by
  obtain ⟨directory, cut, same⟩ := Path.split_join nonempty free
  simp [place, cut, same]

theorem create_join_eq (nonempty : path ≠ "") (plain : Path.Plain name)
    (vacant : ¬ memory.Known (Path.join path name)) :
    memory.create (Path.join path name) =
      if name ∈ memory.namesAt (Path.trim path) then (.ok .present, memory)
      else (.ok .created, ⟨update (Path.trim path) (insertName name) memory.directories⟩) := by
  have file : memory.isDirectory (Path.join path name) = false := by
    rw [← Bool.not_eq_true, isDirectory_iff, Path.trim_join nonempty plain]
    exact vacant
  simp [create, place_join nonempty plain.2, plain.1, file]

theorem create_join (nonempty : path ≠ "") (plain : Path.Plain name)
    (vacant : ¬ memory.Known (Path.join path name)) :
    ∃ creation after, memory.create (Path.join path name) = (.ok creation, after) := by
  rw [create_join_eq nonempty plain vacant]
  split <;> exact ⟨_, _, rfl⟩

variable {creation : Creation}

theorem mem_namesAt_create (created : memory.create path = (.ok creation, after)) :
    other ∈ after.namesAt directory ↔
      (directory, other) = place path ∨ other ∈ memory.namesAt directory := by
  rcases create_cases created with ⟨_, refused, _⟩ | ⟨_, rfl, present⟩ | ⟨_, _, rfl⟩
  · cases refused
  · refine ⟨.inr, ?_⟩
    intro either
    rcases either with here | member
    · rw [← here] at present
      exact present
    · exact member
  · rw [namesAt_update]
    by_cases here : directory = (place path).1
    · subst here
      simp [mem_insertName, Prod.ext_iff]
    · simp [here, Prod.ext_iff]

theorem known_create (created : memory.create path = (.ok creation, after)) :
    after.Known directory ↔ directory = (place path).1 ∨ memory.Known directory := by
  rcases create_cases created with ⟨_, refused, _⟩ | ⟨_, rfl, present⟩ | ⟨_, _, rfl⟩
  · cases refused
  · refine ⟨.inr, ?_⟩
    intro either
    rcases either with rfl | known
    · exact .of_mem present
    · exact known
  · exact known_update _

theorem WellFormed.create {result : Except Failure Creation} (wellFormed : memory.WellFormed)
    (served : memory.create path = (result, after)) : after.WellFormed := by
  rcases create_cases served with ⟨_, _, same⟩ | ⟨_, same, _⟩ | ⟨_, _, grown⟩
  · rwa [same]
  · rwa [same]
  · rw [grown]
    intro directory
    rw [namesAt_update]
    split
    · exact pairwise_insertName (wellFormed _)
    · exact wellFormed _

theorem remove_eq : (memory.remove path).2 =
    if (place path).2 ∈ memory.namesAt (place path).1 then
      ⟨update (place path).1 (·.erase (place path).2) memory.directories⟩
    else memory := by
  rcases placed : place path with ⟨directory, name⟩
  simp only [remove, placed]
  split <;> rfl

theorem mem_namesAt_remove (wellFormed : memory.WellFormed) :
    other ∈ (memory.remove path).2.namesAt directory ↔
      other ∈ memory.namesAt directory ∧ (directory, other) ≠ place path := by
  rw [remove_eq]
  split
  · rw [namesAt_update]
    by_cases here : directory = (place path).1
    · subst here
      have distinct : (memory.namesAt (place path).1).Nodup := (wellFormed _).imp ne_of_lt
      rw [if_pos rfl, distinct.mem_erase_iff]
      simp [Prod.ext_iff, and_comm]
    · simp [here, Prod.ext_iff]
  · rename_i absent
    refine ⟨fun member => ⟨member, ?_⟩, And.left⟩
    intro here
    rw [← here] at absent
    exact absent member

theorem known_remove : (memory.remove path).2.Known directory ↔ memory.Known directory := by
  rw [remove_eq]
  split
  · rename_i present
    rw [known_update]
    refine ⟨?_, .inr⟩
    intro either
    rcases either with rfl | known
    · exact .of_mem present
    · exact known
  · rfl

theorem WellFormed.remove (wellFormed : memory.WellFormed) :
    (memory.remove path).2.WellFormed := by
  rw [remove_eq]
  split
  · intro directory
    rw [namesAt_update]
    split
    · exact (wellFormed _).sublist List.erase_sublist
    · exact wellFormed _
  · exact wellFormed

theorem lookup_filter_within (entries : List (String × List String)) :
    (entries.filter fun known => !within directory known.1).lookup other =
      if within directory other then none else entries.lookup other := by
  induction entries with
  | nil => simp
  | cons entry rest ih =>
      obtain ⟨known, names⟩ := entry
      by_cases same : other = known
      · subst same
        by_cases inside : within directory other = true
        · simpa [inside] using ih
        · simp [inside]
      · have elsewhere : (other == known) = false := by simpa using same
        by_cases inside : within directory known = true
        · simpa [inside, List.lookup_cons, elsewhere] using ih
        · simpa [inside, List.lookup_cons, elsewhere] using ih

theorem within_self (directory : String) : within directory directory = true := by
  simp [within]

theorem within_iff : within directory path = true ↔
    path = directory ∨ Path.stem directory <+: path.toList := by
  unfold within Path.stem
  by_cases root : directory = "/" <;> simp [root, List.isPrefixOf_iff_prefix]

/-- What is inside of a directory is within every directory that this one is within. -/
theorem within_of_stem {outer : String} (inside : within outer directory = true)
    (below : Path.stem directory <+: path.toList) : within outer path = true := by
  rcases within_iff.mp inside with rfl | spelt
  · exact within_iff.mpr (.inr below)
  · exact within_iff.mpr (.inr ((spelt.trans (Path.toList_prefix_stem directory)).trans below))

theorem stem_place_prefix (slash : '/' ∈ path.toList) :
    Path.stem (place path).1 <+: path.toList := by
  cases cut : Text.splitLast? '/' path.toList with
  | none => exact absurd slash (Text.splitLast?_eq_none_iff.mp cut)
  | some parts =>
      obtain ⟨front, last⟩ := parts
      obtain ⟨spelt, _⟩ := Text.splitLast?_eq_some_iff.mp cut
      cases front with
      | nil =>
          have root : (place path).1 = "/" := by
            simp only [place, Path.split, cut]
            decide
          rw [root, spelt]
          exact ⟨last, rfl⟩
      | cons char rest =>
          have around : (place path).1 = Path.trim (String.ofList (char :: rest)) := by
            simp only [place, Path.split, cut]
          have nonempty : String.ofList (char :: rest) ≠ "" := by
            simp [String.ofList_eq_empty_iff]
          have front := Path.stem_trim_prefix nonempty
          rw [String.toList_ofList] at front
          rw [around, spelt]
          exact front.trans ⟨last, by simp⟩

theorem within_join (nonempty : path ≠ "") (name : String) :
    within (Path.trim path) (Path.join path name) = true :=
  within_iff.mpr (.inr (Path.stem_prefix_join nonempty name))

theorem lookup_reset : (memory.reset path).directories.lookup other =
    if other = Path.trim path then some []
    else if within (Path.trim path) other then none
    else memory.directories.lookup other := by
  by_cases same : other = Path.trim path
  · subst same
    simp [reset]
  · have elsewhere : (other == Path.trim path) = false := by simpa using same
    simp [reset, List.lookup_cons, elsewhere, same, lookup_filter_within]

theorem namesAt_reset : (memory.reset path).namesAt directory =
    if within (Path.trim path) directory then [] else memory.namesAt directory := by
  simp only [namesAt, lookup_reset]
  by_cases same : directory = Path.trim path
  · subst same
    simp [within_self]
  · rw [if_neg same]
    split <;> rfl

theorem known_reset : (memory.reset path).Known directory ↔
    directory = Path.trim path ∨
      memory.Known directory ∧ within (Path.trim path) directory = false := by
  simp only [Known, lookup_reset]
  by_cases same : directory = Path.trim path
  · simp [same]
  · by_cases inside : within (Path.trim path) directory = true <;> simp [same, inside]

theorem WellFormed.reset (wellFormed : memory.WellFormed) : (memory.reset path).WellFormed := by
  intro directory
  rw [namesAt_reset]
  split
  · exact .nil
  · exact wellFormed directory

theorem serve_create : Memory.serve (.create path) memory =
    { result := (memory.create path).1, storage := (memory.create path).2 } :=
  rfl

theorem serve_remove : Memory.serve (.remove path) memory =
    { result := .ok (memory.remove path).1, storage := (memory.remove path).2 } :=
  rfl

theorem WellFormed.serve (wellFormed : memory.WellFormed) (request : Request) :
    (Memory.serve request memory).storage.WellFormed := by
  cases request with
  | create path => exact wellFormed.create rfl
  | list path => exact wellFormed
  | remove path => exact wellFormed.remove
  | probe path => exact wellFormed
  | reset path => exact wellFormed.reset

end MarkerBus.Storage.Memory
