import MarkerBus.Proofs.FileTree.Plain
import MarkerBus.Proofs.Path

namespace MarkerBus.FileTree

variable {tree : FileTree} {here location : Location} {name path : String} {names : List String}
  {links left : Nat} {entry : Entry} {code : ErrorNumber}

theorem pieces_ne_nil (text : List Char) : pieces text ≠ [] := by
  induction text with
  | nil => nofun
  | cons char rest ih =>
      unfold pieces
      split
      · nofun
      · split <;> nofun

theorem pieces_append_slash (front rest : List Char) :
    pieces (front ++ '/' :: rest) = pieces front ++ pieces rest := by
  induction front with
  | nil => simp [pieces]
  | cons char front ih =>
      obtain ⟨first, others, split⟩ := List.exists_cons_of_ne_nil (pieces_ne_nil front)
      rw [List.cons_append, pieces, pieces, ih, split]
      by_cases slash : char = '/' <;> simp [slash]

theorem pieces_of_free {text : List Char} (free : '/' ∉ text) : pieces text = [text] := by
  induction text with
  | nil => rfl
  | cons char rest ih =>
      obtain ⟨other, free⟩ := List.ne_and_not_mem_of_not_mem_cons free
      simp [pieces, Ne.symm other, ih free]

theorem namesOf_join (nonempty : path ≠ "") (plain : Path.Plain name) :
    namesOf (Path.join path name) = namesOf path ++ [name] := by
  have last : pieces name.toList = [name.toList] := pieces_of_free plain.2
  have named : name.toList ≠ [] := by simpa [String.toList_eq_nil_iff] using plain.1
  unfold namesOf
  by_cases slash : path.toList.getLast? = some '/'
  · obtain ⟨front, spelt⟩ := List.getLast?_eq_some_iff.mp slash
    rw [Path.toList_join_of_slash slash, spelt, List.append_assoc, List.singleton_append,
      pieces_append_slash, pieces_append_slash, last]
    simp [pieces, named, List.filter_append]
  · rw [Path.toList_join_of_getLast? nonempty slash, pieces_append_slash, last]
    simp [named, List.filter_append]

theorem endsInSlash_join (nonempty : path ≠ "") (plain : Path.Plain name) :
    endsInSlash (Path.join path name) = false := by
  obtain ⟨front, list, _⟩ := Path.toList_join nonempty name
  have named : name.toList ≠ [] := by simpa [String.toList_eq_nil_iff] using plain.1
  obtain ⟨start, char, spelt⟩ := List.eq_nil_or_concat name.toList |>.resolve_left named
  have other : char ≠ '/' := by
    rintro rfl
    exact plain.2 (by simp [spelt])
  have last : (front ++ '/' :: (start ++ [char])).getLast? = some char := by
    rw [← List.cons_append, ← List.append_assoc, List.getLast?_concat]
  simp [endsInSlash, list, spelt, last, other]

theorem start_join (nonempty : path ≠ "") (name : String) :
    tree.start (Path.join path name) = tree.start path := by
  have inhabited : path.toList ≠ [] := by simpa [String.toList_eq_nil_iff] using nonempty
  obtain ⟨char, rest, spelt⟩ := List.exists_cons_of_ne_nil inhabited
  have head : (Path.join path name).toList.head? = some char := by
    unfold Path.join
    split <;> simp [String.toList_append, spelt]
  simp [start, startOf, isAbsolute, head, spelt]

theorem checkPath_eq_ok_iff : checkPath path = .ok () ↔
    path ≠ "" ∧ path.utf8ByteSize < pathLimit := by
  unfold checkPath
  split
  · simp_all
  · split <;> simp_all

theorem checkPath_of_join (nonempty : path ≠ "")
    (checked : checkPath (Path.join path name) = .ok ()) : checkPath path = .ok () := by
  obtain ⟨_, short⟩ := checkPath_eq_ok_iff.mp checked
  refine checkPath_eq_ok_iff.mpr ⟨nonempty, Nat.lt_of_le_of_lt ?_ short⟩
  unfold Path.join
  split <;> simp only [String.utf8ByteSize_append, Nat.add_assoc, Nat.le_add_right]

/-- The ways to follow names in a tree without links. -/
inductive Walks (tree : FileTree) (links : Nat) :
    Location → List String → Except ErrorNumber Destination → Prop where
  | arrived {here : Location} : Walks tree links here [] (.ok (.found here links))
  | stay {here : Location} {rest : List String} {result : Except ErrorNumber Destination}
      (walks : Walks tree links here rest result) : Walks tree links here ("." :: rest) result
  | leave {here : Location} {rest : List String} {result : Except ErrorNumber Destination}
      (walks : Walks tree links here.parent rest result) :
      Walks tree links here (".." :: rest) result
  | enter {here : Location} {name : String} {rest : List String}
      {result : Except ErrorNumber Destination} (proper : name ≠ "." ∧ name ≠ "..")
      (short : name.utf8ByteSize ≤ nameLimit)
      (held : tree.entry? (here.child name) = some .directory)
      (walks : Walks tree links (here.child name) rest result) :
      Walks tree links here (name :: rest) result
  | file {here : Location} {name : String} {file : Nat} {content : ByteArray}
      (proper : name ≠ "." ∧ name ≠ "..") (short : name.utf8ByteSize ≤ nameLimit)
      (held : tree.entry? (here.child name) = some (.regular file content)) :
      Walks tree links here [name] (.ok (.found (here.child name) links))
  | vacant {here : Location} {name : String} (proper : name ≠ "." ∧ name ≠ "..")
      (short : name.utf8ByteSize ≤ nameLimit) (held : tree.entry? (here.child name) = none) :
      Walks tree links here [name] (.ok (.vacant here name))
  | tooLong {here : Location} {name : String} {rest : List String}
      (proper : name ≠ "." ∧ name ≠ "..") (long : nameLimit < name.utf8ByteSize) :
      Walks tree links here (name :: rest) (.error .nameTooLong)
  | missing {here : Location} {name : String} {rest : List String}
      (proper : name ≠ "." ∧ name ≠ "..") (short : name.utf8ByteSize ≤ nameLimit)
      (more : rest ≠ []) (held : tree.entry? (here.child name) = none) :
      Walks tree links here (name :: rest) (.error .noEntry)
  | blocked {here : Location} {name : String} {rest : List String} {file : Nat}
      {content : ByteArray} (proper : name ≠ "." ∧ name ≠ "..")
      (short : name.utf8ByteSize ≤ nameLimit) (more : rest ≠ [])
      (held : tree.entry? (here.child name) = some (.regular file content)) :
      Walks tree links here (name :: rest) (.error .notDirectory)

theorem Walks.followNames_eq {result : Except ErrorNumber Destination}
    (walks : tree.Walks links here names result)
    (onLink : Location → String → List String → Except ErrorNumber Destination) :
    tree.followNames links onLink here names = result := by
  induction walks with
  | arrived => rfl
  | stay _ ih => exact ih
  | leave _ ih => exact ih
  | enter proper short held _ ih =>
      rw [followNames, if_neg proper.1, if_neg proper.2, if_neg (Nat.not_lt.mpr short), held]
      exact ih
  | file proper short held =>
      rw [followNames, if_neg proper.1, if_neg proper.2, if_neg (Nat.not_lt.mpr short), held]
      rfl
  | vacant proper short held =>
      rw [followNames, if_neg proper.1, if_neg proper.2, if_neg (Nat.not_lt.mpr short), held]
      rfl
  | tooLong proper long => rw [followNames, if_neg proper.1, if_neg proper.2, if_pos long]
  | missing proper short more held =>
      rw [followNames, if_neg proper.1, if_neg proper.2, if_neg (Nat.not_lt.mpr short), held]
      exact if_neg more
  | blocked proper short more held =>
      rw [followNames, if_neg proper.1, if_neg proper.2, if_neg (Nat.not_lt.mpr short), held]
      exact if_neg more

theorem Walks.follow_eq {result : Except ErrorNumber Destination}
    (walks : tree.Walks links here names result) : tree.follow links here names = result := by
  cases links with
  | zero => exact walks.followNames_eq _
  | succ links => exact walks.followNames_eq _

theorem Plain.walks_followNames (plain : tree.Plain) (links : Nat)
    (onLink : Location → String → List String → Except ErrorNumber Destination) (here : Location)
    (names : List String) :
    tree.Walks links here names (tree.followNames links onLink here names) := by
  induction names generalizing here with
  | nil => exact .arrived
  | cons name rest ih =>
      unfold followNames
      split
      · rename_i dot
        exact dot ▸ .stay (ih here)
      · split
        · rename_i dots
          exact dots ▸ .leave (ih here.parent)
        · rename_i dot dots
          have proper : name ≠ "." ∧ name ≠ ".." := ⟨dot, dots⟩
          split
          · exact .tooLong proper ‹_›
          · have short := Nat.le_of_not_lt ‹_›
            cases held : tree.entry? (here.child name) with
            | none =>
                by_cases last : rest = []
                · subst last
                  exact .vacant proper short held
                · simp only [if_neg last]
                  exact .missing proper short last held
            | some entry =>
                cases entry with
                | directory => exact .enter proper short held (ih _)
                | link target => exact absurd held (plain.entry?_ne_link _ target)
                | regular file content =>
                    by_cases last : rest = []
                    · subst last
                      exact .file proper short held
                    · simp only [if_neg last]
                      exact .blocked proper short last held

/-- Without links, how many may be followed makes no difference. -/
theorem Plain.walks (plain : tree.Plain) (links : Nat) (here : Location) (names : List String) :
    tree.Walks links here names (tree.follow links here names) := by
  cases links with
  | zero => exact plain.walks_followNames _ _ _ _
  | succ links => exact plain.walks_followNames _ _ _ _

variable {result : Except ErrorNumber Destination}

theorem Walks.error (walks : tree.Walks links here names (.error code)) :
    code = .nameTooLong ∨ code = .noEntry ∨ code = .notDirectory := by
  generalize told : Except.error code = result at walks
  induction walks with
  | arrived | file | vacant => cases told
  | stay _ ih | leave _ ih | enter _ _ _ _ ih => exact ih told
  | tooLong =>
      cases told
      exact .inl rfl
  | missing =>
      cases told
      exact .inr (.inl rfl)
  | blocked =>
      cases told
      exact .inr (.inr rfl)

/-- Names lead on from the directory that the names before them lead to. -/
theorem Walks.append (walks : tree.Walks links here names (.ok (.found location left)))
    (enclosing : tree.entry? location = some .directory) {rest : List String}
    (onwards : tree.Walks links location rest result) :
    tree.Walks links here (names ++ rest) result := by
  generalize told : Except.ok (Destination.found location left) = reached at walks
  induction walks with
  | arrived =>
      cases told
      exact onwards
  | stay _ ih => exact .stay (ih told)
  | leave _ ih => exact .leave (ih told)
  | enter proper short held _ ih => exact .enter proper short held (ih told)
  | file _ _ held =>
      cases told
      rw [held] at enclosing
      cases enclosing
  | vacant | tooLong | missing | blocked => cases told

theorem Walks.eq_links (walks : tree.Walks links here names (.ok (.found location left))) :
    left = links := by
  generalize told : Except.ok (Destination.found location left) = reached at walks
  induction walks with
  | arrived | file =>
      cases told
      rfl
  | stay _ ih | leave _ ih | enter _ _ _ _ ih => exact ih told
  | vacant | tooLong | missing | blocked => cases told

/-- What leads to an entry still does when entries are added. -/
theorem Walks.mono {after : FileTree}
    (walks : tree.Walks links here names (.ok (.found location left)))
    (grows : ∀ place entry, tree.entry? place = some entry → after.entry? place = some entry) :
    after.Walks links here names (.ok (.found location left)) := by
  generalize told : Except.ok (Destination.found location left) = reached at walks ⊢
  induction walks with
  | arrived => exact .arrived
  | stay _ ih => exact .stay (ih told)
  | leave _ ih => exact .leave (ih told)
  | enter proper short held _ ih => exact .enter proper short (grows _ _ held) (ih told)
  | file proper short held => exact .file proper short (grows _ _ held)
  | vacant | tooLong | missing | blocked => cases told

theorem statNames_eq_ok_iff (plain : tree.Plain) {origin : Location} :
    tree.statNames origin names = .ok (location, entry) ↔
      tree.Walks linkLimit origin names (.ok (.found location linkLimit)) ∧
        tree.entry? location = some entry := by
  have walks := plain.walks linkLimit origin names
  constructor
  · intro stated
    obtain ⟨destination, followed, stated⟩ := bind_eq_ok stated
    rw [followed] at walks
    cases destination with
    | vacant directory name => cases stated
    | found there left =>
        dsimp only at stated
        split at stated
        · cases stated
          obtain rfl := walks.eq_links
          exact ⟨walks, ‹_›⟩
        · cases stated
  · intro given
    obtain ⟨leads, held⟩ := given
    simp only [statNames, leads.follow_eq, bind, Except.bind, held]
    rfl

theorem Plain.error_of_statNames (plain : tree.Plain) {origin : Location}
    (failed : tree.statNames origin names = .error code) :
    code = .nameTooLong ∨ code = .noEntry ∨ code = .notDirectory := by
  have walks := plain.walks linkLimit origin names
  unfold statNames at failed
  cases followed : tree.follow linkLimit origin names with
  | error other =>
      rw [followed] at failed walks
      cases failed
      exact walks.error
  | ok destination =>
      rw [followed] at failed
      cases destination with
      | vacant directory name =>
          cases failed
          exact .inr (.inl rfl)
      | found there left =>
          simp only [bind, Except.bind] at failed
          split at failed
          · cases failed
          · cases failed
            exact .inr (.inl rfl)

theorem stat_of_checked (checked : checkPath path = .ok ()) :
    tree.stat path = tree.statNames (tree.start path) (stepsOf path) := by
  simp only [stat, checked, bind, Except.bind]

/-- The names of the path lead to this directory. -/
def Houses (tree : FileTree) (path : String) (directory : Location) : Prop :=
  tree.statNames (tree.start path) (namesOf path) = .ok (directory, .directory)

theorem Plain.stat_of_houses (plain : tree.Plain) {directory : Location}
    (houses : tree.Houses path directory) (checked : checkPath path = .ok ()) :
    tree.stat path = .ok (directory, .directory) := by
  rw [stat_of_checked checked, stepsOf]
  split
  · -- a slash at the end: one more step, from the directory to itself
    obtain ⟨walks, enclosing⟩ := (statNames_eq_ok_iff plain).mp houses
    exact (statNames_eq_ok_iff plain).mpr ⟨walks.append enclosing (.stay .arrived), enclosing⟩
  · rwa [List.append_nil]

theorem Houses.grow {after : FileTree} {directory : Location} (houses : tree.Houses path directory)
    (plain : tree.Plain) (formed : after.Plain) (origin : after.origin = tree.origin)
    (grows : ∀ place entry, tree.entry? place = some entry → after.entry? place = some entry) :
    after.Houses path directory := by
  obtain ⟨walks, enclosing⟩ := (statNames_eq_ok_iff plain).mp houses
  unfold Houses start
  rw [origin]
  exact (statNames_eq_ok_iff formed).mpr ⟨walks.mono grows, grows _ _ enclosing⟩

section

variable (nonempty : path ≠ "") (named : Path.Plain name) (proper : name ≠ "." ∧ name ≠ "..")

include nonempty named proper

theorem Plain.stat_join (plain : tree.Plain) {directory : Location}
    (houses : tree.Houses path directory) (checked : checkPath (Path.join path name) = .ok ())
    (short : name.utf8ByteSize ≤ nameLimit)
    (held : tree.entry? (directory.child name) = some entry) :
    tree.stat (Path.join path name) = .ok (directory.child name, entry) := by
  obtain ⟨walks, enclosing⟩ := (statNames_eq_ok_iff plain).mp houses
  rw [stat_of_checked checked, stepsOf, endsInSlash_join nonempty named, namesOf_join nonempty named,
    start_join nonempty, if_neg Bool.false_ne_true, List.append_nil]
  refine (statNames_eq_ok_iff plain).mpr ⟨walks.append enclosing ?_, held⟩
  cases entry with
  | directory => exact .enter proper short held .arrived
  | regular file content => exact .file proper short held
  | link target => exact absurd held (plain.entry?_ne_link _ target)

theorem Plain.entry?_of_stat_join (plain : tree.Plain) {directory : Location}
    (houses : tree.Houses path directory)
    (stated : tree.stat (Path.join path name) = .ok (location, entry)) :
    tree.entry? (directory.child name) = some entry := by
  obtain ⟨_, checked, _⟩ := bind_eq_ok stated
  obtain ⟨walks, enclosing⟩ := (statNames_eq_ok_iff plain).mp houses
  rw [stat_of_checked checked, stepsOf, endsInSlash_join nonempty named, namesOf_join nonempty named,
    start_join nonempty, if_neg Bool.false_ne_true, List.append_nil] at stated
  obtain ⟨whole, held⟩ := (statNames_eq_ok_iff plain).mp stated
  have last := plain.walks linkLimit directory [name]
  rw [← (walks.append enclosing last).follow_eq, whole.follow_eq] at last
  generalize told : Except.ok (Destination.found location linkLimit) = result at last
  cases last with
  | stay | leave => simp at proper
  | enter _ _ _ arrived =>
      cases arrived
      cases told
      exact held
  | file =>
      cases told
      exact held
  | vacant | tooLong | missing | blocked => cases told

theorem approach_join (checked : checkPath (Path.join path name) = .ok ()) :
    tree.approach (Path.join path name) = (do
      let (directory, entry) ← tree.statNames (tree.start path) (namesOf path)
      if entry.isDirectory then return .name directory name false else .error .notDirectory) := by
  have last : (namesOf path ++ [name]).getLast? = some name := List.getLast?_concat
  simp only [approach, checked, bind, Except.bind, approachNames, namesOf_join nonempty named, last,
    start_join nonempty, endsInSlash_join nonempty named, List.dropLast_concat, proper.1, proper.2,
    if_false]
  cases tree.statNames (tree.start path) (namesOf path) with
  | error code => rfl
  | ok found =>
      obtain ⟨directory, entry⟩ := found
      cases entry <;> rfl

/-- What is approached under a joined path stands in the directory of the path. -/
theorem houses_of_approach {ending : Ending}
    (approached : tree.approach (Path.join path name) = .ok ending) :
    ∃ directory, ending = .name directory name false ∧ tree.Houses path directory ∧
      checkPath (Path.join path name) = .ok () := by
  obtain ⟨_, checked, _⟩ := bind_eq_ok approached
  rw [approach_join nonempty named proper checked] at approached
  obtain ⟨⟨directory, entry⟩, stated, approached⟩ := bind_eq_ok approached
  cases entry with
  | regular file content => cases approached
  | link target => cases approached
  | directory =>
      cases approached
      exact ⟨directory, rfl, stated, checked⟩

theorem Plain.error_of_approach (plain : tree.Plain)
    (failed : tree.approach (Path.join path name) = .error code) : code ≠ .alreadyExists := by
  have known : code = .nameTooLong ∨ code = .noEntry ∨ code = .notDirectory := by
    cases checked : checkPath (Path.join path name) with
    | error other =>
        simp only [approach, checked, bind, Except.bind, Except.error.injEq] at failed
        subst failed
        unfold checkPath at checked
        split at checked
        · cases checked
          exact .inr (.inl rfl)
        · split at checked <;> cases checked
          exact .inl rfl
    | ok =>
        rw [approach_join nonempty named proper checked] at failed
        cases stated : tree.statNames (tree.start path) (namesOf path) with
        | error other =>
            rw [stated] at failed
            cases failed
            exact plain.error_of_statNames stated
        | ok found =>
            simp only [stated, bind, Except.bind] at failed
            split at failed <;> cases failed
            exact .inr (.inr rfl)
  rcases known with rfl | rfl | rfl <;> decide

/-- A creation finds the place taken only by what is there. -/
theorem Plain.of_alreadyExists (plain : tree.Plain)
    (refused : tree.createExclusive (Path.join path name) = .error .alreadyExists) :
    ∃ directory entry, tree.Houses path directory ∧ checkPath (Path.join path name) = .ok () ∧
      name.utf8ByteSize ≤ nameLimit ∧ tree.entry? (directory.child name) = some entry := by
  unfold FileTree.createExclusive at refused
  cases approached : tree.approach (Path.join path name) with
  | error code =>
      rw [approached] at refused
      cases refused
      exact absurd rfl (plain.error_of_approach nonempty named proper approached)
  | ok ending =>
      obtain ⟨directory, rfl, houses, checked⟩ := houses_of_approach nonempty named proper approached
      rw [approached] at refused
      simp only [bind, Except.bind] at refused
      cases peeked : tree.peek directory name with
      | error code =>
          rw [peeked] at refused
          unfold peek at peeked
          split at peeked <;> cases peeked
          cases refused
      | ok found =>
          obtain ⟨short, held⟩ := peek_eq_ok peeked
          cases found with
          | none =>
              rw [peeked] at refused
              cases refused
          | some entry => exact ⟨directory, entry, houses, checked, short, held⟩

end

end MarkerBus.FileTree
