import MarkerBus.Proofs.FileTree.Walk
import MarkerBus.FileTree.Handles

namespace MarkerBus.FileTree

variable {tree after : FileTree} {here place location : Location} {name path target : String}
  {names rest : List String} {links left : Nat} {entry : Entry} {destination : Destination}
  {onLink : Location → String → List String → Except ErrorNumber Destination}

section

variable (proper : name ≠ "." ∧ name ≠ "..")

include proper

theorem followNames_long (long : nameLimit < name.utf8ByteSize) :
    tree.followNames links onLink here (name :: rest) = .error .nameTooLong := by
  rw [followNames, if_neg proper.1, if_neg proper.2, if_pos long]

variable (short : name.utf8ByteSize ≤ nameLimit)

include short

theorem followNames_vacant (held : tree.entry? (here.child name) = none) :
    tree.followNames links onLink here (name :: rest) =
      if rest = [] then .ok (.vacant here name) else .error .noEntry := by
  rw [followNames, if_neg proper.1, if_neg proper.2, if_neg (Nat.not_lt.mpr short), held]

theorem followNames_directory (held : tree.entry? (here.child name) = some .directory) :
    tree.followNames links onLink here (name :: rest) =
      tree.followNames links onLink (here.child name) rest := by
  rw [followNames, if_neg proper.1, if_neg proper.2, if_neg (Nat.not_lt.mpr short), held]

theorem followNames_regular {file : Nat} {content : ByteArray}
    (held : tree.entry? (here.child name) = some (.regular file content)) :
    tree.followNames links onLink here (name :: rest) =
      if rest = [] then .ok (.found (here.child name) links) else .error .notDirectory := by
  rw [followNames, if_neg proper.1, if_neg proper.2, if_neg (Nat.not_lt.mpr short), held]

theorem followNames_link (held : tree.entry? (here.child name) = some (.link target)) :
    tree.followNames links onLink here (name :: rest) = onLink here target rest := by
  rw [followNames, if_neg proper.1, if_neg proper.2, if_neg (Nat.not_lt.mpr short), held]

end

/-- Where a link leads. -/
def beyond (tree : FileTree) :
    Nat → Location → String → List String → Except ErrorNumber Destination
  | 0, _, _, _ => .error .tooManyLinks
  | links + 1, here, target, rest =>
      tree.follow links (startOf target here) (stepsOf target ++ rest)

theorem follow_eq_followNames :
    tree.follow links here names = tree.followNames links (tree.beyond links) here names := by
  cases links <;> rfl

/-- Where a link leads that may end at a file yet to be made. -/
def beyondToFile (tree : FileTree) :
    Nat → Location → String → List String → Except ErrorNumber Destination
  | 0, _, _, _ => .error .tooManyLinks
  | links + 1, here, target, rest =>
      if rest = [] ∧ endsInSlash target then do
        let _ ← tree.enter links (startOf target here) (namesOf target).dropLast
        .error .isDirectory
      else
        tree.followToFile links (startOf target here) (stepsOf target ++ rest)

theorem followToFile_eq_followNames : tree.followToFile links here names =
    tree.followNames links (tree.beyondToFile links) here names := by
  cases links <;> rfl

/-- The names lead to this destination, over so many links at most. -/
inductive Arrives (tree : FileTree) : Nat → Location → List String → Destination → Prop where
  | here {links : Nat} {here : Location} : Arrives tree links here [] (.found here links)
  | stay {links : Nat} {here : Location} {rest : List String} {destination : Destination}
      (onwards : Arrives tree links here rest destination) :
      Arrives tree links here ("." :: rest) destination
  | leave {links : Nat} {here : Location} {rest : List String} {destination : Destination}
      (onwards : Arrives tree links here.parent rest destination) :
      Arrives tree links here (".." :: rest) destination
  | enter {links : Nat} {here : Location} {name : String} {rest : List String}
      {destination : Destination} (proper : name ≠ "." ∧ name ≠ "..")
      (short : name.utf8ByteSize ≤ nameLimit)
      (held : tree.entry? (here.child name) = some .directory)
      (onwards : Arrives tree links (here.child name) rest destination) :
      Arrives tree links here (name :: rest) destination
  | link {links : Nat} {here : Location} {name target : String} {rest : List String}
      {destination : Destination} (proper : name ≠ "." ∧ name ≠ "..")
      (short : name.utf8ByteSize ≤ nameLimit)
      (held : tree.entry? (here.child name) = some (.link target))
      (onwards : Arrives tree links (startOf target here) (stepsOf target ++ rest) destination) :
      Arrives tree (links + 1) here (name :: rest) destination
  | file {links : Nat} {here : Location} {name : String} {file : Nat} {content : ByteArray}
      (proper : name ≠ "." ∧ name ≠ "..") (short : name.utf8ByteSize ≤ nameLimit)
      (held : tree.entry? (here.child name) = some (.regular file content)) :
      Arrives tree links here [name] (.found (here.child name) links)
  | vacant {links : Nat} {here : Location} {name : String} (proper : name ≠ "." ∧ name ≠ "..")
      (short : name.utf8ByteSize ≤ nameLimit) (held : tree.entry? (here.child name) = none) :
      Arrives tree links here [name] (.vacant here name)

theorem Arrives.follow_eq (arrives : tree.Arrives links here names destination) :
    tree.follow links here names = .ok destination := by
  induction arrives with
  | here => exact follow_eq_followNames
  | stay _ ih =>
      rw [follow_eq_followNames] at ih ⊢
      exact ih
  | leave _ ih =>
      rw [follow_eq_followNames] at ih ⊢
      exact ih
  | enter proper short held _ ih =>
      rw [follow_eq_followNames] at ih ⊢
      rwa [followNames_directory proper short held]
  | link proper short held _ ih =>
      rw [follow_eq_followNames, followNames_link proper short held]
      exact ih
  | file proper short held =>
      rw [follow_eq_followNames, followNames_regular proper short held]
      rfl
  | vacant proper short held =>
      rw [follow_eq_followNames, followNames_vacant proper short held]
      rfl

/-- Following a link takes up one of those that may be followed; so who arrives over a
link arrives with one less. -/
theorem arrives_of_followNames
    (linked : ∀ here target rest, onLink here target rest = .ok destination →
      ∃ left, links = left + 1 ∧
        tree.Arrives left (startOf target here) (stepsOf target ++ rest) destination)
    (followed : tree.followNames links onLink here names = .ok destination) :
    tree.Arrives links here names destination := by
  induction names generalizing here with
  | nil =>
      cases followed
      exact .here
  | cons name rest ih =>
      by_cases dot : name = "."
      · subst dot
        exact .stay (ih followed)
      by_cases dots : name = ".."
      · subst dots
        exact .leave (ih followed)
      have proper : name ≠ "." ∧ name ≠ ".." := ⟨dot, dots⟩
      by_cases long : nameLimit < name.utf8ByteSize
      · rw [followNames_long proper long] at followed
        cases followed
      have short := Nat.le_of_not_lt long
      cases held : tree.entry? (here.child name) with
      | none =>
          rw [followNames_vacant proper short held] at followed
          split at followed <;> cases followed
          rename_i last
          exact last ▸ .vacant proper short held
      | some entry =>
          cases entry with
          | directory =>
              rw [followNames_directory proper short held] at followed
              exact .enter proper short held (ih followed)
          | link target =>
              rw [followNames_link proper short held] at followed
              obtain ⟨left, rfl, onwards⟩ := linked _ _ _ followed
              exact .link proper short held onwards
          | regular file content =>
              rw [followNames_regular proper short held] at followed
              split at followed <;> cases followed
              rename_i last
              exact last ▸ .file proper short held

theorem arrives_iff_follow :
    tree.Arrives links here names destination ↔ tree.follow links here names = .ok destination := by
  refine ⟨Arrives.follow_eq, fun followed => ?_⟩
  induction links generalizing here names with
  | zero =>
      rw [follow_eq_followNames] at followed
      exact arrives_of_followNames (fun _ _ _ none => by cases none) followed
  | succ links ih =>
      rw [follow_eq_followNames] at followed
      exact arrives_of_followNames (fun _ _ _ onwards => ⟨links, rfl, ih onwards⟩) followed

/-- Whoever looks for a file to write to arrives where everybody arrives. -/
theorem arrives_of_followToFile
    (followed : tree.followToFile links here names = .ok destination) :
    tree.Arrives links here names destination := by
  induction links generalizing here names with
  | zero =>
      rw [followToFile_eq_followNames] at followed
      exact arrives_of_followNames (fun _ _ _ none => by cases none) followed
  | succ links ih =>
      rw [followToFile_eq_followNames] at followed
      refine arrives_of_followNames (fun here target rest onwards => ?_) followed
      rw [beyondToFile] at onwards
      split at onwards
      · obtain ⟨_, _, refused⟩ := bind_eq_ok onwards
        cases refused
      · exact ⟨links, rfl, ih onwards⟩

/-- A file is looked for from the directory that the names before it lead to. -/
theorem Arrives.followToFile_concat (arrives : tree.Arrives links here names (.found place left))
    (enclosing : tree.entry? place = some .directory) :
    tree.followToFile links here (names ++ [name]) = tree.followToFile left place [name] := by
  generalize told : Destination.found place left = reached at arrives
  induction arrives with
  | here =>
      cases told
      rfl
  | stay _ ih =>
      rw [← ih told, followToFile_eq_followNames, followToFile_eq_followNames]
      rfl
  | leave _ ih =>
      rw [← ih told, followToFile_eq_followNames, followToFile_eq_followNames]
      rfl
  | enter proper short held _ ih =>
      rw [← ih told, followToFile_eq_followNames, List.cons_append,
        followNames_directory proper short held, followToFile_eq_followNames]
  | link proper short held _ ih =>
      rw [← ih told, followToFile_eq_followNames, List.cons_append,
        followNames_link proper short held, beyondToFile, if_neg (by simp), List.append_assoc]
  | file _ _ held =>
      cases told
      rw [held] at enclosing
      cases enclosing
  | vacant => cases told

/-- Names lead on from the directory that the names before them lead to. -/
theorem Arrives.append (arrives : tree.Arrives links here names (.found place left))
    (enclosing : tree.entry? place = some .directory)
    (onwards : tree.Arrives left place rest destination) :
    tree.Arrives links here (names ++ rest) destination := by
  generalize told : Destination.found place left = reached at arrives
  induction arrives with
  | here =>
      cases told
      exact onwards
  | stay _ ih => exact .stay (ih told)
  | leave _ ih => exact .leave (ih told)
  | enter proper short held _ ih => exact .enter proper short held (ih told)
  | link proper short held _ ih =>
      exact .link proper short held (List.append_assoc _ _ rest ▸ ih told)
  | file _ _ held =>
      cases told
      rw [held] at enclosing
      cases enclosing
  | vacant => cases told

/-- A dot at the end asks for a directory and leads no further. -/
theorem Arrives.of_concat_dot
    (arrives : tree.Arrives links here (names ++ ["."]) (.found place left)) :
    tree.Arrives links here names (.found place left) := by
  generalize spelt : names ++ ["."] = whole at arrives
  generalize told : Destination.found place left = reached at arrives ⊢
  induction arrives generalizing names with
  | here => simp at spelt
  | stay onwards ih =>
      cases names with
      | nil =>
          cases spelt
          exact onwards
      | cons name rest =>
          cases spelt
          exact .stay (ih rfl told)
  | leave _ ih =>
      cases names with
      | nil => simp at spelt
      | cons name rest =>
          cases spelt
          exact .leave (ih rfl told)
  | enter proper short held _ ih =>
      cases names with
      | nil =>
          cases spelt
          exact absurd rfl proper.1
      | cons name rest =>
          cases spelt
          exact .enter proper short held (ih rfl told)
  | link proper short held _ ih =>
      cases names with
      | nil =>
          cases spelt
          exact absurd rfl proper.1
      | cons name rest =>
          cases spelt
          exact .link proper short held (ih (List.append_assoc _ _ _) told)
  | file proper =>
      cases names with
      | nil =>
          cases spelt
          exact absurd rfl proper.1
      | cons name rest => simp at spelt
  | vacant => cases told

/-- Directories and links of the one tree are the other's too. -/
structure Keeps (tree after : FileTree) : Prop where
  origin : after.origin = tree.origin
  kept : ∀ location entry, entry.isRegular = false → tree.entry? location = some entry →
    after.entry? location = some entry

theorem Keeps.refl (tree : FileTree) : tree.Keeps tree :=
  ⟨rfl, fun _ _ _ held => held⟩

theorem Keeps.start_eq (keeps : tree.Keeps after) (path : String) :
    after.start path = tree.start path := by
  rw [start, keeps.origin, start]

theorem Keeps.arrives (keeps : tree.Keeps after)
    (files : ∀ file content, tree.entry? place = some (.regular file content) →
      ∃ file content, after.entry? place = some (.regular file content))
    (arrives : tree.Arrives links here names (.found place left)) :
    after.Arrives links here names (.found place left) := by
  generalize told : Destination.found place left = reached at arrives ⊢
  induction arrives with
  | here => exact .here
  | stay _ ih => exact .stay (ih told)
  | leave _ ih => exact .leave (ih told)
  | enter proper short held _ ih => exact .enter proper short (keeps.kept _ _ rfl held) (ih told)
  | link proper short held _ ih => exact .link proper short (keeps.kept _ _ rfl held) (ih told)
  | file proper short held =>
      cases told
      obtain ⟨file, content, still⟩ := files _ _ held
      exact .file proper short still
  | vacant => cases told

/-- The place that is found vacant can be found once a file is there. -/
theorem Keeps.arrives_of_vacant {file : Nat} {content : ByteArray} (keeps : tree.Keeps after)
    (filled : after.entry? (place.child name) = some (.regular file content))
    (arrives : tree.Arrives links here names (.vacant place name)) :
    ∃ left, after.Arrives links here names (.found (place.child name) left) := by
  generalize told : Destination.vacant place name = reached at arrives
  induction arrives with
  | here | file => cases told
  | stay _ ih =>
      obtain ⟨left, onwards⟩ := ih told
      exact ⟨left, .stay onwards⟩
  | leave _ ih =>
      obtain ⟨left, onwards⟩ := ih told
      exact ⟨left, .leave onwards⟩
  | enter proper short held _ ih =>
      obtain ⟨left, onwards⟩ := ih told
      exact ⟨left, .enter proper short (keeps.kept _ _ rfl held) onwards⟩
  | link proper short held _ ih =>
      obtain ⟨left, onwards⟩ := ih told
      exact ⟨left, .link proper short (keeps.kept _ _ rfl held) onwards⟩
  | vacant proper short held =>
      cases told
      exact ⟨_, .file proper short filled⟩

theorem statNames_eq_ok_iff_arrives {origin : Location} :
    tree.statNames origin names = .ok (location, entry) ↔
      (∃ left, tree.Arrives linkLimit origin names (.found location left)) ∧
        tree.entry? location = some entry := by
  constructor
  · intro stated
    obtain ⟨destination, followed, stated⟩ := bind_eq_ok stated
    cases destination with
    | vacant directory name => cases stated
    | found there left =>
        dsimp only at stated
        split at stated
        · cases stated
          exact ⟨⟨left, arrives_iff_follow.mpr followed⟩, ‹_›⟩
        · cases stated
  · rintro ⟨⟨left, arrives⟩, held⟩
    simp only [statNames, arrives.follow_eq, bind, Except.bind, held]
    rfl

theorem stat_eq_ok (stated : tree.stat path = .ok (location, entry)) :
    checkPath path = .ok () ∧
      (∃ left, tree.Arrives linkLimit (tree.start path) (stepsOf path) (.found location left)) ∧
      tree.entry? location = some entry := by
  obtain ⟨_, checked, _⟩ := bind_eq_ok stated
  rw [stat_of_checked checked] at stated
  exact ⟨checked, statNames_eq_ok_iff_arrives.mp stated⟩

theorem Keeps.stat (keeps : tree.Keeps after) (stated : tree.stat path = .ok (place, .directory)) :
    after.stat path = .ok (place, .directory) := by
  obtain ⟨checked, ⟨left, arrives⟩, enclosing⟩ := stat_eq_ok stated
  have files (file : Nat) (content : ByteArray)
      (held : tree.entry? place = some (.regular file content)) :
      ∃ file content, after.entry? place = some (.regular file content) := by
    rw [held] at enclosing
    cases enclosing
  rw [stat_of_checked checked, keeps.start_eq]
  exact statNames_eq_ok_iff_arrives.mpr
    ⟨⟨left, keeps.arrives files arrives⟩, keeps.kept _ _ rfl enclosing⟩

theorem houses_of_stat (stated : tree.stat path = .ok (place, .directory)) :
    tree.Houses path place := by
  obtain ⟨_, ⟨left, arrives⟩, enclosing⟩ := stat_eq_ok stated
  unfold Houses
  refine statNames_eq_ok_iff_arrives.mpr ⟨⟨left, ?_⟩, enclosing⟩
  unfold stepsOf at arrives
  split at arrives
  · exact arrives.of_concat_dot
  · rwa [List.append_nil] at arrives

theorem nonempty_of_stat (stated : tree.stat path = .ok (location, entry)) : path ≠ "" :=
  (checkPath_eq_ok_iff.mp (stat_eq_ok stated).1).1

end MarkerBus.FileTree
