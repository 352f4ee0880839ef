import MarkerBus.Proofs.FileTree.Files

namespace MarkerBus.FileTree

variable {tree middle after : FileTree} {here place location : Location} {path : String}
  {names : List String} {links : Nat}

structure Grows (tree after : FileTree) : Prop where
  origin : after.origin = tree.origin
  files : after.files = tree.files
  kept : ∀ location entry, tree.entry? location = some entry → after.entry? location = some entry
  added : ∀ location entry, after.entry? location = some entry →
    tree.entry? location = some entry ∨ entry = .directory

namespace Grows

theorem refl (tree : FileTree) : tree.Grows tree :=
  ⟨rfl, rfl, fun _ _ held => held, fun _ _ held => .inl held⟩

theorem trans (first : tree.Grows middle) (second : middle.Grows after) : tree.Grows after where
  origin := second.origin.trans first.origin
  files := second.files.trans first.files
  kept _ _ held := second.kept _ _ (first.kept _ _ held)
  added _ _ held := (second.added _ _ held).elim (first.added _ _) .inr

theorem insert (vacant : tree.entry? location = none) :
    tree.Grows (tree.insert location .directory) where
  origin := rfl
  files := rfl
  kept other entry held := by
    rw [entry?_insert (ne_root_of_vacant vacant), if_neg]
    · exact held
    · rintro rfl
      rw [vacant] at held
      cases held
  added other entry held := by
    rw [entry?_insert (ne_root_of_vacant vacant)] at held
    split at held
    · exact .inr (Option.some.inj held).symm
    · exact .inl held

theorem keeps (grows : tree.Grows after) : tree.Keeps after :=
  ⟨grows.origin, fun location entry _ held => grows.kept location entry held⟩

end Grows

theorem grows_makeEach : tree.Grows (tree.makeEach here links names).2 := by
  induction names generalizing tree here links with
  | nil => exact .refl tree
  | cons name rest ih =>
      unfold makeEach
      split
      · exact ih
      · split
        · exact ih
        · split
          · exact .refl tree
          · rename_i peeked
            exact (Grows.insert (peek_eq_ok peeked).2).trans ih
          · split
            · split
              · exact ih
              · exact .refl tree
            · exact .refl tree

theorem grows_makeDirectories (tree : FileTree) (path : String) :
    tree.Grows (tree.makeDirectories path).2 := by
  unfold makeDirectories
  split
  · exact .refl tree
  · split
    · exact .refl tree
    · split
      · split
        · split
          · exact .refl tree
          · exact grows_makeEach
        · exact .refl tree
      · exact .refl tree

/-- A directory that is there already need not be made. -/
theorem makeDirectories_of_stat (stated : tree.stat path = .ok (place, .directory)) :
    tree.makeDirectories path = (.ok (), tree) := by
  simp only [makeDirectories, if_neg (nonempty_of_stat stated), stated]
  rfl

theorem Sound.insert (sound : tree.Sound) (held : tree.entry? here = some .directory)
    {name : String} (vacant : tree.entry? (here.child name) = none) :
    (tree.insert (here.child name) .directory).Sound := by
  have grows : tree.Grows (tree.insert (here.child name) .directory) := .insert vacant
  refine sound.of_keeps grows.keeps ?_ ?_ ?_
  · intro location entry apart found
    rw [entry?_insert (child_ne_root here name)] at found
    split at found
    · rename_i same
      rwa [same, Location.parent_child]
    · exact sound.nested _ _ apart found
  · intro location file content found
    rcases grows.added _ _ found with before | made
    · exact sound.numbered _ _ _ before
    · cases made
  · intro location other file content more found other
    rcases grows.added _ _ found with before | made
    · rcases grows.added _ _ other with earlier | made
      · exact sound.unshared _ _ _ _ _ before earlier
      · cases made
    · cases made

end MarkerBus.FileTree
