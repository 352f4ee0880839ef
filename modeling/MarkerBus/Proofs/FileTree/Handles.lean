import MarkerBus.Proofs.FileTree.Growth

namespace MarkerBus.FileTree

variable {tree middle after : FileTree} {location here : Location} {path old new : String}
  {names : List String} {links handle number other : Nat} {content bytes : ByteArray} {mode : Mode}

/-- The files that are open are the same, and the same have been closed. -/
structure SameHandles (tree after : FileTree) : Prop where
  handles : after.handles = tree.handles
  opened : after.opened = tree.opened
  closed : after.closed = tree.closed

namespace SameHandles

theorem refl (tree : FileTree) : tree.SameHandles tree :=
  ⟨rfl, rfl, rfl⟩

theorem trans (first : tree.SameHandles middle) (second : middle.SameHandles after) :
    tree.SameHandles after :=
  ⟨second.handles.trans first.handles, second.opened.trans first.opened,
    second.closed.trans first.closed⟩

end SameHandles

theorem sameHandles_makeEach : tree.SameHandles (tree.makeEach here links names).2 := by
  induction names generalizing tree here links with
  | nil => exact .refl tree
  | cons name rest ih =>
      have inserted (location : Location) :
          tree.SameHandles (tree.insert location .directory) := ⟨rfl, rfl, rfl⟩
      unfold makeEach
      split
      · exact ih
      · split
        · exact ih
        · split
          · exact .refl tree
          · exact (inserted _).trans ih
          · split
            · split
              · exact ih
              · exact .refl tree
            · exact .refl tree

theorem sameHandles_makeDirectories (tree : FileTree) (path : String) :
    tree.SameHandles (tree.makeDirectories path).2 := by
  unfold makeDirectories
  split
  · exact .refl tree
  · split
    · exact .refl tree
    · split
      · split
        · split
          · exact .refl tree
          · exact sameHandles_makeEach
        · exact .refl tree
      · exact .refl tree

theorem sameHandles_remove (removed : tree.remove path = .ok after) : tree.SameHandles after := by
  obtain ⟨location, rfl⟩ := remove_eq_ok removed
  exact ⟨rfl, rfl, rfl⟩

theorem sameHandles_rename (renamed : tree.rename old new = .ok after) :
    tree.SameHandles after := by
  obtain ⟨former, _, renamed⟩ := bind_eq_ok renamed
  obtain ⟨latter, _, renamed⟩ := bind_eq_ok renamed
  rcases former with _ | _ | _ | ⟨oldDirectory, oldName, oldSlash⟩
  · cases renamed
  · cases renamed
  · cases renamed
  rcases latter with _ | _ | _ | ⟨newDirectory, newName, newSlash⟩
  · cases renamed
  · cases renamed
  · cases renamed
  obtain ⟨found, _, renamed⟩ := bind_eq_ok renamed
  cases found with
  | none => cases renamed
  | some entry =>
      obtain ⟨there?, _, renamed⟩ := bind_eq_ok renamed
      split at renamed
      · cases renamed
        exact .refl tree
      · split at renamed
        · split at renamed
          · cases renamed
          · split at renamed
            · cases renamed
              exact ⟨rfl, rfl, rfl⟩
            · split at renamed <;> cases renamed
              exact ⟨rfl, rfl, rfl⟩
            · cases renamed
        · split at renamed
          · cases renamed
          · split at renamed
            · cases renamed
              exact ⟨rfl, rfl, rfl⟩
            · cases renamed
            · cases renamed
              exact ⟨rfl, rfl, rfl⟩

theorem sameHandles_locateFile (located : tree.locateFile path = .ok (location, after)) :
    tree.SameHandles after := by
  rcases locateFile_eq_ok located with ⟨_, rfl⟩ | ⟨_, _, _, _, rfl⟩
  · exact .refl after
  · exact ⟨rfl, rfl, rfl⟩

/-- The handle after so many bytes have been written through it. -/
def Handle.advanced (handle : Handle) (size : Nat) : Handle :=
  { handle with position? := handle.position?.map (· + size) }

theorem lookup_cons {key : Nat} {handle : Handle} {rest : List (Nat × Handle)} :
    ((key, handle) :: rest).lookup number =
      if number = key then some handle else rest.lookup number := by
  rw [List.lookup_cons]
  by_cases same : number = key
  · simp [same]
  · rw [beq_false_of_ne same, if_neg same]

theorem lookup_hold (tree : FileTree) (handle : Handle) : (tree.hold handle).handles.lookup number =
    if number = tree.opened then some handle else tree.handles.lookup number :=
  lookup_cons

theorem lookup_close (tree : FileTree) (number other : Nat) :
    (tree.close number).handles.lookup other =
      if other = number then none else tree.handles.lookup other := by
  simp only [close]
  induction tree.handles with
  | nil => simp
  | cons known rest ih =>
      obtain ⟨key, handle⟩ := known
      by_cases gone : key = number
      · subst gone
        rw [List.filter_cons_of_neg (by simp), ih, lookup_cons]
        split <;> rfl
      · rw [List.filter_cons_of_pos (by simpa using gone), lookup_cons, ih, lookup_cons]
        split
        · rename_i same
          rw [if_neg (same ▸ gone)]
        · rfl

theorem lookup_map (handles : List (Nat × Handle)) (number : Nat) (moved : Handle) :
    (handles.map fun known => if known.1 = number then (number, moved) else known).lookup other =
      if other = number then (handles.lookup number).map fun _ => moved
      else handles.lookup other := by
  induction handles with
  | nil => simp
  | cons known rest ih =>
      obtain ⟨key, handle⟩ := known
      rw [List.map_cons, lookup_cons, lookup_cons]
      by_cases hit : key = number
      · subst hit
        rw [if_pos rfl, if_pos rfl, lookup_cons, ih]
        split <;> rfl
      · rw [if_neg hit, if_neg (Ne.symm hit), lookup_cons, ih]
        by_cases same : other = number
        · rw [if_pos same, if_neg (same ▸ Ne.symm hit), if_pos same]
        · rw [if_neg same, if_neg same]

theorem lookup_write (tree : FileTree) (number other : Nat) (bytes : ByteArray) :
    (tree.write number bytes).handles.lookup other =
      if other = number then (tree.handles.lookup number).map (·.advanced bytes.size)
      else tree.handles.lookup other := by
  have unmoved (same : (tree.handles.lookup number).map (·.advanced bytes.size) =
      tree.handles.lookup number) : tree.handles.lookup other =
        if other = number then (tree.handles.lookup number).map (·.advanced bytes.size)
        else tree.handles.lookup other := by
    split
    · rename_i own
      rw [own, same]
    · rfl
  unfold write
  split
  · rename_i held
    exact unmoved (by rw [held]; rfl)
  · rename_i held
    exact unmoved (by rw [held]; rfl)
  · rename_i held
    dsimp only
    rw [lookup_map, held]
    rfl

theorem opened_write (tree : FileTree) (number : Nat) (bytes : ByteArray) :
    (tree.write number bytes).opened = tree.opened := by
  unfold write
  split <;> rfl

theorem closed_write (tree : FileTree) (number : Nat) (bytes : ByteArray) :
    (tree.write number bytes).closed = tree.closed := by
  unfold write
  split <;> rfl

theorem overwrite_size (content bytes : ByteArray) :
    overwrite content content.size bytes = content ++ bytes := by
  have gap : (⟨Array.replicate (content.size - content.size) 0⟩ : ByteArray) = .empty := by
    rw [Nat.sub_self]
    rfl
  have rest : content.extract (content.size + bytes.size) content.size = .empty := by
    rw [← ByteArray.size_eq_zero_iff, ByteArray.size_extract]
    omega
  rw [overwrite, gap, rest, ByteArray.append_empty, ByteArray.append_empty,
    ByteArray.extract_zero_size]

/-- The file that the path leads to has this content, and what is written through
the handle goes to its end. -/
def Serves (tree : FileTree) (path : String) (handle : Nat) (content : ByteArray) : Prop :=
  ∃ location file position?, tree.stat path = .ok (location, .regular file content) ∧
    tree.handles.lookup handle = some ⟨file, position?⟩ ∧
    (position? = none ∨ position? = some content.size)

theorem Keeps.stat_of_regular {file : Nat} {content more : ByteArray} (keeps : tree.Keeps after)
    (stated : tree.stat path = .ok (location, .regular file content))
    (held : after.entry? location = some (.regular file more)) :
    after.stat path = .ok (location, .regular file more) := by
  obtain ⟨checked, ⟨left, arrives⟩, _⟩ := stat_eq_ok stated
  rw [stat_of_checked checked, keeps.start_eq]
  exact statNames_eq_ok_iff_arrives.mpr
    ⟨⟨left, keeps.arrives (fun _ _ _ => ⟨_, _, held⟩) arrives⟩, held⟩

theorem Keeps.congr (keeps : tree.Keeps middle) (entries : after.entries = middle.entries)
    (origin : after.origin = tree.origin) : tree.Keeps after where
  origin := origin
  kept _ _ other held := (entry?_congr entries).trans (keeps.kept _ _ other held)

theorem Arrives.vacant_entry {name : String}
    (arrives : tree.Arrives links here names (.vacant location name)) :
    tree.entry? (location.child name) = none := by
  generalize told : Destination.vacant location name = reached at arrives
  induction arrives with
  | here | file => cases told
  | stay _ ih | leave _ ih | enter _ _ _ _ ih | link _ _ _ _ ih => exact ih told
  | vacant _ _ held =>
      cases told
      exact held

/-- Writing changes the one file, and appends where the handle is at its end. -/
theorem entries_write {file : Nat} {position? : Option Nat}
    (held : tree.handles.lookup handle = some ⟨file, position?⟩)
    (placed : position? = none ∨ position? = some content.size) (bytes : ByteArray) :
    ∃ change, change content = content ++ bytes ∧
      (tree.write handle bytes).entries = (tree.modify file change).entries ∧
      (tree.write handle bytes).origin = tree.origin := by
  unfold write
  rw [held]
  rcases placed with rfl | rfl
  · exact ⟨(· ++ bytes), rfl, rfl, rfl⟩
  · exact ⟨(overwrite · content.size bytes), overwrite_size content bytes, rfl, rfl⟩

namespace Serves

theorem read?_eq (serves : tree.Serves path handle content) : tree.read? path = some content := by
  obtain ⟨location, file, position?, stated, _⟩ := serves
  rw [read?, stated]

theorem write (serves : tree.Serves path handle content) (bytes : ByteArray) :
    (tree.write handle bytes).Serves path handle (content ++ bytes) := by
  obtain ⟨location, file, position?, stated, held, placed⟩ := serves
  obtain ⟨change, appends, entries, origin⟩ := entries_write held placed bytes
  have keeps : tree.Keeps (tree.write handle bytes) :=
    (keeps_modify file change).congr entries origin
  have written : FileTree.entry? (tree.write handle bytes) location =
      some (.regular file (content ++ bytes)) := by
    rw [entry?_congr entries, entry?_modify_of_regular (stat_eq_ok stated).2.2, appends]
  have moved := lookup_write tree handle handle bytes
  rw [if_pos rfl, held] at moved
  refine ⟨location, file, _, keeps.stat_of_regular stated written, moved, ?_⟩
  rcases placed with rfl | rfl
  · exact .inl rfl
  · exact .inr (by rw [ByteArray.size_append]; rfl)

/-- The path still leads there if directories are made and other files are closed. -/
theorem of_grows (serves : tree.Serves path handle content) (grows : tree.Grows after)
    (same : after.handles.lookup handle = tree.handles.lookup handle) :
    after.Serves path handle content := by
  obtain ⟨location, file, position?, stated, held, placed⟩ := serves
  have kept := grows.kept _ _ (stat_eq_ok stated).2.2
  exact ⟨location, file, position?, grows.keeps.stat_of_regular stated kept, same.trans held,
    placed⟩

end Serves

theorem stat_of_locateFile (located : tree.locateFile path = .ok (location, after)) {file : Nat}
    (held : after.entry? location = some (.regular file content)) :
    after.stat path = .ok (location, .regular file content) := by
  -- the file was there, or the place for it was vacant
  have arrived : checkPath path = .ok () ∧
      ∃ left, after.Arrives linkLimit (after.start path) (stepsOf path) (.found location left) := by
    rcases locateFile_eq_ok located with ⟨⟨left, walked⟩, rfl⟩ | ⟨there, name, walked, rfl, rfl⟩
    · obtain ⟨_, checked, followed⟩ := bind_eq_ok walked
      exact ⟨checked, left, arrives_of_followToFile followed⟩
    · obtain ⟨_, checked, followed⟩ := bind_eq_ok walked
      have arrives := arrives_of_followToFile followed
      have keeps := keeps_insertFile arrives.vacant_entry
      rw [keeps.start_eq]
      exact ⟨checked, keeps.arrives_of_vacant held arrives⟩
  rw [stat_of_checked arrived.1]
  exact statNames_eq_ok_iff_arrives.mpr ⟨arrived.2, held⟩

/-- A file that has been opened is served by its handle. -/
theorem serves_of_openFile (opened : tree.openFile path mode = .ok (number, after)) :
    number = tree.opened ∧ after.opened = tree.opened + 1 ∧ after.closed = tree.closed ∧
      (∀ other, other ≠ number → after.handles.lookup other = tree.handles.lookup other) ∧
      ∃ content, after.Serves path number content := by
  obtain ⟨middle, location, file, content, located, held, rfl, rfl⟩ := openFile_eq_ok opened
  have same := sameHandles_locateFile located
  have stated := stat_of_locateFile located held
  cases mode with
  | append =>
      refine ⟨same.opened, congrArg (· + 1) same.opened, same.closed, ?_, content, ?_⟩
      · intro other apart
        exact (lookup_hold middle _).trans ((if_neg apart).trans (congrArg _ same.handles))
      · have kept : middle.Grows (middle.hold ⟨file, none⟩) :=
          ⟨rfl, rfl, fun _ _ held => held, fun _ _ held => .inl held⟩
        exact ⟨location, file, none, kept.keeps.stat_of_regular stated held,
          (lookup_hold middle _).trans (if_pos rfl), .inl rfl⟩
  | truncate =>
      let emptied := middle.modify file fun _ => .empty
      refine ⟨same.opened, congrArg (· + 1) same.opened, same.closed, ?_, .empty, ?_⟩
      · intro other apart
        exact (lookup_hold emptied _).trans ((if_neg apart).trans (congrArg _ same.handles))
      · have keeps : middle.Keeps (emptied.hold ⟨file, some 0⟩) :=
          (keeps_modify file fun _ => .empty).congr rfl rfl
        exact ⟨location, file, some 0,
          keeps.stat_of_regular stated (entry?_modify_of_regular held),
          (lookup_hold emptied _).trans (if_pos rfl), .inr rfl⟩

end MarkerBus.FileTree
