import Mathlib.Logic.Function.Basic
import MarkerBus.Log.RotatingFile
import MarkerBus.Proofs.FileTree.Handles

namespace MarkerBus.Log

variable {tree after : FileTree} {number other bound : Nat}
  {entries : Nat → Option FileTree.Entry} {content bytes : ByteArray} {file : Nat}

def slot : Nat → String
  | 0 => RotatingFile.fileName
  | number + 1 => RotatingFile.fileName ++ "." ++ toString (number + 1)

theorem toString_injective {first second : Nat} (same : toString first = toString second) :
    first = second := by
  have digits : Nat.toDigits 10 first = Nat.toDigits 10 second := by
    rw [← Nat.toList_repr, ← Nat.toList_repr]
    exact congrArg String.toList same
  rw [← @Nat.ofDigitChars_ten_toDigits first, digits, Nat.ofDigitChars_ten_toDigits]

theorem slot_injective (same : slot number = slot other) : number = other := by
  have longer (number : Nat) : slot 0 ≠ slot (number + 1) := by
    intro same
    have size := congrArg (·.toList.length) same
    simp [slot, String.toList_append] at size
  cases number with
  | zero =>
      cases other with
      | zero => rfl
      | succ other => exact absurd same (longer other)
  | succ number =>
      cases other with
      | zero => exact absurd same.symm (longer number)
      | succ other => exact toString_injective ((String.append_right_inj _).mp same)

theorem join_slot (directory : String) (number : Nat) :
    Path.join directory (slot (number + 1)) =
      Path.join directory RotatingFile.fileName ++ "." ++ toString (number + 1) := by
  unfold Path.join
  split <;> simp only [slot, String.append_assoc]

def contentOf : Option FileTree.Entry → ByteArray
  | some (.regular _ content) => content
  | _ => .empty

@[simp] theorem contentOf_none : contentOf none = .empty :=
  rfl

@[simp] theorem contentOf_regular : contentOf (some (.regular file content)) = content :=
  rfl

/-- What the slots up to a number hold, the oldest first. -/
def trail (entries : Nat → Option FileTree.Entry) : Nat → ByteArray
  | 0 => contentOf (entries 0)
  | number + 1 => contentOf (entries (number + 1)) ++ trail entries number

theorem trail_congr {others : Nat → Option FileTree.Entry}
    (same : ∀ number ≤ bound, contentOf (others number) = contentOf (entries number)) :
    trail others bound = trail entries bound := by
  induction bound with
  | zero => exact same 0 (Nat.le_refl 0)
  | succ bound ih =>
      rw [trail, trail, same (bound + 1) (Nat.le_refl _),
        ih fun number within => same number (Nat.le_succ_of_le within)]

theorem trail_update_above (above : bound < number) (held? : Option FileTree.Entry) :
    trail (Function.update entries number held?) bound = trail entries bound :=
  trail_congr fun other within => by
    rw [Function.update_of_ne (Nat.ne_of_lt (Nat.lt_of_le_of_lt within above))]

/-- The oldest file goes, and takes the front of the trail with it. -/
theorem trail_update_last (bound : Nat) :
    trail entries (bound + 1) = contentOf (entries (bound + 1)) ++
      trail (Function.update entries (bound + 1) none) (bound + 1) := by
  rw [trail, trail, Function.update_self, trail_update_above (Nat.lt_succ_self bound),
    contentOf_none, ByteArray.empty_append]

/-- A file moves to a vacant slot, with nothing between it and where it was. -/
theorem trail_move (vacant : entries (number + 1) = none) (within : number + 1 ≤ bound) :
    trail (Function.update (Function.update entries (number + 1) (entries number)) number none)
      bound = trail entries bound := by
  induction bound with
  | zero => exact absurd within (Nat.not_succ_le_zero number)
  | succ bound ih =>
      rw [trail, trail]
      rcases Nat.lt_or_eq_of_le within with below | same
      · rw [ih (Nat.le_of_lt_succ below), Function.update_of_ne (by omega),
          Function.update_of_ne (by omega)]
      · obtain rfl := Nat.succ.inj same
        rw [Function.update_of_ne (by omega), Function.update_self, vacant]
        cases number with
        | zero => simp [trail]
        | succ number =>
            rw [trail, trail, Function.update_self, trail_update_above (Nat.lt_succ_self _),
              trail_update_above (by omega), contentOf_none, ByteArray.empty_append,
              ByteArray.empty_append]

theorem trail_append (held : contentOf (entries 0) = content) (file : Nat) (bytes : ByteArray)
    (bound : Nat) :
    trail (Function.update entries 0 (some (.regular file (content ++ bytes)))) bound =
      trail entries bound ++ bytes := by
  induction bound with
  | zero => rw [trail, trail, Function.update_self, held, contentOf_regular]
  | succ bound ih =>
      rw [trail, trail, ih, Function.update_of_ne (Nat.succ_ne_zero bound), ByteArray.append_assoc]

structure Shelf where
  origin : Location
  directory : String
  place : Location
  /-- The number of the last slot. -/
  count : Nat

namespace Shelf

variable {shelf : Shelf}

def path (shelf : Shelf) (number : Nat) : String :=
  Path.join shelf.directory (slot number)

def slots (shelf : Shelf) (tree : FileTree) (number : Nat) : Option FileTree.Entry :=
  tree.entry? (shelf.place.child (slot number))

/-- What is on the shelf altogether, the oldest first. -/
def whole (shelf : Shelf) (tree : FileTree) : ByteArray :=
  trail (shelf.slots tree) shelf.count

/-- What is in the last slot. -/
def oldest (shelf : Shelf) (tree : FileTree) : ByteArray :=
  contentOf (shelf.slots tree shelf.count)

/-- The directory is there, and all slots can be used and are vacant or hold regular
files. -/
structure Stands (shelf : Shelf) (tree : FileTree) : Prop where
  sound : tree.Sound
  origin : tree.origin = shelf.origin
  stated : tree.stat shelf.directory = .ok (shelf.place, .directory)
  only : ∀ number ≤ shelf.count, ∀ entry, shelf.slots tree number = some entry →
    entry.isRegular = true
  admits : ∀ number ≤ shelf.count, FileTree.Admits shelf.directory (slot number)

theorem child_slot_iff {place : Location} :
    place.child (slot number) = place.child (slot other) ↔ number = other :=
  ⟨fun same => slot_injective (FileTree.child_injective same).2, fun same => same ▸ rfl⟩

theorem slots_eq_update {held? : Option FileTree.Entry}
    (changed : ∀ location, after.entry? location =
      if location = shelf.place.child (slot number) then held? else tree.entry? location) :
    shelf.slots after = Function.update (shelf.slots tree) number held? := by
  funext other
  rw [slots, changed, if_congr child_slot_iff rfl rfl]
  split
  · rename_i same
    rw [same, Function.update_self]
  · rename_i apart
    rw [Function.update_of_ne apart, slots]

theorem regular_update {count : Nat} {held? : Option FileTree.Entry}
    (only : ∀ other ≤ count, ∀ entry, entries other = some entry → entry.isRegular = true)
    (fits : ∀ entry, held? = some entry → entry.isRegular = true) :
    ∀ other ≤ count, ∀ entry, Function.update entries number held? other = some entry →
      entry.isRegular = true := by
  intro other within entry held
  by_cases same : other = number
  · rw [same, Function.update_self] at held
    exact fits entry held
  · rw [Function.update_of_ne same] at held
    exact only other within entry held

/-- Of a shelf and a tree that are given, all but the soundness can be evaluated. -/
theorem Stands.of_checked (sound : tree.Sound) (origin : tree.origin = shelf.origin)
    (stated : tree.stat shelf.directory = .ok (shelf.place, .directory))
    (only : ∀ number < shelf.count + 1, (shelf.slots tree number).all (·.isRegular) = true)
    (names : ∀ number < shelf.count + 1, slot number ≠ "" ∧ '/' ∉ (slot number).toList ∧
      (slot number ≠ "." ∧ slot number ≠ "..") ∧
      (slot number).utf8ByteSize ≤ FileTree.nameLimit ∧
      (shelf.path number ≠ "" ∧ ¬ FileTree.pathLimit ≤ (shelf.path number).utf8ByteSize)) :
    shelf.Stands tree := by
  refine ⟨sound, origin, stated, fun number within entry held => ?_, fun number within => ?_⟩
  · have regular := only number (Nat.lt_succ_of_le within)
    rwa [held] at regular
  · obtain ⟨nonempty, plain, proper, short, some, brief⟩ := names number (Nat.lt_succ_of_le within)
    refine ⟨⟨nonempty, plain⟩, ⟨proper, short⟩, ?_⟩
    change FileTree.checkPath (shelf.path number) = _
    rw [FileTree.checkPath, if_neg some, if_neg brief]

namespace Stands

variable (stands : shelf.Stands tree)

include stands

theorem vacant_or_regular (within : number ≤ shelf.count) : shelf.slots tree number = none ∨
    ∃ file content, shelf.slots tree number = some (.regular file content) := by
  cases held : shelf.slots tree number with
  | none => exact .inl rfl
  | some entry =>
      have regular := stands.only number within entry held
      cases entry with
      | regular file content => exact .inr ⟨file, content, rfl⟩
      | directory | link => cases regular

theorem enclosed (number : Nat) :
    tree.entry? (shelf.place.child (slot number)).parent = some .directory := by
  rw [Location.parent_child]
  exact (FileTree.stat_eq_ok stands.stated).2.2

/-- A change of one slot that leaves directories and links alone. -/
theorem of_update {held? : Option FileTree.Entry} (sound : after.Sound) (keeps : tree.Keeps after)
    (changed : shelf.slots after = Function.update (shelf.slots tree) number held?)
    (fits : ∀ entry, held? = some entry → entry.isRegular = true) : shelf.Stands after where
  sound := sound
  origin := keeps.origin.trans stands.origin
  stated := keeps.stat stands.stated
  only := by
    rw [changed]
    exact regular_update stands.only fits
  admits := stands.admits

theorem congr (entries : after.entries = tree.entries) (origin : after.origin = tree.origin)
    (files : after.files = tree.files) :
    shelf.Stands after ∧ shelf.slots after = shelf.slots tree := by
  have same : shelf.slots after = shelf.slots tree :=
    funext fun number => FileTree.entry?_congr entries
  have keeps : tree.Keeps after := (FileTree.Keeps.refl tree).congr entries origin
  exact ⟨⟨stands.sound.congr entries origin files, origin.trans stands.origin,
    keeps.stat stands.stated, same ▸ stands.only, stands.admits⟩, same⟩

end Stands

end Shelf

/-- Remove a file, if it is there. -/
def discard (path : String) (files : FileTree) : FileTree :=
  match files.remove path with
  | .ok files => files
  | .error _ => files

/-- Rename a file, if that is possible. -/
def displace (old new : String) (files : FileTree) : FileTree :=
  match files.rename old new with
  | .ok files => files
  | .error _ => files

def pushOn (old new : String) (files : FileTree) : FileTree :=
  if files.existsAt old then displace old new files else files

namespace Shelf

variable {shelf : Shelf}

namespace Stands

variable (stands : shelf.Stands tree)

include stands

theorem discard_slot (within : number ≤ shelf.count) :
    shelf.Stands (discard (shelf.path number) tree) ∧
      shelf.slots (discard (shelf.path number) tree) =
        Function.update (shelf.slots tree) number none := by
  have admits := stands.admits number within
  unfold discard
  rcases stands.vacant_or_regular within with vacant | ⟨file, content, held⟩
  · rw [path, FileTree.remove_of_vacant stands.stated admits vacant, ← vacant,
      Function.update_eq_self]
    exact ⟨stands, rfl⟩
  · rw [path, FileTree.remove_of_regular stands.stated admits held]
    have erased : shelf.slots (tree.erase (shelf.place.child (slot number))) =
        Function.update (shelf.slots tree) number none :=
      slots_eq_update fun location => FileTree.entry?_erase (FileTree.ne_root_of_regular held)
    exact ⟨stands.of_update (stands.sound.erase held) (FileTree.keeps_erase held) erased nofun,
      erased⟩

theorem slots_move (held : shelf.slots tree number = some (.regular file content))
    (vacant : shelf.slots tree (number + 1) = none) :
    shelf.slots (tree.move (shelf.place.child (slot number))
        (shelf.place.child (slot (number + 1)))) =
      Function.update (Function.update (shelf.slots tree) (number + 1) (shelf.slots tree number))
        number none := by
  funext other
  rw [slots, FileTree.entry?_move stands.sound held vacant, if_congr child_slot_iff rfl rfl,
    if_congr child_slot_iff rfl rfl]
  by_cases arrived : other = number + 1
  · rw [if_pos arrived, Function.update_of_ne (by omega), arrived, Function.update_self]
    exact held.symm
  · rw [if_neg arrived]
    by_cases left : other = number
    · rw [if_pos left, left, Function.update_self]
    · rw [if_neg left, Function.update_of_ne left, Function.update_of_ne arrived, slots]

theorem displace_slot (within : number + 1 ≤ shelf.count)
    (vacant : shelf.slots tree (number + 1) = none) :
    shelf.Stands (displace (shelf.path number) (shelf.path (number + 1)) tree) ∧
      shelf.slots (displace (shelf.path number) (shelf.path (number + 1)) tree) =
        Function.update (Function.update (shelf.slots tree) (number + 1) (shelf.slots tree number))
          number none := by
  have inside := Nat.le_of_succ_le within
  have admits := stands.admits number inside
  have next := stands.admits (number + 1) within
  unfold displace
  rcases stands.vacant_or_regular inside with missing | ⟨file, content, held⟩
  · rw [path, path, FileTree.rename_of_missing stands.stated admits next missing, missing,
      ← vacant, Function.update_eq_self, vacant, ← missing, Function.update_eq_self]
    exact ⟨stands, rfl⟩
  · rw [path, path, FileTree.rename_of_vacant stands.stated admits next held vacant]
    have changed := stands.slots_move held vacant
    have keeps := stands.sound.keeps_move held vacant
    refine ⟨⟨stands.sound.move held vacant (stands.enclosed _), keeps.origin.trans stands.origin,
      keeps.stat stands.stated, ?_, stands.admits⟩, changed⟩
    rw [changed]
    exact regular_update (regular_update stands.only (stands.only number inside)) nofun

theorem whole_displace (within : number + 1 ≤ shelf.count)
    (vacant : shelf.slots tree (number + 1) = none) :
    shelf.whole (displace (shelf.path number) (shelf.path (number + 1)) tree) =
      shelf.whole tree := by
  rw [whole, (stands.displace_slot within vacant).2, trail_move vacant within, whole]

theorem pushOn_eq (within : number + 1 ≤ shelf.count) :
    pushOn (shelf.path number) (shelf.path (number + 1)) tree =
      displace (shelf.path number) (shelf.path (number + 1)) tree := by
  have admits := stands.admits number (Nat.le_of_succ_le within)
  have next := stands.admits (number + 1) within
  unfold pushOn
  split
  · rfl
  · rename_i absent
    rcases stands.vacant_or_regular (Nat.le_of_succ_le within) with
      missing | ⟨file, content, held⟩
    · rw [displace, path, path, FileTree.rename_of_missing stands.stated admits next missing]
    · have stated := FileTree.stat_of_regular stands.stated admits held
      exact absurd (by rw [path, FileTree.existsAt, stated]; rfl) absent

/-- A file that is in a slot gets another content. -/
theorem modify_slot (held : shelf.slots tree number = some (.regular file content))
    (change : ByteArray → ByteArray) :
    shelf.Stands (tree.modify file change) ∧ shelf.slots (tree.modify file change) =
      Function.update (shelf.slots tree) number (some (.regular file (change content))) := by
  have changed : shelf.slots (tree.modify file change) =
      Function.update (shelf.slots tree) number (some (.regular file (change content))) := by
    refine slots_eq_update fun location => ?_
    split
    · rename_i same
      rw [same]
      exact FileTree.entry?_modify_of_regular held
    · rename_i apart
      exact stands.sound.entry?_modify_of_ne held apart
  exact ⟨stands.of_update (stands.sound.modify file _) (FileTree.keeps_modify file _) changed
    fun entry same => Option.some.inj same ▸ rfl, changed⟩

end Stands

/-- The current file is open, and the handle appends to it. -/
structure Appends (shelf : Shelf) (tree : FileTree) (handle : Nat) : Prop where
  stands : shelf.Stands tree
  issued : handle < tree.opened
  file : ∃ number content, tree.handles.lookup handle = some ⟨number, none⟩ ∧
    shelf.slots tree 0 = some (.regular number content)

/-- The current file is found, or an empty one is made. -/
theorem Stands.locateFile (stands : shelf.Stands tree) : ∃ made number,
    tree.locateFile (shelf.path 0) = .ok (shelf.place.child (slot 0), made) ∧
      made.opened = tree.opened ∧ shelf.Stands made ∧ shelf.slots made =
        Function.update (shelf.slots tree) 0
          (some (.regular number (contentOf (shelf.slots tree 0)))) := by
  have admits := stands.admits 0 (Nat.zero_le shelf.count)
  rcases stands.vacant_or_regular (Nat.zero_le shelf.count) with vacant | ⟨file, content, held⟩
  · have filled : shelf.slots (tree.insertFile (shelf.place.child (slot 0))) =
        Function.update (shelf.slots tree) 0 (some (.regular tree.files .empty)) :=
      slots_eq_update fun location =>
        FileTree.entry?_insertFile (FileTree.ne_root_of_vacant vacant)
    have stood := stands.of_update (stands.sound.insertFile vacant (stands.enclosed 0))
      (FileTree.keeps_insertFile vacant) filled fun entry same => Option.some.inj same ▸ rfl
    exact ⟨_, tree.files, FileTree.locateFile_of_vacant stands.stated admits vacant, rfl, stood,
      by rw [filled, vacant, contentOf_none]⟩
  · refine ⟨tree, file, FileTree.locateFile_of_regular stands.stated admits held, rfl, stands, ?_⟩
    rw [held, contentOf_regular, ← held, Function.update_eq_self]

/-- Opening takes the current file as it is, or empties it. -/
theorem Stands.openFile_slots (stands : shelf.Stands tree) (mode : FileTree.Mode) :
    ∃ after number, tree.openFile (shelf.path 0) mode = .ok (tree.opened, after) ∧
      after.opened = tree.opened + 1 ∧
      after.handles.lookup tree.opened = some ⟨number, mode.position?⟩ ∧ shelf.Stands after ∧
      shelf.slots after = Function.update (shelf.slots tree) 0 (some (.regular number
        (if mode = .truncate then .empty else contentOf (shelf.slots tree 0)))) := by
  obtain ⟨made, number, located, same, stood, filled⟩ := stands.locateFile
  have held : shelf.slots made 0 = some (.regular number (contentOf (shelf.slots tree 0))) := by
    rw [filled, Function.update_self]
  have opened := FileTree.openFile_of_located located held mode
  rw [same] at opened
  refine ⟨_, number, opened, ?_, ?_, ?_⟩
  · cases mode <;> exact congrArg (· + 1) same
  · rw [FileTree.lookup_hold, if_pos (by cases mode <;> exact same.symm)]
  · cases mode with
    | append =>
        obtain ⟨still, slots⟩ : shelf.Stands (made.hold ⟨number, none⟩) ∧ _ :=
          stood.congr rfl rfl rfl
        exact ⟨still, slots.trans filled⟩
    | truncate =>
        obtain ⟨emptied, cleared⟩ := stood.modify_slot held fun _ => .empty
        obtain ⟨still, slots⟩ : shelf.Stands
            ((made.modify number fun _ => .empty).hold ⟨number, some 0⟩) ∧ _ :=
          emptied.congr rfl rfl rfl
        exact ⟨still, slots.trans (by rw [cleared, filled, Function.update_idem]; rfl)⟩

/-- Opening the current file takes what is there, or makes an empty one. -/
theorem Stands.openFile (stands : shelf.Stands tree) :
    ∃ after, tree.openFile (shelf.path 0) .append = .ok (tree.opened, after) ∧
      shelf.Appends after tree.opened ∧ shelf.whole after = shelf.whole tree := by
  obtain ⟨after, number, opened, issued, held, stood, filled⟩ := stands.openFile_slots .append
  rw [if_neg nofun] at filled
  have current : shelf.slots after 0 = some (.regular number (contentOf (shelf.slots tree 0))) := by
    rw [filled, Function.update_self]
  refine ⟨after, opened, ⟨stood, issued ▸ Nat.lt_succ_self _, number, _, held, current⟩, ?_⟩
  have appended := trail_append (.refl (contentOf (shelf.slots tree 0))) number .empty shelf.count
  rw [ByteArray.append_empty, ByteArray.append_empty] at appended
  rw [whole, filled, appended, whole]

namespace Appends

variable {handle : Nat} (appends : shelf.Appends tree handle)

include appends

theorem close {old : Nat} (apart : handle ≠ old) :
    shelf.Appends (tree.close old) handle ∧
      shelf.whole (tree.close old) = shelf.whole tree := by
  obtain ⟨stands, issued, number, content, known, held⟩ := appends
  have closed : shelf.Stands (tree.close old) ∧ _ := stands.congr rfl rfl rfl
  exact ⟨⟨closed.1, issued, number, content,
    (FileTree.lookup_close tree old handle).trans ((if_neg apart).trans known), closed.2 ▸ held⟩,
    congrArg (trail · shelf.count) closed.2⟩

theorem write (bytes : ByteArray) :
    shelf.Appends (tree.write handle bytes) handle ∧
      shelf.whole (tree.write handle bytes) = shelf.whole tree ++ bytes := by
  obtain ⟨stands, issued, number, content, known, held⟩ := appends
  have written : tree.write handle bytes = tree.modify number (· ++ bytes) := by
    rw [FileTree.write, known]
  obtain ⟨stood, changed⟩ := stands.modify_slot held (· ++ bytes)
  rw [written]
  refine ⟨⟨stood, issued, number, content ++ bytes, known, ?_⟩, ?_⟩
  · rw [changed, Function.update_self]
  · rw [whole, changed, whole, trail_append (by rw [held, contentOf_regular])]

end Appends

/-- The shelf stands once its directory has been made. -/
structure Ready (shelf : Shelf) (tree : FileTree) : Prop where
  made : (tree.makeDirectories shelf.directory).1 = .ok ()
  stands : shelf.Stands (tree.makeDirectories shelf.directory).2

theorem Stands.ready (stands : shelf.Stands tree) : shelf.Ready tree := by
  have there := FileTree.makeDirectories_of_stat stands.stated
  exact ⟨by rw [there], there ▸ stands⟩

/-- Making the directory brings no files. -/
theorem Ready.whole_eq (ready : shelf.Ready tree) :
    shelf.whole (tree.makeDirectories shelf.directory).2 = shelf.whole tree := by
  have grows := FileTree.grows_makeDirectories tree shelf.directory
  refine trail_congr fun number within => congrArg contentOf ?_
  rcases ready.stands.vacant_or_regular within with vacant | ⟨file, content, held⟩
  · cases before : shelf.slots tree number with
    | none => exact vacant
    | some entry =>
        have kept := grows.kept _ _ before
        rw [slots] at vacant
        rw [vacant] at kept
        cases kept
  · rcases grows.added _ _ held with before | made
    · exact held.trans before.symm
    · cases made

end Shelf

end MarkerBus.Log
