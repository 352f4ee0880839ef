import Mathlib.Data.Finset.Card
import MarkerBus.Proofs.Storage.Memory

namespace MarkerBus.Storage.Memory

/-! What a memory holds, read off what was done with it.

The past of a memory is its calls and their results, latest first.  An entry stands
if a call has created it and no call since then has removed it or reset a directory
around it.  The memory keeps exactly the entries that stand, so whatever it answers
can be told from its past.
-/

variable {memory : Memory} {directory name path : String} {request : Request}

section Since

variable {α : Type} {begins ends : α → Prop} {step : α} {past : List α}

/-- It has begun at some time, and has not ended since then.  The past is given latest first. -/
def Since (begins ends : α → Prop) (past : List α) : Prop :=
  ∃ later step earlier, past = later ++ step :: earlier ∧ begins step ∧
    ∀ other ∈ later, ¬ ends other

theorem not_since_nil : ¬ Since begins ends [] := by
  rintro ⟨later, step, earlier, same, _⟩
  exact List.cons_ne_nil _ _ (List.append_eq_nil_iff.mp same.symm).2

theorem since_cons : Since begins ends (step :: past) ↔
    begins step ∨ Since begins ends past ∧ ¬ ends step := by
  constructor
  · rintro ⟨_ | ⟨latest, later⟩, first, earlier, same, begun, lasts⟩
    · obtain ⟨rfl, rfl⟩ := List.cons.inj same
      exact .inl begun
    · obtain ⟨rfl, rfl⟩ := List.cons.inj same
      rw [List.forall_mem_cons] at lasts
      exact .inr ⟨⟨later, first, earlier, rfl, begun, lasts.2⟩, lasts.1⟩
  · rintro (begun | ⟨⟨later, first, earlier, rfl, begun, lasts⟩, goes⟩)
    · exact ⟨[], step, past, rfl, begun, nofun⟩
    · exact ⟨step :: later, first, earlier, rfl, begun, List.forall_mem_cons.mpr ⟨goes, lasts⟩⟩

end Since

/-- A call and its result. -/
structure Deed where
  request : Request
  result : Except Failure request.Answer

def deed (request : Request) (memory : Memory) : Deed :=
  ⟨request, (serve request memory).result⟩

/-- The memory after some calls, which are given latest first. -/
def following : List Request → Memory
  | [] => {}
  | request :: earlier => (serve request (following earlier)).storage

def history : List Request → List Deed
  | [] => []
  | request :: earlier => deed request (following earlier) :: history earlier

/-- The directory is the outer one, or its path goes on behind the slash of the outer one. -/
def Encloses (outer directory : String) : Prop :=
  directory = outer ∨ Path.stem outer <+: directory.toList

namespace Deed

def Creates (directory name : String) : Deed → Prop
  | ⟨.create path, .ok .created⟩ => place path = (directory, name)
  | _ => False

/-- The entry is removed, or a directory around it is reset. -/
def Clears (directory name : String) : Deed → Prop
  | ⟨.remove path, .ok .removed⟩ => place path = (directory, name)
  | ⟨.reset path, .ok ()⟩ => Encloses (Path.trim path) directory
  | _ => False

/-- A directory is made for an entry, or it is reset. -/
def Makes (directory : String) : Deed → Prop
  | ⟨.create path, .ok .created⟩ => (place path).1 = directory
  | ⟨.reset path, .ok ()⟩ => Path.trim path = directory
  | _ => False

def Resets (directory : String) : Deed → Prop
  | ⟨.reset path, .ok ()⟩ => Encloses (Path.trim path) directory
  | _ => False

end Deed

/-- The entry has been created, and is still there. -/
def Standing (past : List Deed) (directory name : String) : Prop :=
  Since (Deed.Creates directory name) (Deed.Clears directory name) past

/-- There is a directory with this trimmed path.  One that is reset is made again. -/
def Made (past : List Deed) (directory : String) : Prop :=
  Since (Deed.Makes directory) (Deed.Resets directory) past

theorem remove_fst : (memory.remove path).1 =
    if (place path).2 ∈ memory.namesAt (place path).1 then .removed else .absent := by
  rcases placed : place path with ⟨directory, name⟩
  simp only [remove, placed]
  split <;> rfl

theorem create_fst : (memory.create path).1 =
    if (place path).2 = "" then .error (.reported ⟨.createFile, path, .invalidArgument⟩)
    else if memory.isDirectory path then .error (.reported ⟨.createFile, path, .isDirectory⟩)
    else if (place path).2 ∈ memory.namesAt (place path).1 then .ok .present
    else .ok .created := by
  rcases placed : place path with ⟨directory, name⟩
  simp only [create, placed]
  split
  · rfl
  · split
    · rfl
    · split <;> rfl

theorem within_iff_encloses {outer : String} :
    within outer directory = true ↔ Encloses outer directory :=
  within_iff

theorem mem_namesAt_serve (wellFormed : memory.WellFormed) (request : Request) :
    name ∈ (serve request memory).storage.namesAt directory ↔
      (deed request memory).Creates directory name ∨
        name ∈ memory.namesAt directory ∧ ¬ (deed request memory).Clears directory name := by
  cases request with
  | create path =>
      rw [deed, serve_create]
      rcases served : memory.create path with ⟨result, after⟩
      rcases create_cases served with ⟨_, rfl, rfl⟩ | ⟨rfl, rfl, _⟩ | ⟨rfl, _⟩
      · simp [Deed.Creates, Deed.Clears]
      · simp [Deed.Creates, Deed.Clears]
      · simp [Deed.Creates, Deed.Clears, mem_namesAt_create served, eq_comm]
  | remove path =>
      rw [deed, serve_remove, remove_fst]
      dsimp only
      rw [mem_namesAt_remove wellFormed]
      by_cases held : (place path).2 ∈ memory.namesAt (place path).1
      · simp [held, Deed.Creates, Deed.Clears, eq_comm]
      · have apart (member : name ∈ memory.namesAt directory) : (directory, name) ≠ place path := by
          rintro same
          rw [← same] at held
          exact held member
        simpa [held, Deed.Creates, Deed.Clears] using apart
  | reset path =>
      have reset : (serve (.reset path) memory).storage.namesAt directory = _ := namesAt_reset
      rw [reset]
      by_cases inside : Encloses (Path.trim path) directory
      · simp [deed, serve, Deed.Creates, Deed.Clears, within_iff_encloses.mpr inside, inside]
      · simp [deed, serve, Deed.Creates, Deed.Clears, mt within_iff_encloses.mp inside, inside]
  | list path => simp [deed, serve, Deed.Creates, Deed.Clears]
  | probe path => simp [deed, serve, Deed.Creates, Deed.Clears]

theorem known_serve (request : Request) :
    (serve request memory).storage.Known directory ↔
      (deed request memory).Makes directory ∨
        memory.Known directory ∧ ¬ (deed request memory).Resets directory := by
  cases request with
  | create path =>
      rw [deed, serve_create]
      rcases served : memory.create path with ⟨result, after⟩
      rcases create_cases served with ⟨_, rfl, rfl⟩ | ⟨rfl, rfl, _⟩ | ⟨rfl, _⟩
      · simp [Deed.Makes, Deed.Resets]
      · simp [Deed.Makes, Deed.Resets]
      · simp [Deed.Makes, Deed.Resets, known_create served, eq_comm]
  | remove path =>
      rw [deed, serve_remove]
      dsimp only
      rw [known_remove]
      simp [Deed.Makes, Deed.Resets]
  | reset path =>
      have reset : (serve (.reset path) memory).storage.Known directory ↔ _ := known_reset
      rw [reset, ← Bool.not_eq_true, within_iff_encloses]
      simp [deed, serve, Deed.Makes, Deed.Resets, eq_comm]
  | list path => simp [deed, serve, Deed.Makes, Deed.Resets]
  | probe path => simp [deed, serve, Deed.Makes, Deed.Resets]

theorem creates_create_iff : (deed (.create path) memory).Creates directory name ↔
    (memory.create path).1 = .ok .created ∧ place path = (directory, name) := by
  rcases result : (memory.create path).1 with failure | creation
  · simp [deed, serve_create, Deed.Creates, result]
  · cases creation <;> simp [deed, serve_create, Deed.Creates, result]

theorem makes_create_iff : (deed (.create path) memory).Makes directory ↔
    (memory.create path).1 = .ok .created ∧ (place path).1 = directory := by
  rcases result : (memory.create path).1 with failure | creation
  · simp [deed, serve_create, Deed.Makes, result]
  · cases creation <;> simp [deed, serve_create, Deed.Makes, result]

theorem trim_of_makes (makes : (deed request memory).Makes directory) :
    Path.trim directory = directory := by
  cases request with
  | create path =>
      obtain ⟨_, rfl⟩ := makes_create_iff.mp makes
      rw [place_eq, Path.trim_trim]
  | reset path =>
      have same : Path.trim path = directory := makes
      rw [← same, Path.trim_trim]
  | list path | remove path | probe path => exact makes.elim

theorem plain_of_creates (creates : (deed request memory).Creates directory name) :
    Path.Plain name ∧ directory ≠ "" := by
  cases request with
  | create path =>
      obtain ⟨created, placed⟩ := creates_create_iff.mp creates
      have named : (place path).2 ≠ "" := by
        intro empty
        rw [create_fst, if_pos empty] at created
        cases created
      rw [place_eq] at named
      rw [place_eq, Prod.mk.injEq] at placed
      obtain ⟨rfl, rfl⟩ := placed
      exact ⟨⟨named, Path.slash_notMem_split_snd path⟩,
        Path.trim_ne_empty (Path.split_fst_ne_empty path)⟩
  | list path | remove path | probe path | reset path => exact creates.elim

/-- The directories as they are kept. -/
def keys (memory : Memory) : List String :=
  memory.directories.map Prod.fst

theorem keys_update (change : List String → List String) (entries : List (String × List String)) :
    (update directory change entries).map Prod.fst =
      if directory ∈ entries.map Prod.fst then entries.map Prod.fst
      else entries.map Prod.fst ++ [directory] := by
  induction entries with
  | nil => rfl
  | cons entry rest ih =>
      obtain ⟨known, names⟩ := entry
      unfold update
      by_cases here : known = directory
      · simp [here]
      · rw [if_neg here, List.map_cons, ih]
        split <;> simp_all [eq_comm]

theorem nodup_keys_update (keyed : memory.keys.Nodup) (change : List String → List String) :
    (keys ⟨update directory change memory.directories⟩).Nodup := by
  unfold keys
  rw [keys_update]
  split
  · exact keyed
  · rename_i fresh
    exact (List.nodup_append_comm).mp (List.nodup_cons.mpr ⟨fresh, keyed⟩)

theorem nodup_keys_serve (keyed : memory.keys.Nodup) (request : Request) :
    (serve request memory).storage.keys.Nodup := by
  cases request with
  | create path =>
      rw [serve_create]
      rcases served : memory.create path with ⟨result, after⟩
      rcases create_cases served with ⟨_, _, rfl⟩ | ⟨_, rfl, _⟩ | ⟨_, _, rfl⟩
      · exact keyed
      · exact keyed
      · exact nodup_keys_update keyed _
  | remove path =>
      rw [serve_remove]
      dsimp only
      rw [remove_eq]
      split
      · exact nodup_keys_update keyed _
      · exact keyed
  | reset path =>
      refine List.nodup_cons.mpr ⟨?_, keyed.sublist (List.filter_sublist.map _)⟩
      intro member
      obtain ⟨known, kept, same⟩ := List.mem_map.mp member
      have outside := (List.mem_filter.mp kept).2
      rw [same, within_self] at outside
      cases outside
  | list path => exact keyed
  | probe path => exact keyed

/-- What every memory keeps to: each directory is known once, by its trimmed path, and holds
plain names, each once and in ascending order. -/
structure Sound (memory : Memory) : Prop where
  wellFormed : memory.WellFormed
  keyed : memory.keys.Nodup
  trimmed : ∀ {directory}, memory.Known directory → Path.trim directory = directory
  plain : ∀ {directory name}, name ∈ memory.namesAt directory → Path.Plain name
  nonempty : ∀ {directory name}, name ∈ memory.namesAt directory → directory ≠ ""

theorem sound_empty : ({} : Memory).Sound :=
  ⟨wellFormed_empty, List.nodup_nil, fun known => absurd known not_known_empty, nofun, nofun⟩

theorem Sound.serve (sound : memory.Sound) (request : Request) :
    (Memory.serve request memory).storage.Sound where
  wellFormed := sound.wellFormed.serve request
  keyed := nodup_keys_serve sound.keyed request
  trimmed known :=
    ((known_serve request).mp known).elim trim_of_makes fun before => sound.trimmed before.1
  plain member := ((mem_namesAt_serve sound.wellFormed request).mp member).elim
    (fun creates => (plain_of_creates creates).1) fun before => sound.plain before.1
  nonempty member := ((mem_namesAt_serve sound.wellFormed request).mp member).elim
    (fun creates => (plain_of_creates creates).2) fun before => sound.nonempty before.1

theorem sound_following (requests : List Request) : (following requests).Sound := by
  induction requests with
  | nil => exact sound_empty
  | cons request earlier ih => exact ih.serve request

theorem mem_namesAt_following (requests : List Request) :
    name ∈ (following requests).namesAt directory ↔
      Standing (history requests) directory name := by
  induction requests with
  | nil => exact ⟨nofun, fun standing => absurd standing not_since_nil⟩
  | cons request earlier ih =>
      rw [following, mem_namesAt_serve (sound_following earlier).wellFormed, ih]
      exact since_cons.symm

theorem known_following (requests : List Request) :
    (following requests).Known directory ↔ Made (history requests) directory := by
  induction requests with
  | nil => exact ⟨nofun, fun made => absurd made not_since_nil⟩
  | cons request earlier ih =>
      rw [following, known_serve, ih]
      exact since_cons.symm

/-- All entries, directory by directory. -/
def entries (memory : Memory) : List (String × String) :=
  memory.directories.flatMap fun known => known.2.map (known.1, ·)

theorem size_eq_length_entries (memory : Memory) : memory.size = memory.entries.length := by
  have counted (directories : List (String × List String)) (total : Nat) :
      directories.foldl (fun total known => total + known.2.length) total =
        total + (directories.flatMap fun known => known.2.map (known.1, ·)).length := by
    induction directories generalizing total with
    | nil => rfl
    | cons known rest ih => rw [List.foldl_cons, ih]; simp; omega
  rw [size, counted, Nat.zero_add, entries]

theorem Sound.mem_iff (sound : memory.Sound) {names : List String} :
    (directory, names) ∈ memory.directories ↔ memory.directories.lookup directory = some names := by
  constructor
  · intro member
    obtain ⟨front, back, spelt⟩ := List.append_of_mem member
    refine List.lookup_eq_some_iff.mpr ⟨front, back, spelt, fun other before => ?_⟩
    have keyed := sound.keyed
    rw [keys, spelt, List.map_append, List.map_cons] at keyed
    have apart := (List.nodup_append.mp keyed).2.2 other.1 (List.mem_map_of_mem before) directory
      List.mem_cons_self
    simpa using apart.symm
  · intro found
    obtain ⟨front, back, spelt, _⟩ := List.lookup_eq_some_iff.mp found
    rw [spelt]
    exact List.mem_append_right _ List.mem_cons_self

theorem Sound.mem_entries_iff (sound : memory.Sound) :
    (directory, name) ∈ memory.entries ↔ name ∈ memory.namesAt directory := by
  simp only [entries, List.mem_flatMap, List.mem_map, Prod.mk.injEq]
  constructor
  · rintro ⟨⟨_, names⟩, known, _, member, rfl, rfl⟩
    rw [namesAt, sound.mem_iff.mp known]
    exact member
  · intro member
    obtain ⟨names, found⟩ := Option.isSome_iff_exists.mp (Known.of_mem member)
    rw [namesAt, found] at member
    exact ⟨(directory, names), sound.mem_iff.mpr found, name, member, rfl, rfl⟩

theorem Sound.nodup_entries (sound : memory.Sound) :
    memory.entries.Nodup := by
  refine List.nodup_flatMap.mpr ⟨?_, ?_⟩
  · rintro ⟨directory, names⟩ known
    have ascending := sound.wellFormed directory
    rw [namesAt, sound.mem_iff.mp known] at ascending
    exact (ascending.imp ne_of_lt).map _ fun _ _ => by simp
  · refine (List.pairwise_map.mp sound.keyed).imp fun apart => ?_
    rintro ⟨directory, name⟩ first second
    obtain ⟨_, _, same⟩ := List.mem_map.mp first
    obtain ⟨_, _, other⟩ := List.mem_map.mp second
    exact apart ((congrArg Prod.fst same).trans (congrArg Prod.fst other).symm)

/-- No entry can be made at this path: it has no name, or is the path of a directory. -/
def Barred (past : List Deed) (path : String) : Prop :=
  (place path).2 = "" ∨ Made past (Path.trim path)

theorem create_error_iff (requests : List Request) (path : String) :
    (∃ failure, ((following requests).create path).1 = .error failure) ↔
      Barred (history requests) path := by
  rw [create_fst, Barred, ← known_following, ← isDirectory_iff]
  split
  · simp [*]
  · split
    · simp [*]
    · split <;> simp [*]

theorem create_present_iff (requests : List Request) (path : String) :
    ((following requests).create path).1 = .ok .present ↔ ¬ Barred (history requests) path ∧
      Standing (history requests) (place path).1 (place path).2 := by
  rw [create_fst, Barred, ← known_following, ← isDirectory_iff, ← mem_namesAt_following]
  split
  · simp [*]
  · split
    · simp [*]
    · split <;> simp [*]

theorem remove_removed_iff (requests : List Request) (path : String) :
    ((following requests).remove path).1 = .removed ↔
      Standing (history requests) (place path).1 (place path).2 := by
  rw [remove_fst, ← mem_namesAt_following]
  split <;> simp [*]

theorem created_or_kept (memory : Memory) (path : String) :
    (memory.create path).1 = .ok .created ∨ (memory.create path).2 = memory := by
  rcases served : memory.create path with ⟨result, after⟩
  rcases create_cases served with ⟨_, _, same⟩ | ⟨_, same, _⟩ | ⟨created, _⟩
  · exact .inr same
  · exact .inr same
  · exact .inl created

/-- After any calls, the names of a directory, in ascending order, are those of the
entries that stand in it.  A creation finds just these entries, a removal removes just
these, and the size is their number.  A creation that makes nothing new, or fails,
changes nothing.  A reset always succeeds. -/
theorem memory_holds_what_stands (requests : List Request) :
    let memory := following requests
    let past := history requests
    (∀ path, ∃ names, (serve (.list path) memory).result = .ok names ∧ names.Pairwise (· < ·) ∧
      ∀ name, name ∈ names ↔ Standing past (Path.trim path) name) ∧
    (∀ path,
      let reply := serve (.create path) memory
      ((∃ failure, reply.result = .error failure) ↔ Barred past path) ∧
        (reply.result = .ok .present ↔
          ¬ Barred past path ∧ Standing past (place path).1 (place path).2) ∧
        (reply.result = .ok .created ∨ reply.storage = memory)) ∧
    (∀ path, ∃ removal, (serve (.remove path) memory).result = .ok removal ∧
      (removal = .removed ↔ Standing past (place path).1 (place path).2)) ∧
    (∀ path, (serve (.reset path) memory).result = .ok ()) ∧
    ∃ entries : Finset (String × String),
      (∀ directory name, (directory, name) ∈ entries ↔ Standing past directory name) ∧
      memory.size = entries.card := by
  intro memory past
  have sound : memory.Sound := sound_following requests
  refine ⟨fun path => ?_, fun path => ?_, fun path => ?_, fun path => rfl,
    memory.entries.toFinset, ?_, ?_⟩
  · exact ⟨_, rfl, sound.wellFormed _, fun name => mem_namesAt_following requests⟩
  · exact ⟨create_error_iff requests path, create_present_iff requests path,
      created_or_kept memory path⟩
  · exact ⟨_, rfl, remove_removed_iff requests path⟩
  · intro directory name
    rw [List.mem_toFinset, sound.mem_entries_iff]
    exact mem_namesAt_following requests
  · rw [List.toFinset_card_of_nodup sound.nodup_entries]
    exact size_eq_length_entries memory

/-- A directory whose path only begins with the same letters is left alone. -/
example : (following [.reset "/b/a", .create "/b/a_x/n", .create "/b/a//s/n"]).directories =
    [("/b/a", []), ("/b/a_x", ["n"])] := by
  decide +kernel

end MarkerBus.Storage.Memory
