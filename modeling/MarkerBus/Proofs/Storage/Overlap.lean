import MarkerBus.Proofs.Storage.Chronicle

namespace MarkerBus.Storage.Memory

variable {memory : Memory} {directory name outer path : String} {request : Request}

/-- An entry of a directory has the path of a directory that has been made. -/
def Overlaps (memory : Memory) (directory name : String) : Prop :=
  name ∈ memory.namesAt directory ∧ memory.Known (Path.trim (Path.join directory name))

/-- A call, and the memory that it is made on. -/
structure Turn where
  request : Request
  memory : Memory

/-- All calls, latest first. -/
def turns : List Request → List Turn
  | [] => []
  | request :: earlier => ⟨request, following earlier⟩ :: turns earlier

namespace Turn

/-- The calls that make an entry overlap with a directory. -/
inductive Merges (directory name : String) : Turn → Prop where
  /-- The path of the entry is made the directory of another entry. -/
  | nested {memory : Memory} {path : String} (held : name ∈ memory.namesAt directory)
      (around : (place path).1 = Path.join directory name)
      (created : (memory.create path).1 = .ok .created) :
      Merges directory name ⟨.create path, memory⟩
  | reset {memory : Memory} {path : String} (held : name ∈ memory.namesAt directory)
      (same : Path.trim path = Path.join directory name) :
      Merges directory name ⟨.reset path, memory⟩
  /-- The entry is created where a directory is, by a path that is not spelt as that of the
  directory. -/
  | respelt {memory : Memory} {path : String} (known : memory.Known (Path.join directory name))
      (placed : place path = (directory, name)) (other : Path.trim path ≠ Path.join directory name)
      (created : (memory.create path).1 = .ok .created) :
      Merges directory name ⟨.create path, memory⟩

/-- The entry is removed, or a directory around it is reset. -/
def Clears (directory name : String) (turn : Turn) : Prop :=
  (deed turn.request turn.memory).Clears directory name

end Turn

/-- A creation neither clears an entry nor resets a directory. -/
theorem not_clears_create : ¬ (deed (.create path) memory).Clears directory name :=
  id

theorem not_resets_create : ¬ (deed (.create path) memory).Resets directory :=
  id

theorem encloses_of_stem (nonempty : directory ≠ "")
    (begun : Path.stem outer <+: Path.stem directory) : Encloses outer directory := by
  by_cases root : directory = "/"
  · subst root
    exact .inr begun
  · rw [Path.stem, Path.stem, if_neg root] at begun
    obtain same | before := List.prefix_concat_iff.mp begun
    · split at same
      · have empty : directory.toList = [] := List.append_cancel_right same.symm
        exact absurd (String.toList_eq_nil_iff.mp empty) nonempty
      · exact .inl (String.toList_inj.mp (List.append_cancel_right same)).symm
    · exact .inr before

/-- A directory that encloses the path of an entry is that path, or encloses the
directory of the entry. -/
theorem encloses_of_encloses_join (nonempty : directory ≠ "")
    (trimmed : Path.trim directory = directory) (free : '/' ∉ name.toList)
    (encloses : Encloses outer (Path.join directory name)) :
    outer = Path.join directory name ∨ Encloses outer directory := by
  obtain same | begun := encloses
  · exact .inl same.symm
  · rw [Path.toList_join_of_trim nonempty trimmed] at begun
    obtain ⟨front, slash⟩ := Path.exists_stem_eq outer
    rw [slash] at begun
    have before := Path.prefix_of_slash free begun
    rw [← slash] at before
    exact .inr (encloses_of_stem nonempty before)

/-- The path of an entry does not enclose its directory. -/
theorem not_join_encloses (nonempty : directory ≠ "") (trimmed : Path.trim directory = directory)
    (plain : Path.Plain name) : ¬ Encloses (Path.join directory name) directory := by
  have apart := Path.join_ne nonempty plain
  rintro (same | begun)
  · exact apart same.symm
  · have inner := (Path.toList_prefix_stem _).trans begun
    have outer := Path.stem_prefix_join nonempty name
    rw [trimmed] at outer
    have shorter := ((Path.toList_prefix_stem directory).trans outer).length_le
    exact apart (String.toList_inj.mp (inner.eq_of_length_le shorter))

theorem Sound.overlaps_iff (sound : memory.Sound) : memory.Overlaps directory name ↔
    name ∈ memory.namesAt directory ∧ memory.Known (Path.join directory name) := by
  refine and_congr_right fun held => ?_
  rw [Path.trim_join (sound.nonempty held) (sound.plain held)]

theorem overlaps_create_iff (sound : memory.Sound) :
    (serve (.create path) memory).storage.Overlaps directory name ↔
      Turn.Merges directory name ⟨.create path, memory⟩ ∨ memory.Overlaps directory name := by
  rw [(sound.serve _).overlaps_iff, sound.overlaps_iff, mem_namesAt_serve sound.wellFormed,
    known_serve, creates_create_iff, makes_create_iff]
  constructor
  · rintro ⟨⟨created, placed⟩ | ⟨held, _⟩, ⟨made, around⟩ | ⟨known, _⟩⟩
    · obtain ⟨plain, nonempty⟩ := plain_of_creates (creates_create_iff.mpr ⟨created, placed⟩)
      rw [placed] at around
      exact absurd around.symm (Path.join_ne nonempty plain)
    · -- A creation with the spelling of the directory would have been refused.
      have other : Path.trim path ≠ Path.join directory name := by
        intro same
        rw [← same] at known
        exact not_known_of_created (Prod.ext created rfl) known
      exact .inl (.respelt known placed other created)
    · exact .inl (.nested held around made)
    · exact .inr ⟨held, known⟩
  · rintro (merges | ⟨held, known⟩)
    · cases merges with
      | nested held around created =>
          exact ⟨.inr ⟨held, not_clears_create⟩, .inl ⟨created, around⟩⟩
      | respelt known placed _ created =>
          exact ⟨.inl ⟨created, placed⟩, .inr ⟨known, not_resets_create⟩⟩
    · exact ⟨.inr ⟨held, not_clears_create⟩, .inr ⟨known, not_resets_create⟩⟩

theorem overlaps_reset_iff (sound : memory.Sound) :
    (serve (.reset path) memory).storage.Overlaps directory name ↔
      Turn.Merges directory name ⟨.reset path, memory⟩ ∨
        memory.Overlaps directory name ∧ ¬ Encloses (Path.trim path) directory := by
  have held_iff : name ∈ (serve (.reset path) memory).storage.namesAt directory ↔
      False ∨ name ∈ memory.namesAt directory ∧ ¬ Encloses (Path.trim path) directory :=
    mem_namesAt_serve sound.wellFormed (.reset path)
  have known_iff : (serve (.reset path) memory).storage.Known (Path.join directory name) ↔
      Path.trim path = Path.join directory name ∨ memory.Known (Path.join directory name) ∧
        ¬ Encloses (Path.trim path) (Path.join directory name) :=
    known_serve (.reset path)
  rw [(sound.serve _).overlaps_iff, sound.overlaps_iff, held_iff, known_iff, false_or]
  constructor
  · rintro ⟨⟨held, kept⟩, same | ⟨known, _⟩⟩
    · exact .inl (.reset held same)
    · exact .inr ⟨⟨held, known⟩, kept⟩
  · rintro (merges | ⟨⟨held, known⟩, kept⟩)
    · cases merges with
      | reset held same =>
          have trimmed := sound.trimmed (.of_mem held)
          have kept := not_join_encloses (sound.nonempty held) trimmed (sound.plain held)
          rw [← same] at kept
          exact ⟨⟨held, kept⟩, .inl same⟩
    · refine ⟨⟨held, kept⟩, or_iff_not_imp_left.mpr fun other => ⟨known, fun encloses => ?_⟩⟩
      have outer := encloses_of_encloses_join (sound.nonempty held) (sound.trimmed (.of_mem held))
        (sound.plain held).2 encloses
      exact outer.elim other kept

theorem overlaps_remove_iff (sound : memory.Sound) :
    (serve (.remove path) memory).storage.Overlaps directory name ↔
      memory.Overlaps directory name ∧
        ¬ (deed (.remove path) memory).Clears directory name := by
  have held_iff : name ∈ (serve (.remove path) memory).storage.namesAt directory ↔
      False ∨ name ∈ memory.namesAt directory ∧
        ¬ (deed (.remove path) memory).Clears directory name :=
    mem_namesAt_serve sound.wellFormed (.remove path)
  rw [Overlaps, held_iff, false_or, serve_remove, known_remove, Overlaps, and_right_comm]

/-- One call: either it merges the entry with a directory, or the two have overlapped
before, and it does not clear the entry. -/
theorem overlaps_serve (sound : memory.Sound) (request : Request) :
    (serve request memory).storage.Overlaps directory name ↔
      Turn.Merges directory name ⟨request, memory⟩ ∨
        memory.Overlaps directory name ∧ ¬ Turn.Clears directory name ⟨request, memory⟩ := by
  cases request with
  | create path =>
      exact (overlaps_create_iff sound).trans
        (or_congr_right (and_iff_left not_clears_create).symm)
  | reset path => exact overlaps_reset_iff sound
  | remove path => exact (overlaps_remove_iff sound).trans (or_iff_right nofun).symm
  | list path | probe path =>
      exact ⟨fun overlaps => .inr ⟨overlaps, id⟩, fun either => either.elim nofun And.left⟩

theorem overlaps_following (requests : List Request) :
    (following requests).Overlaps directory name ↔
      Since (Turn.Merges directory name) (Turn.Clears directory name) (turns requests) := by
  induction requests with
  | nil =>
      exact ⟨fun overlaps => absurd overlaps.2 not_known_empty, fun since => absurd since not_since_nil⟩
  | cons request earlier ih =>
      rw [following, overlaps_serve (sound_following earlier), ih]
      exact since_cons.symm

/-- After any calls, every directory is known by a trimmed path, and every entry has a
plain name.  An entry has the path of a directory just if some call has merged the two,
and no call since then has removed the entry or reset a directory around it. -/
theorem overlaps_iff_merged (requests : List Request) :
    let memory := following requests
    (∀ directory, memory.Known directory → Path.trim directory = directory) ∧
    (∀ directory name, name ∈ memory.namesAt directory → name ≠ "" ∧ '/' ∉ name.toList) ∧
    ∀ directory name,
      name ∈ memory.namesAt directory ∧ memory.Known (Path.trim (Path.join directory name)) ↔
        Since (Turn.Merges directory name) (Turn.Clears directory name) (turns requests) :=
  ⟨fun _ => (sound_following requests).trimmed, fun _ _ => (sound_following requests).plain,
    fun _ _ => overlaps_following requests⟩

/-- Each kind of call merges the two: an entry is reset as a directory, it is made the
directory of another entry, or it is created by a path with a doubled slash. -/
theorem each_kind_of_call_merges :
    (following [.reset "t/a", .create "t/a"]).Overlaps "t" "a" ∧
      (following [.create "t/a/b", .create "t/a"]).Overlaps "t" "a" ∧
      (following [.create "t//a", .reset "t/a"]).Overlaps "t" "a" := by
  have overlaps {request : Request} {earlier : List Request}
      (merges : Turn.Merges "t" "a" ⟨request, following earlier⟩) :
      (following (request :: earlier)).Overlaps "t" "a" :=
    ((overlaps_iff_merged _).2.2 "t" "a").mpr ⟨[], _, turns earlier, rfl, merges, nofun⟩
  have known : ((following [.reset "t/a"]).directories.lookup (Path.join "t" "a")).isSome = true := by
    decide +kernel
  refine ⟨overlaps (.reset ?_ ?_), overlaps (.nested ?_ ?_ ?_), overlaps (.respelt known ?_ ?_ ?_)⟩
  all_goals decide +kernel

end MarkerBus.Storage.Memory
