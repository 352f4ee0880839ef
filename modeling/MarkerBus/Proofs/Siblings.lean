import MarkerBus.Proofs.Footprint

namespace MarkerBus

open Storage MarkerDirectory

namespace Bus.Config

variable {own other config : Config} {message : Message}

/-- The path up to the unique id. -/
def front (config : Config) : List Char :=
  ({ config with uniqueId := "" } : Config).path.toList

def suffix (config : Config) : List Char :=
  if config.uniqueId = "" then [] else '_' :: config.uniqueId.toList

/-- Do the buses of a configuration touch what those of another one, of the same
base and directory, look at? -/
def Disturbs (other own : Config) : Prop :=
  own.directory.toList.getLast? = some '/' ∧
    (other.uniqueId = "" ∨
      own.uniqueId = "" ∧ (Marker.decode ("_" ++ other.uniqueId)).isSome = true)

instance (other own : Config) : Decidable (other.Disturbs own) :=
  inferInstanceAs (Decidable (_ ∧ _))

/-- Two writers for one base and directory. -/
structure Siblings (own other : Config) : Prop where
  valid : own.Valid
  otherValid : other.Valid
  base : other.base = own.base
  directory : other.directory = own.directory
  distinct : other.uniqueId ≠ own.uniqueId

theorem toList_path (config : Config) : config.path.toList = config.front ++ config.suffix := by
  by_cases plain : config.uniqueId = "" <;> simp [front, suffix, path, plain, String.toList_append]

theorem suffix_eq_nil : config.suffix = [] ↔ config.uniqueId = "" := by
  simp [suffix]

theorem suffix_injective (same : own.suffix = other.suffix) : own.uniqueId = other.uniqueId := by
  unfold suffix at same
  split at same <;> split at same <;> simp_all [String.toList_inj]

theorem slash_notMem_suffix (valid : config.Valid) : '/' ∉ config.suffix := by
  have free := valid.2.2.2
  unfold suffix
  split <;> simp [free]

theorem getLast?_front (valid : config.Valid) :
    config.front.getLast? = config.directory.toList.getLast? := by
  have inhabited : config.directory.toList ≠ [] :=
    fun empty => valid.2.1 (String.toList_eq_nil_iff.mp empty)
  simp [front, path, String.toList_append, List.getLast?_append_of_ne_nil _ inhabited]

theorem slash_mem_front (valid : config.Valid) : '/' ∈ config.front := by
  have inhabited := valid.1
  simp only [front, path, String.toList_append, List.mem_append]
  refine .inl (.inl ?_)
  split
  · rename_i ended
    exact List.mem_of_getLast? (ended.resolve_left inhabited)
  · simp [String.toList_append]

theorem getLast?_path (valid : config.Valid) : config.path.toList.getLast? = some '/' ↔
    config.uniqueId = "" ∧ config.directory.toList.getLast? = some '/' := by
  rw [toList_path, ← getLast?_front valid, ← suffix_eq_nil]
  by_cases plain : config.suffix = []
  · simp [plain]
  · rw [List.getLast?_append_of_ne_nil _ plain]
    constructor
    · intro ended
      exact absurd (List.mem_of_getLast? ended) (slash_notMem_suffix valid)
    · intro given
      exact absurd given.1 plain

namespace Siblings

variable (siblings : Siblings own other)

include siblings

theorem front_eq : other.front = own.front := by
  simp [front, path, siblings.base, siblings.directory]

theorem suffix_ne : other.suffix ≠ own.suffix :=
  fun same => siblings.distinct (suffix_injective same)

theorem trim_path_of_slash (ends : other.path.toList.getLast? = some '/') :
    Path.trim own.path = own.path := by
  apply Path.trim_eq_self
  intro ownEnds
  have given := (getLast?_path siblings.valid).mp ownEnds
  have plain := ((getLast?_path siblings.otherValid).mp ends).1
  exact siblings.distinct (plain.trans given.1.symm)

theorem within_of_slash (ends : other.path.toList.getLast? = some '/') :
    Memory.within (Path.trim other.path) (Path.trim own.path) = true := by
  have plain := suffix_eq_nil.mpr ((getLast?_path siblings.otherValid).mp ends).1
  have inside : other.path.toList <+: own.path.toList := by
    rw [toList_path other, toList_path own, plain, siblings.front_eq, List.append_nil]
    exact List.prefix_append _ _
  rw [siblings.trim_path_of_slash ends]
  exact Memory.within_iff.mpr (.inr ((Path.stem_trim_prefix_of_slash ends).trans inside))

theorem within_file_of_slash (ends : other.path.toList.getLast? = some '/') :
    Memory.within (Path.trim other.path) (file own.path message) = true :=
  Memory.within_of_stem (siblings.within_of_slash ends)
    (Path.stem_prefix_join siblings.valid.path_ne_empty _)

theorem not_within_of_not_slash (ends : other.path.toList.getLast? ≠ some '/')
    (ownEnds : own.path.toList.getLast? ≠ some '/') :
    Memory.within (Path.trim other.path) (file own.path message) = false := by
  have ownFree := slash_notMem_suffix siblings.valid
  have otherFree := slash_notMem_suffix siblings.otherValid
  have list : (file own.path message).toList =
      own.front ++ (own.suffix ++ '/' :: (Marker.name message).toList) := by
    rw [file, Path.toList_join_of_getLast? siblings.valid.path_ne_empty ownEnds, toList_path,
      List.append_assoc]
  rw [← Bool.not_eq_true, Path.trim_eq_self ends, Memory.within_iff, Path.stem_of_getLast? ends,
    ← String.toList_inj, list, toList_path, siblings.front_eq, List.append_cancel_left_eq,
    List.append_assoc, List.prefix_append_right_inj]
  intro either
  rcases either with same | spelt
  · exact otherFree (same ▸ by simp)
  · exact siblings.suffix_ne (Path.eq_of_slash_prefix otherFree ownFree spelt)

section

variable (ownEnds : own.path.toList.getLast? = some '/')

include ownEnds

theorem toList_file_of_slash :
    (file own.path message).toList = own.front ++ (Marker.name message).toList := by
  have plain := ((getLast?_path siblings.valid).mp ownEnds).1
  rw [file, Path.toList_join_of_slash ownEnds, toList_path, suffix_eq_nil.mpr plain,
    List.append_nil]

theorem toList_other_of_slash :
    other.path.toList = own.front ++ ("_" ++ other.uniqueId).toList := by
  have plain := ((getLast?_path siblings.valid).mp ownEnds).1
  have marked : other.uniqueId ≠ "" := fun empty => siblings.distinct (empty.trans plain.symm)
  rw [toList_path, siblings.front_eq, suffix, if_neg marked]
  simp [String.toList_append]

theorem file_eq_iff : file own.path message = other.path ↔
    "_" ++ other.uniqueId = Marker.name message := by
  rw [← String.toList_inj, siblings.toList_file_of_slash ownEnds,
    siblings.toList_other_of_slash ownEnds, List.append_cancel_left_eq, String.toList_inj]
  exact eq_comm

theorem within_iff_of_slash (named : message.instant.Valid)
    (ends : other.path.toList.getLast? ≠ some '/') :
    Memory.within (Path.trim other.path) (file own.path message) = true ↔
      "_" ++ other.uniqueId = Marker.name message := by
  have free := (Marker.plain_name named).2
  rw [Path.trim_eq_self ends, Memory.within_iff, siblings.file_eq_iff ownEnds]
  refine ⟨fun either => either.resolve_right fun spelt => ?_, .inl⟩
  rw [Path.stem_of_getLast? ends, siblings.toList_file_of_slash ownEnds,
    siblings.toList_other_of_slash ownEnds, List.append_assoc,
    List.prefix_append_right_inj] at spelt
  exact free (spelt.subset (by simp))

end

/-- A marker of the one is the directory of the other, or within it, only behind a
slash at the end of the directory that both have been given. -/
theorem within_file_iff (named : message.instant.Valid) :
    Memory.within (Path.trim other.path) (file own.path message) = true ↔
      own.directory.toList.getLast? = some '/' ∧
        (other.uniqueId = "" ∨
          own.uniqueId = "" ∧ "_" ++ other.uniqueId = Marker.name message) := by
  have ownPath := getLast?_path siblings.valid
  have otherPath := getLast?_path siblings.otherValid
  rw [siblings.directory] at otherPath
  by_cases ends : other.path.toList.getLast? = some '/'
  · simp [siblings.within_file_of_slash ends, otherPath.mp ends]
  · by_cases ownEnds : own.path.toList.getLast? = some '/'
    · rw [siblings.within_iff_of_slash ownEnds named ends]
      rw [otherPath] at ends
      have plain := ownPath.mp ownEnds
      have marked : other.uniqueId ≠ "" := fun empty => ends ⟨empty, plain.2⟩
      simp only [plain, marked, true_and, false_or]
    · rw [siblings.not_within_of_not_slash ends ownEnds]
      rw [otherPath] at ends
      rw [ownPath] at ownEnds
      rw [Bool.false_eq_true, false_iff]
      rintro ⟨last, empty | ⟨ownEmpty, _⟩⟩
      · exact ends ⟨empty, last⟩
      · exact ownEnds ⟨ownEmpty, last⟩

theorem disturbs_iff : other.Disturbs own ↔ ∃ message : Message, message.instant.Valid ∧
    Memory.within (Path.trim other.path) (file own.path message) = true := by
  constructor
  · intro disturbs
    obtain ⟨ends, plain | ⟨ownPlain, decodes⟩⟩ := disturbs
    · have named : (⟨"a", .inflight⟩ : Message).instant.Valid := by decide
      exact ⟨_, named, (siblings.within_file_iff named).mpr ⟨ends, .inl plain⟩⟩
    · obtain ⟨message, decoded⟩ := Option.isSome_iff_exists.mp decodes
      obtain ⟨named, same⟩ := Marker.decode_eq_some_iff.mp decoded
      exact ⟨message, named, (siblings.within_file_iff named).mpr ⟨ends, .inr ⟨ownPlain, same⟩⟩⟩
  · intro given
    obtain ⟨message, named, inside⟩ := given
    obtain ⟨ends, plain | ⟨ownPlain, same⟩⟩ := (siblings.within_file_iff named).mp inside
    · exact ⟨ends, .inl plain⟩
    · have decoded := Marker.decode_eq_some_iff.mpr ⟨named, same⟩
      exact ⟨ends, .inr ⟨ownPlain, Option.isSome_of_mem decoded⟩⟩

/-- Every path with a bus has a slash, so the current directory is within none. -/
theorem not_within_current (ends : other.path.toList.getLast? ≠ some '/') :
    Memory.within (Path.trim other.path) "." = false := by
  have slash : '/' ∈ other.path.toList := by
    rw [toList_path]
    exact List.mem_append_left _ (slash_mem_front siblings.otherValid)
  rw [← Bool.not_eq_true, Path.trim_eq_self ends, Memory.within_iff, Path.stem_of_getLast? ends]
  intro either
  rcases either with same | spelt
  · rw [← same] at slash
    exact absurd slash (by decide)
  · have beyond : '/' ∈ ".".toList := spelt.subset (by simp)
    exact absurd beyond (by decide)

/-- Where the one does not disturb the other, it is nowhere around. -/
theorem not_within_of_reaches (apart : ¬ other.Disturbs own) {directory : String}
    (reached : Reaches own.path directory) :
    Memory.within (Path.trim other.path) directory = false := by
  have nonempty := siblings.valid.path_ne_empty
  have outside (message : Message) (named : message.instant.Valid) :
      ¬ Memory.within (Path.trim other.path) (file own.path message) = true :=
    fun inside => apart (siblings.disturbs_iff.mpr ⟨message, named, inside⟩)
  have named : (⟨"a", .inflight⟩ : Message).instant.Valid := by decide
  have below := Path.stem_prefix_join nonempty (Marker.name ⟨"a", .inflight⟩)
  rw [← Bool.not_eq_true]
  intro inside
  cases reached with
  | directory => exact outside _ named (Memory.within_of_stem inside below)
  | marker valid => exact outside _ valid inside
  | parent =>
      by_cases slash : '/' ∈ (Path.trim own.path).toList
      · have around := (Memory.stem_place_prefix slash).trans (Path.toList_prefix_stem _)
        exact outside _ named (Memory.within_of_stem inside (around.trans below))
      · have ends : other.path.toList.getLast? ≠ some '/' :=
          fun ends => outside _ named (siblings.within_file_of_slash ends)
        have current : (Memory.place (Path.trim own.path)).1 = "." := by
          simp only [Memory.place, Path.split, Text.splitLast?_eq_none_iff.mpr slash]
          decide
        rw [current, siblings.not_within_current ends] at inside
        cases inside

end Siblings

end Bus.Config

end MarkerBus
