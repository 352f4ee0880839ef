import MarkerBus.Path
import MarkerBus.Text.Terminated

namespace MarkerBus.Path

variable {path name : String}

/-- The name of an entry: some text without a slash. -/
def Plain (name : String) : Prop :=
  name ≠ "" ∧ '/' ∉ name.toList

theorem dropTrailingSlashes_append_slash (front : List Char) :
    dropTrailingSlashes (front ++ ['/']) = dropTrailingSlashes front := by
  simp [dropTrailingSlashes]

theorem dropTrailingSlashes_append_plain (front : List Char) {last : List Char}
    (nonempty : last ≠ []) (free : '/' ∉ last) :
    dropTrailingSlashes (front ++ last) = front ++ last := by
  obtain ⟨start, char, rfl⟩ := List.eq_nil_or_concat last |>.resolve_left nonempty
  have other : char ≠ '/' := by
    intro slash
    subst slash
    simp at free
  simp [dropTrailingSlashes, other]

/-- What has been dropped is slashes. -/
theorem dropTrailingSlashes_append_replicate (text : List Char) :
    ∃ count, text = dropTrailingSlashes text ++ List.replicate count '/' := by
  refine ⟨(text.reverse.takeWhile (· = '/')).length, ?_⟩
  have slashes : text.reverse.takeWhile (· = '/') =
      List.replicate (text.reverse.takeWhile (· = '/')).length '/' :=
    List.eq_replicate_of_mem fun char member => by
      simpa using List.all_eq_true.mp List.all_takeWhile char member
  calc text
      = (text.reverse.takeWhile (· = '/') ++ text.reverse.dropWhile (· = '/')).reverse := by
        rw [List.takeWhile_append_dropWhile, List.reverse_reverse]
    _ = dropTrailingSlashes text ++ (text.reverse.takeWhile (· = '/')).reverse := by
        rw [List.reverse_append, dropTrailingSlashes]
    _ = _ := by rw [slashes, List.reverse_replicate, List.length_replicate]

theorem getLast?_dropTrailingSlashes (text : List Char) :
    (dropTrailingSlashes text).getLast? ≠ some '/' := by
  rw [dropTrailingSlashes, List.getLast?_reverse]
  intro slash
  have kept := List.head?_dropWhile_not (· = '/') text.reverse
  simp [slash] at kept

theorem dropTrailingSlashes_length_le (text : List Char) :
    (dropTrailingSlashes text).length ≤ text.length := by
  have shorter := (List.dropWhile_suffix (l := text.reverse) (· = '/')).length_le
  simpa [dropTrailingSlashes] using shorter

theorem trim_append_slash (nonempty : path ≠ "") : trim (path ++ "/") = trim path := by
  have list : (path ++ "/").toList = path.toList ++ ['/'] := by
    simp [String.toList_append]
  have longer : path ++ "/" ≠ "" := by
    intro empty
    simp [empty] at list
  unfold trim
  rw [list, dropTrailingSlashes_append_slash]
  cases dropTrailingSlashes path.toList with
  | nil => simp [nonempty, longer]
  | cons char rest => rfl

theorem length_trim_le (nonempty : path ≠ "") : (trim path).toList.length ≤ path.toList.length := by
  have shorter := dropTrailingSlashes_length_le path.toList
  unfold trim
  cases kept : dropTrailingSlashes path.toList with
  | nil =>
      have inhabited : path.toList ≠ [] := by simpa [String.toList_eq_nil_iff] using nonempty
      simpa [nonempty] using Nat.succ_le_of_lt (List.length_pos_iff.mpr inhabited)
  | cons char rest => simpa [kept] using shorter

theorem dropTrailingSlashes_eq_self {text : List Char} (last : text.getLast? ≠ some '/') :
    dropTrailingSlashes text = text := by
  rcases List.eq_nil_or_concat text with rfl | ⟨front, char, rfl⟩
  · rfl
  · have other : '/' ∉ [char] := by
      intro slash
      rw [List.concat_eq_append, List.getLast?_concat] at last
      exact last (congrArg some (List.mem_singleton.mp slash).symm)
    rw [List.concat_eq_append]
    exact dropTrailingSlashes_append_plain front (List.cons_ne_nil _ _) other

theorem trim_eq_self (last : path.toList.getLast? ≠ some '/') : trim path = path := by
  unfold trim
  rw [dropTrailingSlashes_eq_self last]
  cases spelt : path.toList with
  | nil => simp [String.toList_eq_nil_iff.mp spelt]
  | cons char rest =>
      change String.ofList (char :: rest) = path
      rw [← spelt, String.ofList_toList]

theorem trim_eq_root_or_getLast? (path : String) :
    trim path = "/" ∨ (trim path).toList.getLast? ≠ some '/' := by
  have last := getLast?_dropTrailingSlashes path.toList
  unfold trim
  cases kept : dropTrailingSlashes path.toList with
  | nil =>
      by_cases empty : path = ""
      · exact .inr (by simp [empty])
      · exact .inl (if_neg empty)
  | cons char rest =>
      rw [kept] at last
      exact .inr (by rwa [String.toList_ofList])

theorem trim_trim (path : String) : trim (trim path) = trim path := by
  rcases trim_eq_root_or_getLast? path with root | last
  · rw [root]
    decide
  · exact trim_eq_self last

theorem trim_ne_empty (nonempty : path ≠ "") : trim path ≠ "" := by
  unfold trim
  cases dropTrailingSlashes path.toList with
  | nil => simp [nonempty]
  | cons char rest => simp [String.ofList_eq_empty_iff]

/-- What the path of everything inside of a directory begins with. -/
def stem (directory : String) : List Char :=
  if directory = "/" then ['/'] else directory.toList ++ ['/']

theorem stem_of_getLast? (last : path.toList.getLast? ≠ some '/') :
    stem path = path.toList ++ ['/'] := by
  have other : path ≠ "/" := by
    rintro rfl
    exact last rfl
  exact if_neg other

theorem exists_stem_eq (directory : String) : ∃ front, stem directory = front ++ ['/'] := by
  unfold stem
  split
  · exact ⟨[], rfl⟩
  · exact ⟨_, rfl⟩

theorem toList_prefix_stem (directory : String) : directory.toList <+: stem directory := by
  unfold stem
  split
  · rename_i root
    subst root
    exact List.prefix_rfl
  · exact List.prefix_append _ _

/-- What stands before the first slash is cut off by it. -/
theorem eq_of_slash_prefix {front other rest : List Char} (free : '/' ∉ front)
    (otherFree : '/' ∉ other) (spelt : front ++ ['/'] <+: other ++ '/' :: rest) :
    front = other := by
  have cut {first : List Char} (free : '/' ∉ first) (second : List Char) :
      (first ++ '/' :: second).takeWhile (· ≠ '/') = first := by
    rw [List.takeWhile_append, Text.takeWhile_ne_eq_self free]
    simp
  obtain ⟨back, same⟩ := spelt
  have both := congrArg (List.takeWhile (· ≠ '/')) same
  rwa [List.append_assoc, List.singleton_append, cut free, cut otherFree] at both

/-- What ends in a slash and begins a text, ends before the part without slashes. -/
theorem prefix_of_slash {front text last : List Char} (free : '/' ∉ last)
    (begun : front ++ ['/'] <+: text ++ last) : front ++ ['/'] <+: text := by
  obtain before | beyond := List.prefix_or_prefix_of_prefix begun (List.prefix_append text last)
  · exact before
  · obtain rfl | ⟨rest, rfl⟩ := List.prefix_concat_iff.mp beyond
    · exact List.prefix_rfl
    · obtain ⟨tail, whole⟩ := begun
      simp only [List.append_assoc, List.append_cancel_left_eq] at whole
      exact absurd (whole ▸ by simp) free

theorem stem_trim_prefix (nonempty : path ≠ "") : stem (trim path) <+: path.toList ++ ['/'] := by
  obtain ⟨count, whole⟩ := dropTrailingSlashes_append_replicate path.toList
  have last := getLast?_dropTrailingSlashes path.toList
  unfold trim
  cases kept : dropTrailingSlashes path.toList with
  | nil =>
      rw [kept, List.nil_append] at whole
      simp only [nonempty, if_false, stem, if_true]
      rw [whole, ← List.replicate_succ', List.replicate_succ]
      exact ⟨List.replicate count '/', rfl⟩
  | cons char rest =>
      rw [kept] at whole last
      have other : String.ofList (char :: rest) ≠ "/" := by
        intro root
        rw [← String.toList_inj, String.toList_ofList] at root
        rw [root] at last
        exact last rfl
      simp only [stem, if_neg other, String.toList_ofList]
      rw [whole, List.append_assoc, ← List.replicate_succ', List.replicate_succ]
      exact ⟨List.replicate count '/', by simp⟩

theorem stem_trim_prefix_of_slash (last : path.toList.getLast? = some '/') :
    stem (trim path) <+: path.toList := by
  obtain ⟨front, spelt⟩ := List.getLast?_eq_some_iff.mp last
  have rebuilt : path = String.ofList front ++ "/" := by
    rw [← String.toList_inj, spelt]
    simp [String.toList_append]
  by_cases root : front = []
  · subst root
    rw [rebuilt]
    decide
  · have inhabited : String.ofList front ≠ "" := by
      simpa [String.ofList_eq_empty_iff] using root
    have shorter := stem_trim_prefix inhabited
    rwa [← trim_append_slash inhabited, ← rebuilt, String.toList_ofList, ← spelt] at shorter

/-- Every join puts a slash before the name; the text in front of the slash
spells the directory. -/
theorem toList_join (nonempty : path ≠ "") (name : String) :
    ∃ front, (join path name).toList = front ++ '/' :: name.toList ∧
      path.toList.length ≤ front.length + 1 ∧
      (front = [] ∧ trim path = "/" ∨ front ≠ [] ∧ trim (String.ofList front) = trim path) := by
  by_cases slash : path.toList.getLast? = some '/'
  · obtain ⟨front, spelt⟩ := List.getLast?_eq_some_iff.mp slash
    refine ⟨front, ?_, by simp [spelt], ?_⟩
    · simp [join, String.toList_append, spelt]
    · have rebuilt : path = String.ofList front ++ "/" := by
        rw [← String.toList_inj, spelt]
        simp [String.toList_append]
      by_cases root : front = []
      · subst root
        exact .inl ⟨rfl, by rw [rebuilt]; decide⟩
      · have inhabited : String.ofList front ≠ "" := by
          simpa [String.ofList_eq_empty_iff] using root
        exact .inr ⟨root, by rw [rebuilt, trim_append_slash inhabited]⟩
  · have inhabited : path.toList ≠ [] := by simpa [String.toList_eq_nil_iff] using nonempty
    refine ⟨path.toList, ?_, by omega, .inr ⟨inhabited, by rw [String.ofList_toList]⟩⟩
    simp [join, slash, nonempty, String.toList_append]

theorem toList_join_of_slash (last : path.toList.getLast? = some '/') (name : String) :
    (join path name).toList = path.toList ++ name.toList := by
  simp [join, last, String.toList_append]

theorem toList_join_of_getLast? (nonempty : path ≠ "") (last : path.toList.getLast? ≠ some '/')
    (name : String) : (join path name).toList = path.toList ++ '/' :: name.toList := by
  simp [join, last, nonempty, String.toList_append]

theorem toList_join_of_trim (nonempty : path ≠ "") (trimmed : trim path = path) (name : String) :
    (join path name).toList = stem path ++ name.toList := by
  rcases trim_eq_root_or_getLast? path with root | last
  · rw [trimmed] at root
    subst root
    exact toList_join_of_slash rfl name
  · rw [trimmed] at last
    rw [toList_join_of_getLast? nonempty last, stem_of_getLast? last, List.append_assoc,
      List.singleton_append]

theorem stem_prefix_join (nonempty : path ≠ "") (name : String) :
    stem (trim path) <+: (join path name).toList := by
  obtain ⟨front, list, _, spelt⟩ := toList_join nonempty name
  rw [list]
  rcases spelt with ⟨rfl, root⟩ | ⟨inhabited, same⟩
  · rw [root]
    exact ⟨name.toList, rfl⟩
  · have nonempty : String.ofList front ≠ "" := by
      simpa [String.ofList_eq_empty_iff] using inhabited
    have spelling := stem_trim_prefix nonempty
    rw [same, String.toList_ofList] at spelling
    exact spelling.trans ⟨name.toList, by simp⟩

theorem split_join (nonempty : path ≠ "") (free : '/' ∉ name.toList) :
    ∃ directory, split (join path name) = (directory, name) ∧ trim directory = trim path := by
  obtain ⟨front, list, _, spelt⟩ := toList_join nonempty name
  have cut : Text.splitLast? '/' (join path name).toList = some (front, name.toList) := by
    rw [list]
    exact Text.splitLast?_append free
  rcases spelt with ⟨rfl, root⟩ | ⟨inhabited, same⟩
  · exact ⟨"/", by simp [split, cut, String.ofList_toList], by rw [root]; decide⟩
  · refine ⟨String.ofList front, ?_, same⟩
    cases front with
    | nil => contradiction
    | cons char rest => simp [split, cut, String.ofList_toList]

theorem split_fst_ne_empty (path : String) : (split path).1 ≠ "" := by
  unfold split
  split
  · exact (by decide : "." ≠ "")
  · exact (by decide : "/" ≠ "")
  · rename_i inhabited _
    exact fun empty => inhabited (String.ofList_eq_empty_iff.mp empty)

theorem slash_notMem_split_snd (path : String) : '/' ∉ (split path).2.toList := by
  unfold split
  split
  · rename_i whole
    exact Text.splitLast?_eq_none_iff.mp whole
  · rename_i cut
    rw [String.toList_ofList]
    exact (Text.splitLast?_eq_some_iff.mp cut).2
  · rename_i cut
    rw [String.toList_ofList]
    exact (Text.splitLast?_eq_some_iff.mp cut).2

theorem trim_join (nonempty : path ≠ "") (plain : Plain name) :
    trim (join path name) = join path name := by
  obtain ⟨front, list, _⟩ := toList_join nonempty name
  have inhabited : name.toList ≠ [] := by simpa [String.toList_eq_nil_iff] using plain.1
  have kept : dropTrailingSlashes (join path name).toList = (join path name).toList := by
    rw [list, List.append_cons]
    exact dropTrailingSlashes_append_plain (front ++ ['/']) inhabited plain.2
  unfold trim
  rw [kept]
  cases whole : (join path name).toList with
  | nil => simp [list] at whole
  | cons char rest =>
      change String.ofList (char :: rest) = _
      rw [← whole, String.ofList_toList]

theorem utf8ByteSize_join_le (directory name : String) :
    (join directory name).utf8ByteSize ≤ directory.utf8ByteSize + 1 + name.utf8ByteSize := by
  have slash : "/".utf8ByteSize = 1 := rfl
  unfold join
  split <;> simp only [String.utf8ByteSize_append, slash]
  · omega
  · exact Nat.le_refl _

theorem join_injective {other : String} (same : join path name = join path other) :
    name = other := by
  unfold join at same
  split at same <;> simpa using same

/-- No entry of a directory is the directory itself. -/
theorem trim_join_ne (nonempty : path ≠ "") (plain : Plain name) :
    trim (join path name) ≠ trim path := by
  rw [trim_join nonempty plain]
  intro same
  obtain ⟨front, list, longer, _⟩ := toList_join nonempty name
  have inhabited : name.toList ≠ [] := by simpa [String.toList_eq_nil_iff] using plain.1
  have shorter := length_trim_le nonempty
  have positive := List.length_pos_iff.mpr inhabited
  rw [← same, list] at shorter
  simp only [List.length_append, List.length_cons] at shorter
  omega

theorem join_ne (nonempty : path ≠ "") (plain : Plain name) : join path name ≠ path :=
  fun same => trim_join_ne nonempty plain (congrArg trim same)

end MarkerBus.Path
