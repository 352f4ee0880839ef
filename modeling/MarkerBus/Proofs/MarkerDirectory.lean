import MarkerBus.MarkerDirectory
import MarkerBus.Proofs.Storage.Memory
import MarkerBus.Proofs.Storage.Performance

namespace MarkerBus

open Storage

variable {path : String} {message other : Message} {memory before after : Memory}
  {calls : List Call} {fault : Fault}

namespace Marker

theorem name_injective {left right : Message} (same : name left = name right) : left = right := by
  obtain ⟨leftInstant, leftPhase⟩ := left
  obtain ⟨rightInstant, rightPhase⟩ := right
  have cut (instant : Instant) (phase : Phase) :
      Text.splitLast? '.' (name ⟨instant, phase⟩).toList =
        some (instant.toList, phase.name.toList) := by
    have shape : (name ⟨instant, phase⟩).toList = instant.toList ++ '.' :: phase.name.toList := by
      simp [name, String.toList_append]
    rw [shape, Text.splitLast?_append phase.dot_notMem_name]
  have parts := cut leftInstant leftPhase
  rw [same, cut] at parts
  simp only [Option.some.injEq, Prod.mk.injEq, String.toList_inj] at parts
  rw [parts.1, Phase.name_injective parts.2]

theorem encode_eq_ok (valid : message.instant.Valid) : encode message = .ok (name message) := by
  simp only [encode, Instant.validate_eq_ok_iff.mpr valid]
  rfl

theorem encode_eq_error {defect : Instant.Defect}
    (refused : message.instant.validate = .error defect) : encode message = .error defect := by
  simp only [encode, refused]
  rfl

theorem encodeAll_eq_ok {instant : Instant} (valid : instant.Valid) :
    encodeAll instant = .ok (names instant) := by
  simp only [encodeAll, Instant.validate_eq_ok_iff.mpr valid]
  rfl

theorem plain_name (valid : message.instant.Valid) : Path.Plain (name message) := by
  constructor
  · intro empty
    have longer : (name message).toList.length ≠ 0 := by
      simp [name, String.toList_append]
    simp [empty] at longer
  · have free : '/' ∉ message.phase.name.toList := by cases message.phase <;> decide
    simp [name, String.toList_append, valid.2, free]

theorem mem_filterMap_decode {names : List String} :
    message ∈ names.filterMap decode ↔ message.instant.Valid ∧ name message ∈ names := by
  simp only [List.mem_filterMap, decode_eq_some_iff]
  constructor
  · intro given
    obtain ⟨name, member, valid, rfl⟩ := given
    exact ⟨valid, member⟩
  · intro given
    obtain ⟨valid, member⟩ := given
    exact ⟨_, member, valid, rfl⟩

theorem name_proper (valid : message.instant.Valid) : name message ≠ "." ∧ name message ≠ ".." := by
  have decoded : decode (name message) = some message := decode_eq_some_iff.mpr ⟨valid, rfl⟩
  constructor <;> intro same <;> rw [same] at decoded <;> cases decoded

end Marker

namespace MarkerDirectory

def file (path : String) (message : Message) : String :=
  Path.join path (Marker.name message)

theorem place_file (nonempty : path ≠ "") (valid : message.instant.Valid) :
    Memory.place (file path message) = (Path.trim path, Marker.name message) :=
  Memory.place_join nonempty (Marker.plain_name valid).2

theorem file_injective (nonempty : path ≠ "") (valid : message.instant.Valid)
    (otherValid : other.instant.Valid) (same : file path message = file path other) :
    message = other := by
  have places := place_file nonempty valid
  rw [same, place_file nonempty otherValid] at places
  exact Marker.name_injective (Prod.ext_iff.mp places).2.symm

def removals (path : String) (instant : Instant) : List Request :=
  Phase.all.map fun phase => .remove (file path ⟨instant, phase⟩)

theorem mem_removals {request : Request} {instant : Instant} : request ∈ removals path instant ↔
    ∃ phase, request = .remove (file path ⟨instant, phase⟩) := by
  unfold removals
  rw [List.mem_map]
  constructor
  · intro given
    obtain ⟨phase, _, rfl⟩ := given
    exact ⟨phase, rfl⟩
  · intro given
    obtain ⟨phase, rfl⟩ := given
    exact ⟨phase, phase.mem_all, rfl⟩

end MarkerDirectory

namespace Storage.Memory

open MarkerDirectory

/-- The messages on record in a directory, in the order of their names. -/
def markers (memory : Memory) (path : String) : List Message :=
  (memory.names path).filterMap Marker.decode

theorem mem_markers_iff :
    message ∈ memory.markers path ↔
      message.instant.Valid ∧ Marker.name message ∈ memory.namesAt (Path.trim path) :=
  Marker.mem_filterMap_decode

theorem markers_empty : ({} : Memory).markers path = [] :=
  rfl

theorem mem_markers_create {creation : Creation} (nonempty : path ≠ "")
    (valid : message.instant.Valid)
    (created : memory.create (file path message) = (.ok creation, after)) :
    other ∈ after.markers path ↔ other = message ∨ other ∈ memory.markers path := by
  rw [mem_markers_iff, mem_namesAt_create created, place_file nonempty valid, mem_markers_iff]
  constructor
  · intro given
    rcases given with ⟨otherValid, same | member⟩
    · exact .inl (Marker.name_injective (Prod.ext_iff.mp same).2)
    · exact .inr ⟨otherValid, member⟩
  · intro either
    rcases either with rfl | ⟨otherValid, member⟩
    · exact ⟨valid, .inl rfl⟩
    · exact ⟨otherValid, .inr member⟩

/-- A marker of one directory is of no account in another. -/
theorem mem_markers_create_of_ne {elsewhere : String} {creation : Creation}
    (nonempty : elsewhere ≠ "") (apart : Path.trim elsewhere ≠ Path.trim path)
    (valid : message.instant.Valid)
    (created : memory.create (file elsewhere message) = (.ok creation, after)) :
    other ∈ after.markers path ↔ other ∈ memory.markers path := by
  have differs (name : String) : (Path.trim path, name) ≠ place (file elsewhere message) := by
    intro here
    rw [place_file nonempty valid] at here
    exact apart (Prod.ext_iff.mp here).1.symm
  rw [mem_markers_iff, mem_markers_iff, mem_namesAt_create created]
  simp [differs]

theorem mem_markers_of_mem_reset {elsewhere : String}
    (recorded : other ∈ (memory.reset elsewhere).markers path) : other ∈ memory.markers path := by
  obtain ⟨valid, member⟩ := mem_markers_iff.mp recorded
  rw [namesAt_reset] at member
  split at member
  · cases member
  · exact mem_markers_iff.mpr ⟨valid, member⟩

theorem markers_reset_of_within {outer : String}
    (inside : within (Path.trim outer) (Path.trim path) = true) :
    (memory.reset outer).markers path = [] := by
  simp [markers, names, namesAt_reset, inside]

theorem markers_reset : (memory.reset path).markers path = [] :=
  markers_reset_of_within (within_self _)

/-- No directory stands where a marker belongs. -/
def Accessible (memory : Memory) (path : String) : Prop :=
  ∀ message : Message, message.instant.Valid → ¬ memory.Known (file path message)

theorem Accessible.create_ok (accessible : memory.Accessible path) (nonempty : path ≠ "")
    (valid : message.instant.Valid) :
    ∃ creation after, memory.create (file path message) = (.ok creation, after) :=
  create_join nonempty (Marker.plain_name valid) (accessible message valid)

theorem file_ne_trim (nonempty : path ≠ "") (valid : message.instant.Valid) :
    file path message ≠ Path.trim path := by
  have apart := Path.trim_join_ne nonempty (Marker.plain_name valid)
  rwa [Path.trim_join nonempty (Marker.plain_name valid)] at apart

theorem accessible_reset (nonempty : path ≠ "") : (memory.reset path).Accessible path := by
  intro message valid known
  rcases known_reset.mp known with same | ⟨_, outside⟩
  · exact file_ne_trim nonempty valid same
  · have inside : within (Path.trim path) (file path message) = true := within_join nonempty _
    simp [inside] at outside

theorem Accessible.create {creation : Creation} (accessible : memory.Accessible path)
    (nonempty : path ≠ "") (valid : message.instant.Valid)
    (created : memory.create (file path message) = (.ok creation, after)) :
    after.Accessible path := by
  intro other named known
  rcases (known_create created).mp known with same | before
  · rw [place_file nonempty valid] at same
    exact file_ne_trim nonempty named same
  · exact accessible other named before

theorem mem_namesAt_of_removals {α : Type} {script : Script α} {value : α}
    {directory name : String}
    (performed : Performs serve fault script before calls value after)
    (wellFormed : before.WellFormed)
    (removals : ∀ call ∈ calls, ∃ file, call.request = .remove file) :
    name ∈ after.namesAt directory ↔ name ∈ before.namesAt directory ∧
      ∀ file, ⟨.remove file, false⟩ ∈ calls → (directory, name) ≠ place file := by
  induction performed with
  | done => simp
  | tell _ ih => exact ih wellFormed removals
  | struck _ _ ih =>
      rw [ih wellFormed fun call member => removals call (List.mem_cons_of_mem _ member)]
      simp
  | @served request next before after calls value _ ih =>
      obtain ⟨file, rfl⟩ := removals _ List.mem_cons_self
      rw [ih wellFormed.remove fun call member => removals call (List.mem_cons_of_mem _ member)]
      change _ ∈ (before.remove file).2.namesAt _ ∧ _ ↔ _
      rw [mem_namesAt_remove wellFormed]
      constructor
      · intro given
        obtain ⟨⟨member, apart⟩, rest⟩ := given
        refine ⟨member, ?_⟩
        intro other made
        rcases List.mem_cons.mp made with same | later
        · cases same
          exact apart
        · exact rest other later
      · intro given
        obtain ⟨member, apart⟩ := given
        exact ⟨⟨member, apart file List.mem_cons_self⟩,
          fun other later => apart other (List.mem_cons_of_mem _ later)⟩

theorem known_of_removals {α : Type} {script : Script α} {value : α} {directory : String}
    (performed : Performs serve fault script before calls value after)
    (removals : ∀ call ∈ calls, ∃ file, call.request = .remove file) :
    after.Known directory ↔ before.Known directory := by
  induction performed with
  | done => rfl
  | tell _ ih => exact ih removals
  | struck _ _ ih => exact ih fun call member => removals call (List.mem_cons_of_mem _ member)
  | @served request next before after calls value _ ih =>
      obtain ⟨file, rfl⟩ := removals _ List.mem_cons_self
      exact (ih fun call member => removals call (List.mem_cons_of_mem _ member)).trans known_remove

theorem fault_of_failed_removal {α : Type} {script : Script α} {value : α} {path : String}
    (performed : Performs serve fault script before calls value after)
    (failed : ⟨.remove path, true⟩ ∈ calls) : ∃ failure, fault (.remove path) failure := by
  induction performed with
  | done => simp at failed
  | tell _ ih => exact ih failed
  | struck allowed _ ih =>
      rcases List.mem_cons.mp failed with same | later
      · cases same
        exact ⟨_, allowed⟩
      · exact ih later
  | served _ ih =>
      rcases List.mem_cons.mp failed with same | later
      · simp only [Call.mk.injEq] at same
        obtain ⟨rfl, same⟩ := same
        simp [serve, Except.isOk, Except.toBool] at same
      · exact ih later

/-- A message on record goes just if its own file is removed. -/
theorem mem_markers_of_removals {α : Type} {script : Script α} {value : α}
    (performed : Performs serve fault script before calls value after)
    (wellFormed : before.WellFormed) (nonempty : path ≠ "")
    (removals : ∀ call ∈ calls, ∃ message : Message,
      message.instant.Valid ∧ call.request = .remove (file path message)) :
    other ∈ after.markers path ↔
      other ∈ before.markers path ∧ ⟨.remove (file path other), false⟩ ∉ calls := by
  have files : ∀ call ∈ calls, ∃ file, call.request = .remove file := by
    intro call member
    obtain ⟨message, _, same⟩ := removals call member
    exact ⟨_, same⟩
  rw [mem_markers_iff, mem_markers_iff, mem_namesAt_of_removals performed wellFormed files]
  constructor
  · intro given
    obtain ⟨valid, member, apart⟩ := given
    exact ⟨⟨valid, member⟩, fun made => apart _ made (place_file nonempty valid).symm⟩
  · intro given
    obtain ⟨⟨valid, member⟩, kept⟩ := given
    refine ⟨valid, member, ?_⟩
    intro path' made here
    obtain ⟨message, messageValid, same⟩ := removals _ made
    cases same
    rw [place_file nonempty messageValid] at here
    rw [Marker.name_injective (Prod.ext_iff.mp here).2] at kept
    exact kept made

end Storage.Memory

namespace MarkerDirectory

open Memory

inductive Appends (fault : Fault) (path : String) (message : Message) (before : Memory) :
    List Call → Except Error Unit → Memory → Prop where
  | invalid {defect : Instant.Defect} (refused : message.instant.validate = .error defect) :
      Appends fault path message before [] (.error (.invalidInstant defect)) before
  | failed {report : Report} (valid : message.instant.Valid)
      (cause : fault (.create (file path message)) (.reported report) ∨
        before.create (file path message) = (.error (.reported report), before)) :
      Appends fault path message before [⟨.create (file path message), true⟩]
        (.error (.storage (.reported report))) before
  | written {creation : Creation} {after : Memory} (valid : message.instant.Valid)
      (created : before.create (file path message) = (.ok creation, after)) :
      Appends fault path message before [⟨.create (file path message), false⟩] (.ok ()) after

theorem appends {answer : Except Error Unit} (reports : fault.Reports)
    (performed : Performs serve fault (append path message) before calls answer after) :
    Appends fault path message before calls answer after := by
  cases checked : message.instant.validate with
  | error defect =>
      simp only [append, Marker.encode_eq_error checked] at performed
      obtain ⟨rfl, rfl, rfl⟩ := performed.of_pure
      exact .invalid checked
  | ok _ =>
      have valid : message.instant.Valid := Instant.validate_eq_ok_iff.mp checked
      simp only [append, Marker.encode_eq_ok valid] at performed
      obtain ⟨first, creation, middle, second, asked, rest, rfl⟩ := performed.of_bind
      rcases asked.of_ask with ⟨failure, allowed, rfl, rfl, rfl⟩ | ⟨rfl, rfl, rfl⟩
      · obtain ⟨report, rfl⟩ := reports _ _ allowed
        obtain ⟨rfl, rfl, rfl⟩ := rest.of_pure
        exact .failed valid (.inl allowed)
      · rw [serve_create] at rest ⊢
        rcases outcome : before.create (Path.join path (Marker.name message)) with ⟨result, made⟩
        simp only [outcome] at rest ⊢
        rcases create_cases outcome with ⟨report, rfl, rfl⟩ | ⟨rfl, _⟩ | ⟨rfl, _⟩
        · obtain ⟨rfl, rfl, rfl⟩ := rest.of_pure
          exact .failed valid (.inr outcome)
        · obtain ⟨rfl, rfl, rfl⟩ := rest.of_log.of_pure
          exact .written valid outcome
        · obtain ⟨rfl, rfl, rfl⟩ := rest.of_pure
          exact .written valid outcome

/-- Each name is tried once; the answer is whether no call failed. -/
theorem performs_removeEach {names : List String} {answer : Except Error Bool}
    (reports : fault.Reports)
    (performed : Performs serve fault (removeEach path names) before calls answer after) :
    calls.map Call.request = names.map (fun name => .remove (Path.join path name)) ∧
      answer = .ok (calls.all fun call => !call.failed) := by
  induction names generalizing before calls answer after with
  | nil =>
      obtain ⟨rfl, rfl, rfl⟩ := performed.of_pure
      exact ⟨rfl, rfl⟩
  | cons name rest ih =>
      simp only [removeEach] at performed
      obtain ⟨first, removal, middle, second, asked, later, rfl⟩ := performed.of_bind
      rcases asked.of_ask with ⟨failure, allowed, rfl, rfl, rfl⟩ | ⟨rfl, rfl, rfl⟩
      · obtain ⟨report, rfl⟩ := reports _ _ allowed
        obtain ⟨looped, tried, final, last, loop, later, rfl⟩ := later.of_log.of_bind
        obtain ⟨requests, rfl⟩ := ih loop
        obtain ⟨rfl, rfl, rfl⟩ := later.of_pure
        exact ⟨by simp [requests], by simp⟩
      · obtain ⟨requests, rfl⟩ := ih later
        exact ⟨by simp [requests], by simp [serve, Except.isOk, Except.toBool]⟩

theorem performs_deleteAll {instant : Instant} {answer : Except Error Bool}
    (reports : fault.Reports) (valid : instant.Valid)
    (performed : Performs serve fault (deleteAll path instant) before calls answer after) :
    calls.map Call.request = removals path instant ∧
      answer = .ok (calls.all fun call => !call.failed) := by
  simp only [deleteAll, Marker.encodeAll_eq_ok valid] at performed
  obtain ⟨requests, answered⟩ := performs_removeEach reports performed
  refine ⟨?_, answered⟩
  rw [requests, Marker.names, List.map_map]
  rfl

theorem performs_decodeAll {names : List String} {messages : List Message}
    (performed : Performs serve fault (decodeAll path names) before calls messages after) :
    calls = [] ∧ messages = names.filterMap Marker.decode ∧ before = after := by
  induction names generalizing calls messages after with
  | nil => exact performed.of_pure
  | cons name rest ih =>
      cases decoded : Marker.decode name with
      | some message =>
          simp only [decodeAll, decoded] at performed
          obtain ⟨first, later, middle, second, tail, last, rfl⟩ := performed.of_bind
          obtain ⟨rfl, rfl, rfl⟩ := ih tail
          obtain ⟨rfl, rfl, rfl⟩ := last.of_pure
          exact ⟨rfl, by simp [decoded], rfl⟩
      | none =>
          simp only [decodeAll, decoded] at performed
          obtain ⟨rfl, rfl, rfl⟩ := ih performed.of_log
          exact ⟨rfl, by simp [decoded], rfl⟩

/-- A scan changes nothing; unless a fault strikes it, it answers the messages
on record. -/
theorem performs_scan {answer : Except Error (List Message)}
    (performed : Performs serve fault (scan path) before calls answer after) :
    before = after ∧
      (∀ call ∈ calls, call.request = .probe path ∨ call.request = .list path) ∧
      ((∃ request failure, fault request failure ∧ answer = .error (.storage failure)) ∨
        answer = .ok (before.markers path)) := by
  simp only [scan] at performed
  obtain ⟨first, found, middle, second, probed, rest, rfl⟩ := performed.of_bind
  rcases probed.of_ask with ⟨failure, allowed, rfl, rfl, rfl⟩ | ⟨rfl, rfl, rfl⟩
  · obtain ⟨rfl, rfl, rfl⟩ := rest.of_pure
    exact ⟨rfl, by simp, .inl ⟨_, failure, allowed, rfl⟩⟩
  · cases found : before.probe path with
    | false =>
        simp only [serve, found] at rest
        obtain ⟨rfl, rfl, rfl⟩ := rest.of_pure
        have unknown : ¬ before.Known (Path.trim path) := by
          intro known
          simp [probe, isDirectory_iff.mpr known] at found
        exact ⟨rfl, by simp, .inr (by simp [markers, names, namesAt_of_not_known unknown])⟩
    | true =>
        simp only [serve, found] at rest
        obtain ⟨_, listed, _, later, asked, tail, rfl⟩ := rest.of_bind
        rcases asked.of_ask with ⟨failure, allowed, rfl, rfl, rfl⟩ | ⟨rfl, rfl, rfl⟩
        · obtain ⟨rfl, rfl, rfl⟩ := tail.of_pure
          exact ⟨rfl, by simp, .inl ⟨_, failure, allowed, rfl⟩⟩
        · obtain ⟨_, messages, _, last, decoded, answered, rfl⟩ := tail.of_bind
          obtain ⟨rfl, rfl, rfl⟩ := performs_decodeAll decoded
          obtain ⟨rfl, rfl, rfl⟩ := answered.of_pure
          exact ⟨rfl, by simp, .inr rfl⟩

theorem performs_reset {answer : Except Error Unit}
    (performed : Performs serve fault (reset path) before calls answer after) :
    (∃ failure, fault (.reset path) failure ∧ answer = .error (.storage failure) ∧
        before = after ∧ calls = [⟨.reset path, true⟩]) ∨
      answer = .ok () ∧ before.reset path = after ∧ calls = [⟨.reset path, false⟩] := by
  simp only [reset] at performed
  obtain ⟨first, done, middle, second, asked, rest, rfl⟩ := performed.of_bind
  rcases asked.of_ask with ⟨failure, allowed, rfl, rfl, rfl⟩ | ⟨rfl, rfl, rfl⟩
  · obtain ⟨rfl, rfl, rfl⟩ := rest.of_pure
    exact .inl ⟨failure, allowed, rfl, rfl, rfl⟩
  · obtain ⟨rfl, rfl, rfl⟩ := rest.of_pure
    exact .inr ⟨rfl, rfl, rfl⟩

end MarkerDirectory

end MarkerBus
