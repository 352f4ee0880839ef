import Mathlib.Data.List.Nodup
import MarkerBus.Proofs.MarkerDirectory

namespace MarkerBus.MarkerDirectory

open Storage Memory

variable {path : String} {instant : Instant} {memory before after : Memory} {calls : List Call}
  {fault : Fault} {answer : Except Error Bool}

theorem removals_nodup (path : String) (instant : Instant) : (removals path instant).Nodup := by
  refine List.Nodup.map ?_ (by decide : Phase.all.Nodup)
  intro left right same
  have names : Marker.name ⟨instant, left⟩ = Marker.name ⟨instant, right⟩ :=
    Path.join_injective (Request.remove.inj same)
  exact congrArg Message.phase (Marker.name_injective names)

/-- Each marker file is tried once: the attempt failed, or it did not. -/
theorem failed_iff_of_requests (requests : calls.map Call.request = removals path instant)
    (phase : Phase) :
    ⟨.remove (file path ⟨instant, phase⟩), true⟩ ∈ calls ↔
      ⟨.remove (file path ⟨instant, phase⟩), false⟩ ∉ calls := by
  have once : (calls.map Call.request).Nodup := requests ▸ removals_nodup path instant
  constructor
  · intro failed removed
    have same := List.inj_on_of_nodup_map once failed removed rfl
    cases same
  · intro kept
    have tried : .remove (file path ⟨instant, phase⟩) ∈ calls.map Call.request := by
      rw [requests]
      exact mem_removals.mpr ⟨phase, rfl⟩
    obtain ⟨⟨request, failed⟩, made, rfl⟩ := List.mem_map.mp tried
    cases failed with
    | false => exact absurd made kept
    | true => exact made

theorem removes_of_requests (requests : calls.map Call.request = removals path instant)
    {call : Call} (made : call ∈ calls) :
    ∃ phase, call.request = .remove (file path ⟨instant, phase⟩) :=
  mem_removals.mp (requests ▸ List.mem_map_of_mem made)

theorem files_of_requests (requests : calls.map Call.request = removals path instant) :
    ∀ call ∈ calls, ∃ file, call.request = .remove file := by
  intro call made
  obtain ⟨phase, same⟩ := removes_of_requests requests made
  exact ⟨_, same⟩

theorem name_notMem_names {other : Message} (apart : other.instant ≠ instant) :
    Marker.name other ∉ Marker.names instant := by
  intro shared
  obtain ⟨phase, _, same⟩ := List.mem_map.mp shared
  exact apart (congrArg Message.instant (Marker.name_injective same)).symm

section

variable (reports : fault.Reports) (wellFormed : before.WellFormed) (nonempty : path ≠ "")
  (valid : instant.Valid)
  (performed : Performs serve fault (deleteAll path instant) before calls answer after)

include reports wellFormed nonempty valid performed

theorem mem_names_of_deleteAll (phase : Phase) :
    Marker.name ⟨instant, phase⟩ ∈ after.names path ↔
      Marker.name ⟨instant, phase⟩ ∈ before.names path ∧
        ⟨.remove (file path ⟨instant, phase⟩), true⟩ ∈ calls := by
  obtain ⟨requests, _⟩ := performs_deleteAll reports valid performed
  have own : ∀ call ∈ calls, ∃ message : Message,
      message.instant.Valid ∧ call.request = .remove (file path message) := by
    intro call made
    obtain ⟨phase, same⟩ := removes_of_requests requests made
    exact ⟨⟨instant, phase⟩, valid, same⟩
  have recorded : ⟨instant, phase⟩ ∈ after.markers path ↔ ⟨instant, phase⟩ ∈ before.markers path ∧
      ⟨.remove (file path ⟨instant, phase⟩), false⟩ ∉ calls :=
    mem_markers_of_removals performed wellFormed nonempty own
  rw [mem_markers_iff, mem_markers_iff, ← failed_iff_of_requests requests phase] at recorded
  simpa [valid, names] using recorded

theorem mem_namesAt_of_deleteAll {directory name : String}
    (other : directory = Path.trim path → name ∉ Marker.names instant) :
    name ∈ after.namesAt directory ↔ name ∈ before.namesAt directory := by
  obtain ⟨requests, _⟩ := performs_deleteAll reports valid performed
  rw [mem_namesAt_of_removals performed wellFormed (files_of_requests requests)]
  refine and_iff_left_of_imp fun _ removed made here => ?_
  obtain ⟨phase, same⟩ := removes_of_requests requests made
  cases same
  have named : (⟨instant, phase⟩ : Message).instant.Valid := valid
  rw [place_file nonempty named, Prod.mk.injEq] at here
  obtain ⟨there, rfl⟩ := here
  exact other there (List.mem_map_of_mem phase.mem_all)

end

/-- What a deletion tries, answers and leaves. -/
structure Deletes (path : String) (instant : Instant) (before : Memory) (attempts : List Call)
    (answer : Except Error Bool) (after : Memory) : Prop where
  tries : attempts.map Call.request =
    (Marker.names instant).map fun name => .remove (Path.join path name)
  honest : ∃ deleted, answer = .ok deleted ∧
    (deleted = true ↔ ∀ attempt ∈ attempts, attempt.failed = false)
  stays : ∀ phase, Marker.name ⟨instant, phase⟩ ∈ after.names path ↔
    Marker.name ⟨instant, phase⟩ ∈ before.names path ∧
      ⟨.remove (file path ⟨instant, phase⟩), true⟩ ∈ attempts
  instants : ∀ directory (other : Message), other.instant ≠ instant →
    (Marker.name other ∈ after.namesAt directory ↔ Marker.name other ∈ before.namesAt directory)
  entries : ∀ directory name, (directory = Path.trim path → name ∉ Marker.names instant) →
    (name ∈ after.namesAt directory ↔ name ∈ before.namesAt directory)
  directories : ∀ directory, after.Known directory ↔ before.Known directory

/-- Whichever removals fail, a deletion tries every marker of its instant, tells
whether one of them failed, and takes out just the others. -/
theorem deleteAll_deletes {π : Type} {strike : Strike π} (reported : strike.Within Fault.reported)
    (nonempty : path ≠ "") (valid : instant.Valid) (wellFormed : memory.WellFormed) (plan : π) :
    let run := (deleteAll path instant).run (serve.failing strike).recorded ⟨[], plan, memory⟩
    Deletes path instant memory run.storage.calls run.value run.storage.storage.storage := by
  intro run
  obtain ⟨calls, record, performed⟩ := Script.performs_failing serve reported
    (deleteAll path instant) [] ⟨plan, memory⟩
  obtain ⟨value, stored⟩ := Script.run_recorded (serve.failing strike) (deleteAll path instant) []
    ⟨plan, memory⟩
  rw [← value, ← stored, ← List.nil_append calls, ← record] at performed
  have reports := Fault.reports_reported
  obtain ⟨requests, answered⟩ := performs_deleteAll reports valid performed
  have entries (directory name : String)
      (other : directory = Path.trim path → name ∉ Marker.names instant) :=
    mem_namesAt_of_deleteAll reports wellFormed nonempty valid performed other
  constructor
  case tries =>
    rw [requests, removals, Marker.names, List.map_map]
    rfl
  case honest =>
    refine ⟨_, answered, ?_⟩
    simp [run]
  case stays => exact mem_names_of_deleteAll reports wellFormed nonempty valid performed
  case instants =>
    intro directory other apart
    exact entries directory _ fun _ => name_notMem_names apart
  case entries => exact entries
  case directories => exact fun directory => known_of_removals performed (files_of_requests requests)

/-- Markers of `a` and of an instant whose name is a marker name of `a`, among
entries that are no markers. -/
def crowded : Memory :=
  ⟨[("t/d", ["a.aborted", "a.completed", "a.inflight", "a.inflight.inflight", "notes"]),
    ("u", ["a.inflight"])]⟩

theorem deleteAll_keeps_refused :
    let run := (deleteAll "t/d//" "a").run
      (serve.failing (.refusing "t/d//a.aborted")).recorded ⟨[], 1, crowded⟩
    crowded.WellFormed ∧ run.value = .ok false ∧
      run.storage.storage.storage.namesAt "t/d" = ["a.aborted", "a.inflight.inflight", "notes"] ∧
      Deletes "t/d//" "a" crowded run.storage.calls run.value run.storage.storage.storage := by
  intro run
  have wellFormed : crowded.WellFormed := by
    intro directory
    simp only [namesAt, crowded, List.lookup_cons, List.lookup_nil]
    split
    · decide
    · split <;> decide
  have reported := (Strike.refusing_within "t/d//a.aborted").mono fun _ _ =>
    Fault.reported_of_removals
  exact ⟨wellFormed, by decide +kernel, by decide +kernel,
    deleteAll_deletes reported (by decide) (by decide) wellFormed 1⟩

end MarkerBus.MarkerDirectory
