import MarkerBus.Proofs.Reading
import MarkerBus.Proofs.View

namespace MarkerBus

open Storage

variable {σ τ : Type} {names : List String} {instant : Instant}

/-- The storage finds the directory and lists these names in it. -/
structure Storage.Backend.Lists (backend : Backend σ) (storage : σ) (path : String)
    (names : List String) : Prop where
  found : (backend (.probe path) storage).result = .ok true
  told : (backend (.list path) (backend (.probe path) storage).storage).result = .ok names

/-- A memory lists the names of a directory that it has. -/
theorem Storage.Memory.lists_of_isDirectory {memory : Memory} {path : String}
    (there : memory.isDirectory path = true) (told : memory.names path = names) :
    Memory.serve.Lists memory path names where
  found := congrArg Except.ok (probe_iff.mpr (.inl there))
  told := congrArg Except.ok told

namespace View

/-- The view that a listing resolves to. -/
def ofNames (names : List String) : View :=
  resolve (names.filterMap Marker.decode)

theorem mem_ofNames {phase : Phase} : ⟨instant, phase⟩ ∈ ofNames names ↔
    instant.Valid ∧ Marker.name ⟨instant, phase⟩ ∈ names ∧
      ∀ higher : Phase, phase.rank < higher.rank → Marker.name ⟨instant, higher⟩ ∉ names := by
  rw [ofNames, mem_resolve_iff, Highest, Marker.mem_filterMap_decode, and_assoc]
  refine and_congr_right fun valid => and_congr_right fun _ => ?_
  constructor
  · intro highest higher outranks listed
    have shown : (⟨instant, higher⟩ : Message) ∈ names.filterMap Marker.decode :=
      Marker.mem_filterMap_decode.mpr ⟨valid, listed⟩
    exact absurd (highest _ shown rfl) (not_le.mpr outranks)
  · rintro highest ⟨other, phase⟩ shown rfl
    exact not_lt.mp fun outranks =>
      highest phase outranks (Marker.mem_filterMap_decode.mp shown).2

theorem pending?_ofNames_eq_some_iff : (ofNames names).pending? = some instant ↔
    (∃ phase, instant.Valid ∧ Marker.name ⟨instant, phase⟩ ∈ names) ∧
      Marker.name ⟨instant, .completed⟩ ∉ names ∧
      ∀ other phase, Instant.Valid other → Marker.name ⟨other, phase⟩ ∈ names →
        other ≤ instant := by
  simp only [ofNames, pending?_resolve_eq_some_iff, Marker.mem_filterMap_decode]
  constructor
  · rintro ⟨⟨⟨_, phase⟩, ⟨valid, listed⟩, rfl⟩, greatest, incomplete⟩
    exact ⟨⟨phase, valid, listed⟩, fun complete => incomplete ⟨valid, complete⟩,
      fun other phase named member => greatest ⟨other, phase⟩ ⟨named, member⟩⟩
  · rintro ⟨⟨phase, valid, listed⟩, incomplete, greatest⟩
    exact ⟨⟨⟨instant, phase⟩, ⟨valid, listed⟩, rfl⟩,
      fun message shown => greatest message.instant message.phase shown.1 shown.2,
      fun complete => incomplete complete.2⟩

theorem isAborted_ofNames : (ofNames names).isAborted instant = true ↔
    instant.Valid ∧ Marker.name ⟨instant, .aborted⟩ ∈ names ∧
      Marker.name ⟨instant, .completed⟩ ∉ names := by
  rw [isAborted_iff, mem_ofNames]
  refine and_congr_right fun _ => and_congr_right fun _ => ?_
  constructor
  · intro highest
    exact highest .completed (by decide)
  · intro incomplete higher outranks
    cases higher with
    | completed => exact incomplete
    | inflight | aborted => simp [Phase.rank] at outranks

theorem ofNames_perm {shuffled : List String} (same : shuffled.Perm names) :
    ofNames shuffled = ofNames names :=
  resolve_congr fun _ => (same.filterMap Marker.decode).mem_iff

end View

namespace Bus

variable {bus : Bus} {action : Action} {backend : Backend σ} {storage : σ}

theorem run_load_of_lists (loads : action = .messages ∨ action = .pending)
    (lists : backend.Lists storage bus.path names) :
    ((Fleet.actOn bus action).run backend storage).value =
      bus.showing action (names.filterMap Marker.decode) :=
  (run_load_of_listed loads lists.found lists.told).1

theorem isAborted_of_lists (loads : action = .messages ∨ action = .pending)
    (lists : backend.Lists storage bus.path names) (instant : Instant) :
    ((Fleet.actOn bus action).run backend storage).value.bus.isAborted instant =
      .ok ((View.ofNames names).isAborted instant) := by
  rw [run_load_of_lists loads lists]
  rfl

/-- A load shows every instant that has a marker among the names with its highest
phase; the pending instant is the greatest one, if it is not complete; an instant
is aborted that has a marker of an abort and none of a completion.  The order of
the names does not matter. -/
theorem load_shows_names (lists : backend.Lists storage bus.path names) :
    let run (action : Action) := ((Fleet.actOn bus action).run backend storage).value
    (∃ view : View, (run .messages).result = .ok (.messages view) ∧
      (view.Pairwise fun left right => left.instant < right.instant) ∧
      ∀ instant phase, ⟨instant, phase⟩ ∈ view ↔
        instant.Valid ∧ Marker.name ⟨instant, phase⟩ ∈ names ∧
          ∀ higher : Phase, phase.rank < higher.rank →
            Marker.name ⟨instant, higher⟩ ∉ names) ∧
    (∃ instant?, (run .pending).result = .ok (.pending instant?) ∧
      ∀ instant, instant? = some instant ↔
        (∃ phase, instant.Valid ∧ Marker.name ⟨instant, phase⟩ ∈ names) ∧
          Marker.name ⟨instant, .completed⟩ ∉ names ∧
          ∀ other phase, Instant.Valid other → Marker.name ⟨other, phase⟩ ∈ names →
            other ≤ instant) ∧
    (∀ action, action = .messages ∨ action = .pending → ∀ instant, ∃ aborted,
      (run action).bus.isAborted instant = .ok aborted ∧
        (aborted = true ↔ instant.Valid ∧ Marker.name ⟨instant, .aborted⟩ ∈ names ∧
          Marker.name ⟨instant, .completed⟩ ∉ names)) ∧
    ∀ (τ : Type) (other : Backend τ) (state : τ) (shuffled : List String),
      shuffled.Perm names → other.Lists state bus.path shuffled →
        ∀ action, action = .messages ∨ action = .pending →
          ((Fleet.actOn bus action).run other state).value = run action := by
  intro run
  have shows (action : Action) (loads : action = .messages ∨ action = .pending) :
      run action = bus.showing action (names.filterMap Marker.decode) :=
    run_load_of_lists loads lists
  refine ⟨⟨View.ofNames names, ?_, View.ascending_resolve _, fun _ _ => View.mem_ofNames⟩,
    ⟨(View.ofNames names).pending?, ?_, fun _ => View.pending?_ofNames_eq_some_iff⟩,
    fun action loads instant => ?_, fun τ other state shuffled same told action loads => ?_⟩
  · rw [shows _ (.inl rfl)]
    rfl
  · rw [shows _ (.inr rfl)]
    rfl
  · exact ⟨_, isAborted_of_lists loads lists instant, View.isAborted_ofNames⟩
  · have views := View.ofNames_perm same
    simp only [View.ofNames] at views
    rw [shows action loads, run_load_of_lists loads told]
    simp only [showing, views]

def reader : Bus :=
  { config := { base := "t", directory := "d" }, retention := { limit := 3 } }

/-- A name without an instant is no marker: the empty instant is never aborted. -/
theorem nameless_abort_is_stray :
    let memory := (({} : Memory).create "t/d/.aborted").2
    Memory.serve.Lists memory reader.path [".aborted"] ∧
      Marker.name ⟨"", .aborted⟩ ∈ [".aborted"] ∧ Marker.name ⟨"", .completed⟩ ∉ [".aborted"] ∧
      ((Fleet.actOn reader .messages).run Memory.serve memory).value.bus.isAborted "" =
        .ok false := by
  intro memory
  have lists : Memory.serve.Lists memory reader.path [".aborted"] :=
    Memory.lists_of_isDirectory (by decide +kernel) (by decide +kernel)
  refine ⟨lists, by decide, by decide, ?_⟩
  rw [isAborted_of_lists (.inl rfl) lists]
  exact congrArg Except.ok (by decide +kernel)

/-- Markers of an instant and of one that begins like it, among names that are none. -/
def mixedNames : List String :=
  ["a.b.aborted", ".aborted", "a.completed", "notes", "a.b.inflight", "a.aborted"]

theorem mixed_names_are_shown :
    let run (names : List String) (action : Action) :=
      ((Fleet.actOn reader action).run Memory.serve ⟨[("t/d", names)]⟩).value
    Memory.serve.Lists ⟨[("t/d", mixedNames)]⟩ reader.path mixedNames ∧
      (∃ view : View, (run mixedNames .messages).result = .ok (.messages view) ∧
        ⟨"a", .completed⟩ ∈ view ∧ ⟨"a", .aborted⟩ ∉ view) ∧
      (run mixedNames .pending).result = .ok (.pending (some "a.b")) ∧
      (run mixedNames .pending).bus.isAborted "a.b" = .ok true ∧
      run mixedNames.reverse .messages = run mixedNames .messages := by
  intro run
  have lists : Memory.serve.Lists ⟨[("t/d", mixedNames)]⟩ reader.path mixedNames :=
    Memory.lists_of_isDirectory (by decide +kernel) (by decide +kernel)
  have told : Memory.serve.Lists ⟨[("t/d", mixedNames.reverse)]⟩ reader.path mixedNames.reverse :=
    Memory.lists_of_isDirectory (by decide +kernel) (by decide +kernel)
  obtain ⟨⟨view, answered, _, shown⟩, ⟨instant?, found, pending⟩, aborted, shuffles⟩ :=
    load_shows_names lists
  refine ⟨lists, ⟨view, answered, ?_, ?_⟩, ?_, ?_, ?_⟩
  · refine (shown _ _).mpr ⟨by decide +kernel, by decide +kernel, fun higher above => ?_⟩
    exact absurd above (by cases higher <;> decide)
  · intro shows
    exact ((shown _ _).mp shows).2.2 .completed (by decide) (by decide +kernel)
  · have last : instant? = some "a.b" := by
      refine (pending _).mpr ⟨⟨.aborted, by decide +kernel⟩, by decide +kernel, ?_⟩
      intro other phase valid listed
      have decoded : (⟨other, phase⟩ : Message) ∈ mixedNames.filterMap Marker.decode :=
        Marker.mem_filterMap_decode.mpr ⟨valid, listed⟩
      have greatest : ∀ message ∈ mixedNames.filterMap Marker.decode, message.instant ≤ "a.b" := by
        decide +kernel
      exact greatest _ decoded
    rw [found, last]
  · obtain ⟨flag, same, flagged⟩ := aborted .pending (.inr rfl) "a.b"
    rw [same, flagged.mpr (by decide +kernel)]
  · exact shuffles _ Memory.serve _ _ (List.reverse_perm mixedNames) told _ (.inl rfl)

end Bus

end MarkerBus
