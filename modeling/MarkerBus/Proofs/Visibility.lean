import MarkerBus.Proofs.Reading
import MarkerBus.Proofs.Storage.Directory
import MarkerBus.Proofs.View

namespace MarkerBus

open Storage MarkerDirectory

variable {bus reader : Bus} {act : Bus.Act} {instant : Instant}

/-- The storage that is left by some requests. -/
def Storage.Backend.after {σ : Type} (backend : Backend σ) (storage : σ)
    (requests : List Request) : σ :=
  requests.foldl (fun storage request => (backend request storage).storage) storage

def FileTree.isRegularAt (tree : FileTree) (path : String) : Bool :=
  match tree.stat path with
  | .ok (_, entry) => entry.isRegular
  | .error _ => false

theorem Storage.Directory.plain_after {tree : FileTree} (plain : tree.Plain)
    (requests : List Request) : (Directory.serve.after tree requests).Plain := by
  induction requests generalizing tree with
  | nil => exact plain
  | cons request rest ih => exact ih (plain_serve plain request)

namespace Bus

/-- A load on the storage shows the instant, at the phase or above. -/
def Sees {σ : Type} (reader : Bus) (backend : Backend σ) (storage : σ) (instant : Instant)
    (phase : Phase) : Prop :=
  ∃ view, ((Fleet.actOn reader .messages).run backend storage).value.result =
      .ok (.messages view) ∧
    ∃ message ∈ view, message.instant = instant ∧ phase.rank ≤ message.phase.rank

theorem sees_of_listed {σ : Type} {backend : Backend σ} {storage : σ} {names : List String}
    (found : (backend (.probe reader.path) storage).result = .ok true)
    (told : (backend (.list reader.path) (backend (.probe reader.path) storage).storage).result =
      .ok names)
    (valid : instant.Valid) {phase least : Phase} (enough : least.rank ≤ phase.rank)
    (listed : Marker.name ⟨instant, phase⟩ ∈ names) :
    reader.Sees backend storage instant least := by
  obtain ⟨shown, _⟩ := run_load_of_listed (.inl rfl) found told
  have recorded : (⟨instant, phase⟩ : Message) ∈ names.filterMap Marker.decode :=
    List.mem_filterMap.mpr ⟨_, listed, Marker.decode_eq_some_iff.mpr ⟨valid, rfl⟩⟩
  obtain ⟨held, visible, same, above⟩ := View.exists_mem_resolve recorded
  exact ⟨_, by rw [shown]; rfl, held, visible, same, le_trans enough above⟩

/-- What is committed or aborted is created. -/
theorem created_of_finished {σ : Type} {backend : Backend σ} {storage : σ} (finished : act ≠ .start)
    (published : ((Fleet.actOn bus (act.action instant)).run backend storage).value.result =
      .ok .nothing) :
    instant.Valid ∧ ∃ creation,
      (backend (.create (file bus.path ⟨instant, act.phase⟩)) storage).result = .ok creation ∧
      ((Fleet.actOn bus (act.action instant)).run backend storage).storage =
        (backend (.create (file bus.path ⟨instant, act.phase⟩)) storage).storage := by
  have script : Fleet.actOn bus (act.action instant) = (do
      let outcome ← bus.publish act instant
      return ⟨outcome.result.map fun () => .nothing, outcome.bus⟩) := by
    cases act with
    | start => exact absurd rfl finished
    | commit | abort => rfl
  rw [script] at published ⊢
  cases checked : instant.validate with
  | error defect =>
      simp only [publish, append, Marker.encode, checked] at published
      cases published
  | ok =>
      have encoded : Marker.encode ⟨instant, act.phase⟩ = .ok (Marker.name ⟨instant, act.phase⟩) := by
        simp only [Marker.encode, checked]
        rfl
      refine ⟨Instant.validate_eq_ok_iff.mp checked, ?_⟩
      rcases reply : backend (.create (file bus.path ⟨instant, act.phase⟩)) storage with
        ⟨result, after, notices⟩
      have served : backend (.create (Path.join bus.path (Marker.name ⟨instant, act.phase⟩)))
          storage = ⟨result, after, notices⟩ := reply
      simp only [publish, append, encoded, Script.create, Script.run_bind, Script.run, served]
        at published ⊢
      cases result with
      | error failure => cases failure <;> cases published
      | ok creation =>
          refine ⟨creation, rfl, ?_⟩
          cases creation <;> rfl

theorem sees_of_created (nonempty : reader.path ≠ "") (valid : instant.Valid)
    {before after : Memory} {creation : Creation} {phase : Phase}
    (created : before.create (file reader.path ⟨instant, phase⟩) = (.ok creation, after)) :
    reader.Sees Memory.serve after instant phase := by
  have placed : Memory.place (file reader.path ⟨instant, phase⟩) =
      (Path.trim reader.path, Marker.name ⟨instant, phase⟩) := place_file nonempty valid
  have listed : Marker.name ⟨instant, phase⟩ ∈ after.names reader.path := by
    rw [Memory.names, Memory.mem_namesAt_create created, placed]
    exact .inl rfl
  have probed : after.probe reader.path = true :=
    decide_eq_true (.inl (Memory.isDirectory_iff.mpr (.of_mem listed)))
  exact sees_of_listed (congrArg Except.ok probed) rfl valid (le_refl _) listed

theorem sees_of_regular {tree : FileTree} (plain : tree.Plain) {directory : Location}
    (stated : tree.stat reader.path = .ok (directory, .directory)) (named : instant.Valid)
    {phase least : Phase} (enough : least.rank ≤ phase.rank) {entry : FileTree.Entry}
    (held : tree.entry? (directory.child (Marker.name ⟨instant, phase⟩)) = some entry)
    (regular : entry.isRegular) : reader.Sees Directory.serve tree instant least := by
  obtain ⟨names, told, listed⟩ := Directory.list_of_stat stated
  have probed : (Directory.serve (.probe reader.path) tree).result = .ok true := by
    simp only [Directory.serve, FileTree.existsAt, stated]
    rfl
  exact sees_of_listed probed told named enough
    ((listed _).mpr ⟨entry, plain.mem_children_iff.mpr held, regular⟩)

theorem sees_of_answered (nonempty : reader.path ≠ "") (valid : instant.Valid)
    {before after : FileTree} (plain : before.Plain) {creation : Creation} {phase : Phase}
    (answered : (Directory.create before (file reader.path ⟨instant, phase⟩)).result = .ok creation)
    (left : (Directory.create before (file reader.path ⟨instant, phase⟩)).storage = after)
    (clear : after.isDirectoryAt (file reader.path ⟨instant, phase⟩) = false ∨
      ∃ higher : Phase, phase.rank < higher.rank ∧
        after.isRegularAt (file reader.path ⟨instant, higher⟩)) :
    reader.Sees Directory.serve after instant phase := by
  have named (phase : Phase) : Path.Plain (Marker.name ⟨instant, phase⟩) := Marker.plain_name valid
  have proper (phase : Phase) :
      Marker.name ⟨instant, phase⟩ ≠ "." ∧ Marker.name ⟨instant, phase⟩ ≠ ".." :=
    Marker.name_proper valid
  have formed := Directory.plain_create plain (file reader.path ⟨instant, phase⟩)
  obtain ⟨directory, entry, houses, stated, held, itself⟩ :=
    Directory.entry_of_create plain nonempty (named phase) (proper phase) answered
  unfold file at *
  rw [left] at formed houses stated held itself
  rcases clear with free | ⟨higher, above, present⟩
  · refine sees_of_regular formed stated valid (le_refl _) held ?_
    cases entry with
    | regular => rfl
    | link target => exact absurd held (formed.entry?_ne_link _ target)
    | directory =>
        rw [FileTree.isDirectoryAt, itself] at free
        cases free
  · unfold FileTree.isRegularAt at present
    split at present
    · rename_i found
      have inside := formed.entry?_of_stat_join nonempty (named higher) (proper higher) houses found
      exact sees_of_regular formed stated valid above.le inside present
    · cases present

theorem not_sees_of_fileless {tree : FileTree}
    (fileless : ∀ known ∈ tree.entries, known.2.isRegular = false) (phase : Phase) :
    ¬ reader.Sees Directory.serve tree instant phase := by
  obtain ⟨names, told, listed⟩ := Directory.list_answers tree reader.path
  have nothing : names = [] := by
    refine List.eq_nil_iff_forall_not_mem.mpr fun name given => ?_
    obtain ⟨known, member, regular⟩ := listed name given
    rw [fileless known member] at regular
    cases regular
  subst nothing
  intro sees
  obtain ⟨view, shown, message, member, _⟩ := sees
  cases probed : (Directory.serve (.probe reader.path) tree).result with
  | error failure => cases probed
  | ok found =>
      cases found with
      | false =>
          rw [(run_load_of_missing (.inl rfl) probed).1] at shown
          cases shown
          cases member
      | true =>
          rw [(run_load_of_listed (.inl rfl) probed told).1] at shown
          cases shown
          cases member

/-- What is committed or aborted is visible to the next load, unless a directory is
in the way.  A path for a system has no NUL, where the system would stop reading. -/
theorem publication_is_visible (valid : bus.config.Valid) (shared : reader.path = bus.path)
    (finished : act ≠ .start) (instant : Instant) (requests : List Request) :
    (let write := (Fleet.actOn bus (act.action instant)).run Memory.serve
        (Memory.serve.after {} requests)
     write.value.result = .ok .nothing →
        reader.Sees Memory.serve write.storage instant act.phase) ∧
    ∀ tree : FileTree, tree.Plain → '\x00' ∉ (file bus.path ⟨instant, act.phase⟩).toList →
      let write := (Fleet.actOn bus (act.action instant)).run Directory.serve
        (Directory.serve.after tree requests)
      write.value.result = .ok .nothing →
        (write.storage.isDirectoryAt (file bus.path ⟨instant, act.phase⟩) = false ∨
          ∃ higher : Phase, act.phase.rank < higher.rank ∧
            write.storage.isRegularAt (file bus.path ⟨instant, higher⟩)) →
        reader.Sees Directory.serve write.storage instant act.phase := by
  have nonempty : reader.path ≠ "" := shared ▸ valid.path_ne_empty
  rw [← shared]
  constructor
  · intro write published
    obtain ⟨named, creation, created, left⟩ := created_of_finished finished published
    simp only [← shared, Memory.serve_create] at created left
    exact sees_of_created nonempty named (Prod.ext created left.symm)
  · intro tree plain _ write published clear
    obtain ⟨named, creation, created, left⟩ := created_of_finished finished published
    rw [← shared] at created left
    have formed := Directory.plain_after plain requests
    exact sees_of_answered nonempty named formed created left.symm clear

/-- A commit of an instant that has no marker yet, and of one whose marker is there. -/
theorem commit_is_visible :
    let bus : Bus := { config := { base := "t", directory := "d" }, retention := { limit := 3 } }
    let requests : List Request := [.reset "t/d", .create "t/d/b.completed"]
    let inMemory (instant : Instant) :=
      (Fleet.actOn bus (.commit instant)).run Memory.serve (Memory.serve.after {} requests)
    let inDirectory (instant : Instant) :=
      (Fleet.actOn bus (.commit instant)).run Directory.serve (Directory.serve.after {} requests)
    bus.Sees Memory.serve (inMemory "a").storage "a" .completed ∧
      bus.Sees Directory.serve (inDirectory "a").storage "a" .completed ∧
      (inMemory "b").storage = Memory.serve.after {} requests ∧
      bus.Sees Memory.serve (inMemory "b").storage "b" .completed ∧
      bus.Sees Directory.serve (inDirectory "b").storage "b" .completed := by
  intro bus requests inMemory inDirectory
  have valid : bus.config.Valid := by decide
  have other : Act.commit ≠ .start := nofun
  have written := publication_is_visible valid rfl other "a" requests
  have present := publication_is_visible valid rfl other "b" requests
  refine ⟨written.1 (by decide +kernel), ?_, by decide +kernel, present.1 (by decide +kernel), ?_⟩
  · exact written.2 {} FileTree.plain_empty (by decide) (by decide +kernel) (.inl (by decide +kernel))
  · exact present.2 {} FileTree.plain_empty (by decide) (by decide +kernel) (.inl (by decide +kernel))

/-- A directory in the place of the marker hides that it was written. -/
theorem publication_may_be_hidden :
    ¬ ∀ (bus reader : Bus) (act : Act) (instant : Instant) (requests : List Request),
      bus.config.Valid → reader.path = bus.path → act ≠ .start →
        let write := (Fleet.actOn bus (act.action instant)).run Directory.serve
          (Directory.serve.after {} requests)
        write.value.result = .ok .nothing →
          reader.Sees Directory.serve write.storage instant act.phase := by
  intro visible
  let bus : Bus := { config := { base := "t", directory := "d" }, retention := { limit := 3 } }
  have sees := visible bus bus .commit "a" [.reset "t/d/a.completed"] (by decide) rfl nofun
    (by decide +kernel)
  refine not_sees_of_fileless ?_ _ sees
  decide +kernel

end Bus

end MarkerBus
