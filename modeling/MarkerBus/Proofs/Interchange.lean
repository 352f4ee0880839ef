import MarkerBus.Proofs.Reading
import MarkerBus.Proofs.Storage.Mirror
import MarkerBus.Proofs.View

namespace MarkerBus

/-! One storage in place of the other.

On a directory that is its own, a fleet cannot tell a tree of files from a memory:
neither by what the storage answers nor by the order in which it lists.  The path
of the directory is a path of ordinary names, and not of too many of them, since
only so many directories are made at once.
-/

open Storage MarkerDirectory

variable {path : String} {bus : Bus} {fleet : Fleet} {name : String} {action : Action}
  {memory : Memory} {order : Nat → List String → List String}

/-- A storage, and how often it has been listed. -/
structure Storage.Shuffled (σ : Type) where
  storage : σ
  listings : Nat := 0

/-- A backend that lists in an order of its own, which may be another each time. -/
def Storage.Backend.shuffled {σ : Type} (backend : Backend σ)
    (order : Nat → List String → List String) : Backend (Shuffled σ)
  | .list path, state =>
      let reply := backend (.list path) state.storage
      { result := reply.result.map (order state.listings)
        storage := ⟨reply.storage, state.listings + 1⟩
        notices := reply.notices }
  | .create path, state => aside (.create path) state
  | .remove path, state => aside (.remove path) state
  | .probe path, state => aside (.probe path) state
  | .reset path, state => aside (.reset path) state
where
  aside (request : Request) (state : Shuffled σ) : Reply (Shuffled σ) request :=
    let reply := backend request state.storage
    { reply with storage := { state with storage := reply.storage } }

variable {state : Shuffled FileTree}

/-- The markers of the instant have names and paths that a system takes. -/
structure Instant.Fits (path : String) (instant : Instant) : Prop where
  terminated : '\x00' ∉ instant.toList
  name : ∀ phase, (Marker.name ⟨instant, phase⟩).utf8ByteSize ≤ FileTree.nameLimit
  path : ∀ phase, (file path ⟨instant, phase⟩).utf8ByteSize < FileTree.pathLimit

theorem Instant.Fits.suits {instant : Instant} (fits : instant.Fits path)
    (valid : instant.Valid) {phase : Phase} :
    FileTree.Suits path (Marker.name ⟨instant, phase⟩) where
  plain := Marker.plain_name valid
  fitting := ⟨Marker.name_proper valid, fits.name phase⟩
  short := fits.path phase

section

variable (ordinary : FileTree.Ordinary path)
  (few : (FileTree.namesOf path).length ≤ FileTree.makingLimit)

include ordinary few

theorem MarkerDirectory.Changes.serve_eq {request : Request}
    (changes : Changes path (Instant.Fits path) request)
    (mirrors : Mirrors path memory state.storage) :
    (Memory.serve request memory).result = (Directory.serve.shuffled order request state).result ∧
      Mirrors path (Memory.serve request memory).storage
        (Directory.serve.shuffled order request state).storage.storage := by
  cases changes with
  | @create message valid named =>
      have suits : FileTree.Suits path (Marker.name message) := named.suits valid
      rw [Memory.serve_create]
      exact mirrors.create_eq ordinary few suits
  | @remove message valid named =>
      have suits : FileTree.Suits path (Marker.name message) := named.suits valid
      rw [Memory.serve_remove]
      exact mirrors.remove_eq ordinary suits
  | reset =>
      obtain ⟨done, left⟩ := mirrors.reset_eq ordinary few
      exact ⟨done.symm, left⟩

end

section

variable (ordinary : FileTree.Ordinary path)
  (arranges : ∀ count names, (order count names).Perm names)

include ordinary arranges

theorem Bus.load_eq (loads : action = .messages ∨ action = .pending) (own : bus.path = path)
    (mirrors : Mirrors path memory state.storage) :
    let left := (Fleet.actOn bus action).run Memory.serve memory
    let right := (Fleet.actOn bus action).run (Directory.serve.shuffled order) state
    left.value = right.value ∧ Mirrors path left.storage right.storage.storage := by
  subst own
  dsimp only
  obtain ⟨same, listed⟩ := mirrors.probe_eq ordinary
  have probed : (Memory.serve (.probe bus.path) memory).result =
      (Directory.serve.shuffled order (.probe bus.path) state).result := congrArg Except.ok same
  cases there : memory.probe bus.path with
  | false =>
      have missing : (Memory.serve (.probe bus.path) memory).result = .ok false :=
        congrArg Except.ok there
      obtain ⟨left, kept⟩ := run_load_of_missing loads missing
      obtain ⟨right, alike⟩ := run_load_of_missing loads (probed ▸ missing)
      rw [left, right, kept, alike]
      exact ⟨rfl, mirrors⟩
  | true =>
      have found : (Memory.serve (.probe bus.path) memory).result = .ok true :=
        congrArg Except.ok there
      obtain ⟨names, told, members⟩ := listed there
      have lists : (Directory.serve.shuffled order (.list bus.path) state).result =
          .ok (order state.listings names) := by
        simp only [Backend.shuffled, Directory.serve, told, Except.map]
      have whole : (Memory.serve (.list bus.path) memory).result = .ok (memory.names bus.path) := rfl
      obtain ⟨left, kept⟩ := run_load_of_listed loads found whole
      obtain ⟨right, alike⟩ := run_load_of_listed loads (probed ▸ found) lists
      rw [left, right, kept, alike]
      refine ⟨?_, mirrors⟩
      have views : View.resolve ((memory.names bus.path).filterMap Marker.decode) =
          View.resolve ((order state.listings names).filterMap Marker.decode) := by
        refine View.resolve_congr fun message => ?_
        simp only [List.mem_filterMap, (arranges state.listings names).mem_iff, members]
      simp only [showing, views]

end

namespace Fleet

/-- All buses are on this directory, and their instants fit there. -/
structure On (path : String) (fleet : Fleet) : Prop where
  wellFormed : fleet.WellFormed
  home : ∀ name bus, fleet.bus? name = some bus → bus.path = path
  fits : ∀ name bus, fleet.bus? name = some bus → ∀ instant ∈ bus.retained, instant.Fits path

theorem on_empty : ({} : Fleet).On path :=
  ⟨wellFormed_empty, fun _ _ held => by simp at held, fun _ _ held => by simp at held⟩

section

variable (shared : ∀ config, action = .construct config → config.path = path)
  (fits : ∀ act instant, action = Bus.Act.action act instant → instant.Fits path)
  (on : fleet.On path)

include shared fits on

theorem On.act (memory : Memory) (name : String) :
    ((fleet.act name action).run Memory.serve memory).value.2.On path := by
  obtain ⟨calls, performed⟩ :=
    Script.performs_run Memory.serve Fault.none (fleet.act name action) memory
  have acts := Fleet.acts Fault.reports_none on.wellFormed performed
  refine ⟨acts.wellFormed on.wellFormed, fun other bus found => ?_, fun other bus found => ?_⟩
  · rcases acts.bus?_cases found with
      kept | ⟨config, builds, made⟩ | ⟨held, outcome, _, present, _, rfl, _, acted⟩
    · exact on.home other bus kept
    · exact (congrArg Bus.Config.path (Bus.WellFormed.of_config made).2.1).trans
        (shared config builds)
    · exact (congrArg Bus.Config.path acted.config).trans (on.home name held present)
  · intro instant tracked
    rcases acts.bus?_cases found with
      kept | ⟨config, builds, made⟩ | ⟨held, outcome, _, present, _, rfl, _, acted⟩
    · exact on.fits other bus kept instant tracked
    · rw [(Bus.WellFormed.of_config made).2.2.1] at tracked
      cases tracked
    · rcases acted.mem_retained tracked with earlier | starts
      · exact on.fits name held present instant earlier
      · exact fits .start instant starts

omit shared in
theorem On.asks_act (silent : ¬ (action = .messages ∨ action = .pending)) (name : String) :
    (fleet.act name action).Asks (Changes path (Instant.Fits path)) := by
  cases held : fleet.bus? name with
  | none =>
      cases action with
      | construct config =>
          simp only [Fleet.act]
          split <;> exact .done
      | destroy | listen | bootstrap | start | commit | abort | messages | pending | isAborted
      | close =>
          simp only [Fleet.act, held]
          exact .done
  | some bus =>
      have asks : (actOn bus action).Asks (Changes bus.path (Instant.Fits path)) :=
        Bus.asks_actOn_of_not_loads silent fits (on.fits name bus held)
      rw [on.home name bus held] at asks
      cases action with
      | construct config =>
          simp only [Fleet.act]
          split <;> exact .done
      | destroy =>
          simp only [Fleet.act, held]
          exact .done
      | listen | bootstrap | start | commit | abort | messages | pending | isAborted | close =>
          simp only [Fleet.act, held]
          exact asks.bind fun _ => .done

omit shared in
theorem On.act_eq (ordinary : FileTree.Ordinary path)
    (few : (FileTree.namesOf path).length ≤ FileTree.makingLimit)
    (arranges : ∀ count names, (order count names).Perm names) (name : String)
    (mirrors : Mirrors path memory state.storage) :
    let left := (fleet.act name action).run Memory.serve memory
    let right := (fleet.act name action).run (Directory.serve.shuffled order) state
    left.value = right.value ∧ Mirrors path left.storage right.storage.storage := by
  by_cases loads : action = .messages ∨ action = .pending
  · cases held : fleet.bus? name with
    | none =>
        rw [act_of_absent held (by rcases loads with rfl | rfl <;> nofun)]
        exact ⟨rfl, mirrors⟩
    | some bus =>
        obtain ⟨same, mirrored⟩ :=
          Bus.load_eq ordinary arranges loads (on.home name bus held) mirrors
        rw [act_of_held held (by rcases loads with rfl | rfl <;> rfl)]
        simp only [Script.run_bind, Script.run_pure, same, true_and]
        exact mirrored
  · have serves (request : Request) (changes : Changes path (Instant.Fits path) request)
        (memory : Memory) (state : Shuffled FileTree)
        (mirrors : Mirrors path memory state.storage) :
        (Memory.serve request memory).result =
            (Directory.serve.shuffled order request state).result ∧
          Mirrors path (Memory.serve request memory).storage
            (Directory.serve.shuffled order request state).storage.storage :=
      changes.serve_eq ordinary few mirrors
    obtain ⟨same, mirrored⟩ := (on.asks_act fits loads name).run_eq serves mirrors
    exact ⟨same, mirrored⟩

end

/-- On a directory of its own a fleet does on a tree of files what it does in memory. -/
theorem backends_agree (ordinary : FileTree.Ordinary path)
    (few : (FileTree.namesOf path).length ≤ FileTree.makingLimit)
    {actions : List (String × Action)}
    (shared : ∀ name config, (name, .construct config) ∈ actions → config.path = path)
    (fits : ∀ name act instant, (name, Bus.Act.action act instant) ∈ actions →
      instant.Fits path)
    (arranges : ∀ count names, (order count names).Perm names) :
    ((({} : Fleet).run actions).run Memory.serve {}).value =
      ((({} : Fleet).run actions).run (Directory.serve.shuffled order) ⟨{}, 0⟩).value := by
  suffices general : ∀ (fleet : Fleet) (memory : Memory) (state : Shuffled FileTree),
      fleet.On path → Mirrors path memory state.storage →
        ((fleet.run actions).run Memory.serve memory).value =
          ((fleet.run actions).run (Directory.serve.shuffled order) state).value from
    general {} {} ⟨{}, 0⟩ on_empty .empty
  induction actions with
  | nil => exact fun _ _ _ _ _ => rfl
  | cons head rest ih =>
      intro fleet memory state on mirrors
      obtain ⟨name, action⟩ := head
      have builds (config : Bus.Config) (same : action = .construct config) :
          config.path = path :=
        shared name config (same ▸ List.mem_cons_self)
      have fitting (act : Bus.Act) (instant : Instant) (same : action = act.action instant) :
          instant.Fits path :=
        fits name act instant (same ▸ List.mem_cons_self)
      obtain ⟨same, mirrored⟩ := on.act_eq fitting ordinary few arranges name mirrors
      have later := ih
        (fun other config member => shared other config (List.mem_cons_of_mem _ member))
        (fun other act instant member => fits other act instant (List.mem_cons_of_mem _ member))
        _ _ _ (on.act builds fitting memory name) mirrored
      simp only [run, Script.run_bind, Script.run_pure, ← same, later]

/-- Listings that come backwards make no difference. -/
theorem reversed_listings_agree :
    let actions : List (String × Action) :=
      [("c", .construct { base := "t", directory := "d" }), ("c", .start "a"), ("c", .start "b"),
        ("c", .messages)]
    let values := ((({} : Fleet).run actions).run Memory.serve {}).value
    values = ((({} : Fleet).run actions).run
        (Directory.serve.shuffled fun _ names => names.reverse) ⟨{}, 0⟩).value ∧
      values.1.getLast? = some (some (.ok (.messages [⟨"a", .inflight⟩, ⟨"b", .inflight⟩]))) := by
  intro actions values
  have ordinary : FileTree.Ordinary "t/d" :=
    ⟨by decide +kernel, by decide, by decide +kernel, by decide +kernel⟩
  refine ⟨backends_agree ordinary (by decide +kernel) ?_ ?_ fun _ names => names.reverse_perm,
    by decide +kernel⟩
  · intro name config member
    obtain ⟨_, rfl⟩ : name = "c" ∧ config = { base := "t", directory := "d" } := by
      simpa [actions] using member
    decide +kernel
  · intro name act instant member
    have started : instant = "a" ∨ instant = "b" := by
      cases act <;> simp [actions, Bus.Act.action] at member
      exact member.imp And.right And.right
    have free : '\x00' ∉ instant.toList := by
      rcases started with rfl | rfl <;> decide
    have short (phase : Phase) : (Marker.name ⟨instant, phase⟩).utf8ByteSize ≤ 11 ∧
        (file "t/d" ⟨instant, phase⟩).utf8ByteSize ≤ 15 := by
      rcases started with rfl | rfl <;> cases phase <;> decide +kernel
    exact ⟨free, fun phase => (short phase).1.trans (by decide),
      fun phase => (short phase).2.trans_lt (by decide)⟩

theorem start_of_failed {σ : Type} {backend : Backend σ} {storage : σ} {instant : Instant}
    (valid : instant.Valid) {report : Report}
    (failed : (backend (.create (file bus.path ⟨instant, .inflight⟩)) storage).result =
      .error (.reported report)) :
    ((actOn bus (.start instant)).run backend storage).value.result =
      .error (.publishing .start instant report) := by
  have encoded : Marker.encode ⟨instant, .inflight⟩ = .ok (Marker.name ⟨instant, .inflight⟩) :=
    Marker.encode_eq_ok valid
  have created : (backend (.create (Path.join bus.path (Marker.name ⟨instant, .inflight⟩)))
      storage).result = .error (.reported report) := failed
  simp only [actOn, Bus.start, Bus.publish, Bus.Act.phase, append, encoded, Script.create,
    Script.run_bind, Script.run, created]
  rfl

/-- Beyond the limit the first start tells the two apart. -/
theorem backends_differ {config : Bus.Config} (valid : config.Valid)
    (ordinary : FileTree.Ordinary config.path)
    (many : FileTree.makingLimit < (FileTree.namesOf config.path).length) {instant : Instant}
    (named : instant.Valid) (fits : instant.Fits config.path) :
    let actions := [(name, Action.construct config), (name, Action.start instant)]
    ((({} : Fleet).run actions).run Memory.serve {}).value ≠
      ((({} : Fleet).run actions).run (Directory.serve.shuffled order) ⟨{}, 0⟩).value := by
  intro actions same
  obtain ⟨bus, made⟩ : ∃ bus, Bus.ofConfig config = .ok bus := ⟨_, if_pos valid⟩
  obtain ⟨wellFormed, own, _⟩ := Bus.WellFormed.of_config made
  have path : bus.path = config.path := congrArg Bus.Config.path own
  have answers {σ : Type} (backend : Backend σ) (storage : σ) :
      ((({} : Fleet).run actions).run backend storage).value.1 =
        [some (.ok (.path bus.path)),
          some ((actOn bus (.start instant)).run backend storage).value.result] := by
    simp [actions, run, act, made, Script.run_bind]
  have inMemory : ((actOn bus (.start instant)).run Memory.serve {}).value.result =
      .ok .nothing := by
    obtain ⟨calls, performed⟩ :=
      Script.performs_run Memory.serve Fault.none (actOn bus (.start instant)) {}
    have acts : Bus.Acts Fault.none bus {} (Bus.Act.action .start instant) calls _ _ :=
      Bus.acts Fault.reports_none wellFormed rfl performed
    exact acts.answers wellFormed (fun _ _ => Memory.not_known_empty) named
  have suits : FileTree.Suits config.path (Marker.name ⟨instant, .inflight⟩) := fits.suits named
  have onTree : ((actOn bus (.start instant)).run (Directory.serve.shuffled order)
      ⟨{}, 0⟩).value.result = .error (.publishing .start instant
        ⟨.createDirectory, config.path, .nameTooLong⟩) := by
    refine start_of_failed named ?_
    rw [path]
    exact Directory.create_of_many ordinary suits FileTree.blank_empty many
  have first := congrArg Prod.fst same
  rw [answers, answers, inMemory, onTree] at first
  cases first

/-- So many directories, one in the other, each of one letter. -/
def nested : Nat → List Char
  | 0 => ['a']
  | count + 1 => 'a' :: '/' :: nested count

theorem pieces_nested (count : Nat) :
    FileTree.pieces (nested count) = List.replicate (count + 1) ['a'] := by
  induction count with
  | zero => rfl
  | succ count ih =>
      have split := FileTree.pieces_append_slash ['a'] (nested count)
      rw [ih] at split
      exact split

theorem nul_notMem_nested (count : Nat) : '\x00' ∉ nested count := by
  induction count with
  | zero => decide
  | succ count ih => simp [nested, ih]

theorem utf8ByteSize_nested (count : Nat) :
    (String.ofList (nested count)).utf8ByteSize = 2 * count + 1 := by
  induction count with
  | zero => rfl
  | succ count ih =>
      simp only [nested, String.ofList_cons, String.utf8ByteSize_append,
        String.utf8ByteSize_singleton, ih]
      have sizes : Char.utf8Size 'a' = 1 ∧ Char.utf8Size '/' = 1 := ⟨rfl, rfl⟩
      omega

theorem ordinary_nested {count : Nat} (short : 2 * count + 1 < FileTree.pathLimit) :
    FileTree.Ordinary (String.ofList (nested count)) ∧
      (FileTree.namesOf (String.ofList (nested count))).length = count + 1 := by
  have pieces : FileTree.pieces (String.ofList (nested count)).toList =
      List.replicate (count + 1) ['a'] := by
    rw [String.toList_ofList, pieces_nested]
  have names : FileTree.namesOf (String.ofList (nested count)) =
      List.replicate (count + 1) "a" := by
    rw [FileTree.namesOf, pieces, List.filter_replicate_of_pos rfl, List.map_replicate]
  refine ⟨⟨fun piece member => ?_, ?_, fun name member => ?_, ?_⟩, by simp [names]⟩
  · rw [pieces] at member
    rw [List.eq_of_mem_replicate member]
    decide
  · rw [String.toList_ofList]
    exact nul_notMem_nested count
  · rw [names] at member
    rw [List.eq_of_mem_replicate member]
    decide
  · rwa [utf8ByteSize_nested]

theorem path_nested (count : Nat) :
    ({ base := "a", directory := String.ofList (nested count) } : Bus.Config).path =
      String.ofList (nested (count + 1)) := by
  rw [← String.toList_inj]
  simp [Bus.Config.path, nested]

theorem fits_short (short : path.utf8ByteSize < 4000) : Instant.Fits path "i" := by
  have name (phase : Phase) : (Marker.name ⟨"i", phase⟩).utf8ByteSize ≤ 11 := by
    cases phase <;> decide +kernel
  refine ⟨by decide, fun phase => (name phase).trans (by decide), fun phase => ?_⟩
  calc (file path ⟨"i", phase⟩).utf8ByteSize
      ≤ path.utf8ByteSize + 1 + (Marker.name ⟨"i", phase⟩).utf8ByteSize :=
        Path.utf8ByteSize_join_le _ _
    _ < 4000 + 1 + 11 := by
        have least := name phase
        omega
    _ < FileTree.pathLimit := by decide

/-- The limit on the names is needed. -/
theorem backends_disagree : ¬ ∀ path : String, FileTree.Ordinary path →
    ∀ actions : List (String × Action),
      (∀ name config, (name, .construct config) ∈ actions → config.path = path) →
      (∀ name act instant, (name, Bus.Act.action act instant) ∈ actions → instant.Fits path) →
      ∀ order : Nat → List String → List String, (∀ count names, (order count names).Perm names) →
        ((({} : Fleet).run actions).run Memory.serve {}).value =
          ((({} : Fleet).run actions).run (Directory.serve.shuffled order) ⟨{}, 0⟩).value := by
  intro agree
  generalize spelt : nested 999 = deep
  let config : Bus.Config := { base := "a", directory := String.ofList deep }
  have valid : config.Valid := by
    refine ⟨show "a" ≠ "" by decide, fun empty => ?_, show 1 ≤ 3 by decide,
      show '/' ∉ "".toList by decide⟩
    rw [← String.toList_inj, String.toList_ofList, ← spelt, nested] at empty
    cases empty
  have path : config.path = String.ofList (nested 1000) := by
    rw [← path_nested 999, spelt]
  have deepest : 2 * 1000 + 1 < FileTree.pathLimit := by decide
  obtain ⟨ordinary, names⟩ := ordinary_nested deepest
  have size : config.path.utf8ByteSize = 2 * 1000 + 1 := by
    rw [path, utf8ByteSize_nested]
  rw [← path] at ordinary names
  have fits : Instant.Fits config.path "i" := fits_short (by rw [size]; decide)
  refine backends_differ valid ordinary (by rw [names]; decide) (by decide) fits
    (agree config.path ordinary [("b", .construct config), ("b", .start "i")] ?_ ?_
      (fun _ names => names) fun _ names => .refl names)
  · intro name other member
    rcases List.mem_cons.mp member with same | later
    · cases same
      rfl
    · cases List.mem_singleton.mp later
  · intro name act instant member
    rcases List.mem_cons.mp member with same | later
    · cases act <;> cases same
    · have started := (Prod.mk.inj (List.mem_singleton.mp later)).2
      obtain ⟨_, rfl⟩ : act = .start ∧ instant = "i" := Bus.Act.action_injective started
      exact fits

end Fleet

end MarkerBus
