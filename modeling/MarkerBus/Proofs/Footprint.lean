import MarkerBus.Proofs.Fleet

namespace MarkerBus

/-! The calls that an operation can make, whatever the storage answers.

`Asks` bounds the calls of a script on every path through it.  A bus makes calls
only on its own directory and on the markers of valid instants in it.  A script
so bounded depends on no more of the storage than these calls do, and changes no
more of it.
-/

open Storage

namespace Storage.Script

variable {σ τ α β : Type} {allowed : Request → Prop} {base : Backend σ} {other : Backend τ}

/-- Every call that the script can make is allowed. -/
inductive Asks (allowed : Request → Prop) : Script α → Prop where
  | done {value : α} : Asks allowed (.done value)
  | tell {notice : Notice} {rest : Script α} (told : Asks allowed rest) :
      Asks allowed (.tell notice rest)
  | ask {request : Request} {next : Except Failure request.Answer → Script α}
      (permitted : allowed request) (answered : ∀ answer, Asks allowed (next answer)) :
      Asks allowed (.ask request next)

theorem asks_request {request : Request} (permitted : allowed request) :
    (Script.ask request .done).Asks allowed :=
  .ask permitted fun _ => .done

theorem Asks.bind {script : Script α} {next : α → Script β} (first : script.Asks allowed)
    (rest : ∀ value, (next value).Asks allowed) : (script >>= next).Asks allowed := by
  change (script.bind next).Asks allowed
  induction first with
  | done => exact rest _
  | tell _ ih => exact .tell ih
  | ask permitted _ ih => exact .ask permitted ih

theorem Asks.mono {weaker : Request → Prop} {script : Script α} (asks : script.Asks allowed)
    (le : ∀ request, allowed request → weaker request) : script.Asks weaker := by
  induction asks with
  | done => exact .done
  | tell _ ih => exact .tell ih
  | ask permitted _ ih => exact .ask (le _ permitted) ih

theorem bind_assoc {γ : Type} (script : Script α) (first : α → Script β)
    (second : β → Script γ) :
    script >>= first >>= second = script >>= fun value => first value >>= second := by
  change (script.bind first).bind second = script.bind fun value => (first value).bind second
  induction script with
  | done => rfl
  | tell notice _ ih => exact congrArg (Script.tell notice) ih
  | ask request _ ih => exact congrArg (Script.ask request) (funext ih)

/-- Two storages that no allowed call tells apart yield the same value. -/
theorem Asks.run_eq {script : Script α} {related : σ → τ → Prop} (asks : script.Asks allowed)
    (serves : ∀ request, allowed request → ∀ left right, related left right →
      (base request left).result = (other request right).result ∧
        related (base request left).storage (other request right).storage)
    {left : σ} {right : τ} (agree : related left right) :
    (script.run base left).value = (script.run other right).value ∧
      related (script.run base left).storage (script.run other right).storage := by
  induction asks generalizing left right with
  | done => exact ⟨rfl, agree⟩
  | tell _ ih => exact ih agree
  | @ask request next permitted _ ih =>
      obtain ⟨same, after⟩ := serves request permitted left right agree
      simp only [run, same]
      exact ih _ after

theorem Asks.run_keeps {script : Script α} {keeps : σ → Prop} (asks : script.Asks allowed)
    (serves : ∀ request, allowed request → ∀ storage, keeps storage →
      keeps (base request storage).storage)
    {storage : σ} (kept : keeps storage) : keeps (script.run base storage).storage := by
  induction asks generalizing storage with
  | done => exact kept
  | tell _ ih => exact ih kept
  | ask permitted _ ih => exact ih _ (serves _ permitted _ kept)

end Storage.Script

namespace MarkerDirectory

variable {path : String} {message : Message} {instant : Instant} {known : Instant → Prop}

/-- A call on the directory, or on a marker in it. -/
inductive Local (path : String) : Request → Prop where
  | create {message : Message} (valid : message.instant.Valid) :
      Local path (.create (file path message))
  | remove {message : Message} (valid : message.instant.Valid) :
      Local path (.remove (file path message))
  | list : Local path (.list path)
  | probe : Local path (.probe path)
  | reset : Local path (.reset path)

/-- A call that changes the directory or a marker of a known instant in it. -/
inductive Changes (path : String) (known : Instant → Prop) : Request → Prop where
  | create {message : Message} (valid : message.instant.Valid) (named : known message.instant) :
      Changes path known (.create (file path message))
  | remove {message : Message} (valid : message.instant.Valid) (named : known message.instant) :
      Changes path known (.remove (file path message))
  | reset : Changes path known (.reset path)

/-- A call that only looks at the directory. -/
inductive Looks (path : String) : Request → Prop where
  | list : Looks path (.list path)
  | probe : Looks path (.probe path)

theorem Changes.isLocal {request : Request} (changes : Changes path known request) :
    Local path request := by
  cases changes with
  | create valid => exact .create valid
  | remove valid => exact .remove valid
  | reset => exact .reset

theorem Looks.isLocal {request : Request} (looks : Looks path request) : Local path request := by
  cases looks with
  | list => exact .list
  | probe => exact .probe

theorem asks_append (named : known message.instant) :
    (append path message).Asks (Changes path known) := by
  cases checked : message.instant.validate with
  | error defect =>
      simp only [append, Marker.encode_eq_error checked]
      exact .done
  | ok _ =>
      have valid : message.instant.Valid := Instant.validate_eq_ok_iff.mp checked
      simp only [append, Marker.encode_eq_ok valid]
      refine (Script.asks_request (.create valid named)).bind fun answer => ?_
      split
      · exact .done
      · exact .done
      · exact .tell .done

theorem asks_removeEach {names : List String}
    (markers : ∀ name ∈ names, Changes path known (.remove (Path.join path name))) :
    (removeEach path names).Asks (Changes path known) := by
  induction names with
  | nil => exact .done
  | cons name rest ih =>
      have later := ih fun other member => markers other (List.mem_cons_of_mem _ member)
      refine (Script.asks_request (markers name List.mem_cons_self)).bind fun answer => ?_
      split
      · exact later
      · refine .tell (later.bind fun looped => ?_)
        split <;> exact .done
      · exact .done

theorem asks_deleteAll (named : known instant) :
    (deleteAll path instant).Asks (Changes path known) := by
  unfold deleteAll
  split
  · exact .done
  · rename_i names encoded
    cases checked : instant.validate with
    | error defect => simp [Marker.encodeAll, checked] at encoded
    | ok _ =>
        have valid : instant.Valid := Instant.validate_eq_ok_iff.mp checked
        rw [Marker.encodeAll_eq_ok valid] at encoded
        cases encoded
        refine asks_removeEach fun name member => ?_
        obtain ⟨phase, _, rfl⟩ := List.mem_map.mp member
        have own : (⟨instant, phase⟩ : Message).instant.Valid := valid
        exact .remove own named

theorem asks_decodeAll {names : List String} : (decodeAll path names).Asks (Looks path) := by
  induction names with
  | nil => exact .done
  | cons name rest ih =>
      unfold decodeAll
      split
      · exact ih.bind fun _ => .done
      · exact .tell ih

theorem asks_scan : (scan path).Asks (Looks path) := by
  refine (Script.asks_request .probe).bind fun answer => ?_
  split
  · exact .done
  · exact .done
  · refine (Script.asks_request .list).bind fun listed => ?_
    split
    · exact .done
    · exact asks_decodeAll.bind fun _ => .done

theorem asks_reset : (reset path).Asks (Changes path known) := by
  refine (Script.asks_request .reset).bind fun answer => ?_
  split <;> exact .done

end MarkerDirectory

theorem Retention.asks_drain {path : String} {limit : Nat} {queue : List Instant}
    {known : Instant → Prop} (named : ∀ instant ∈ queue, known instant) :
    (drain path limit queue).Asks (MarkerDirectory.Changes path known) := by
  induction queue with
  | nil => exact .done
  | cons oldest rest ih =>
      have later := ih fun instant member => named instant (List.mem_cons_of_mem _ member)
      unfold drain
      split
      · exact .done
      · refine (MarkerDirectory.asks_deleteAll (named oldest List.mem_cons_self)).bind
          fun answer => ?_
        split
        · exact .done
        · exact .done
        · exact .tell (later.bind fun _ => .done)

namespace Bus

open MarkerDirectory

variable {bus : Bus} {act : Act} {instant : Instant} {action : Action} {known : Instant → Prop}

theorem asks_bootstrap : bus.bootstrap.Asks (Changes bus.path known) := by
  refine asks_reset.bind fun answer => ?_
  split
  · exact .tell .done
  · split
    · exact .tell .done
    · exact .done

/-- Whatever follows a publication follows it with configuration and queue unchanged. -/
theorem asks_publish {α : Type} {next : Outcome Unit → Script α} (named : known instant)
    (rest : ∀ outcome, outcome.bus.config = bus.config → outcome.bus.retained = bus.retained →
      (next outcome).Asks (Changes bus.path known)) :
    (bus.publish act instant >>= next).Asks (Changes bus.path known) := by
  rw [publish, Script.bind_assoc]
  refine (asks_append named).bind fun answer => ?_
  rcases answer with (defect | (report | file | code)) | done
  · exact rest _ rfl rfl
  · exact .tell (rest _ rfl rfl)
  · exact rest _ rfl rfl
  · exact rest _ rfl rfl
  · exact .tell (rest _ rfl rfl)

theorem asks_notify {allowed : Request → Prop} {listener : Listener} {warning : CleanupWarning} :
    (notify listener warning).Asks allowed := by
  cases listener with
  | absent => exact .done
  | attentive => exact .tell .done
  | failing reason => exact .tell (.tell .done)

theorem asks_clean (bus : Bus) (named : ∀ instant ∈ bus.retained, known instant) :
    bus.clean.Asks (Changes bus.path known) := by
  refine ((Retention.asks_drain named).bind fun _ => .done).bind fun cleaned => ?_
  obtain ⟨⟨outcome, cleaned, queue⟩, retention⟩ := cleaned
  rcases outcome with error | (_ | warning)
  · exact .done
  · exact .done
  · exact .tell (asks_notify.bind fun _ => .done)

theorem asks_start (named : known instant) (kept : ∀ other ∈ bus.retained, known other) :
    (bus.start instant).Asks (Changes bus.path known) := by
  refine asks_publish named fun published same queue => ?_
  split
  · exact .done
  · have path : published.bus.path = bus.path := congrArg Config.path same
    rw [← path]
    refine asks_clean { published.bus with retention := published.bus.retention.track instant }
      fun other member => ?_
    rcases Retention.mem_track.mp member with rfl | earlier
    · exact named
    · exact kept other (queue ▸ earlier)

theorem asks_load : bus.load.Asks (Looks bus.path) := by
  refine asks_scan.bind fun answer => ?_
  split
  · exact .done
  · exact .tell .done
  · exact .done

theorem asks_actOn_of_loads (loads : action = .messages ∨ action = .pending) :
    (Fleet.actOn bus action).Asks (Looks bus.path) := by
  rcases loads with rfl | rfl
  · exact asks_load.bind fun _ => .done
  · exact (asks_load.bind fun _ => .done).bind fun _ => .done

theorem asks_actOn_of_not_loads (silent : ¬ (action = .messages ∨ action = .pending))
    (named : ∀ act instant, action = Act.action act instant → known instant)
    (kept : ∀ instant ∈ bus.retained, known instant) :
    (Fleet.actOn bus action).Asks (Changes bus.path known) := by
  cases action with
  | construct | destroy | listen | isAborted | close => exact .done
  | bootstrap => exact asks_bootstrap.bind fun _ => .done
  | start instant => exact (asks_start (named .start instant rfl) kept).bind fun _ => .done
  | commit instant => exact asks_publish (named .commit instant rfl) fun _ _ _ => .done
  | abort instant => exact asks_publish (named .abort instant rfl) fun _ _ _ => .done
  | messages | pending => simp at silent

theorem asks_actOn : (Fleet.actOn bus action).Asks (Local bus.path) := by
  by_cases loads : action = .messages ∨ action = .pending
  · exact (asks_actOn_of_loads loads).mono fun _ => Looks.isLocal
  · have asks : (Fleet.actOn bus action).Asks (Changes bus.path fun _ => True) :=
      asks_actOn_of_not_loads loads (fun _ _ _ => trivial) fun _ _ => trivial
    exact asks.mono fun _ => Changes.isLocal

end Bus

namespace Storage.Memory

variable {left right memory : Memory} {path directory : String}

/-- The memories hold the same in all of these directories. -/
def Agree (reached : String → Prop) (left right : Memory) : Prop :=
  ∀ directory, reached directory →
    left.directories.lookup directory = right.directories.lookup directory

theorem create_eq
    (there : left.directories.lookup (place path).1 = right.directories.lookup (place path).1)
    (here : left.directories.lookup (Path.trim path) =
      right.directories.lookup (Path.trim path)) :
    (left.create path).1 = (right.create path).1 ∧
      ∀ directory, left.directories.lookup directory = right.directories.lookup directory →
        (left.create path).2.directories.lookup directory =
          (right.create path).2.directories.lookup directory := by
  rcases placed : place path with ⟨parent, name⟩
  rw [placed] at there
  simp only [create, placed, isDirectory, namesAt, here, there]
  split
  · exact ⟨rfl, fun _ same => same⟩
  · split
    · exact ⟨rfl, fun _ same => same⟩
    · split
      · exact ⟨rfl, fun _ same => same⟩
      · exact ⟨rfl, fun _ same => by simp only [lookup_update, there, same]⟩

theorem remove_eq_of_agree
    (there : left.directories.lookup (place path).1 = right.directories.lookup (place path).1) :
    (left.remove path).1 = (right.remove path).1 ∧
      ∀ directory, left.directories.lookup directory = right.directories.lookup directory →
        (left.remove path).2.directories.lookup directory =
          (right.remove path).2.directories.lookup directory := by
  rcases placed : place path with ⟨parent, name⟩
  rw [placed] at there
  simp only [remove, placed, namesAt, there]
  split
  · exact ⟨rfl, fun _ same => by simp only [lookup_update, there, same]⟩
  · exact ⟨rfl, fun _ same => same⟩

theorem probe_iff : memory.probe path = true ↔ memory.isDirectory path = true ∨
    (place (Path.trim path)).2 ∈ memory.namesAt (place (Path.trim path)).1 := by
  simp only [probe, decide_eq_true_eq]

theorem probe_eq
    (here : left.directories.lookup (Path.trim path) = right.directories.lookup (Path.trim path))
    (around : left.directories.lookup (place (Path.trim path)).1 =
      right.directories.lookup (place (Path.trim path)).1) :
    left.probe path = right.probe path := by
  rw [Bool.eq_iff_iff, probe_iff, probe_iff, isDirectory, isDirectory, namesAt, namesAt, here,
    around]

end Storage.Memory

namespace MarkerDirectory

open Memory

variable {path directory : String} {request : Request} {left right memory : Memory}

/-- The directories that local calls look up: the own one, the one around it, and
those that stand where a marker belongs. -/
inductive Reaches (path : String) : String → Prop where
  | directory : Reaches path (Path.trim path)
  | parent : Reaches path (place (Path.trim path)).1
  | marker {message : Message} (valid : message.instant.Valid) :
      Reaches path (file path message)

theorem Local.serve_eq (nonempty : path ≠ "") (asked : Local path request)
    (agree : Agree (Reaches path) left right) :
    (serve request left).result = (serve request right).result ∧
      Agree (Reaches path) (serve request left).storage (serve request right).storage := by
  have own := agree _ .directory
  have there {message : Message} (valid : message.instant.Valid) :
      left.directories.lookup (place (file path message)).1 =
        right.directories.lookup (place (file path message)).1 := by
    rw [place_file nonempty valid]
    exact own
  cases asked with
  | @create message valid =>
      have here : left.directories.lookup (Path.trim (file path message)) =
          right.directories.lookup (Path.trim (file path message)) := by
        rw [file, Path.trim_join nonempty (Marker.plain_name valid)]
        exact agree _ (.marker valid)
      obtain ⟨same, after⟩ := create_eq (there valid) here
      rw [serve_create, serve_create]
      exact ⟨same, fun directory reached => after directory (agree directory reached)⟩
  | remove valid =>
      obtain ⟨same, after⟩ := remove_eq_of_agree (there valid)
      rw [serve_remove, serve_remove]
      exact ⟨congrArg Except.ok same,
        fun directory reached => after directory (agree directory reached)⟩
  | list => exact ⟨by simp only [serve, names, namesAt, own], agree⟩
  | probe =>
      have around := agree _ .parent
      exact ⟨congrArg Except.ok (probe_eq own around), agree⟩
  | reset =>
      refine ⟨rfl, fun directory reached => ?_⟩
      change (left.reset path).directories.lookup directory =
        (right.reset path).directories.lookup directory
      rw [lookup_reset, lookup_reset, agree directory reached]

/-- A local call leaves every directory alone that is not within the own one. -/
theorem Local.lookup_serve (nonempty : path ≠ "") (asked : Local path request)
    (outside : within (Path.trim path) directory = false) :
    (serve request memory).storage.directories.lookup directory =
      memory.directories.lookup directory := by
  have other : directory ≠ Path.trim path := by
    rintro rfl
    simp [within_self] at outside
  cases asked with
  | @create message valid =>
      rw [serve_create]
      dsimp only
      rcases create_cases (Prod.eta (memory.create (file path message))).symm with
        ⟨_, _, same⟩ | ⟨_, same, _⟩ | ⟨_, _, same⟩
      · rw [same]
      · rw [same]
      · rw [same, lookup_update, place_file nonempty valid, if_neg other]
  | @remove message valid =>
      rw [serve_remove]
      dsimp only
      rw [remove_eq]
      split
      · rw [lookup_update, place_file nonempty valid, if_neg other]
      · rfl
  | list | probe => rfl
  | reset =>
      change (memory.reset path).directories.lookup directory = _
      simp [lookup_reset, other, outside]

end MarkerDirectory

end MarkerBus
