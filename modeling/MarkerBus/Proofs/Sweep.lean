import MarkerBus.Proofs.Interleaving
import MarkerBus.Proofs.View

namespace MarkerBus

open Storage MarkerDirectory

variable {path : String} {instant : Instant} {message other : Message} {memory : Memory}

theorem Phase.mem_take_all {phase : Phase} {count : Nat} :
    phase ∈ all.take count ↔ phase.rank < count := by
  rcases count with _ | _ | _ | count <;> cases phase <;> simp [all, rank]

theorem Marker.drop_names (instant : Instant) {count : Nat} (some : count < Phase.all.length) :
    ∃ phase, phase.rank = count ∧
      (names instant).drop count = name ⟨instant, phase⟩ :: (names instant).drop (count + 1) := by
  change count < 3 at some
  rcases count with _ | _ | _ | count
  · exact ⟨.inflight, rfl, rfl⟩
  · exact ⟨.aborted, rfl, rfl⟩
  · exact ⟨.completed, rfl, rfl⟩
  · omega

namespace View

variable {messages left : List Message} {count : Nat}

/-- Of the markers of one instant, those below some rank are gone. -/
def Faded (instant : Instant) (count : Nat) (messages left : List Message) : Prop :=
  ∀ message, message ∈ left ↔
    message ∈ messages ∧ ¬ (message.instant = instant ∧ message.phase.rank < count)

theorem Faded.highest_iff_of_ne (faded : Faded instant count messages left)
    (apart : message.instant ≠ instant) : Highest left message ↔ Highest messages message := by
  have same : ∀ other : Message, other.instant = message.instant →
      (other ∈ left ↔ other ∈ messages) := by
    intro other about
    rw [faded]
    simp [about, apart]
  unfold Highest
  rw [same message rfl]
  refine and_congr_right fun _ => ⟨fun bounded other member about => ?_,
    fun bounded other member about => ?_⟩
  · exact bounded other ((same other about).mpr member) about
  · exact bounded other ((same other about).mp member) about

/-- While a marker of the instant is left, the highest one is. -/
theorem Faded.highest_iff_of_mem (faded : Faded instant count messages left)
    (member : other ∈ left) (here : other.instant = instant) (about : message.instant = instant) :
    Highest left message ↔ Highest messages message := by
  obtain ⟨earlier, above⟩ := (faded other).mp member
  have level : count ≤ other.phase.rank := not_lt.mp fun low => above ⟨here, low⟩
  constructor
  · intro given
    obtain ⟨recorded, highest⟩ := given
    refine ⟨((faded message).mp recorded).1, fun held found same => ?_⟩
    by_cases low : held.phase.rank < count
    · have bounded := highest other member (here.trans about.symm)
      omega
    · exact highest held ((faded held).mpr ⟨found, fun gone => low gone.2⟩) same
  · intro given
    obtain ⟨recorded, highest⟩ := given
    have bounded := highest other earlier (here.trans about.symm)
    refine ⟨(faded message).mpr ⟨recorded, fun gone => by omega⟩, fun held found same => ?_⟩
    exact highest held ((faded held).mp found).1 same

theorem Faded.resolve_eq (faded : Faded instant count messages left) :
    resolve left = resolve messages ∨
      resolve left = (resolve messages).filter (·.instant ≠ instant) := by
  have ascends := ascending_resolve messages
  by_cases shown : ∃ held ∈ left, held.instant = instant
  · obtain ⟨held, member, here⟩ := shown
    refine .inl ((ascending_resolve left).ext ascends fun message => ?_)
    rw [mem_resolve_iff, mem_resolve_iff]
    by_cases about : message.instant = instant
    · exact faded.highest_iff_of_mem member here about
    · exact faded.highest_iff_of_ne about
  · refine .inr ((ascending_resolve left).ext (ascends.sublist List.filter_sublist)
      fun message => ?_)
    rw [List.mem_filter, mem_resolve_iff, mem_resolve_iff, decide_eq_true_eq]
    constructor
    · intro highest
      have apart : message.instant ≠ instant := fun about => shown ⟨message, highest.1, about⟩
      exact ⟨(faded.highest_iff_of_ne apart).mp highest, apart⟩
    · intro given
      exact (faded.highest_iff_of_ne given.2).mpr given.1

end View

namespace Storage.Memory

/-- The memory after the removal of some entries of a directory. -/
def without (memory : Memory) (path : String) (names : List String) : Memory :=
  names.foldl (fun memory name => (memory.remove (Path.join path name)).2) memory

theorem mem_markers_remove (wellFormed : memory.WellFormed) (nonempty : path ≠ "")
    (valid : message.instant.Valid) :
    other ∈ (memory.remove (file path message)).2.markers path ↔
      other ∈ memory.markers path ∧ other ≠ message := by
  rw [mem_markers_iff, mem_markers_iff, mem_namesAt_remove wellFormed, place_file nonempty valid,
    and_assoc]
  refine and_congr_right fun _ => and_congr_right fun _ => not_congr ?_
  simp only [Prod.mk.injEq, true_and]
  exact ⟨Marker.name_injective, congrArg Marker.name⟩

theorem mem_markers_without (wellFormed : memory.WellFormed) (nonempty : path ≠ "")
    (valid : instant.Valid) (phases : List Phase) :
    message ∈ (memory.without path (phases.map fun phase => Marker.name ⟨instant, phase⟩)).markers
        path ↔
      message ∈ memory.markers path ∧ ¬ (message.instant = instant ∧ message.phase ∈ phases) := by
  induction phases generalizing memory with
  | nil => simp [without]
  | cons phase rest ih =>
      have named : (⟨instant, phase⟩ : Message).instant.Valid := valid
      have removed : (memory.remove (file path ⟨instant, phase⟩)).2.WellFormed := wellFormed.remove
      refine (ih removed).trans ?_
      rw [mem_markers_remove wellFormed nonempty named]
      obtain ⟨about, level⟩ := message
      simp only [ne_eq, Message.mk.injEq, List.mem_cons]
      tauto

theorem faded_without (wellFormed : memory.WellFormed) (nonempty : path ≠ "")
    (valid : instant.Valid) (count : Nat) :
    View.Faded instant count (memory.markers path)
      ((memory.without path ((Marker.names instant).take count)).markers path) := by
  intro message
  rw [Marker.names, ← List.map_take, mem_markers_without wellFormed nonempty valid,
    Phase.mem_take_all]

end Storage.Memory

namespace Storage.Script

variable {α β : Type} {script : Script α}

/-- A script that removes nothing, except in whole deletions of instants. -/
inductive Sweeps (path : String) : Script α → Prop where
  | done {value : α} : Sweeps path (.done value)
  | tell {notice : Notice} {rest : Script α} (told : Sweeps path rest) :
      Sweeps path (.tell notice rest)
  | ask {request : Request} {next : Except Failure request.Answer → Script α}
      (kept : ∀ file, request ≠ .remove file) (answered : ∀ answer, Sweeps path (next answer)) :
      Sweeps path (.ask request next)
  | deletes {instant : Instant} {next : Except Error Bool → Script α} {script : Script α}
      (valid : instant.Valid) (rest : ∀ answer, Sweeps path (next answer))
      (same : script = deleteAll path instant >>= next) : Sweeps path script

theorem Sweeps.bind {next : α → Script β} (first : script.Sweeps path)
    (rest : ∀ value, (next value).Sweeps path) : (script >>= next).Sweeps path := by
  change (script.bind next).Sweeps path
  induction first with
  | done => exact rest _
  | tell _ ih => exact .tell ih
  | ask kept _ ih => exact .ask kept ih
  | deletes valid _ same ih =>
      subst same
      exact .deletes valid ih (bind_assoc _ _ next)

theorem Asks.sweeps {allowed : Request → Prop} (asks : script.Asks allowed)
    (kept : ∀ file, ¬ allowed (.remove file)) : script.Sweeps path := by
  induction asks with
  | done => exact .done
  | tell _ ih => exact .tell ih
  | ask permitted _ ih =>
      refine .ask (fun file same => ?_) ih
      subst same
      exact kept file permitted

/-- The script goes on with the removal of these entries. -/
def Removes (path : String) (names : List String) (next : Except Error Bool → Script α)
    (script : Script α) : Prop :=
  script.due = (removeEach path names >>= next).due

theorem removes_deleteAll {next : Except Error Bool → Script α} (valid : instant.Valid) :
    script.due = (deleteAll path instant >>= next).due ↔
      script.Removes path (Marker.names instant) next := by
  rw [deleteAll, Marker.encodeAll_eq_ok valid]
  rfl

theorem Removes.request? {names : List String} {name : String}
    {next : Except Error Bool → Script α} (removes : script.Removes path (name :: names) next) :
    script.request? = some (.remove (Path.join path name)) := by
  rw [← request?_due, removes]
  rfl

theorem Removes.advance {names : List String} {name : String}
    {next : Except Error Bool → Script α} (removes : script.Removes path (name :: names) next)
    (calls : List Call) (memory : Memory) :
    let reply := script.advance Memory.serve.recorded ⟨calls, memory⟩
    reply.1.Removes path names next ∧
      reply.2.storage = (memory.remove (Path.join path name)).2 := by
  rw [← advance_due, removes]
  exact ⟨rfl, rfl⟩

/-- Where a script that sweeps is about to remove an entry, a deletion begins. -/
theorem Sweeps.request? (sweeps : script.Sweeps path) {file : String}
    (due : script.request? = some (.remove file)) :
    ∃ instant next, instant.Valid ∧ script.Removes path (Marker.names instant) next ∧
      ∀ answer, (next answer).Sweeps path := by
  induction sweeps with
  | done => cases due
  | tell _ ih => exact ih due
  | ask kept => exact absurd (Option.some.inj due) (kept file)
  | deletes valid rest same =>
      refine ⟨_, _, valid, (removes_deleteAll valid).mp (congrArg Script.due same), rest⟩

theorem Sweeps.advance (sweeps : script.Sweeps path)
    (kept : ∀ file, script.request? ≠ some (.remove file)) (calls : List Call) (memory : Memory) :
    (script.advance Memory.serve.recorded ⟨calls, memory⟩).1.Sweeps path := by
  induction sweeps with
  | done => exact .done
  | tell _ ih => exact ih kept
  | ask _ answered => exact answered _
  | deletes valid rest same =>
      have removes := (removes_deleteAll valid).mp (congrArg Script.due same)
      exact absurd removes.request? (kept _)

theorem Sweeps.due (sweeps : script.Sweeps path) : script.due.Sweeps path := by
  induction sweeps with
  | done => exact .done
  | tell _ ih => exact ih
  | ask kept answered => exact .ask kept answered
  | deletes valid rest same =>
      refine .deletes valid rest ?_
      rw [same, deleteAll, Marker.encodeAll_eq_ok valid]
      rfl

theorem Sweeps.of_due (sweeps : script.due.Sweeps path) : script.Sweeps path := by
  induction script with
  | done => exact sweeps
  | tell notice rest ih => exact .tell (ih sweeps)
  | ask => exact sweeps

end Storage.Script

theorem Retention.sweeps_drain {limit : Nat} {queue : List Instant}
    (named : ∀ instant ∈ queue, instant.Valid) : (drain path limit queue).Sweeps path := by
  induction queue with
  | nil => exact .done
  | cons oldest rest ih =>
      unfold drain
      split
      · exact .done
      · refine .deletes (named oldest List.mem_cons_self) (fun answer => ?_) rfl
        split
        · exact .done
        · exact .done
        · exact .tell ((ih fun instant member => named instant (List.mem_cons_of_mem _ member)).bind
            fun _ => .done)

namespace Bus

variable {bus : Bus} {act : Act} {action : Action}

theorem sweeps_publish {α : Type} {next : Outcome Unit → Script α}
    (failed : ∀ error, (next ⟨.error error, bus⟩).Sweeps path)
    (published : instant.Valid → (next ⟨.ok (), bus.countMarker⟩).Sweeps path) :
    (bus.publish act instant >>= next).Sweeps path := by
  rw [publish, Script.bind_assoc]
  cases checked : instant.validate with
  | error defect =>
      rw [append, Marker.encode_eq_error checked]
      exact failed _
  | ok _ =>
      have valid : instant.Valid := Instant.validate_eq_ok_iff.mp checked
      have named : (⟨instant, act.phase⟩ : Message).instant.Valid := valid
      rw [append, Marker.encode_eq_ok named]
      refine .ask (by simp) fun answer => ?_
      rcases answer with (report | file | code) | (created | present)
      · exact .tell (failed _)
      · exact failed _
      · exact failed _
      · exact .tell (published valid)
      · exact .tell (.tell (published valid))

theorem sweeps_clean (bus : Bus) (named : ∀ instant ∈ bus.retained, instant.Valid) :
    bus.clean.Sweeps bus.path := by
  refine ((Retention.sweeps_drain named).bind fun _ => .done).bind fun cleaned => ?_
  obtain ⟨⟨outcome, cleaned, queue⟩, retention⟩ := cleaned
  rcases outcome with error | (_ | warning)
  · exact .done
  · exact .done
  · have silent : (notify bus.listener warning).Asks fun _ => False := asks_notify
    exact .tell ((silent.sweeps fun _ => id).bind fun _ => .done)

theorem sweeps_start (wellFormed : bus.WellFormed) : (bus.start instant).Sweeps bus.path :=
  sweeps_publish (fun _ => .done) fun valid =>
    sweeps_clean (bus.tracking instant) (wellFormed.tracking valid).named

/-- Whatever a bus does, it removes markers in whole deletions only. -/
theorem sweeps_actOn (wellFormed : bus.WellFormed) (action : Action) :
    (Fleet.actOn bus action).Sweeps bus.path := by
  have kept (file : String) : ¬ Looks bus.path (.remove file) := nofun
  cases action with
  | construct | destroy | listen | isAborted | close => exact .done
  | start => exact (sweeps_start wellFormed).bind fun _ => .done
  | commit | abort => exact sweeps_publish (fun _ => .done) fun _ => .done
  | messages => exact (asks_actOn_of_loads (.inl rfl)).sweeps kept
  | pending => exact (asks_actOn_of_loads (.inr rfl)).sweeps kept
  | bootstrap =>
      have emptied : (MarkerDirectory.reset bus.path).Sweeps bus.path :=
        .ask (by simp) fun answer => by cases answer <;> exact .done
      refine (emptied.bind fun answer => ?_).bind fun _ => .done
      rcases answer with (defect | (report | file | code)) | done
      · exact .done
      · exact .tell .done
      · exact .done
      · exact .done
      · exact .tell .done

end Bus

/-- The party is about to delete the markers of an instant. -/
def Party.Deletes (party : Party) (instant : Instant) : Prop :=
  ∃ task next, party.task? = some task ∧
    task.left.due = (deleteAll party.bus.path instant >>= next).due

end MarkerBus
