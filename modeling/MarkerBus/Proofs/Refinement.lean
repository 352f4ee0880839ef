import MarkerBus.Proofs.Fleet
import MarkerBus.Proofs.MarkerMachine

namespace MarkerBus

/-! A fleet on one directory behaves like the marker machine.

`Holds` ties a set of messages to a memory in which nothing but the directory is
known, so that no creation is ever refused.  Every action keeps the tie and is
answered as the machine answers it.
-/

open Storage MarkerDirectory

variable {markers : Finset Message} {path : String} {memory before after : Memory}
  {message : Message} {calls : List Call} {bus : Bus} {config : Bus.Config}

/-- The directory records the set, and the memory knows no other directory. -/
structure Storage.Memory.Holds (memory : Memory) (path : String) (markers : Finset Message) :
    Prop where
  wellFormed : memory.WellFormed
  markers : ∀ message, message ∈ markers ↔ message ∈ memory.markers path
  known : ∀ directory, memory.Known directory → directory = Path.trim path

namespace Storage.Memory

theorem holds_empty (path : String) : ({} : Memory).Holds path ∅ where
  wellFormed := wellFormed_empty
  markers := by simp [markers_empty]
  known directory known := absurd known not_known_empty

theorem Holds.reset (holds : memory.Holds path markers) : (memory.reset path).Holds path ∅ where
  wellFormed := holds.wellFormed.reset
  markers := by simp [markers_reset]
  known directory known := by
    rcases known_reset.mp known with same | ⟨before, _⟩
    · exact same
    · exact holds.known directory before

/-- The file of a marker is never the directory itself. -/
theorem Holds.accessible (holds : memory.Holds path markers) (nonempty : path ≠ "") :
    memory.Accessible path := by
  intro message valid known
  exact file_ne_trim nonempty valid (holds.known _ known)

theorem Holds.create (holds : memory.Holds path markers) (nonempty : path ≠ "")
    (valid : message.instant.Valid) {creation : Creation}
    (created : memory.create (file path message) = (.ok creation, after)) :
    after.Holds path (insert message markers) where
  wellFormed := holds.wellFormed.create created
  markers other := by
    rw [mem_markers_create nonempty valid created, Finset.mem_insert, holds.markers]
  known directory known := by
    rcases (known_create created).mp known with same | before
    · rw [same, place_file nonempty valid]
    · exact holds.known directory before

theorem Holds.drain (holds : before.Holds path markers) (nonempty : path ≠ "") {limit : Nat}
    {queue : List Instant} (valid : ∀ instant ∈ queue, instant.Valid)
    {cleaning : Retention.Cleaning}
    (performed : Performs serve Fault.none (Retention.drain path limit queue)
      before calls cleaning after) :
    (evict limit queue markers).1 = cleaning.queue ∧
      cleaning.outcome = .ok none ∧
      after.Holds path (evict limit queue markers).2 := by
  have drains := Retention.performs_drain Fault.reports_none valid performed
  have reached (message : Message) : message ∈ after.markers path ↔
      message ∈ before.markers path ∧ ⟨.remove (file path message), false⟩ ∉ calls :=
    drains.mem_markers performed holds.wellFormed nonempty valid
  have removals : ∀ call ∈ calls, ∃ file, call.request = .remove file := fun _ => drains.removes
  cases drains with
  | @finished freed kept split enough needed =>
      rw [split, evict_append enough needed]
      refine ⟨rfl, rfl, performed.keeps (fun request memory kept => kept.serve request)
        holds.wellFormed, ?_, ?_⟩
      · intro message
        rw [reached, Finset.mem_filter, holds.markers, Retention.mem_freeing]
        refine and_congr_right fun recorded => not_congr ?_
        have named := (mem_markers_iff.mp recorded).1
        constructor
        · intro gone
          exact ⟨rfl, message.instant, gone, mem_removals.mpr ⟨message.phase, rfl⟩⟩
        · intro given
          obtain ⟨_, instant, gone, removal⟩ := given
          obtain ⟨phase, same⟩ := mem_removals.mp removal
          have freedNamed := valid instant (split ▸ List.mem_append_left _ gone)
          rw [file_injective nonempty named freedNamed (by simpa using same)]
          exact gone
      · intro directory known
        exact holds.known directory ((known_of_removals performed removals).mp known)
  | stuck split exceeds requests failed =>
      obtain ⟨_, _, _, _, impossible⟩ := failed
      exact impossible.elim

end Storage.Memory

namespace Bus

variable {action : Action} {outcome : Outcome Answer} {instant : Instant} {act : Act}

def participant (bus : Bus) : Participant :=
  ⟨bus.retained, bus.view?⟩

/-- An action of the bus is the action of its participant. -/
def Refines (bus : Bus) (markers : Finset Message) (action : Action) (outcome : Outcome Answer)
    (after : Memory) : Prop :=
  let turn := bus.participant.act bus.config.limit markers action
  outcome.result = turn.1 ∧ outcome.bus.participant = turn.2.1 ∧ after.Holds bus.path turn.2.2

theorem refines_of_refused {defect : Instant.Defect} (invalid : instant.validate = .error defect)
    (holds : before.Holds bus.path markers) :
    bus.Refines markers (act.action instant) ⟨.error (.invalidInstant defect), bus⟩ before := by
  cases act <;> simp only [Refines, Act.action, Participant.act, invalid] <;>
    exact ⟨trivial, trivial, holds⟩

theorem refines_of_finished (finished : act ≠ .start) (valid : instant.Valid)
    (holds : after.Holds bus.path (insert ⟨instant, act.phase⟩ markers)) :
    bus.Refines markers (act.action instant) ⟨.ok .nothing, bus.countMarker⟩ after := by
  cases act with
  | start => exact absurd rfl finished
  | commit | abort =>
      simp only [Refines, Act.action, Participant.act, Instant.validate_eq_ok_iff.mpr valid]
      exact ⟨trivial, rfl, holds⟩

theorem refines_of_started (valid : instant.Valid) (limit : bus.retention.limit = bus.config.limit)
    {cleaning : Retention.Cleaning}
    (evicted : (evict bus.retention.limit (bus.retention.track instant).queue
        (insert ⟨instant, .inflight⟩ markers)).1 = cleaning.queue)
    (holds : after.Holds bus.path (evict bus.retention.limit (bus.retention.track instant).queue
        (insert ⟨instant, .inflight⟩ markers)).2) :
    bus.Refines markers (.start instant) ⟨.ok .nothing, (bus.tracking instant).settle cleaning⟩
      after := by
  have queue : (bus.retention.track instant).queue =
      if instant ∈ bus.retained then bus.retained else bus.retained ++ [instant] := by
    unfold Retention.track retained
    split <;> rfl
  simp only [Refines, Participant.act, Instant.validate_eq_ok_iff.mpr valid]
  rw [limit, queue] at evicted holds
  exact ⟨trivial, congrArg (Participant.mk · bus.view?) evicted.symm, holds⟩

theorem isAborted_refines (holds : before.Holds bus.path markers) :
    bus.Refines markers (.isAborted instant)
      ⟨(bus.isAborted instant).map .flag, bus⟩ before := by
  simp only [Refines, Participant.act, participant]
  cases loaded : bus.view? with
  | none =>
      refine ⟨?_, ?_, holds⟩
      · simp [isAborted, loaded, Except.map]
      · rfl
  | some view =>
      refine ⟨?_, ?_, holds⟩
      · simp only [isAborted, loaded, Except.map]
        rw [Bool.eq_iff_iff.mpr (View.isAborted_iff.trans decide_eq_true_iff.symm)]
      · rfl

theorem pending?_eq (view : View) : view.pending? =
    match view.getLast? with
    | some message => if message.phase = .completed then none else some message.instant
    | none => none := by
  unfold View.pending?
  cases view.getLast? with
  | none => rfl
  | some message => simp [Message.isComplete]

theorem Acts.refines (acts : Acts Fault.none bus before action calls outcome after)
    (wellFormed : bus.WellFormed) (holds : before.Holds bus.path markers) :
    bus.Refines markers action outcome after := by
  have nonempty := wellFormed.path_ne_empty
  have resolved : viewOf markers = View.resolve (before.markers bus.path) :=
    viewOf_eq_resolve holds.markers
  cases acts with
  | listened | closed => exact ⟨rfl, rfl, holds⟩
  | asked => exact isAborted_refines holds
  | bootstrapped => exact ⟨rfl, rfl, holds.reset⟩
  | notBootstrapped allowed => exact allowed.elim
  | messages =>
      rw [← resolved]
      exact ⟨rfl, rfl, holds⟩
  | pending =>
      rw [← resolved, pending?_eq]
      exact ⟨rfl, rfl, holds⟩
  | unread loads reads allowed => exact allowed.choose_spec.elim
  | published publishes finished valid created =>
      subst publishes
      exact refines_of_finished finished valid (holds.create nonempty valid created)
  | started valid created performed drains =>
      have tracked := wellFormed.tracking valid
      obtain ⟨evicted, _, held⟩ :=
        (holds.create nonempty valid created).drain nonempty tracked.named performed
      exact refines_of_started valid wellFormed.limit evicted held
  | refused publishes invalid =>
      subst publishes
      exact refines_of_refused invalid holds
  | @unpublished act _ instant _ publishes valid cause =>
      rcases cause with allowed | refused
      · exact allowed.elim
      · have named : (⟨instant, act.phase⟩ : Message).instant.Valid := valid
        obtain ⟨creation, after, created⟩ := (holds.accessible nonempty).create_ok nonempty named
        rw [refused] at created
        cases created

theorem Acts.ordinary {fault : Fault} (acts : Acts fault bus before action calls outcome after) :
    action.ordinary := by
  cases acts with
  | listened | closed | asked | bootstrapped | notBootstrapped | messages | pending | started => rfl
  | unread loads => rcases loads with rfl | rfl <;> rfl
  | @published act _ _ _ _ publishes | @refused act _ _ _ publishes
  | @unpublished act _ _ _ publishes =>
      subst publishes
      cases act <;> rfl

end Bus

variable {machine : MarkerMachine} {fleet later : Fleet} {name : String} {action : Action}
  {answer : Option (Except Bus.Error Answer)}

/-- The machine stands for the fleet and the memory below it. -/
structure Simulates (config : Bus.Config) (machine : MarkerMachine) (fleet : Fleet)
    (memory : Memory) : Prop where
  wellFormed : fleet.WellFormed
  shared : ∀ name bus, fleet.bus? name = some bus → bus.config = config
  participants : ∀ name, (fleet.bus? name).map Bus.participant = machine.participants.get? name
  holds : memory.Holds config.path machine.markers

theorem MarkerMachine.act_of_ordinary {participant : Participant}
    (found : machine.participants.get? name = some participant) (ordinary : action.ordinary) :
    machine.act config name action =
      let turn := participant.act config.limit machine.markers action
      (some turn.1, ⟨turn.2.2, machine.participants.insert name turn.2.1⟩) := by
  cases action with
  | construct | destroy => cases ordinary
  | listen | bootstrap | start | commit | abort | messages | pending | isAborted | close =>
      simp only [act, found]

namespace Simulates

theorem empty (config : Bus.Config) : Simulates config {} {} {} where
  wellFormed := Fleet.wellFormed_empty
  shared name bus held := by simp at held
  participants name := rfl
  holds := Memory.holds_empty config.path

theorem insert {markers : Finset Message} (simulates : Simulates config machine fleet before)
    (wellFormed : bus.WellFormed) (shared : bus.config = config)
    (holds : after.Holds config.path markers) :
    Simulates config ⟨markers, machine.participants.insert name bus.participant⟩
      (fleet.insert name bus) after where
  wellFormed := simulates.wellFormed.insert wellFormed
  shared other held found := by
    by_cases same : other = name
    · subst same
      rw [Fleet.bus?_insert_self] at found
      cases found
      exact shared
    · rw [Fleet.bus?_insert_of_ne same] at found
      exact simulates.shared other held found
  participants other := by
    by_cases same : other = name
    · subst same
      simp
    · rw [Fleet.bus?_insert_of_ne same, Named.get?_insert_of_ne _ same]
      exact simulates.participants other
  holds := holds

theorem erase (simulates : Simulates config machine fleet memory) :
    Simulates config ⟨machine.markers, machine.participants.erase name⟩ (fleet.erase name)
      memory where
  wellFormed := simulates.wellFormed.erase
  shared other held found := by
    by_cases same : other = name
    · subst same
      simp at found
    · rw [Fleet.bus?_erase_of_ne same] at found
      exact simulates.shared other held found
  participants other := by
    by_cases same : other = name
    · subst same
      simp
    · rw [Fleet.bus?_erase_of_ne same, Named.get?_erase_of_ne _ same]
      exact simulates.participants other
  holds := simulates.holds

theorem act (simulates : Simulates config machine fleet before) (valid : config.Valid)
    (shares : ∀ other, action = .construct other → other = config)
    (acts : Fleet.Acts Fault.none fleet name before action calls answer later after) :
    answer = (machine.act config name action).1 ∧
      Simulates config (machine.act config name action).2 later after := by
  have known := simulates.participants name
  cases acts with
  | constructed made =>
      cases shares _ rfl
      obtain ⟨wellFormed, same, empty, fresh⟩ := Bus.WellFormed.of_config made
      refine ⟨rfl, ?_⟩
      have participant : ({} : Participant) = Bus.participant _ :=
        (Participant.mk.injEq ..).mpr ⟨empty.symm, fresh.symm⟩
      simp only [MarkerMachine.act, participant]
      exact simulates.insert wellFormed same simulates.holds
  | rejected invalid =>
      cases shares _ rfl
      exact absurd valid invalid
  | destroyed held =>
      rw [held] at known
      simp only [MarkerMachine.act, ← known, Option.map_some]
      exact ⟨trivial, simulates.erase⟩
  | missing needed absent =>
      rw [absent] at known
      cases action with
      | construct other => exact absurd rfl (needed other)
      | destroy | listen | bootstrap | start | commit | abort | messages | pending | isAborted
      | close =>
          simp only [MarkerMachine.act, ← known, Option.map_none]
          exact ⟨trivial, simulates⟩
  | @acted bus action calls outcome after held wellFormed acts =>
      rw [held] at known
      have shared := simulates.shared name bus held
      have path : bus.path = config.path := congrArg Bus.Config.path shared
      obtain ⟨answered, participant, holds⟩ :=
        acts.refines wellFormed (path ▸ simulates.holds)
      rw [shared] at answered participant holds
      rw [MarkerMachine.act_of_ordinary known.symm acts.ordinary]
      generalize bus.participant.act config.limit machine.markers action = turn
        at answered participant holds ⊢
      obtain ⟨result, _, markers⟩ := turn
      cases participant
      exact ⟨congrArg some answered, simulates.insert (acts.wellFormed wellFormed)
        (acts.config.trans shared) (path ▸ holds)⟩

theorem run (simulates : Simulates config machine fleet memory) (valid : config.Valid)
    {actions : List (String × Action)}
    (shares : ∀ name other, (name, .construct other) ∈ actions → other = config) :
    ((fleet.run actions).run Memory.serve memory).value.1 = (machine.run config actions).1 ∧
      Simulates config (machine.run config actions).2
        ((fleet.run actions).run Memory.serve memory).value.2
        ((fleet.run actions).run Memory.serve memory).storage := by
  induction actions generalizing machine fleet memory with
  | nil => exact ⟨rfl, simulates⟩
  | cons head rest ih =>
      obtain ⟨name, action⟩ := head
      obtain ⟨calls, performed⟩ :=
        Script.performs_run Memory.serve Fault.none (fleet.act name action) memory
      have acts := Fleet.acts Fault.reports_none simulates.wellFormed performed
      obtain ⟨answered, next⟩ := simulates.act valid
        (fun other same => shares name other (by rw [same]; exact List.mem_cons_self)) acts
      obtain ⟨answers, final⟩ := ih next fun name other member =>
        shares name other (List.mem_cons_of_mem _ member)
      simp only [Fleet.run, MarkerMachine.run, Script.run_bind, Script.run_pure]
      exact ⟨by rw [answered, answers], final⟩

end Simulates

/-- Any number of buses on one directory, in any order of actions, answer and
refuse as the marker machine does, and end with its queues, views and messages. -/
theorem Fleet.run_refines_machine (valid : config.Valid) (actions : List (String × Action))
    (shares : ∀ name other, (name, .construct other) ∈ actions → other = config) :
    let run := (({} : Fleet).run actions).run Memory.serve {}
    let machineRun := MarkerMachine.run {} config actions
    run.value.1 = machineRun.1 ∧
      (∀ name, (run.value.2.bus? name).map Bus.participant =
        machineRun.2.participants.get? name) ∧
      ∀ message, message ∈ machineRun.2.markers ↔
        message ∈ run.storage.markers config.path := by
  obtain ⟨answers, simulates⟩ := (Simulates.empty config).run valid shares
  exact ⟨answers, simulates.participants, simulates.holds.markers⟩

/-- One bus writes with slashes to spare, and another reads. -/
theorem Fleet.machine_answers :
    let config : Bus.Config := { base := "t//", directory := "d//", limit := 1 }
    (MarkerMachine.run {} config
      [("w", .construct config), ("r", .construct config), ("w", .bootstrap),
        ("w", .start "a.b"), ("w", .abort "a.b"), ("r", .messages), ("w", .start "c/"),
        ("w", .start "c"), ("r", .pending), ("r", .isAborted "a.b")]).1 =
      [some (.ok (.path "t//d//")), some (.ok (.path "t//d//")), some (.ok .nothing),
        some (.ok .nothing), some (.ok .nothing),
        some (.ok (.messages [⟨"a.b", .aborted⟩])),
        some (.error (.invalidInstant (.slash "c/"))), some (.ok .nothing),
        some (.ok (.pending (some "c"))), some (.ok (.flag false))] := by
  intro config
  have valid : config.Valid := by decide
  refine (run_refines_machine valid _ ?_).1.symm.trans ?_
  · intro name other member
    obtain ⟨_, same⟩ | ⟨_, same⟩ :
        name = "w" ∧ other = config ∨ name = "r" ∧ other = config := by simpa using member
    · exact same
    · exact same
  · decide +kernel

end MarkerBus
