import Mathlib.Data.Finset.Dedup
import MarkerBus.Proofs.Observation

namespace MarkerBus

/-! The markers in a directory, and the instants that its coordinator retains.

A coordinator that alone writes to its directory, and finishes only what it
retains, never loses track of a marker: a creation that fails leaves none, and a
cleaning lets go of an instant only when all of its markers have been removed.
-/

open Storage MarkerDirectory

variable {π : Type} {fault : Fault} {start : Moment (Failing π Memory)}
  {past : List (Step (Failing π Memory))} {step : Step (Failing π Memory)}
  {coordinator : Coordinator}

/-- Can the action change a directory? -/
def Action.writes : Action → Bool
  | .bootstrap | .start _ | .commit _ | .abort _ => true
  | _ => false

/-- The instants that have a marker in the directory. -/
def Storage.Memory.instants (memory : Memory) (path : String) : Finset Instant :=
  ((memory.markers path).map Message.instant).toFinset

theorem Storage.Memory.mem_instants {memory : Memory} {path : String} {instant : Instant} :
    instant ∈ memory.instants path ↔
      ∃ message ∈ memory.markers path, message.instant = instant := by
  simp [instants]

namespace Bus

variable {bus : Bus} {before after : Memory} {action : Action} {calls : List Call}
  {outcome : Outcome Answer} {message : Message} {path : String}

/-- What a bus does elsewhere brings no message on record. -/
theorem Acts.mem_markers_elsewhere (acts : Acts fault bus before action calls outcome after)
    (wellFormed : bus.WellFormed) (formed : before.WellFormed)
    (elsewhere : action.writes → Path.trim bus.path ≠ Path.trim path)
    (recorded : message ∈ after.markers path) : message ∈ before.markers path := by
  cases acts with
  | listened | closed | asked | notBootstrapped | messages | pending | unread | refused
  | unpublished => exact recorded
  | bootstrapped => exact Memory.mem_markers_of_mem_reset recorded
  | @published act _ instant _ _ publishes finished valid created =>
      have named : (⟨instant, act.phase⟩ : Message).instant.Valid := valid
      have writes : action.writes := by
        subst publishes
        cases act <;> rfl
      exact (Memory.mem_markers_create_of_ne wellFormed.path_ne_empty (elsewhere writes) named
        created).mp recorded
  | @started instant _ written _ _ _ valid created performed drains =>
      have named : (⟨instant, .inflight⟩ : Message).instant.Valid := valid
      obtain ⟨validity, member⟩ := Memory.mem_markers_iff.mp recorded
      have earlier := (Memory.mem_namesAt_of_removals performed (formed.create created)
        fun _ => drains.removes).mp member
      have there : message ∈ written.markers path :=
        Memory.mem_markers_iff.mpr ⟨validity, earlier.1⟩
      exact (Memory.mem_markers_create_of_ne wellFormed.path_ne_empty (elsewhere rfl) named
        created).mp there

/-- A bus that retains the instant of every marker does so after the action as
well, if it does not let go of its queue and finishes only what it retains. -/
theorem Acts.retains_markers (acts : Acts fault bus before action calls outcome after)
    (wellFormed : bus.WellFormed) (formed : before.WellFormed)
    (retained : ∀ message ∈ before.markers bus.path, message.instant ∈ bus.retained)
    (stays : action ≠ .close)
    (finishes : ∀ act instant, act ≠ .start → action = Act.action act instant →
      outcome.result = .ok .nothing → instant ∈ bus.retained)
    (recorded : message ∈ after.markers bus.path) : message.instant ∈ outcome.bus.retained := by
  cases acts with
  | listened | asked | notBootstrapped | messages | pending | unread | refused | unpublished =>
      exact retained message recorded
  | closed => exact absurd rfl stays
  | bootstrapped => simp [Memory.markers_reset] at recorded
  | @published act _ instant _ _ publishes finished valid created =>
      have named : (⟨instant, act.phase⟩ : Message).instant.Valid := valid
      rcases (Memory.mem_markers_create wellFormed.path_ne_empty named created).mp recorded with
        rfl | earlier
      · exact finishes act instant finished publishes rfl
      · exact retained message earlier
  | @started instant creation written after calls cleaning valid created performed drains =>
      have acts : Acts fault bus before (.start instant) _ _ after :=
        .started valid created performed drains
      obtain ⟨there, untouched⟩ :=
        (acts.mem_markers_of_started wellFormed formed rfl).mp recorded
      have tracked : message.instant = instant ∨ message.instant ∈ bus.retained := by
        rcases there with rfl | earlier
        · exact .inl rfl
        · exact .inr (retained message earlier)
      by_contra left
      exact untouched (acts.removed_of_started rfl tracked left)

theorem Acts.markers_of_bootstrapped
    (acts : Acts fault bus before .bootstrap calls outcome after)
    (answered : outcome.result = .ok .nothing) : after.markers bus.path = [] := by
  cases acts with
  | bootstrapped => exact Memory.markers_reset
  | notBootstrapped | unread | refused | unpublished => cases answered
  | @published act _ _ _ _ publishes => cases act <;> cases publishes

end Bus

theorem Fleet.Acts.mem_markers_elsewhere {fleet later : Fleet} {name path : String}
    {before after : Memory} {action : Action} {calls : List Call}
    {answer : Option (Except Bus.Error Answer)} {message : Message}
    (acts : Fleet.Acts fault fleet name before action calls answer later after)
    (formed : before.WellFormed)
    (elsewhere : action.writes → ∀ bus ∈ fleet.bus? name, Path.trim bus.path ≠ Path.trim path)
    (recorded : message ∈ after.markers path) : message ∈ before.markers path := by
  cases acts with
  | constructed | rejected | destroyed | missing => exact recorded
  | acted held wellFormed acts =>
      exact acts.mem_markers_elsewhere wellFormed formed (fun writes => elsewhere writes _ held)
        recorded

namespace Coordinator

/-- Nobody else writes to the directory of the coordinator, which stays open. -/
def WritesAlone {σ : Type} (coordinator : Coordinator) (step : Step σ) : Prop :=
  (step.name ≠ coordinator.name → step.action.writes →
      ∀ bus ∈ step.before.fleet.bus? step.name,
        Path.trim bus.path ≠ Path.trim coordinator.config.path) ∧
    (step.name = coordinator.name → step.action.ordinary ∧ step.action ≠ .close)

instance {σ : Type} (coordinator : Coordinator) (step : Step σ) :
    Decidable (coordinator.WritesAlone step) :=
  inferInstanceAs (Decidable (_ ∧ _))

/-- What the coordinator commits or aborts, it retains. -/
def FinishesRetained {σ : Type} (coordinator : Coordinator) (step : Step σ) : Prop :=
  ∀ instant ∈ coordinator.published .commit [step] ++ coordinator.published .abort [step],
    instant ∈ coordinator.cache step.before

instance {σ : Type} (coordinator : Coordinator) (step : Step σ) :
    Decidable (coordinator.FinishesRetained step) :=
  inferInstanceAs (Decidable (∀ instant ∈ _, _))

variable {bus : Bus} {message : Message}

theorem cache_of_held {σ : Type} {moment : Moment σ}
    (held : moment.fleet.bus? coordinator.name = some bus) :
    coordinator.cache moment = bus.retained := by
  simp only [cache, held]

/-- A step is somebody else's, and brings no message on record, or it is an
action of the bus of the coordinator. -/
theorem step_cases_of_alone (acts : step.Acts fault) (formed : step.before.WellFormed)
    (alone : coordinator.WritesAlone step)
    (held : step.before.fleet.bus? coordinator.name = some bus) :
    step.name ≠ coordinator.name ∧ step.after.fleet.bus? coordinator.name = some bus ∧
        (∀ message ∈ step.after.memory.markers coordinator.config.path,
          message ∈ step.before.memory.markers coordinator.config.path) ∨
      step.name = coordinator.name ∧ bus.WellFormed ∧
        ∃ outcome, step.after.fleet.bus? coordinator.name = some outcome.bus ∧
          step.answer? = some outcome.result ∧
          Bus.Acts fault bus step.before.memory step.action step.calls outcome
            step.after.memory := by
  by_cases same : step.name = coordinator.name
  · obtain ⟨wellFormed, outcome, found, answered, acted⟩ :=
      acts.of_held (alone.2 same).1 (same ▸ held)
    exact .inr ⟨same, wellFormed, outcome, same ▸ found, answered, acted⟩
  · refine .inl ⟨same, (Fleet.Acts.bus?_of_ne acts (Ne.symm same)).trans held, ?_⟩
    intro message recorded
    exact acts.mem_markers_elsewhere formed.2 (alone.1 same) recorded

theorem mem_cache_of_finished (finishes : coordinator.FinishesRetained step)
    {act : Bus.Act} (finished : act ≠ .start) {instant : Instant}
    (did : step.Did coordinator.name (act.action instant)) :
    instant ∈ coordinator.cache step.before := by
  apply finishes
  have published := mem_published_singleton.mpr did
  cases act with
  | start => exact absurd rfl finished
  | commit => exact List.mem_append_left _ published
  | abort => exact List.mem_append_right _ published

theorem retains_of_step (acts : step.Acts fault) (formed : step.before.WellFormed)
    (alone : coordinator.WritesAlone step) (finishes : coordinator.FinishesRetained step)
    (held : step.before.fleet.bus? coordinator.name = some bus)
    (config : bus.config = coordinator.config) :
    ∃ later, step.after.fleet.bus? coordinator.name = some later ∧
      later.config = coordinator.config ∧
      (step.Did coordinator.name .bootstrap ∨
          (∀ message ∈ step.before.memory.markers coordinator.config.path,
            message.instant ∈ bus.retained) →
        ∀ message ∈ step.after.memory.markers coordinator.config.path,
          message.instant ∈ later.retained) := by
  have path : bus.path = coordinator.config.path := congrArg Bus.Config.path config
  rcases step_cases_of_alone acts formed alone held with
    ⟨other, found, fewer⟩ | ⟨named, wellFormed, outcome, found, answered, acted⟩
  · refine ⟨bus, found, config, fun clean message recorded => ?_⟩
    have retained := clean.resolve_left fun did => other did.1
    exact retained message (fewer message recorded)
  · refine ⟨outcome.bus, found, acted.config.trans config, fun clean message recorded => ?_⟩
    rw [← path] at recorded clean
    by_cases did : step.Did coordinator.name .bootstrap
    · rw [did.2.1] at acted
      have result : outcome.result = .ok .nothing :=
        Option.some.inj (answered.symm.trans did.2.2)
      simp [acted.markers_of_bootstrapped result] at recorded
    · refine acted.retains_markers wellFormed formed.2 (clean.resolve_left did)
        (alone.2 named).2 ?_ recorded
      intro act instant finished was succeeded
      rw [← cache_of_held held]
      exact mem_cache_of_finished finishes finished ⟨named, was, by rw [answered, succeeded]⟩

/-- Once the directory has been clean, the coordinator retains the instant of
every message on record in it. -/
theorem retains_of_trace (trace : Trace fault start past) (opens : coordinator.Opens start)
    (alone : ∀ step ∈ past, coordinator.WritesAlone step)
    (finishes : ∀ step ∈ past, coordinator.FinishesRetained step) :
    ∃ bus, (start.following past).fleet.bus? coordinator.name = some bus ∧
      bus.config = coordinator.config ∧
      (coordinator.Bootstrapped past ∨ start.memory.markers coordinator.config.path = [] →
        ∀ message ∈ (start.following past).memory.markers coordinator.config.path,
          message.instant ∈ bus.retained) := by
  induction trace with
  | start =>
      obtain ⟨bus, made, single⟩ := opens
      refine ⟨bus, ?_, (Bus.WellFormed.of_config made).2.1, ?_⟩
      · rw [Moment.following, single, Fleet.bus?_insert_self]
      · intro either
        rcases either with ⟨_, impossible, _⟩ | clean
        · cases impossible
        · simp [Moment.following, clean]
  | @step step past earlier follows formed acts ih =>
      obtain ⟨bus, held, config, retained⟩ :=
        ih (fun step member => alone step (List.mem_cons_of_mem _ member))
          (fun step member => finishes step (List.mem_cons_of_mem _ member))
      rw [← follows] at held retained
      obtain ⟨later, found, kept, retains⟩ := retains_of_step acts formed
        (alone step List.mem_cons_self) (finishes step List.mem_cons_self) held config
      refine ⟨later, found, kept, fun clean => retains ?_⟩
      rw [bootstrapped_cons, or_assoc] at clean
      exact clean.imp_right retained

end Coordinator

/-- In a directory that was clean, every marker is of an instant that the
coordinator retains, and it retains none twice, whatever calls have failed. -/
theorem Moment.markers_are_retained {strike : Strike π} (reported : strike.Within Fault.reported)
    (opens : coordinator.Opens start) (formed : start.memory.WellFormed)
    (clean : start.memory.markers coordinator.config.path = [])
    {actions : List (String × Action)}
    (ran : start.history (Memory.serve.failing strike) actions = past)
    (alone : ∀ step ∈ past, coordinator.WritesAlone step)
    (finishes : ∀ step ∈ past, coordinator.FinishesRetained step) :
    ∃ bus, (start.following past).fleet.bus? coordinator.name = some bus ∧
      bus.retained.Nodup ∧
      ∀ name ∈ (start.following past).memory.names coordinator.config.path, ∀ message,
        Marker.decode name = some message → message.instant ∈ bus.retained := by
  have trace := start.trace_history Fault.reports_reported reported
    (opens.wellFormed formed) actions
  rw [ran] at trace
  obtain ⟨bus, held, _, retained⟩ := Coordinator.retains_of_trace trace opens alone finishes
  have wellFormed := (trace.wellFormed (opens.wellFormed formed)).1 _ bus held
  refine ⟨bus, held, wellFormed.distinct, ?_⟩
  intro name listed message decoded
  exact retained (.inr clean) message (List.mem_filterMap.mpr ⟨name, listed, decoded⟩)

/-- The directory is emptied while `a` is retained, `a` is committed all the
same, and the start of `b` cannot remove that marker; a reader looks on. -/
def Moment.relapse : List (Step (Failing Nat Memory)) :=
  (Coordinator.single.opening 1).history (Memory.serve.failing (.refusing "t/d/a.completed"))
    [("r", .messages), ("w", .abort "b"), ("w", .start "b"),
      ("r", .construct Coordinator.single.config), ("w", .commit "a"), ("w", .bootstrap),
      ("w", .start "a")]

theorem Moment.relapse_markers_are_retained :
    let moment := (Coordinator.single.opening 1).following relapse
    moment.memory.names "t/d" = ["a.completed", "b.aborted", "b.inflight"] ∧
      ∃ bus, moment.fleet.bus? "w" = some bus ∧ bus.retained.Nodup ∧
        ∀ name ∈ ["a.completed", "b.aborted", "b.inflight"], ∀ message,
          Marker.decode name = some message → message.instant ∈ bus.retained := by
  intro moment
  have within := (Strike.refusing_within "t/d/a.completed").mono fun _ _ =>
    Fault.reported_of_removals
  have listed : moment.memory.names "t/d" = ["a.completed", "b.aborted", "b.inflight"] := by
    decide +kernel
  refine ⟨listed, ?_⟩
  rw [← listed]
  exact markers_are_retained within (Coordinator.opens_opening (by decide) 1)
    Memory.wellFormed_empty rfl rfl (by decide +kernel) (by decide +kernel)

end MarkerBus
