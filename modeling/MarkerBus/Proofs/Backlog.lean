import Mathlib.Data.Finset.Card
import MarkerBus.Proofs.Bookkeeping
import MarkerBus.Storage.Planned

namespace MarkerBus

open Storage MarkerDirectory

variable {π : Type} {fault : Fault} {start : Moment (Failing π Memory)}
  {past : List (Step (Failing π Memory))} {step : Step (Failing π Memory)}
  {coordinator : Coordinator} {stubborn : Finset Instant}

/-- Nothing fails but the removal of markers of these instants. -/
def Storage.Fault.removalsOf (path : String) (instants : Finset Instant) : Fault :=
  fun request failure =>
    (∃ instant ∈ instants, request ∈ MarkerDirectory.removals path instant) ∧
      ∃ report, failure = .reported report

theorem Storage.Fault.reports_removalsOf (path : String) (instants : Finset Instant) :
    (removalsOf path instants).Reports := by
  intro request failure struck
  exact struck.2

theorem MarkerDirectory.instant_of_removals {path : String} {request : Request}
    {instant other : Instant} (one : request ∈ removals path instant)
    (two : request ∈ removals path other) : instant = other := by
  obtain ⟨phase, rfl⟩ := mem_removals.mp one
  obtain ⟨otherPhase, same⟩ := mem_removals.mp two
  have names : file path ⟨instant, phase⟩ = file path ⟨other, otherPhase⟩ := by simpa using same
  exact congrArg Message.instant (Marker.name_injective (Path.join_injective names))

theorem Step.unhindered_iff : step.Unhindered ↔
    ∀ call ∈ step.calls, call.failed = true → call.request.operation ≠ .remove := by
  constructor
  · intro unhindered call made failed removes
    obtain ⟨request, struck⟩ := call
    cases request with
    | remove file =>
        cases failed
        exact unhindered file made
    | create | list | probe | reset => cases removes
  · intro spared file made
    exact spared _ made rfl rfl

instance : Decidable step.Unhindered :=
  decidable_of_iff _ Step.unhindered_iff.symm

namespace Bus

variable {bus : Bus} {before after : Memory} {action : Action} {calls : List Call}
  {outcome : Outcome Answer} {instant : Instant}

/-- Only a start and a close touch the queue. -/
theorem Acts.retained_eq (acts : Acts fault bus before action calls outcome after)
    (stays : action ≠ .close)
    (silent : ∀ instant, action = .start instant → outcome.result ≠ .ok .nothing) :
    outcome.bus.retained = bus.retained := by
  cases acts with
  | listened | asked | bootstrapped | notBootstrapped | messages | pending | unread | published
  | refused | unpublished => rfl
  | closed => exact absurd rfl stays
  | started => exact absurd rfl (silent _ rfl)

theorem length_track_le (bus : Bus) (instant : Instant) :
    (bus.retention.track instant).queue.length ≤ bus.retained.length + 1 := by
  unfold Retention.track
  split
  · exact Nat.le_succ _
  · simp [retained]

/-- A start brings the queue within its limit, or it fails to remove a marker
of the oldest instant that it leaves in the queue. -/
theorem Acts.backlog_of_started (acts : Acts fault bus before (.start instant) calls outcome after)
    (answered : outcome.result = .ok .nothing) :
    (outcome.bus.retained.length ≤ bus.retention.limit ∨ ∃ file, ⟨.remove file, true⟩ ∈ calls) ∧
      outcome.bus.retained.length ≤ bus.retained.length + 1 ∧
      (bus.retention.limit < outcome.bus.retained.length →
        ∃ head ∈ outcome.bus.retained.head?, ∃ request ∈ removals bus.path head,
          ∃ failure, fault request failure) := by
  have suffix := (acts.suffix_of_started answered).length_le
  obtain ⟨_, _, cleaned, cleaning, _, rfl, settled, _, _, drains⟩ := acts.of_started answered
  rw [settled] at suffix ⊢
  refine ⟨?_, suffix.trans (bus.length_track_le instant), drains.head_failed⟩
  rcases drains.length_le_or_failed with enough | ⟨file, failed⟩
  · exact .inl enough
  · exact .inr ⟨file, List.mem_cons_of_mem _ failed⟩

end Bus

namespace Coordinator

/-- The starts in a row, up to the latest, that failed to remove some marker. -/
def stalls (coordinator : Coordinator) : List (Step (Failing π Memory)) → Nat
  | [] => 0
  | step :: past =>
      if coordinator.published .start [step] = [] then coordinator.stalls past
      else if step.Unhindered then 0
      else coordinator.stalls past + 1

theorem stalls_of_silent (silent : ∀ instant, ¬ step.Did coordinator.name (.start instant)) :
    coordinator.stalls (step :: past) = coordinator.stalls past := by
  have nothing : coordinator.published .start [step] = [] :=
    List.eq_nil_iff_forall_not_mem.mpr fun instant member =>
      silent instant (mem_published_singleton.mp member)
  rw [stalls, if_pos nothing]

theorem stalls_of_started {instant : Instant} (did : step.Did coordinator.name (.start instant)) :
    coordinator.stalls (step :: past) =
      if step.Unhindered then 0 else coordinator.stalls past + 1 := by
  have something : coordinator.published .start [step] ≠ [] :=
    List.ne_nil_of_mem (mem_published_singleton.mpr did)
  rw [stalls, if_neg something]

/-- The queue exceeds the limit by no more than the starts in a row that failed,
and where it does, the oldest instant in it is one that cannot be removed. -/
structure Backs (coordinator : Coordinator) (stubborn : Finset Instant)
    (past : List (Step (Failing π Memory))) (bus : Bus) : Prop where
  config : bus.config = coordinator.config
  length : bus.retained.length ≤ coordinator.config.limit + coordinator.stalls past
  head : coordinator.config.limit < bus.retained.length →
    ∃ head ∈ bus.retained.head?, head ∈ stubborn

theorem Backs.of_step {bus : Bus} (backs : coordinator.Backs stubborn past bus)
    (acts : step.Acts (Fault.removalsOf coordinator.config.path stubborn))
    (formed : step.before.WellFormed) (alone : coordinator.WritesAlone step)
    (held : step.before.fleet.bus? coordinator.name = some bus) :
    ∃ later, step.after.fleet.bus? coordinator.name = some later ∧
      coordinator.Backs stubborn (step :: past) later := by
  rcases step_cases_of_alone acts formed alone held with
    ⟨other, found, _⟩ | ⟨named, wellFormed, outcome, found, answered, acted⟩
  · have same : coordinator.stalls (step :: past) = coordinator.stalls past :=
      stalls_of_silent fun instant did => other did.1
    exact ⟨bus, found, backs.config, same ▸ backs.length, backs.head⟩
  · have config := acted.config.trans backs.config
    refine ⟨outcome.bus, found, ?_⟩
    by_cases starts : ∃ instant, step.Did coordinator.name (.start instant)
    · obtain ⟨instant, did⟩ := starts
      rw [did.2.1] at acted
      obtain ⟨drained, longer, exceeds⟩ :=
        acted.backlog_of_started (Option.some.inj (answered.symm.trans did.2.2))
      have path : bus.path = coordinator.config.path := congrArg Bus.Config.path backs.config
      rw [wellFormed.limit, backs.config] at drained exceeds
      rw [path] at exceeds
      refine ⟨config, ?_, ?_⟩
      · rw [stalls_of_started did]
        split
        · rename_i unhindered
          exact drained.resolve_right fun ⟨file, failed⟩ => unhindered file failed
        · have earlier := backs.length
          omega
      · intro more
        obtain ⟨head, first, request, own, _, ⟨instant, member, removes⟩, _⟩ := exceeds more
        exact ⟨head, first, instant_of_removals own removes ▸ member⟩
    · have silent : ∀ instant, ¬ step.Did coordinator.name (.start instant) :=
        fun instant did => starts ⟨instant, did⟩
      have same : outcome.bus.retained = bus.retained := by
        refine acted.retained_eq (alone.2 named).2 fun instant was succeeded => ?_
        exact silent instant ⟨named, was, by rw [answered, succeeded]⟩
      refine ⟨config, ?_, ?_⟩
      · rw [stalls_of_silent silent, same]
        exact backs.length
      · rw [same]
        exact backs.head

theorem backs_of_trace
    (trace : Trace (Fault.removalsOf coordinator.config.path stubborn) start past)
    (opens : coordinator.Opens start) (alone : ∀ step ∈ past, coordinator.WritesAlone step) :
    ∃ bus, (start.following past).fleet.bus? coordinator.name = some bus ∧
      coordinator.Backs stubborn past bus := by
  induction trace with
  | start =>
      obtain ⟨bus, made, single⟩ := opens
      obtain ⟨_, config, empty, _⟩ := Bus.WellFormed.of_config made
      refine ⟨bus, ?_, config, by simp [empty], by simp [empty]⟩
      rw [Moment.following, single, Fleet.bus?_insert_self]
  | @step step past earlier follows formed acts ih =>
      obtain ⟨bus, held, backs⟩ := ih fun step member => alone step (List.mem_cons_of_mem _ member)
      rw [← follows] at held
      exact backs.of_step acts formed (alone step List.mem_cons_self) held

end Coordinator

/-- If nothing fails but the removal of markers of some instants, the backlog is
no longer than the starts in a row that failed so, and begins with one of these
instants.  No more instants have markers than the coordinator retains. -/
theorem Moment.backlog_le_stalls {strike : Strike π}
    (within : strike.Within (Fault.removalsOf coordinator.config.path stubborn))
    (opens : coordinator.Opens start) (formed : start.memory.WellFormed)
    {actions : List (String × Action)}
    (ran : start.history (Memory.serve.failing strike) actions = past)
    (alone : ∀ step ∈ past, coordinator.WritesAlone step)
    (finishes : ∀ step ∈ past, coordinator.FinishesRetained step)
    (clean : coordinator.Bootstrapped past ∨
      start.memory.markers coordinator.config.path = []) :
    let moment := start.following past
    let cache := coordinator.cache moment
    let bound := coordinator.config.limit + coordinator.stalls past
    cache.length ≤ bound ∧
      (moment.memory.instants coordinator.config.path).card ≤ bound ∧
      (coordinator.config.limit < cache.length → ∃ head ∈ cache.head?, head ∈ stubborn) := by
  intro moment cache bound
  have trace := start.trace_history (Fault.reports_removalsOf _ stubborn) within
    (opens.wellFormed formed) actions
  rw [ran] at trace
  obtain ⟨bus, held, _, retained⟩ := Coordinator.retains_of_trace trace opens alone finishes
  obtain ⟨same, found, backs⟩ := Coordinator.backs_of_trace trace opens alone
  cases held.symm.trans found
  have kept : cache = bus.retained := Coordinator.cache_of_held held
  rw [kept]
  refine ⟨backs.length, ?_, backs.head⟩
  have covered : moment.memory.instants coordinator.config.path ⊆ bus.retained.toFinset := by
    intro instant member
    obtain ⟨message, recorded, rfl⟩ := Memory.mem_instants.mp member
    exact List.mem_toFinset.mpr (retained clean message recorded)
  calc (moment.memory.instants coordinator.config.path).card
      ≤ bus.retained.toFinset.card := Finset.card_le_card covered
    _ ≤ bus.retained.length := bus.retained.toFinset_card_le
    _ ≤ bound := backs.length

/-- The markers of `a` cannot be deleted, and the instants after it pile up. -/
def Moment.pileup (times : Nat) : List (Step (Failing Nat Memory)) :=
  (Coordinator.single.opening times).history (Memory.serve.failing (.refusing "t/d/a.inflight"))
    [("w", .start "d"), ("w", .start "c"), ("w", .abort "a"), ("w", .start "b"),
      ("w", .start "a"), ("w", .bootstrap)]

theorem Moment.pileup_within : (Strike.refusing "t/d/a.inflight").Within
    (Fault.removalsOf Coordinator.single.config.path {"a"}) :=
  Strike.refusing_within_of fun report =>
    ⟨⟨"a", Finset.mem_singleton_self _, List.mem_cons_self⟩, report, rfl⟩

theorem Moment.backlog_may_outgrow : ¬ ∀ (π : Type) (strike : Strike π)
    (start : Moment (Failing π Memory)) (coordinator : Coordinator)
    (stubborn : Finset Instant) (actions : List (String × Action))
    (past : List (Step (Failing π Memory))),
    strike.Within (Fault.removalsOf coordinator.config.path stubborn) →
      coordinator.Opens start → start.memory.WellFormed →
      start.history (Memory.serve.failing strike) actions = past →
      (∀ step ∈ past, coordinator.WritesAlone step) →
      (∀ step ∈ past, coordinator.FinishesRetained step) → coordinator.Bootstrapped past →
      (coordinator.cache (start.following past)).length ≤
          coordinator.config.limit + stubborn.card ∧
        ((start.following past).memory.instants coordinator.config.path).card ≤
          coordinator.config.limit + stubborn.card := by
  intro claim
  have bounded := claim Nat _ (Coordinator.single.opening 3) .single {"a"} _ (pileup 3)
    pileup_within (Coordinator.opens_opening (by decide) 3) Memory.wellFormed_empty rfl
    (by decide +kernel) (by decide +kernel) (by decide +kernel)
  exact absurd bounded (by decide +kernel)

/-- Three starts in a row fail, and the bound is met. -/
theorem Moment.pileup_le_stalls :
    let cache := Coordinator.single.cache ((Coordinator.single.opening 3).following (pileup 3))
    Coordinator.single.stalls (pileup 3) = 3 ∧ cache = ["a", "b", "c", "d"] ∧
      cache.length ≤ 1 + 3 ∧ ∃ head ∈ cache.head?, head ∈ ({"a"} : Finset Instant) := by
  intro cache
  have stalls : Coordinator.single.stalls (pileup 3) = 3 := by decide +kernel
  have kept : cache = ["a", "b", "c", "d"] := by decide +kernel
  have ran : (Coordinator.single.opening 3).history _ _ = pileup 3 := rfl
  obtain ⟨bounded, _, oldest⟩ := backlog_le_stalls pileup_within
    (Coordinator.opens_opening (by decide) 3) Memory.wellFormed_empty ran
    (by decide +kernel) (by decide +kernel) (.inr rfl)
  rw [stalls] at bounded
  exact ⟨stalls, kept, bounded, oldest (by decide +kernel)⟩

end MarkerBus
