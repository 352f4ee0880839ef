import Mathlib.Data.Finset.Card
import MarkerBus.Proofs.Bookkeeping

namespace MarkerBus

/-! Which instants have markers, when nothing fails.

A coordinator that has emptied its directory leaves markers of the instants that
it retains, which are the ones that were started last.  Beyond them only strays
have markers: instants that were finished after they had been let go.  Nothing
removes these until they are started again.
-/

open Storage MarkerDirectory

/-- No call ever fails. -/
def Storage.Strike.idle : Strike Unit :=
  fun _ plan => (none, plan)

theorem Storage.Strike.idle_within {fault : Fault} : idle.Within fault :=
  nofun

variable {π : Type} {fault : Fault} {start : Moment (Failing π Memory)}
  {later past : List (Step (Failing π Memory))} {first step : Step (Failing π Memory)}
  {coordinator : Coordinator} {instant : Instant}

/-- What a coordinator may do between its bootstrap and its end. -/
def Action.steady : Action → Bool
  | .construct _ | .destroy | .bootstrap | .close => false
  | _ => true

theorem Action.ordinary_of_steady {action : Action} (steady : action.steady) :
    action.ordinary := by
  cases action with
  | construct | destroy => cases steady
  | _ => rfl

namespace Bus

variable {bus : Bus} {before after : Memory} {action : Action} {calls : List Call}
  {outcome : Outcome Answer}

theorem Acts.still (acts : Acts fault bus before action calls outcome after)
    (steady : action.steady)
    (silent : ∀ act instant, action = Act.action act instant → outcome.result ≠ .ok .nothing) :
    before = after ∧ outcome.bus.retained = bus.retained := by
  cases acts with
  | listened | asked | notBootstrapped | messages | pending | unread | refused | unpublished =>
      exact ⟨rfl, rfl⟩
  | bootstrapped | closed => cases steady
  | published publishes => exact absurd rfl (silent _ _ publishes)
  | started => exact absurd rfl (silent .start _ rfl)

section

variable (acts : Acts Fault.none bus before (.start instant) calls outcome after)
  (answered : outcome.result = .ok .nothing)

include acts answered

theorem Acts.retained_of_faultless : outcome.bus.retained =
    (bus.retention.track instant).queue.drop
      ((bus.retention.track instant).queue.length - bus.retention.limit) := by
  obtain ⟨_, _, _, cleaning, _, _, settled, _, _, drains⟩ := acts.of_started answered
  rw [settled]
  exact drains.queue_eq_drop

theorem Acts.mem_retained_iff_of_faultless (wellFormed : bus.WellFormed) (other : Instant) :
    other ∈ outcome.bus.retained ↔ (other = instant ∨ other ∈ bus.retained) ∧
      other ∉ (bus.retention.track instant).overhang := by
  obtain ⟨_, _, _, _, valid, _⟩ := acts.of_started answered
  have distinct : (bus.retention.track instant).queue.Nodup :=
    (wellFormed.tracking valid).distinct
  rw [acts.retained_of_faultless answered, Retention.mem_drop_iff distinct, Retention.mem_track,
    Retention.overhang, Retention.limit_track]
  rfl

/-- A start that nothing hinders takes all markers of the instants beyond the limit. -/
theorem Acts.mem_instants_of_faultless (wellFormed : bus.WellFormed)
    (formed : before.WellFormed) (other : Instant) : other ∈ after.instants bus.path ↔
      (other = instant ∨ other ∈ before.instants bus.path) ∧
        other ∉ (bus.retention.track instant).overhang := by
  simp only [Memory.mem_instants]
  constructor
  · intro given
    obtain ⟨message, recorded, rfl⟩ := given
    obtain ⟨there, untouched⟩ :=
      (acts.mem_markers_of_started wellFormed formed answered).mp recorded
    refine ⟨?_, fun exceeds => untouched ?_⟩
    · rcases there with rfl | earlier
      · exact .inl rfl
      · exact .inr ⟨message, earlier, rfl⟩
    · have tracked := Retention.mem_track.mp (List.mem_of_mem_take exceeds)
      refine acts.removed_of_started answered tracked fun kept => ?_
      exact ((acts.mem_retained_iff_of_faultless answered wellFormed _).mp kept).2 exceeds
  · intro given
    obtain ⟨there, kept⟩ := given
    have stays {message : Message} (recorded : message = ⟨instant, .inflight⟩ ∨
        message ∈ before.markers bus.path) (about : message.instant = other)
        (valid : message.instant.Valid) : message ∈ after.markers bus.path := by
      refine (acts.mem_markers_of_started wellFormed formed answered).mpr ⟨recorded, ?_⟩
      intro removed
      exact kept (about ▸ acts.overhang_of_started wellFormed answered valid removed)
    obtain ⟨_, _, _, _, valid, _⟩ := acts.of_started answered
    rcases there with rfl | ⟨message, recorded, rfl⟩
    · exact ⟨_, stays (.inl rfl) rfl valid, rfl⟩
    · exact ⟨message, stays (.inr recorded) rfl (Memory.mem_markers_iff.mp recorded).1, rfl⟩

end

end Bus

namespace Coordinator

/-- The instants that were committed or aborted while they were not retained,
and have not been started since. -/
def strays {σ : Type} (coordinator : Coordinator) : List (Step σ) → List Instant
  | [] => []
  | step :: past =>
      (coordinator.published .commit [step] ++ coordinator.published .abort [step]).filter
          (· ∉ coordinator.cache step.before) ++
        (coordinator.strays past).filter (· ∉ coordinator.published .start [step])

theorem mem_strays_cons : instant ∈ coordinator.strays (step :: past) ↔
    (∃ act, act ≠ Bus.Act.start ∧ step.Did coordinator.name (act.action instant)) ∧
        instant ∉ coordinator.cache step.before ∨
      instant ∈ coordinator.strays past ∧ ¬ step.Did coordinator.name (.start instant) := by
  have finished : instant ∈ coordinator.published .commit [step] ++
        coordinator.published .abort [step] ↔
      ∃ act, act ≠ Bus.Act.start ∧ step.Did coordinator.name (act.action instant) := by
    rw [List.mem_append, mem_published_singleton, mem_published_singleton]
    constructor
    · intro either
      rcases either with did | did
      · exact ⟨.commit, by decide, did⟩
      · exact ⟨.abort, by decide, did⟩
    · intro given
      obtain ⟨act, finished, did⟩ := given
      cases act with
      | start => exact absurd rfl finished
      | commit => exact .inl did
      | abort => exact .inr did
  have started : instant ∈ coordinator.published .start [step] ↔
    step.Did coordinator.name (.start instant) := mem_published_singleton
  simp only [strays, List.mem_append, List.mem_filter, decide_eq_true_eq] at finished ⊢
  rw [finished, started]

/-- How the bus and its directory stand after some steady steps that nothing hindered. -/
structure Tidy (coordinator : Coordinator) (past : List (Step (Failing π Memory))) (bus : Bus)
    (memory : Memory) : Prop where
  config : bus.config = coordinator.config
  accessible : memory.Accessible coordinator.config.path
  within : bus.retained.length ≤ coordinator.config.limit
  marked : ∀ instant, instant ∈ memory.instants coordinator.config.path ↔
    instant ∈ bus.retained ∨ instant ∈ coordinator.strays past
  apart : ∀ instant ∈ coordinator.strays past, instant ∉ bus.retained
  latest : (coordinator.published .start past).Nodup →
    bus.retained = ((coordinator.published .start past).take coordinator.config.limit).reverse

variable {bus : Bus} {outcome : Bus.Outcome Answer}

/-- Of the latest instants and one more, the latest are kept. -/
theorem drop_of_latest {started : List Instant} {limit : Nat} (enough : 1 ≤ limit) :
    let queue := (started.take limit).reverse ++ [instant]
    queue.drop (queue.length - limit) = ((instant :: started).take limit).reverse := by
  intro queue
  obtain ⟨below, rfl⟩ : ∃ below, limit = below + 1 := ⟨limit - 1, by omega⟩
  have reversed : queue = (instant :: started.take (below + 1)).reverse := by simp [queue]
  have count : queue.length - (queue.length - (below + 1)) = min queue.length (below + 1) := by
    omega
  calc queue.drop (queue.length - (below + 1))
      = ((instant :: started.take (below + 1)).take (min queue.length (below + 1))).reverse := by
        rw [← count, reversed, List.drop_reverse, List.length_reverse]
    _ = ((instant :: started.take (below + 1)).take (below + 1)).reverse := by
        rw [reversed, List.length_reverse, Nat.min_comm, ← List.take_take, List.take_length]
    _ = ((instant :: started).take (below + 1)).reverse := by
        simp only [List.take_succ_cons, List.take_take, Nat.min_eq_left (Nat.le_succ below)]

theorem mem_strays_of_started (past : List (Step (Failing π Memory)))
    (did : step.Did coordinator.name (.start instant)) (other : Instant) :
    other ∈ coordinator.strays (step :: past) ↔
      other ∈ coordinator.strays past ∧ other ≠ instant := by
  have same {act : Bus.Act} (again : step.Did coordinator.name (act.action other)) :
      act = .start ∧ other = instant :=
    again.unique did
  rw [mem_strays_cons]
  constructor
  · intro either
    rcases either with ⟨⟨act, finished, again⟩, _⟩ | ⟨earlier, silent⟩
    · exact absurd (same again).1 finished
    · exact ⟨earlier, fun here => silent (here ▸ did)⟩
  · intro given
    obtain ⟨earlier, differs⟩ := given
    have silent : ¬ step.Did coordinator.name (Bus.Act.start.action other) :=
      fun again => differs (same again).2
    exact .inr ⟨earlier, silent⟩

theorem mem_strays_of_finished (past : List (Step (Failing π Memory))) {act : Bus.Act}
    (finished : act ≠ .start) (did : step.Did coordinator.name (act.action instant))
    (other : Instant) :
    other ∈ coordinator.strays (step :: past) ↔
      other = instant ∧ other ∉ coordinator.cache step.before ∨
        other ∈ coordinator.strays past := by
  have same {again : Bus.Act} (twice : step.Did coordinator.name (again.action other)) :
      again = act ∧ other = instant :=
    twice.unique did
  rw [mem_strays_cons]
  constructor
  · intro either
    rcases either with ⟨⟨again, _, twice⟩, outside⟩ | ⟨earlier, _⟩
    · exact .inl ⟨(same twice).2, outside⟩
    · exact .inr earlier
  · intro either
    rcases either with ⟨rfl, outside⟩ | earlier
    · exact .inl ⟨⟨act, finished, did⟩, outside⟩
    · have silent : ¬ step.Did coordinator.name (Bus.Act.start.action other) :=
        fun started => finished (same started).1.symm
      exact .inr ⟨earlier, silent⟩

theorem mem_strays_of_silent (past : List (Step (Failing π Memory)))
    (silent : ∀ act instant, ¬ step.Did coordinator.name (Bus.Act.action act instant))
    (other : Instant) :
    other ∈ coordinator.strays (step :: past) ↔ other ∈ coordinator.strays past := by
  rw [mem_strays_cons]
  constructor
  · intro either
    rcases either with ⟨⟨act, _, did⟩, _⟩ | ⟨earlier, _⟩
    · exact absurd did (silent act other)
    · exact earlier
  · intro earlier
    exact .inr ⟨earlier, silent .start other⟩

section

variable (tidy : coordinator.Tidy past bus step.before.memory) (wellFormed : bus.WellFormed)

include tidy wellFormed

theorem Tidy.of_started (formed : step.before.memory.WellFormed)
    (did : step.Did coordinator.name (.start instant))
    (answered : outcome.result = .ok .nothing)
    (acts : Bus.Acts Fault.none bus step.before.memory (.start instant) step.calls outcome
      step.after.memory) :
    coordinator.Tidy (step :: past) outcome.bus step.after.memory := by
  have path : bus.path = coordinator.config.path := congrArg Bus.Config.path tidy.config
  have limit : bus.retention.limit = coordinator.config.limit :=
    wellFormed.limit.trans (congrArg Bus.Config.limit tidy.config)
  have enough : 1 ≤ coordinator.config.limit := tidy.config ▸ wellFormed.valid.2.2.1
  have settled := acts.retained_of_faultless answered
  have kept := acts.mem_retained_iff_of_faultless answered wellFormed
  have marked := acts.mem_instants_of_faultless answered wellFormed formed
  have strays := mem_strays_of_started past did
  rw [limit] at settled
  rw [path] at marked
  refine ⟨acts.config.trans tidy.config, ?_, ?_, ?_, ?_, ?_⟩
  · exact path ▸ acts.accessible wellFormed (path ▸ tidy.accessible)
  · rw [settled, List.length_drop]
    omega
  · intro other
    rw [marked, kept, strays, tidy.marked]
    have spared : other ∈ coordinator.strays past → other ≠ instant →
        other ∉ (bus.retention.track instant).overhang := by
      intro stray differs exceeds
      rcases Retention.mem_track.mp (List.mem_of_mem_take exceeds) with here | tracked
      · exact differs here
      · exact tidy.apart other stray tracked
    tauto
  · intro other stray
    rw [strays] at stray
    rw [kept]
    have apart := tidy.apart other stray.1
    tauto
  · intro distinct
    rw [published_of_did .start did] at distinct ⊢
    obtain ⟨fresh, earlier⟩ := List.nodup_cons.mp distinct
    have latest := tidy.latest earlier
    have untracked : instant ∉ bus.retained := by
      rw [latest, List.mem_reverse]
      exact fun member => fresh (List.mem_of_mem_take member)
    have queue : (bus.retention.track instant).queue = bus.retained ++ [instant] :=
      congrArg Retention.queue (if_neg untracked)
    rw [settled, queue, latest]
    exact drop_of_latest enough

theorem Tidy.of_finished {act : Bus.Act} (finished : act ≠ .start)
    (held : step.before.fleet.bus? coordinator.name = some bus)
    (did : step.Did coordinator.name (act.action instant))
    (answered : outcome.result = .ok .nothing)
    (acts : Bus.Acts Fault.none bus step.before.memory (act.action instant) step.calls outcome
      step.after.memory) :
    coordinator.Tidy (step :: past) outcome.bus step.after.memory := by
  have path : bus.path = coordinator.config.path := congrArg Bus.Config.path tidy.config
  obtain ⟨counted, _, recorded⟩ := acts.of_finished act finished answered wellFormed
  have same : outcome.bus.retained = bus.retained := by rw [counted]; rfl
  have strays := mem_strays_of_finished past finished did
  have marked (other : Instant) : other ∈ step.after.memory.instants bus.path ↔
      other = instant ∨ other ∈ step.before.memory.instants bus.path := by
    simp only [Memory.mem_instants, recorded, or_and_right, exists_or, exists_eq_left, eq_comm]
  have silent : coordinator.published .start (step :: past) = coordinator.published .start past :=
    published_of_silent fun other started =>
      finished (Step.Did.unique did started).1
  simp only [cache_of_held held] at strays
  rw [path] at marked
  refine ⟨acts.config.trans tidy.config, ?_, ?_, ?_, ?_, ?_⟩
  · exact path ▸ acts.accessible wellFormed (path ▸ tidy.accessible)
  · exact same ▸ tidy.within
  · intro other
    rw [marked, same, strays, tidy.marked]
    tauto
  · intro other stray
    rw [same]
    rcases (strays other).mp stray with ⟨_, outside⟩ | earlier
    · exact outside
    · exact tidy.apart other earlier
  · rw [silent, same]
    exact tidy.latest

omit wellFormed in
theorem Tidy.of_silent
    (silent : ∀ act instant, ¬ step.Did coordinator.name (Bus.Act.action act instant))
    (config : outcome.bus.config = bus.config) (same : outcome.bus.retained = bus.retained)
    (still : step.before.memory = step.after.memory) :
    coordinator.Tidy (step :: past) outcome.bus step.after.memory := by
  have strays := mem_strays_of_silent past silent
  rw [← still]
  refine ⟨config.trans tidy.config, tidy.accessible, ?_, ?_, ?_, ?_⟩
  · exact same ▸ tidy.within
  · intro other
    rw [same, strays, tidy.marked]
  · intro other stray
    rw [same]
    exact tidy.apart other ((strays other).mp stray)
  · rw [published_of_silent (silent .start), same]
    exact tidy.latest

end

theorem Tidy.of_step (tidy : coordinator.Tidy past bus step.before.memory)
    (acts : step.Acts Fault.none) (formed : step.before.WellFormed)
    (named : step.name = coordinator.name) (steady : step.action.steady)
    (held : step.before.fleet.bus? coordinator.name = some bus) :
    (∃ later, step.after.fleet.bus? coordinator.name = some later ∧
        coordinator.Tidy (step :: past) later step.after.memory) ∧
      ∀ act instant, step.action = Bus.Act.action act instant → instant.Valid →
        step.answer? = some (.ok .nothing) := by
  obtain ⟨wellFormed, outcome, found, answered, acted⟩ :=
    acts.of_held (Action.ordinary_of_steady steady) (named ▸ held)
  rw [named] at found
  refine ⟨⟨outcome.bus, found, ?_⟩, ?_⟩
  · by_cases done : ∃ act instant, step.Did coordinator.name (Bus.Act.action act instant)
    · obtain ⟨act, instant, did⟩ := done
      have result : outcome.result = .ok .nothing :=
        Option.some.inj (answered.symm.trans did.2.2)
      rw [did.2.1] at acted
      by_cases starts : act = .start
      · subst starts
        exact tidy.of_started wellFormed formed.2 did result acted
      · exact tidy.of_finished wellFormed starts held did result acted
    · have silent : ∀ act instant, ¬ step.Did coordinator.name (Bus.Act.action act instant) :=
        fun act instant did => done ⟨act, instant, did⟩
      obtain ⟨still, same⟩ := acted.still steady fun act instant was succeeded =>
        silent act instant ⟨named, was, by rw [answered, succeeded]⟩
      exact tidy.of_silent silent acted.config same still
  · intro act instant was valid
    have path : bus.path = coordinator.config.path := congrArg Bus.Config.path tidy.config
    rw [was] at acted
    rw [answered, acted.answers wellFormed (path ▸ tidy.accessible) valid]

theorem Tidy.of_bootstrapped (acts : step.Acts Fault.none)
    (emptied : step.name = coordinator.name ∧ step.action = .bootstrap)
    (held : step.before.fleet.bus? coordinator.name = some bus)
    (config : bus.config = coordinator.config) (empty : bus.retained = []) :
    ∃ later, step.after.fleet.bus? coordinator.name = some later ∧
      coordinator.Tidy [step] later step.after.memory := by
  obtain ⟨named, was⟩ := emptied
  unfold Step.Acts at acts
  rw [named, was] at acts
  obtain ⟨wellFormed, outcome, found, answered, acted⟩ := acts.of_held rfl held
  obtain ⟨rfl, reset⟩ := acted.of_bootstrap
  have path : bus.path = coordinator.config.path := congrArg Bus.Config.path config
  have silent (act : Bus.Act) (instant : Instant) :
      ¬ step.Did coordinator.name (act.action instant) := by
    intro did
    have clash := was.symm.trans did.2.1
    cases act <;> cases clash
  have strays (other : Instant) : other ∉ coordinator.strays [step] := by
    rw [mem_strays_of_silent [] silent]
    exact List.not_mem_nil
  refine ⟨bus, found, config, ?_, by simp [empty], ?_, ?_, ?_⟩
  · rw [← reset, ← path]
    exact Memory.accessible_reset wellFormed.path_ne_empty
  · intro other
    rw [← reset, ← path, Memory.mem_instants, Memory.markers_reset, empty]
    simp [strays]
  · intro other stray
    exact absurd stray (strays other)
  · intro _
    rw [published_of_silent (silent .start), empty]
    exact (congrArg List.reverse List.take_nil).symm

theorem tidy_of_trace (trace : Trace Fault.none start (later ++ [first]))
    (opens : coordinator.Opens start)
    (emptied : first.name = coordinator.name ∧ first.action = .bootstrap)
    (steady : ∀ step ∈ later, step.name = coordinator.name ∧ step.action.steady) :
    (∃ bus, (start.following (later ++ [first])).fleet.bus? coordinator.name = some bus ∧
        coordinator.Tidy (later ++ [first]) bus
          (start.following (later ++ [first])).memory) ∧
      ∀ step ∈ later, ∀ act instant, step.action = Bus.Act.action act instant →
        instant.Valid → step.answer? = some (.ok .nothing) := by
  induction later with
  | nil =>
      obtain ⟨bus, made, alone⟩ := opens
      obtain ⟨_, config, empty, _⟩ := Bus.WellFormed.of_config made
      cases trace with
      | step earlier follows formed acts =>
          have held : first.before.fleet.bus? coordinator.name = some bus := by
            rw [follows, Moment.following, alone, Fleet.bus?_insert_self]
          exact ⟨Tidy.of_bootstrapped acts emptied held config empty, by simp⟩
  | cons step later ih =>
      cases trace with
      | step earlier follows formed acts =>
          obtain ⟨⟨bus, held, tidy⟩, answers⟩ :=
            ih earlier fun step member => steady step (List.mem_cons_of_mem _ member)
          rw [← List.append_eq, ← follows] at held tidy
          obtain ⟨named, steadily⟩ := steady step List.mem_cons_self
          obtain ⟨kept, answered⟩ := tidy.of_step acts formed named steadily held
          exact ⟨kept, List.forall_mem_cons.mpr ⟨answered, answers⟩⟩

/-- The coordinator commits or aborts only what it has started before. -/
def FinishesStarted {σ : Type} (coordinator : Coordinator) : List (Step σ) → Prop
  | [] => True
  | step :: past =>
      (∀ instant ∈ coordinator.published .commit [step] ++ coordinator.published .abort [step],
          instant ∈ coordinator.published .start past) ∧
        coordinator.FinishesStarted past

instance decidableFinishesStarted {σ : Type} (coordinator : Coordinator) :
    (history : List (Step σ)) → Decidable (coordinator.FinishesStarted history)
  | [] => isTrue trivial
  | _ :: past =>
      have := coordinator.decidableFinishesStarted past
      inferInstanceAs (Decidable (_ ∧ coordinator.FinishesStarted past))

theorem strays_eq_nil (finishes : ∀ step ∈ past, coordinator.FinishesRetained step) :
    coordinator.strays past = [] := by
  induction past with
  | nil => rfl
  | cons step past ih =>
      apply List.eq_nil_iff_forall_not_mem.mpr
      intro instant stray
      rcases mem_strays_cons.mp stray with ⟨⟨act, finished, did⟩, outside⟩ | ⟨earlier, _⟩
      · exact outside (mem_cache_of_finished (finishes step List.mem_cons_self) finished did)
      · rw [ih fun step member => finishes step (List.mem_cons_of_mem _ member)] at earlier
        cases earlier

end Coordinator

/-- Where nothing fails, every valid instant is published.  Besides strays, only
retained instants have markers, no more than the limit; and if no instant has
been started twice, these are the latest. -/
theorem Moment.retention_bounds_markers {strike : Strike π} (faultless : strike.Within Fault.none)
    (opens : coordinator.Opens start) (formed : start.memory.WellFormed)
    {actions : List (String × Action)}
    (ran : start.history (Memory.serve.failing strike) actions = later ++ [first])
    (emptied : first.name = coordinator.name ∧ first.action = .bootstrap)
    (steady : ∀ step ∈ later, step.name = coordinator.name ∧ step.action.steady) :
    let past := later ++ [first]
    let limit := coordinator.config.limit
    let started := coordinator.published .start past
    let strays := (coordinator.strays past).toFinset
    let marked := (start.following past).memory.instants coordinator.config.path
    (∀ step ∈ later, ∀ act instant, step.action = Bus.Act.action act instant → instant.Valid →
        step.answer? = some (.ok .nothing)) ∧
      (marked \ strays).card ≤ limit ∧
      (started.Nodup → marked = (started.take limit).toFinset ∪ strays) ∧
      ((∀ step ∈ past, coordinator.FinishesRetained step) → strays = ∅) := by
  intro past limit started strays marked
  have trace := start.trace_history Fault.reports_none faultless (opens.wellFormed formed) actions
  rw [ran] at trace
  obtain ⟨⟨bus, held, tidy⟩, answers⟩ := Coordinator.tidy_of_trace trace opens emptied steady
  have split : marked = bus.retained.toFinset ∪ strays := by
    ext instant
    simpa [strays] using tidy.marked instant
  refine ⟨answers, ?_, ?_, ?_⟩
  · calc (marked \ strays).card
        ≤ bus.retained.toFinset.card := by
          rw [split, Finset.union_sdiff_right]
          exact Finset.card_le_card Finset.sdiff_subset
      _ ≤ bus.retained.length := bus.retained.toFinset_card_le
      _ ≤ limit := tidy.within
  · intro distinct
    rw [split, tidy.latest distinct, List.toFinset_reverse]
  · intro finishes
    have none : coordinator.strays past = [] := Coordinator.strays_eq_nil finishes
    simp [strays, none]

/-- The commit of `a` comes after its markers have been deleted. -/
def Moment.afterthought : List (Step (Failing Unit Memory)) :=
  (Coordinator.single.opening ()).history (Memory.serve.failing .idle)
    [("w", .start "c"), ("w", .commit "a"), ("w", .start "b"), ("w", .start "a"),
      ("w", .bootstrap)]

theorem Moment.retention_may_not_bound : ¬ ∀ (π : Type) (strike : Strike π)
    (start : Moment (Failing π Memory)) (coordinator : Coordinator)
    (actions : List (String × Action)) (past : List (Step (Failing π Memory))),
    strike.Within Fault.none → coordinator.Opens start → start.memory.WellFormed →
      start.history (Memory.serve.failing strike) actions = past →
      (∀ first ∈ past.getLast?, first.name = coordinator.name ∧ first.action = .bootstrap) →
      (∀ step ∈ past.dropLast, step.name = coordinator.name ∧ step.action.steady) →
      coordinator.FinishesStarted past →
      (∀ step ∈ past.head?, ∃ instant, step.action = .start instant) →
      let started := coordinator.published .start past
      let marked := (start.following past).memory.instants coordinator.config.path
      marked.card ≤ coordinator.config.limit ∧
        (started.Nodup → marked = (started.take coordinator.config.limit).toFinset) := by
  intro claim
  have bounded := claim Unit _ (Coordinator.single.opening ()) .single _ afterthought
    Strike.idle_within (Coordinator.opens_opening (by decide) ()) Memory.wellFormed_empty rfl
    (by decide +kernel) (by decide +kernel) (by decide +kernel)
    (by rintro step ⟨⟩; exact ⟨"c", rfl⟩)
  exact absurd bounded.1 (by decide +kernel)

theorem Moment.afterthought_leaves_stray :
    let marked := ((Coordinator.single.opening ()).following afterthought).memory.instants "t/d"
    Coordinator.single.FinishesStarted afterthought ∧ (marked \ {"a"}).card ≤ 1 ∧
      marked = {"c"} ∪ {"a"} := by
  intro marked
  have finishes : Coordinator.single.FinishesStarted afterthought := by decide +kernel
  have strays : (Coordinator.single.strays afterthought).toFinset = {"a"} := by decide +kernel
  have started : Coordinator.single.published .start afterthought = ["c", "b", "a"] := by
    decide +kernel
  have nonempty : afterthought ≠ [] := nofun
  have split := List.dropLast_append_getLast nonempty
  have bounds := retention_bounds_markers Strike.idle_within
    (Coordinator.opens_opening (by decide) ()) Memory.wellFormed_empty split.symm ⟨rfl, rfl⟩
    (by decide +kernel)
  rw [split] at bounds
  obtain ⟨_, bounded, latest, _⟩ := bounds
  rw [strays] at bounded latest
  rw [started] at latest
  exact ⟨finishes, bounded, latest (by decide)⟩

end MarkerBus
