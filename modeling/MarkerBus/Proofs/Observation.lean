import MarkerBus.Proofs.Coordinator
import MarkerBus.Proofs.Start

namespace MarkerBus

/-! What successive views show of one instant.

Markers are only added while the coordinator keeps an instant, unless a cleaning
gets through in part: it removes one marker of the instant and fails on another.
Apart from that, no view falls behind an earlier one.
-/

open Storage MarkerDirectory

variable {π : Type} {fault : Fault} {start : Moment (Failing π Memory)}
  {between past : List (Step (Failing π Memory))} {step : Step (Failing π Memory)}
  {coordinator : Coordinator} {message : Message}

/-- The view that a step has loaded. -/
def Step.view? {σ : Type} (step : Step σ) : Option View :=
  match step.action, step.answer? with
  | .messages, some (.ok _) | .pending, some (.ok _) =>
      (step.after.fleet.bus? step.name).bind Bus.view?
  | _, _ => none

namespace Bus

variable {bus : Bus} {before after : Memory} {action : Action} {calls : List Call}
  {outcome : Outcome Answer} {answer : Answer}

theorem Acts.loaded (acts : Acts fault bus before action calls outcome after)
    (loads : action = .messages ∨ action = .pending) (answered : outcome.result = .ok answer) :
    before = after ∧ outcome.bus = bus.loaded (View.resolve (before.markers bus.path)) := by
  cases acts with
  | messages | pending => exact ⟨rfl, rfl⟩
  | unread | unpublished | refused | notBootstrapped => cases answered
  | listened | closed | asked | bootstrapped | started =>
      rcases loads with loads | loads <;> cases loads
  | @published act _ _ _ _ publishes =>
      subst publishes
      rcases loads with loads | loads <;> cases act <;> cases loads

theorem Acts.pending_answer {instant? : Option Instant}
    (acts : Acts fault bus before action calls outcome after)
    (answered : outcome.result = .ok (.pending instant?)) :
    before = after ∧ instant? = (View.resolve (before.markers bus.path)).pending? := by
  cases acts with
  | pending =>
      cases answered
      exact ⟨rfl, rfl⟩
  | @asked instant =>
      cases found : bus.isAborted instant <;> simp [found, Except.map] at answered
  | listened | closed | bootstrapped | notBootstrapped | messages | unread | published | started
  | refused | unpublished => cases answered

theorem Acts.mem_markers_or_removed (acts : Acts fault bus before action calls outcome after)
    (wellFormed : bus.WellFormed) (formed : before.WellFormed)
    (kept : action = .bootstrap → outcome.result ≠ .ok .nothing)
    (recorded : message ∈ before.markers bus.path) :
    message ∈ after.markers bus.path ∨
      ⟨.remove (file bus.path message), false⟩ ∈ calls ∧
        ∃ instant, action = .start instant ∧ outcome.result = .ok .nothing := by
  cases acts with
  | listened | closed | asked | notBootstrapped | messages | pending | unread | refused
  | unpublished => exact .inl recorded
  | bootstrapped => exact absurd rfl (kept rfl)
  | published publishes finished valid created =>
      exact .inl ((Memory.mem_markers_create wellFormed.path_ne_empty valid created).mpr
        (.inr recorded))
  | @started instant creation written after calls cleaning valid created performed drains =>
      have acts : Acts fault bus before (.start instant) _ _ after :=
        .started valid created performed drains
      by_cases removed : ⟨.remove (file bus.path message), false⟩ ∈
          ⟨.create (file bus.path ⟨instant, .inflight⟩), false⟩ :: calls
      · exact .inr ⟨removed, instant, rfl, rfl⟩
      · exact .inl ((acts.mem_markers_of_started wellFormed formed rfl).mpr
          ⟨.inr recorded, removed⟩)

end Bus

theorem Fleet.Acts.pending_answer {fleet later : Fleet} {name : String} {before after : Memory}
    {action : Action} {calls : List Call} {instant? : Option Instant}
    (acts : Fleet.Acts fault fleet name before action calls
      (some (.ok (.pending instant?))) later after) :
    ∃ bus, fleet.bus? name = some bus ∧ before = after ∧
      instant? = (View.resolve (before.markers bus.path)).pending? := by
  generalize wanted : some (Except.ok (Answer.pending instant?)) = answer at acts
  cases acts with
  | constructed | rejected | destroyed | missing => cases wanted
  | acted held wellFormed acted =>
      exact ⟨_, held, acted.pending_answer (Option.some.inj wanted).symm⟩

namespace Coordinator

/-- The coordinator ceases to retain the instant. -/
def Drops {σ : Type} (coordinator : Coordinator) (step : Step σ) (instant : Instant) : Prop :=
  instant ∈ coordinator.cache step.before ∧ instant ∉ coordinator.cache step.after

instance {σ : Type} (coordinator : Coordinator) (step : Step σ) (instant : Instant) :
    Decidable (coordinator.Drops step instant) :=
  inferInstanceAs (Decidable (_ ∧ _))

/-- The step removes the marker of the message, and fails to remove another
marker of its instant. -/
def Spoils {σ : Type} (coordinator : Coordinator) (step : Step σ) (message : Message) : Prop :=
  ⟨.remove (file coordinator.config.path message), false⟩ ∈ step.calls ∧
    ∃ phase ∈ Phase.all,
      ⟨.remove (file coordinator.config.path ⟨message.instant, phase⟩), true⟩ ∈ step.calls

instance {σ : Type} (coordinator : Coordinator) (step : Step σ) (message : Message) :
    Decidable (coordinator.Spoils step message) :=
  inferInstanceAs (Decidable (_ ∧ _))

theorem mem_markers_of_step (acts : step.Acts fault) (wellFormed : step.before.WellFormed)
    (leads : coordinator.Leads step.before.fleet) (permits : coordinator.Permits past step)
    (bootstrapped : coordinator.Bootstrapped past)
    (stays : ¬ coordinator.Drops step message.instant)
    (intact : ¬ coordinator.Spoils step message)
    (recorded : message ∈ step.before.memory.markers coordinator.config.path) :
    message ∈ step.after.memory.markers coordinator.config.path := by
  obtain ⟨bus, held⟩ := leads.present
  have path := leads.shared _ bus held
  rcases step_cases acts permits held with
    ⟨_, _, same⟩ | ⟨named, made, outcome, found, answered, acted⟩
  · exact same ▸ recorded
  · rw [← path] at recorded ⊢
    have kept : step.action = .bootstrap → outcome.result ≠ .ok .nothing := by
      intro bootstraps succeeded
      exact permits.2.2.1 ⟨named, bootstraps, by rw [answered, succeeded]⟩ bootstrapped
    rcases acted.mem_markers_or_removed made wellFormed.2 kept recorded with
      there | ⟨removed, instant, started, succeeded⟩
    · exact there
    · exfalso
      rw [started] at acted
      have valid := (Memory.mem_markers_iff.mp recorded).1
      have before : coordinator.cache step.before = bus.retained := by simp [cache, held]
      have after : coordinator.cache step.after = outcome.bus.retained := by simp [cache, found]
      have lost : message.instant ∉ outcome.bus.retained := by
        intro remains
        obtain ⟨phase, failed⟩ := acted.failed_of_started made succeeded valid removed remains
        exact intact ⟨path ▸ removed, phase, phase.mem_all, path ▸ failed⟩
      have fresh : message.instant ∉ bus.retained := by
        intro tracked
        exact stays ⟨before ▸ tracked, after ▸ lost⟩
      have exceeds := acted.overhang_of_started made succeeded valid removed
      -- A new instant stands last, so the cleaning does not reach it.
      have new : message.instant = instant :=
        (Retention.mem_track.mp (List.mem_of_mem_take exceeds)).resolve_right fresh
      rw [new] at exceeds fresh
      have limit : 1 ≤ bus.retention.limit := made.limit ▸ made.valid.2.2.1
      exact fresh (List.mem_of_mem_take ((Retention.mem_overhang_track limit).mp exceeds))

theorem pending_of_answer (acts : step.Acts fault) (leads : coordinator.Leads step.before.fleet)
    {instant? : Option Instant} (answered : step.answer? = some (.ok (.pending instant?))) :
    step.before.memory = step.after.memory ∧
      instant? =
        (View.resolve (step.before.memory.markers coordinator.config.path)).pending? := by
  unfold Step.Acts at acts
  rw [answered] at acts
  obtain ⟨bus, held, same, asked⟩ := acts.pending_answer
  have path := leads.shared _ bus held
  exact ⟨same, path ▸ asked⟩

theorem mem_markers_of_finished (acts : step.Acts fault)
    (leads : coordinator.Leads step.before.fleet) {act : Bus.Act} (finished : act ≠ .start)
    {instant : Instant} (did : step.Did coordinator.name (act.action instant)) :
    ⟨instant, act.phase⟩ ∈ step.after.memory.markers coordinator.config.path := by
  obtain ⟨named, acted, succeeded⟩ := did
  obtain ⟨bus, held⟩ := leads.present
  unfold Step.Acts at acts
  rw [named, acted] at acts
  obtain ⟨made, outcome, _, answered, acted⟩ := acts.of_held (act.ordinary_action instant) held
  have result : outcome.result = .ok .nothing := Option.some.inj (answered.symm.trans succeeded)
  obtain ⟨_, _, recorded⟩ := acted.of_finished act finished result made
  rw [← leads.shared _ bus held]
  exact (recorded _).mpr (.inl rfl)

/-- A message on record stays on record as long as nothing drops its instant or
spoils its marker. -/
theorem mem_markers_of_trace (trace : Trace fault start (between ++ past))
    (opens : coordinator.Opens start) (conforms : coordinator.Conforms (between ++ past))
    (bootstrapped : coordinator.Bootstrapped past)
    (kept : ∀ step ∈ between,
      ¬ coordinator.Drops step message.instant ∧ ¬ coordinator.Spoils step message)
    (recorded : message ∈ (start.following past).memory.markers coordinator.config.path) :
    message ∈ (start.following (between ++ past)).memory.markers coordinator.config.path := by
  induction between with
  | nil => exact recorded
  | cons step between ih =>
      cases trace with
      | step earlier follows wellFormed acts =>
          have before := ih earlier conforms.2 fun step member =>
            kept step (List.mem_cons_of_mem _ member)
          have leads : coordinator.Leads (start.following (between ++ past)).fleet :=
            leads_of_trace earlier opens conforms.2
          change step.before = start.following (between ++ past) at follows
          rw [← follows] at before leads
          obtain ⟨held, member, did⟩ := bootstrapped
          obtain ⟨stays, intact⟩ := kept step List.mem_cons_self
          exact mem_markers_of_step acts wellFormed leads conforms.1
            ⟨held, List.mem_append_right _ member, did⟩ stays intact before

theorem view_of_loaded (acts : step.Acts fault) (leads : coordinator.Leads step.before.fleet)
    {view : View} (loaded : step.view? = some view) :
    step.before.memory = step.after.memory ∧
      view = View.resolve (step.after.memory.markers coordinator.config.path) := by
  have shown (loads : step.action = .messages ∨ step.action = .pending) {answer : Answer}
      (answered : step.answer? = some (.ok answer))
      (found : (step.after.fleet.bus? step.name).bind Bus.view? = some view) :
      step.before.memory = step.after.memory ∧
        view = View.resolve (step.after.memory.markers coordinator.config.path) := by
    have ordinary : step.action.ordinary := by rcases loads with loads | loads <;> rw [loads] <;> rfl
    obtain ⟨bus, held⟩ := acts.held_of_answered ordinary (by simp [answered])
    obtain ⟨_, outcome, grown, result, acted⟩ := acts.of_held ordinary held
    obtain ⟨same, loaded⟩ :=
      acted.loaded loads (Option.some.inj (result.symm.trans answered))
    have path := leads.shared _ bus held
    refine ⟨same, ?_⟩
    rw [grown, Option.bind_some, loaded] at found
    rw [← same, ← path]
    exact (Option.some.inj found).symm
  unfold Step.view? at loaded
  split at loaded
  · rename_i loads answered
    exact shown (.inl loads) answered loaded
  · rename_i loads answered
    exact shown (.inr loads) answered loaded
  · cases loaded

end Coordinator

/-- Once a view has shown a message, every later view shows its instant, at its
phase or above, unless meanwhile the coordinator dropped the instant or a
cleaning removed the marker of the message and failed on another of the instant.
Under the same proviso, an instant is not pending after its commit. -/
theorem Moment.shown_never_regresses {strike : Strike π}
    (reported : strike.Within Fault.reported) (opens : coordinator.Opens start)
    (formed : start.memory.WellFormed) {actions : List (String × Action)}
    {late early : Step (Failing π Memory)}
    (ran : start.history (Memory.serve.failing strike) actions =
      late :: (between ++ early :: past))
    (conforms : coordinator.Conforms (late :: (between ++ early :: past)))
    (bootstrapped : coordinator.Bootstrapped past)
    (kept : ∀ step ∈ between,
      ¬ coordinator.Drops step message.instant ∧ ¬ coordinator.Spoils step message) :
    (∀ shown seen, early.view? = some shown → late.view? = some seen → message ∈ shown →
      (∃ held ∈ seen, held.instant = message.instant) ∧
        ∀ held ∈ seen, held.instant = message.instant →
          message.phase.rank ≤ held.phase.rank) ∧
    (early.Did coordinator.name (.commit message.instant) → message.phase = .completed →
      late.answer? ≠ some (.ok (.pending (some message.instant)))) := by
  have trace := start.trace_history Fault.reports_reported reported
    (opens.wellFormed formed) actions
  rw [ran] at trace
  cases trace with
  | step before follows _ acts =>
      obtain _ | ⟨earlier, joins, wellFormed, earlyActs⟩ := Trace.of_append before
      have leads := Coordinator.leads_of_trace before opens conforms.2
      rw [← follows] at leads
      have earlyLeads := Coordinator.leads_of_trace earlier opens conforms.2.of_append.2
      rw [← joins] at earlyLeads
      have endures (recorded : message ∈ early.after.memory.markers coordinator.config.path) :
          message ∈ late.before.memory.markers coordinator.config.path := by
        obtain ⟨step, member, did⟩ := bootstrapped
        rw [follows]
        exact Coordinator.mem_markers_of_trace before opens conforms.2
          ⟨step, List.mem_cons_of_mem _ member, did⟩ kept recorded
      refine ⟨?_, ?_⟩
      · intro shown seen earlyLoaded lateLoaded member
        obtain ⟨_, rfl⟩ := Coordinator.view_of_loaded earlyActs earlyLeads earlyLoaded
        obtain ⟨same, rfl⟩ := Coordinator.view_of_loaded acts leads lateLoaded
        have recorded := endures (View.mem_resolve_iff.mp member).1
        rw [same] at recorded
        obtain ⟨held, visible, about, _⟩ := View.exists_mem_resolve recorded
        refine ⟨⟨held, visible, about⟩, ?_⟩
        intro other found about
        exact (View.mem_resolve_iff.mp found).2 message recorded about.symm
      · intro did complete pending
        have was : early.Did coordinator.name (Bus.Act.commit.action message.instant) := did
        have committed : (⟨message.instant, .completed⟩ : Message) ∈
            early.after.memory.markers coordinator.config.path :=
          Coordinator.mem_markers_of_finished earlyActs earlyLeads (by decide) was
        obtain ⟨_, asked⟩ := Coordinator.pending_of_answer acts leads pending
        have incomplete := (View.pending?_resolve_eq_some_iff.mp asked.symm).2.2
        rw [← complete] at committed incomplete
        exact incomplete (endures committed)

/-- A coordinator that keeps the markers of one instant. -/
def Coordinator.single : Coordinator :=
  ⟨"w", { base := "t", directory := "d", limit := 1 }⟩

/-- A reader looks at `a`, which is complete, before and after the start of `b`;
that start is to delete the markers of `a`, but may not remove the file. -/
def Moment.watch (file : String) : List (Step (Failing Nat Memory)) :=
  (Coordinator.single.opening 1).history (Memory.serve.failing (.refusing file))
    [("r", .messages), ("w", .start "b"), ("r", .messages), ("w", .commit "a"),
      ("w", .start "a"), ("w", .bootstrap), ("r", .construct Coordinator.single.config)]

theorem Moment.shown_may_regress : ¬ ∀ (π : Type) (strike : Strike π)
    (start : Moment (Failing π Memory)) (coordinator : Coordinator)
    (actions : List (String × Action)) (late early : Step (Failing π Memory))
    (between past : List (Step (Failing π Memory))) (shown seen : View) (message held : Message),
    strike.Within Fault.removals → coordinator.Opens start → start.memory.WellFormed →
      start.history (Memory.serve.failing strike) actions = late :: (between ++ early :: past) →
      coordinator.Conforms (late :: (between ++ early :: past)) →
      coordinator.Bootstrapped past →
      (∀ step ∈ between, ¬ coordinator.Drops step message.instant) →
      early.view? = some shown → late.view? = some seen → message ∈ shown → held ∈ seen →
      held.instant = message.instant → message.phase.rank ≤ held.phase.rank := by
  intro claim
  obtain ⟨late, start, early, past, ran⟩ : ∃ late start early past,
      watch "t/d/a.inflight" = late :: ([start] ++ early :: past) := ⟨_, _, _, _, rfl⟩
  have regressed := claim Nat (.refusing "t/d/a.inflight") (Coordinator.single.opening 1) .single _
    late early [start] past [⟨"a", .completed⟩] [⟨"a", .inflight⟩, ⟨"b", .inflight⟩]
    ⟨"a", .completed⟩ ⟨"a", .inflight⟩ (Strike.refusing_within _)
    (Coordinator.opens_opening (by decide) 1) Memory.wellFormed_empty ran
  cases ran
  have impossible := regressed (by decide +kernel) (by decide +kernel) (by decide +kernel)
    (by decide +kernel) (by decide +kernel) (by simp) (by simp) rfl
  exact absurd impossible (by decide)

theorem Moment.watch_never_regresses : ∃ late start early past seen,
    watch "t/d/a.completed" = late :: start :: early :: past ∧
      ⟨.remove "t/d/a.inflight", false⟩ ∈ start.calls ∧
      early.view? = some [⟨"a", .completed⟩] ∧ late.view? = some seen ∧
      ∀ held ∈ seen, held.instant = "a" → Phase.completed.rank ≤ held.phase.rank := by
  have within := (Strike.refusing_within "t/d/a.completed").mono fun _ _ =>
    Fault.reported_of_removals
  obtain ⟨late, start, early, past, ran⟩ : ∃ late start early past,
      watch "t/d/a.completed" = late :: ([start] ++ early :: past) := ⟨_, _, _, _, rfl⟩
  have shown : early.view? = some [⟨"a", .completed⟩] := by
    cases ran
    decide +kernel
  have seen : late.view? = some [⟨"a", .completed⟩, ⟨"b", .inflight⟩] := by
    cases ran
    decide +kernel
  have removed : ⟨.remove "t/d/a.inflight", false⟩ ∈ start.calls := by
    cases ran
    decide +kernel
  have stays : ∀ held ∈ [(⟨"a", .completed⟩ : Message), ⟨"b", .inflight⟩], held.instant = "a" →
      Phase.completed.rank ≤ held.phase.rank := by
    refine ((shown_never_regresses within (Coordinator.opens_opening (by decide) 1)
      Memory.wellFormed_empty ran ?_ ?_ ?_).1 _ _ shown seen (List.mem_singleton_self _)).2
    all_goals
      cases ran
      decide +kernel
  exact ⟨late, start, early, past, _, ran, removed, shown, seen, stays⟩

end MarkerBus
