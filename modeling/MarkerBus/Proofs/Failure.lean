import MarkerBus.Proofs.Observation

namespace MarkerBus

open Storage MarkerDirectory

variable {π : Type} {fault : Fault} {start : Moment (Failing π Memory)}
  {past : List (Step (Failing π Memory))} {step : Step (Failing π Memory)} {error : Bus.Error}

namespace Bus

variable {bus : Bus} {before after : Memory} {action : Action} {calls : List Call}
  {outcome : Outcome Answer} {instant : Instant}

theorem Acts.unchanged_of_error (acts : Acts fault bus before action calls outcome after)
    (failed : outcome.result = .error error) : after = before ∧ outcome.bus = bus := by
  cases acts with
  | asked | notBootstrapped | unread | refused | unpublished => exact ⟨rfl, rfl⟩
  | listened | closed | bootstrapped | messages | pending | published | started => cases failed

/-- A start fails before its cleaning: by its instant, or by the one creation. -/
theorem Acts.start_error (acts : Acts fault bus before (.start instant) calls outcome after)
    (failed : outcome.result = .error error) :
    (∃ defect, error = .invalidInstant defect ∧ calls = []) ∨
      ∃ report, error = .publishing .start instant report ∧
        calls = [⟨.create (file bus.path ⟨instant, .inflight⟩), true⟩] := by
  generalize wanted : Action.start instant = action at acts
  cases acts with
  | refused =>
      cases failed
      exact .inl ⟨_, rfl, rfl⟩
  | @unpublished act _ _ _ publishes =>
      have same : Act.start.action instant = act.action _ := wanted.trans publishes
      obtain ⟨rfl, rfl⟩ := Act.action_injective same
      cases failed
      exact .inr ⟨_, rfl, rfl⟩
  | unread loads =>
      subst wanted
      rcases loads with loads | loads <;> cases loads
  | asked => cases wanted
  | notBootstrapped => cases wanted
  | listened | closed | bootstrapped | messages | pending | published | started => cases failed

end Bus

theorem Step.Acts.unchanged_of_error (acts : step.Acts fault)
    (failed : step.answer? = some (.error error)) :
    step.after.memory = step.before.memory ∧
      ∀ name, step.after.fleet.bus? name = step.before.fleet.bus? name := by
  unfold Step.Acts at acts
  generalize step.after.fleet = later at acts ⊢
  generalize step.after.memory = after at acts ⊢
  generalize step.calls = calls at acts
  generalize step.action = action at acts
  rw [failed] at acts
  generalize answered : some (Except.error error) = answer at acts
  cases acts with
  | constructed | destroyed | missing => cases answered
  | rejected => exact ⟨rfl, fun _ => rfl⟩
  | acted held wellFormed acted =>
      obtain ⟨memory, bus⟩ := acted.unchanged_of_error (Option.some.inj answered).symm
      refine ⟨memory, fun name => ?_⟩
      by_cases same : name = step.name
      · rw [same, Fleet.bus?_insert_self, held, bus]
      · exact Fleet.bus?_insert_of_ne same

theorem Step.Acts.start_error {instant : Instant} (acts : step.Acts fault)
    (started : step.action = .start instant) (failed : step.answer? = some (.error error)) :
    (∃ defect, error = .invalidInstant defect ∧ step.calls = []) ∨
      ∃ bus report, step.before.fleet.bus? step.name = some bus ∧
        error = .publishing .start instant report ∧
        step.calls = [⟨.create (file bus.path ⟨instant, .inflight⟩), true⟩] := by
  have ordinary : step.action.ordinary := by rw [started]; rfl
  obtain ⟨bus, held⟩ := acts.held_of_answered ordinary (by simp [failed])
  obtain ⟨_, outcome, _, answered, acted⟩ := acts.of_held ordinary held
  rw [started] at acted
  have result : outcome.result = .error error := Option.some.inj (answered.symm.trans failed)
  rcases acted.start_error result with refused | ⟨report, same, made⟩
  · exact .inl refused
  · exact .inr ⟨bus, report, held, same, made⟩

/-- Whether an instant is aborted is a question to the bus alone. -/
theorem Moment.answer_isAborted {σ : Type} (backend : Backend σ) (moment : Moment σ)
    (name : String) (instant : Instant) :
    (moment.act backend name (.isAborted instant)).answer? =
      (moment.fleet.bus? name).map fun bus => (bus.isAborted instant).map .flag := by
  cases held : moment.fleet.bus? name with
  | none =>
      simp only [act, Fleet.act, held]
      rfl
  | some bus =>
      simp only [act, Fleet.act, held]
      rfl

/-- An operation that fails changes nothing: no directory, no bus, and so no
answer about the view that was loaded last.  A start fails only before it cleans,
by its instant or by the one creation that it asked for. -/
theorem Moment.failure_changes_nothing {strike : Strike π}
    (reported : strike.Within Fault.reported) (wellFormed : start.WellFormed)
    {actions : List (String × Action)}
    (ran : start.history (Memory.serve.failing strike) actions = step :: past)
    (failed : step.answer? = some (.error error)) :
    step.after.memory = step.before.memory ∧
      (∀ name, step.after.fleet.bus? name = step.before.fleet.bus? name) ∧
      (∀ name instant,
        (step.after.act (Memory.serve.failing strike) name (.isAborted instant)).answer? =
          (step.before.act (Memory.serve.failing strike) name (.isAborted instant)).answer?) ∧
      ∀ instant, step.action = .start instant →
        (∃ defect, error = .invalidInstant defect ∧ step.calls = []) ∨
          ∃ bus report, step.before.fleet.bus? step.name = some bus ∧
            error = .publishing .start instant report ∧
            step.calls = [⟨.create (file bus.path ⟨instant, .inflight⟩), true⟩] := by
  have trace := start.trace_history Fault.reports_reported reported wellFormed actions
  rw [ran] at trace
  cases trace with
  | step earlier follows formed acts =>
      obtain ⟨memory, buses⟩ := acts.unchanged_of_error failed
      refine ⟨memory, buses, ?_, fun instant started => acts.start_error started failed⟩
      intro name instant
      rw [answer_isAborted, answer_isAborted, buses]

/-- The cleaning after the start of `c` could not remove the marker of `b`; then
another bus has a directory made where the marker of `a` belongs. -/
def Moment.blocked : List (Step (Failing Nat Memory)) :=
  (Coordinator.single.opening 1).history (Memory.serve.failing (.refusing "t/d/b.inflight"))
    [("w", .start "a"), ("x", .bootstrap), ("w", .messages), ("w", .start "c"),
      ("w", .start "b"), ("w", .bootstrap),
      ("x", .construct { base := "t/d", directory := "a.inflight" })]

theorem Moment.blocked_changes_nothing : ∃ step past bus, blocked = step :: past ∧
    step.answer? = some (.error
      (.publishing .start "a" ⟨.createFile, "t/d/a.inflight", .isDirectory⟩)) ∧
    step.after.memory = step.before.memory ∧
    step.after.fleet.bus? "w" = some bus ∧ step.before.fleet.bus? "w" = some bus ∧
    bus.retained = ["b", "c"] ∧ bus.stats = ⟨2, 1, 0, 1⟩ ∧
    bus.view? = some [⟨"b", .inflight⟩, ⟨"c", .inflight⟩] := by
  have within := (Strike.refusing_within "t/d/b.inflight").mono fun _ _ =>
    Fault.reported_of_removals
  have opens : Coordinator.single.Opens (Coordinator.single.opening 1) :=
    Coordinator.opens_opening (by decide) 1
  have formed := opens.wellFormed Memory.wellFormed_empty
  obtain ⟨step, past, ran⟩ : ∃ step past, blocked = step :: past := ⟨_, _, rfl⟩
  have failed : step.answer? = some (.error
      (.publishing .start "a" ⟨.createFile, "t/d/a.inflight", .isDirectory⟩)) := by
    cases ran
    decide +kernel
  obtain ⟨memory, buses, _⟩ := failure_changes_nothing within formed ran failed
  obtain ⟨bus, held⟩ : ∃ bus, step.before.fleet.bus? "w" = some bus := by
    cases ran
    exact ⟨_, rfl⟩
  refine ⟨step, past, bus, ran, failed, memory, (buses "w").trans held, held, ?_⟩
  cases ran
  cases held
  decide +kernel

end MarkerBus
