import MarkerBus.Proofs.Recall

namespace MarkerBus

open Storage MarkerDirectory

variable {σ : Type} {backend : Backend σ} {name : String} {action : Action} {bus : Bus}
  {instant : Instant}

namespace Instant

/-- What is wrong with an instant that is not valid. -/
def defect (instant : Instant) : Defect :=
  if instant = "" then .empty else .slash instant

theorem validate_of_malformed (malformed : instant = "" ∨ '/' ∈ instant.toList) :
    instant.validate = .error instant.defect := by
  unfold validate defect
  split
  · rfl
  · rename_i present
    rw [if_pos (malformed.resolve_left present)]

theorem not_valid_of_malformed (malformed : instant = "" ∨ '/' ∈ instant.toList) :
    ¬ instant.Valid := by
  rintro ⟨present, plain⟩
  exact malformed.elim present plain

end Instant

theorem Bus.actOn_of_malformed (malformed : instant = "" ∨ '/' ∈ instant.toList)
    (bus : Bus) (act : Act) :
    Fleet.actOn bus (act.action instant) =
      pure ⟨.error (.invalidInstant instant.defect), bus⟩ := by
  have refused : (⟨instant, act.phase⟩ : Message).instant.validate = .error instant.defect :=
    Instant.validate_of_malformed malformed
  have published : bus.publish act instant =
      pure ⟨.error (.invalidInstant instant.defect), bus⟩ := by
    simp only [publish, append, Marker.encode_eq_error refused]
    rfl
  cases act <;> simp only [Act.action, Fleet.actOn, start, commit, abort, published] <;> rfl

/-- The step has left everything as it was, without a call. -/
structure Step.Idle (step : Step σ) : Prop where
  calls : step.calls = []
  storage : step.after.storage = step.before.storage
  buses : ∀ other, step.after.fleet.bus? other = step.before.fleet.bus? other

namespace Moment

variable {moment : Moment σ} {result : Except Bus.Error Answer}

/-- An action that only answers is idle. -/
theorem idle_of_pure (held : moment.fleet.bus? name = some bus) (ordinary : action.ordinary)
    (answers : Fleet.actOn bus action = pure ⟨result, bus⟩) :
    let step := moment.act backend name action
    step.answer? = some result ∧ step.Idle := by
  have acted : moment.fleet.act name action =
      pure (some result, moment.fleet.insert name bus) := by
    rw [Fleet.act_of_held held ordinary, answers]
    rfl
  have answered : moment.act backend name action =
      ⟨name, action, moment, some result, [],
        ⟨moment.fleet.insert name bus, moment.storage⟩⟩ := by
    simp only [act, acted, Script.run_pure]
  rw [answered]
  refine ⟨rfl, rfl, rfl, fun other => ?_⟩
  by_cases same : other = name
  · subst same
    rw [Fleet.bus?_insert_self, held]
  · exact Fleet.bus?_insert_of_ne same

/-- A view tells nothing about an instant that has no name. -/
theorem isAborted_of_malformed {loads : List (Step σ)}
    (malformed : instant = "" ∨ '/' ∈ instant.toList)
    (remembers : Remembers backend name loads bus.view?) :
    bus.isAborted instant = if loads = [] then .error .notLoaded else .ok false := by
  unfold Bus.isAborted
  generalize bus.view? = view? at remembers
  cases remembers with
  | nothing => rfl
  | @latest step earlier reader names =>
      have unnamed : (View.ofNames names).isAborted instant = false := by
        rw [← Bool.not_eq_true, View.isAborted_ofNames]
        exact fun shown => Instant.not_valid_of_malformed malformed shown.1
      simp [unnamed]

/-- An instant that can name nothing is refused by each operation that would write
a marker of it.  The question about its abort is answered instead, once a view has
been loaded.  In any case nothing is called, and nothing changes. -/
theorem malformed_is_refused_unless_asked (backend : Backend σ) (storage : σ) (name : String)
    (actions : List (String × Action)) {bus : Bus} {instant : Instant}
    (malformed : instant = "" ∨ '/' ∈ instant.toList) :
    let start : Moment σ := ⟨{}, storage⟩
    let past := start.history backend actions
    let now := start.following past
    now.fleet.bus? name = some bus →
      (∀ act : Bus.Act,
        let step := now.act backend name (act.action instant)
        step.answer? = some (.error (.invalidInstant instant.defect)) ∧ step.Idle) ∧
      let step := now.act backend name (.isAborted instant)
      step.answer? =
          some (if loadsOf name past = [] then .error .notLoaded else .ok (.flag false)) ∧
        step.Idle := by
  intro start past now held
  constructor
  · intro act
    exact idle_of_pure held (act.ordinary_action instant) (bus.actOn_of_malformed malformed act)
  · have remembers := remembers_history backend storage name actions bus held
    have asked : let step := now.act backend name (.isAborted instant)
        step.answer? = some ((bus.isAborted instant).map .flag) ∧ step.Idle :=
      idle_of_pure held rfl rfl
    refine ⟨?_, asked.2⟩
    rw [asked.1, isAborted_of_malformed malformed remembers]
    split <;> rfl

theorem slash_is_not_aborted :
    let start : Moment Memory := ⟨{}, {}⟩
    let actions := [("w", .messages), ("w", .construct { base := "t", directory := "d" })]
    let now := start.following (start.history Memory.serve actions)
    (now.act Memory.serve "w" (.abort "a/b")).answer? =
        some (.error (.invalidInstant (.slash "a/b"))) ∧
      (now.act Memory.serve "w" (.isAborted "a/b")).answer? = some (.ok (.flag false)) := by
  intro start actions now
  obtain ⟨writer, held⟩ : ∃ bus, now.fleet.bus? "w" = some bus :=
    Option.isSome_iff_exists.mp (by decide +kernel)
  have loaded : loadsOf "w" (start.history Memory.serve actions) ≠ [] := by
    intro none
    have count := congrArg List.length none
    revert count
    decide +kernel
  obtain ⟨refused, answered, _⟩ := malformed_is_refused_unless_asked Memory.serve {} "w" actions
    (.inr (by decide) : "a/b" = "" ∨ '/' ∈ "a/b".toList) held
  rw [if_neg loaded] at answered
  exact ⟨(refused .abort).1, answered⟩

end Moment

end MarkerBus
