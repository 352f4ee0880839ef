import MarkerBus.Proofs.Failure
import MarkerBus.Proofs.Isolation
import MarkerBus.Proofs.Listing
import MarkerBus.Proofs.Statistics
import MarkerBus.Storage.Planned

namespace MarkerBus

open Storage MarkerDirectory

variable {σ : Type} {backend : Backend σ} {name : String} {action : Action} {bus : Bus}

/-- The storage answers a load with these names: it has no directory, and so no
name, or it lists the directory. -/
inductive Storage.Backend.Tells (backend : Backend σ) (storage : σ) (path : String) :
    List String → Prop where
  | missing (absent : (backend (.probe path) storage).result = .ok false) :
      Tells backend storage path []
  | listed {names : List String} (lists : backend.Lists storage path names) :
      Tells backend storage path names

theorem MarkerDirectory.scan_tells (backend : Backend σ) (path : String) (storage : σ) :
    let run := (scan path).run backend storage
    (∃ names, backend.Tells storage path names ∧
        run.value = .ok (names.filterMap Marker.decode)) ∨
      ∃ error, run.value = .error error := by
  simp only [scan, Script.run_bind, Script.probe, Script.list, Script.run]
  cases found : (backend (.probe path) storage).result with
  | error failure => exact .inr ⟨_, rfl⟩
  | ok there =>
      cases there with
      | false => exact .inl ⟨[], .missing found, rfl⟩
      | true =>
          cases told : (backend (.list path) (backend (.probe path) storage).storage).result with
          | error failure =>
              exact .inr ⟨.storage failure, by simp [Script.run_bind, Script.run, told]⟩
          | ok names =>
              refine .inl ⟨names, .listed ⟨found, told⟩, ?_⟩
              have decoded := Script.run_of_value? (value?_decodeAll path names) backend
              simp [Script.run_bind, Script.run, told, (decoded _).1]

namespace Bus

theorem load_tells (backend : Backend σ) (bus : Bus) (storage : σ) :
    let run := bus.load.run backend storage
    (∃ names, backend.Tells storage bus.path names ∧
        run.value = ⟨.ok (View.ofNames names), bus.loaded (View.ofNames names)⟩) ∨
      ∃ error, run.value = ⟨.error error, bus⟩ := by
  simp only [load, Script.run_bind]
  rcases scan_tells backend bus.path storage with ⟨names, told, value⟩ | ⟨error, value⟩
  · rw [value]
    exact .inl ⟨names, told, rfl⟩
  · rw [value]
    refine .inr ?_
    split <;> simp_all [Script.run_bind]

theorem actOn_tells (loads : action.loads) (backend : Backend σ) (bus : Bus) (storage : σ) :
    let run := (Fleet.actOn bus action).run backend storage
    (∃ names, backend.Tells storage bus.path names ∧
        run.value = bus.showing action (names.filterMap Marker.decode)) ∨
      ∃ error, run.value = ⟨.error error, bus⟩ := by
  have loaded := load_tells backend bus storage
  cases action with
  | messages | pending =>
      simp only [Fleet.actOn, messages, pending, Script.run_bind, Script.run_pure]
      rcases loaded with ⟨names, told, value⟩ | ⟨error, value⟩
      · exact .inl ⟨names, told, by rw [value]; rfl⟩
      · exact .inr ⟨error, by rw [value]; rfl⟩
  | construct | listen | bootstrap | start | commit | abort | isAborted | close | destroy =>
      cases loads

section

variable (backend : Backend σ) (bus : Bus) (storage : σ)

theorem view?_bootstrap : (bus.bootstrap.run backend storage).value.bus.view? = bus.view? := by
  simp only [bootstrap, Script.run_bind]
  split
  · rfl
  · split <;> rfl

theorem view?_publish (act : Act) (instant : Instant) :
    ((bus.publish act instant).run backend storage).value.bus.view? = bus.view? := by
  simp only [publish, Script.run_bind]
  split <;> rfl

theorem view?_clean : (bus.clean.run backend storage).value.bus.view? = bus.view? := by
  simp only [clean, Script.run_bind]
  split
  · rfl
  · split
    · rfl
    · simp [Script.run_bind]

theorem view?_start (instant : Instant) :
    ((bus.start instant).run backend storage).value.bus.view? = bus.view? := by
  have published := view?_publish backend bus storage .start instant
  simp only [start, Script.run_bind]
  split
  · exact published
  · rw [view?_clean]
    exact published

theorem view?_actOn (idle : action.loads = false) :
    ((Fleet.actOn bus action).run backend storage).value.bus.view? = bus.view? := by
  cases action with
  | messages | pending => cases idle
  | construct | destroy | listen | isAborted | close => rfl
  | bootstrap =>
      simp only [Fleet.actOn, Script.run_bind]
      exact view?_bootstrap backend bus storage
  | start instant =>
      simp only [Fleet.actOn, Script.run_bind]
      exact view?_start backend bus storage instant
  | commit instant | abort instant =>
      simp only [Fleet.actOn, Script.run_bind]
      exact view?_publish backend bus storage _ instant

end

end Bus

def Action.constructs : Action → Bool
  | .construct _ => true
  | _ => false

namespace Step

def succeeded (step : Step σ) : Bool :=
  match step.answer? with
  | some (.ok _) => true
  | _ => false

/-- Has the step made the bus of this name? -/
def builds (name : String) (step : Step σ) : Bool :=
  step.name = name ∧ step.action.constructs ∧ step.succeeded

/-- Has the bus of this name loaded a view? -/
def loads (name : String) (step : Step σ) : Bool :=
  step.name = name ∧ step.action.loads ∧ step.succeeded

end Step

/-- The loads of a bus that have succeeded since it was made, latest first. -/
def loadsOf (name : String) (past : List (Step σ)) : List (Step σ) :=
  (past.takeWhile fun step => !step.builds name).filter fun step => step.loads name

theorem loadsOf_cons (name : String) (step : Step σ) (past : List (Step σ)) :
    loadsOf name (step :: past) =
      if step.builds name then []
      else if step.loads name then step :: loadsOf name past
      else loadsOf name past := by
  cases built : step.builds name <;> cases loaded : step.loads name <;>
    simp [loadsOf, built, loaded]

/-- The view that a bus holds, by its loads: none before the first one, and then
the view of the names that the latest one was told. -/
inductive Remembers (backend : Backend σ) (name : String) :
    List (Step σ) → Option View → Prop where
  | nothing : Remembers backend name [] none
  | latest {step : Step σ} {earlier : List (Step σ)} {reader : Bus} {names : List String}
      (held : step.before.fleet.bus? name = some reader)
      (told : backend.Tells step.before.storage reader.path names)
      (shown : ∀ view, step.answer? = some (.ok (.messages view)) → view = View.ofNames names) :
      Remembers backend name (step :: earlier) (some (View.ofNames names))

namespace Fleet

/-- Where the view of a bus comes from that an action leaves: the bus is new, it
has loaded the view, or it had it before. -/
inductive Leaves (backend : Backend σ) (storage : σ) (held? : Option Bus) (action : Action) :
    Option (Except Bus.Error Answer) → Bus → Prop where
  | made {answer : Answer} {bus : Bus} (constructs : action.constructs)
      (blank : bus.view? = none) : Leaves backend storage held? action (some (.ok answer)) bus
  | loaded {answer : Answer} {old bus : Bus} {names : List String} (loads : action.loads)
      (held : held? = some old) (told : backend.Tells storage old.path names)
      (shown : ∀ view, answer = .messages view → view = View.ofNames names)
      (viewed : bus.view? = some (View.ofNames names)) :
      Leaves backend storage held? action (some (.ok answer)) bus
  | kept {answer? : Option (Except Bus.Error Answer)} {old bus : Bus}
      (idle : action.constructs ∨ action.loads → ∃ error, answer? = some (.error error))
      (held : held? = some old) (same : bus.view? = old.view?) :
      Leaves backend storage held? action answer? bus

variable {held? : Option Bus} {storage : σ}

theorem leaves_of_load (loads : action = .messages ∨ action = .pending) (held : held? = some bus) :
    let outcome := ((actOn bus action).run backend storage).value
    Leaves backend storage held? action (some outcome.result) outcome.bus := by
  have counted : action.loads := by rcases loads with rfl | rfl <;> rfl
  rcases Bus.actOn_tells counted backend bus storage with ⟨names, told, value⟩ | ⟨error, value⟩
  · rw [value]
    refine .loaded counted held told (fun view shown => ?_) rfl
    rcases loads with rfl | rfl
    · exact (Answer.messages.inj shown).symm
    · cases shown
  · rw [value]
    exact .kept (fun _ => ⟨error, rfl⟩) held rfl

theorem leaves_of_respond
    (left : ((respond held? action).run backend storage).value.2 = some bus) :
    Leaves backend storage held? action ((respond held? action).run backend storage).value.1 bus := by
  cases action with
  | construct config =>
      cases made : Bus.ofConfig config with
      | error error =>
          simp only [respond, made, Script.run_pure] at left ⊢
          exact .kept (fun _ => ⟨error, rfl⟩) left rfl
      | ok fresh =>
          simp only [respond, made, Script.run_pure, Option.some.injEq] at left ⊢
          subst left
          exact .made rfl (Bus.WellFormed.of_config made).2.2.2
  | destroy => cases left
  | messages | pending =>
      cases held? with
      | none => cases left
      | some old =>
          simp only [respond, Script.run_bind, Script.run_pure, Option.some.injEq] at left ⊢
          subst left
          exact leaves_of_load (by simp) rfl
  | listen | bootstrap | start | commit | abort | isAborted | close =>
      cases held? with
      | none => cases left
      | some old =>
          simp only [respond, Script.run_bind, Script.run_pure, Option.some.injEq] at left ⊢
          subst left
          exact .kept (by simp [Action.constructs, Action.loads]) rfl
            (Bus.view?_actOn backend old storage rfl)

end Fleet

namespace Moment

variable {moment : Moment σ} {other : String} {past : List (Step σ)}

@[simp] theorem name_act : (moment.act backend name action).name = name :=
  rfl

@[simp] theorem action_act : (moment.act backend name action).action = action :=
  rfl

theorem bus?_act_of_apart (apart : other ≠ name) :
    (moment.act backend name action).after.fleet.bus? other = moment.fleet.bus? other := by
  obtain ⟨value, _⟩ := moment.run_act backend name action
  have after := congrArg (fun pair => pair.2.bus? other) value
  dsimp only at after
  rw [← after]
  cases action with
  | construct config =>
      cases made : Bus.ofConfig config <;>
        simp [Fleet.act, made, Fleet.bus?_insert_of_ne apart]
  | destroy | listen | bootstrap | start | commit | abort | messages | pending | isAborted
  | close =>
      cases held : moment.fleet.bus? name <;>
        simp [Fleet.act, held, Script.run_bind, Fleet.bus?_insert_of_ne apart,
          Fleet.bus?_erase_of_ne apart]

theorem leaves_act (held : (moment.act backend name action).after.fleet.bus? name = some bus) :
    Fleet.Leaves backend moment.storage (moment.fleet.bus? name) action
      (moment.act backend name action).answer? bus := by
  obtain ⟨seen, _⟩ := seen_act backend moment name action
  obtain ⟨answered, left⟩ := Prod.ext_iff.mp seen
  dsimp only [Step.seen, name_act] at answered left
  rw [answered]
  exact Fleet.leaves_of_respond (left.symm.trans held)

/-- What a bus remembers depends on its own past alone. -/
theorem remembers_act (name other : String) (action : Action)
    (remembers : ∀ bus, moment.fleet.bus? name = some bus →
      Remembers backend name (loadsOf name past) bus.view?)
    (held : (moment.act backend other action).after.fleet.bus? name = some bus) :
    Remembers backend name (loadsOf name (moment.act backend other action :: past)) bus.view? := by
  rw [loadsOf_cons]
  by_cases same : name = other
  · subst same
    have leaves := leaves_act held
    generalize answered : (moment.act backend name action).answer? = answer? at leaves
    cases leaves with
    | made constructs blank =>
        simp [Step.builds, Step.succeeded, constructs, answered, blank, Remembers.nothing]
    | loaded loads there told shown viewed =>
        have fresh : action.constructs = false := by cases action <;> first | rfl | cases loads
        simp only [Step.builds, Step.loads, Step.succeeded, name_act, action_act, fresh, loads,
          answered, viewed]
        refine .latest there told fun view same => shown view ?_
        simpa [answered] using same
    | kept idle there same =>
        have uncounted : (moment.act backend name action).builds name = false ∧
            (moment.act backend name action).loads name = false := by
          by_cases counted : action.constructs ∨ action.loads
          · obtain ⟨error, rfl⟩ := idle counted
            simp [Step.builds, Step.loads, Step.succeeded, answered]
          · obtain ⟨builds, loads⟩ := not_or.mp counted
            simp [Step.builds, Step.loads, builds, loads]
        simpa [uncounted, same] using remembers _ there
  · have apart : other ≠ name := Ne.symm same
    rw [bus?_act_of_apart same] at held
    simpa [Step.builds, Step.loads, apart] using remembers bus held

theorem remembers_history (backend : Backend σ) (storage : σ) (name : String)
    (actions : List (String × Action)) :
    let start : Moment σ := ⟨{}, storage⟩
    let past := start.history backend actions
    ∀ bus, (start.following past).fleet.bus? name = some bus →
      Remembers backend name (loadsOf name past) bus.view? := by
  induction actions with
  | nil =>
      intro start past bus held
      simp [start, past, history, following] at held
  | cons head earlier ih =>
      obtain ⟨other, action⟩ := head
      intro start past bus held
      exact remembers_act name other action ih held

/-- Unless none of its loads has succeeded, a bus answers from the latest one that
has: whether the instant had a marker of an abort, and none of a completion, among
the names that this load was told. -/
theorem isAborted_recalls (backend : Backend σ) (storage : σ) (name : String)
    (actions : List (String × Action)) {bus : Bus} {instant : Instant} (valid : instant.Valid) :
    let start : Moment σ := ⟨{}, storage⟩
    let past := start.history backend actions
    let now := start.following past
    let answer? := (now.act backend name (.isAborted instant)).answer?
    now.fleet.bus? name = some bus →
      (answer? = some (.error .notLoaded) ↔ loadsOf name past = []) ∧
        ∀ step earlier, loadsOf name past = step :: earlier →
          ∃ reader names aborted, step.before.fleet.bus? name = some reader ∧
            backend.Tells step.before.storage reader.path names ∧
            answer? = some (.ok (.flag aborted)) ∧
            (aborted = true ↔ Marker.name ⟨instant, .aborted⟩ ∈ names ∧
              Marker.name ⟨instant, .completed⟩ ∉ names) ∧
            ∀ view, step.answer? = some (.ok (.messages view)) →
              (aborted = true ↔ ⟨instant, .aborted⟩ ∈ view) := by
  intro start past now answer? held
  have remembers := remembers_history backend storage name actions bus held
  have answered : answer? = some ((bus.isAborted instant).map .flag) := by
    simp only [answer?, answer_isAborted, held, Option.map_some]
  rw [answered]
  unfold Bus.isAborted
  generalize bus.view? = view?, loadsOf name past = loads at remembers ⊢
  cases remembers with
  | nothing => simp [Except.map]
  | @latest step earlier reader names there told shown =>
      refine ⟨by simp [Except.map], ?_⟩
      rintro _ _ ⟨rfl, rfl⟩
      have resolved : (View.ofNames names).isAborted instant = true ↔ _ :=
        View.isAborted_ofNames
      refine ⟨reader, names, _, there, told, rfl, by simpa [valid] using resolved, ?_⟩
      intro view given
      rw [shown view given]
      exact View.isAborted_iff

/-- A writer loads the abort of `a`.  Then another bus empties the directory, and
the next listing of the writer fails. -/
def forgetting : List (String × Action) :=
  let config : Bus.Config := { base := "t", directory := "d" }
  [("w", .close), ("w", .messages), ("w", .commit "b"), ("v", .bootstrap),
    ("v", .construct config), ("w", .messages), ("w", .abort "a"), ("w", .start "a"),
    ("w", .construct config)]

/-- A memory whose second listing fails. -/
def unlistable : Failing (List PlannedFailure) Memory :=
  ⟨[⟨.list, none, some .ioError, 1, some 1⟩], {}⟩

theorem forgotten_abort_is_recalled :
    let backend := Memory.serve.failing PlannedFailure.strike
    let start : Moment (Failing (List PlannedFailure) Memory) := ⟨{}, unlistable⟩
    let past := start.history backend forgetting
    let now := start.following past
    let answer? (name : String) := (now.act backend name (.isAborted "a")).answer?
    past.map Step.succeeded = [true, false, true, true, true, true, true, true, true] ∧
      now.memory.markers "t/d" = [⟨"b", .completed⟩] ∧
      answer? "w" = some (.ok (.flag true)) ∧ answer? "v" = some (.error .notLoaded) := by
  intro backend start past now answer?
  have recalls (name : String) {bus : Bus} (held : now.fleet.bus? name = some bus) :=
    isAborted_recalls backend unlistable name forgetting (by decide : Instant.Valid "a") held
  have shown : (loadsOf "w" past).map Step.answer? =
      [some (.ok (.messages [⟨"a", .aborted⟩]))] := by decide +kernel
  have blank : (loadsOf "v" past).map Step.answer? = [] := by decide +kernel
  obtain ⟨writer, held⟩ : ∃ bus, now.fleet.bus? "w" = some bus :=
    Option.isSome_iff_exists.mp (by decide +kernel)
  obtain ⟨other, present⟩ : ∃ bus, now.fleet.bus? "v" = some bus :=
    Option.isSome_iff_exists.mp (by decide +kernel)
  refine ⟨by decide +kernel, by decide +kernel, ?_,
    (recalls "v" present).1.mpr (List.map_eq_nil_iff.mp blank)⟩
  obtain ⟨step, earlier, loads, answered, _⟩ := List.map_eq_cons_iff.mp shown
  obtain ⟨_, _, aborted, _, _, answer, _, viewed⟩ := (recalls "w" held).2 step earlier loads
  rwa [(viewed _ answered).mpr (by decide)] at answer

end Moment

end MarkerBus
