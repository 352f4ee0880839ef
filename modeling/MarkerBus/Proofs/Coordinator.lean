import MarkerBus.Proofs.History

namespace MarkerBus

open Storage

/-- Does the action leave the directory alone, and make no bus on another? -/
def Action.reads (path : String) : Action → Bool
  | .construct config => config.path = path
  | .bootstrap | .start _ | .commit _ | .abort _ => false
  | .listen _ | .messages | .pending | .isAborted _ | .close | .destroy => true

def Action.published? (act : Bus.Act) : Action → Option Instant
  | .start instant => if act = .start then some instant else none
  | .commit instant => if act = .commit then some instant else none
  | .abort instant => if act = .abort then some instant else none
  | _ => none

theorem Action.published?_eq_some_iff {act : Bus.Act} {action : Action} {instant : Instant} :
    action.published? act = some instant ↔ action = act.action instant := by
  cases action <;> cases act <;> simp [published?, Bus.Act.action]

theorem Bus.Acts.memory_of_reads {fault : Fault} {bus : Bus} {before after : Memory}
    {action : Action} {calls : List Call} {outcome : Bus.Outcome Answer} {path : String}
    (acts : Bus.Acts fault bus before action calls outcome after)
    (reads : action.reads path) : before = after := by
  cases acts with
  | listened | closed | asked | notBootstrapped | messages | pending | unread | refused
  | unpublished => rfl
  | bootstrapped | started => cases reads
  | @published act _ _ _ _ publishes =>
      subst publishes
      cases act <;> cases reads

theorem Fleet.Acts.memory_of_reads {fault : Fault} {fleet later : Fleet} {name : String}
    {before after : Memory} {action : Action} {calls : List Call}
    {answer : Option (Except Bus.Error Answer)} {path : String}
    (acts : Fleet.Acts fault fleet name before action calls answer later after)
    (reads : action.reads path) : before = after := by
  cases acts with
  | constructed | rejected | destroyed | missing => rfl
  | acted held wellFormed acts => exact acts.memory_of_reads reads

namespace Step

variable {σ : Type}

/-- The named bus was to carry the action out, and did. -/
def Did (step : Step σ) (name : String) (action : Action) : Prop :=
  step.name = name ∧ step.action = action ∧ step.answer? = some (.ok .nothing)

instance (step : Step σ) (name : String) (action : Action) : Decidable (step.Did name action) :=
  inferInstanceAs (Decidable (_ ∧ _ ∧ _))

theorem Did.unique {step : Step σ} {name : String} {act other : Bus.Act} {instant again : Instant}
    (did : step.Did name (act.action instant)) (also : step.Did name (other.action again)) :
    act = other ∧ instant = again :=
  Bus.Act.action_injective (did.2.1.symm.trans also.2.1)

end Step

structure Coordinator where
  name : String
  config : Bus.Config

namespace Coordinator

variable {σ : Type}

def Bootstrapped (coordinator : Coordinator) (past : List (Step σ)) : Prop :=
  ∃ step ∈ past, step.Did coordinator.name .bootstrap

instance (coordinator : Coordinator) (past : List (Step σ)) :
    Decidable (coordinator.Bootstrapped past) :=
  inferInstanceAs (Decidable (∃ step ∈ past, _))

theorem bootstrapped_cons {coordinator : Coordinator} {step : Step σ} {past : List (Step σ)} :
    coordinator.Bootstrapped (step :: past) ↔
      step.Did coordinator.name .bootstrap ∨ coordinator.Bootstrapped past := by
  simp [Bootstrapped]

/-- May the step follow the history?  Only what succeeds is restricted. -/
def Permits (coordinator : Coordinator) (past : List (Step σ)) (step : Step σ) : Prop :=
  (step.name ≠ coordinator.name → step.action.reads coordinator.config.path) ∧
    (step.name = coordinator.name → step.action.ordinary) ∧
    (step.Did coordinator.name .bootstrap → ¬ coordinator.Bootstrapped past) ∧
    (step.action.publishes → step.Did coordinator.name step.action →
      coordinator.Bootstrapped past)

instance (coordinator : Coordinator) (past : List (Step σ)) (step : Step σ) :
    Decidable (coordinator.Permits past step) :=
  inferInstanceAs (Decidable (_ ∧ _ ∧ _ ∧ _))

def Conforms (coordinator : Coordinator) : List (Step σ) → Prop
  | [] => True
  | step :: past => coordinator.Permits past step ∧ coordinator.Conforms past

instance decidableConforms (coordinator : Coordinator) :
    (history : List (Step σ)) → Decidable (coordinator.Conforms history)
  | [] => isTrue trivial
  | step :: past =>
      have := coordinator.decidableConforms past
      inferInstanceAs (Decidable (coordinator.Permits past step ∧ coordinator.Conforms past))

theorem Conforms.of_append {coordinator : Coordinator} {later past : List (Step σ)}
    (conforms : coordinator.Conforms (later ++ past)) : coordinator.Conforms past := by
  induction later with
  | nil => exact conforms
  | cons step later ih => exact ih conforms.2

/-- The instants that the coordinator has published by an act, latest first. -/
def published (coordinator : Coordinator) (act : Bus.Act) (history : List (Step σ)) :
    List Instant :=
  history.filterMap fun step =>
    if step.name = coordinator.name ∧ step.answer? = some (.ok .nothing) then
      step.action.published? act
    else none

section

variable {coordinator : Coordinator} {act : Bus.Act} {instant : Instant} {step : Step σ}
  {past : List (Step σ)}

theorem published_cons : coordinator.published act (step :: past) =
    coordinator.published act [step] ++ coordinator.published act past :=
  @List.filterMap_append _ _ [step] past _

theorem mem_published_singleton : instant ∈ coordinator.published act [step] ↔
    step.Did coordinator.name (act.action instant) := by
  simp only [published, List.mem_filterMap, List.mem_singleton, exists_eq_left,
    Option.ite_none_right_eq_some, Action.published?_eq_some_iff, Step.Did]
  constructor
  · intro given
    obtain ⟨⟨named, answered⟩, was⟩ := given
    exact ⟨named, was, answered⟩
  · intro given
    obtain ⟨named, was, answered⟩ := given
    exact ⟨⟨named, answered⟩, was⟩

theorem published_of_did (act : Bus.Act) (did : step.Did coordinator.name (act.action instant)) :
    coordinator.published act (step :: past) = instant :: coordinator.published act past := by
  obtain ⟨named, was, answered⟩ := did
  have names : step.action.published? act = some instant := Action.published?_eq_some_iff.mpr was
  simp [published, named, answered, names]

theorem published_of_silent
    (silent : ∀ instant, ¬ step.Did coordinator.name (act.action instant)) :
    coordinator.published act (step :: past) = coordinator.published act past := by
  rw [published_cons, List.eq_nil_iff_forall_not_mem.mpr fun instant member =>
    silent instant (mem_published_singleton.mp member), List.nil_append]

theorem Conforms.published_eq_nil (conforms : coordinator.Conforms past)
    (closed : ¬ coordinator.Bootstrapped past) : coordinator.published act past = [] := by
  induction past with
  | nil => rfl
  | cons step past ih =>
      have before : ¬ coordinator.Bootstrapped past :=
        fun ⟨held, member, did⟩ => closed ⟨held, List.mem_cons_of_mem _ member, did⟩
      have silent : ∀ instant, ¬ step.Did coordinator.name (act.action instant) := by
        intro instant did
        refine before (conforms.1.2.2.2 ?_ ⟨did.1, rfl, did.2.2⟩)
        rw [did.2.1]
        cases act <;> rfl
      rw [published_of_silent silent, ih conforms.2 before]

end

/-- The fleet is the coordinator alone, newly made. -/
def Opens (coordinator : Coordinator) (start : Moment σ) : Prop :=
  ∃ bus, Bus.ofConfig coordinator.config = .ok bus ∧
    start.fleet = ({} : Fleet).insert coordinator.name bus

def cache (coordinator : Coordinator) (moment : Moment σ) : List Instant :=
  match moment.fleet.bus? coordinator.name with
  | some bus => bus.retained
  | none => []

variable {π : Type} {coordinator : Coordinator} {fault : Fault}
  {start : Moment (Failing π Memory)} {past : List (Step (Failing π Memory))}
  {step : Step (Failing π Memory)} {fleet : Fleet} {bus : Bus}

/-- The coordinator is there, and all buses share its path. -/
structure Leads (coordinator : Coordinator) (fleet : Fleet) : Prop where
  present : ∃ bus, fleet.bus? coordinator.name = some bus
  shared : ∀ name bus, fleet.bus? name = some bus → bus.path = coordinator.config.path

def opening (coordinator : Coordinator) (plan : π) : Moment (Failing π Memory) where
  fleet := ({} : Fleet).insert coordinator.name
    { config := coordinator.config, retention := { limit := coordinator.config.limit } }
  storage := ⟨plan, {}⟩

theorem opens_opening (valid : coordinator.config.Valid) (plan : π) :
    coordinator.Opens (coordinator.opening plan) :=
  ⟨_, if_pos valid, rfl⟩

theorem Opens.leads (opens : coordinator.Opens start) : coordinator.Leads start.fleet := by
  obtain ⟨bus, made, alone⟩ := opens
  rw [alone]
  refine ⟨⟨bus, Fleet.bus?_insert_self⟩, ?_⟩
  intro name other held
  by_cases same : name = coordinator.name
  · subst same
    rw [Fleet.bus?_insert_self] at held
    cases held
    exact congrArg Bus.Config.path (Bus.WellFormed.of_config made).2.1
  · rw [Fleet.bus?_insert_of_ne same] at held
    simp at held

theorem Opens.wellFormed (opens : coordinator.Opens start) (formed : start.memory.WellFormed) :
    start.WellFormed := by
  obtain ⟨bus, made, alone⟩ := opens
  refine ⟨?_, formed⟩
  rw [alone]
  exact Fleet.wellFormed_empty.insert (Bus.WellFormed.of_config made).1

theorem Leads.of_step (leads : coordinator.Leads step.before.fleet) (acts : step.Acts fault)
    (permits : coordinator.Permits past step) : coordinator.Leads step.after.fleet := by
  constructor
  · obtain ⟨bus, held⟩ := leads.present
    by_cases same : coordinator.name = step.name
    · obtain ⟨_, outcome, found, _⟩ := acts.of_held (permits.2.1 same.symm) (same ▸ held)
      exact ⟨outcome.bus, same ▸ found⟩
    · exact ⟨bus, (Fleet.Acts.bus?_of_ne acts same).trans held⟩
  · intro name bus found
    rcases acts.bus?_cases found with
      kept | ⟨config, builds, made⟩ | ⟨old, outcome, _, held, _, rfl, _, acted⟩
    · exact leads.shared name bus kept
    · have other : step.name ≠ coordinator.name := by
        intro same
        have ordinary := permits.2.1 same
        rw [builds] at ordinary
        cases ordinary
      have reads := permits.1 other
      rw [builds] at reads
      exact (congrArg Bus.Config.path (Bus.WellFormed.of_config made).2.1).trans
        (of_decide_eq_true reads)
    · exact (congrArg Bus.Config.path acted.config).trans (leads.shared _ old held)

theorem leads_of_trace (trace : Trace fault start past) (opens : coordinator.Opens start)
    (conforms : coordinator.Conforms past) :
    coordinator.Leads (start.following past).fleet := by
  induction trace with
  | start => exact opens.leads
  | step earlier follows wellFormed acts ih =>
      have leads := ih conforms.2
      rw [← follows] at leads
      exact leads.of_step acts conforms.1

theorem step_cases (acts : step.Acts fault) (permits : coordinator.Permits past step)
    (held : step.before.fleet.bus? coordinator.name = some bus) :
    step.name ≠ coordinator.name ∧ step.after.fleet.bus? coordinator.name = some bus ∧
        step.before.memory = step.after.memory ∨
      step.name = coordinator.name ∧ bus.WellFormed ∧
        ∃ outcome, step.after.fleet.bus? coordinator.name = some outcome.bus ∧
          step.answer? = some outcome.result ∧
          Bus.Acts fault bus step.before.memory step.action step.calls outcome
            step.after.memory := by
  by_cases same : step.name = coordinator.name
  · obtain ⟨wellFormed, outcome, found, answered, acted⟩ :=
      acts.of_held (permits.2.1 same) (same ▸ held)
    exact .inr ⟨same, wellFormed, outcome, same ▸ found, answered, acted⟩
  · refine .inl ⟨same, (Fleet.Acts.bus?_of_ne acts (Ne.symm same)).trans held, ?_⟩
    exact acts.memory_of_reads (permits.1 same)

/-- What a permitted step can be, as far as the coordinator and the directory go. -/
inductive Progress (coordinator : Coordinator) (fault : Fault) (step : Step (Failing π Memory))
    (bus : Bus) : Bus → Prop where
  | quiet {later : Bus} (memory : step.before.memory = step.after.memory)
      (queue : later.retained = bus.retained ∨ later.retained = [])
      (still : ¬ step.Did coordinator.name .bootstrap)
      (silent : ∀ act instant, ¬ step.Did coordinator.name (Bus.Act.action act instant)) :
      Progress coordinator fault step bus later
  | bootstrapped (did : step.Did coordinator.name .bootstrap)
      (emptied : step.before.memory.reset bus.path = step.after.memory) :
      Progress coordinator fault step bus bus
  | finished {act : Bus.Act} {instant : Instant} (finished : act ≠ .start)
      (did : step.Did coordinator.name (act.action instant))
      (recorded : ∀ message, message ∈ step.after.memory.markers bus.path ↔
        message = ⟨instant, act.phase⟩ ∨ message ∈ step.before.memory.markers bus.path) :
      Progress coordinator fault step bus bus.countMarker
  | started {instant : Instant} {outcome : Bus.Outcome Answer}
      (did : step.Did coordinator.name (.start instant))
      (answered : outcome.result = .ok .nothing)
      (acted : Bus.Acts fault bus step.before.memory (.start instant) step.calls outcome
        step.after.memory) :
      Progress coordinator fault step bus outcome.bus

theorem progress (acts : step.Acts fault) (permits : coordinator.Permits past step)
    (held : step.before.fleet.bus? coordinator.name = some bus) :
    ∃ later, step.after.fleet.bus? coordinator.name = some later ∧
      coordinator.Progress fault step bus later := by
  rcases step_cases acts permits held with
    ⟨other, found, same⟩ | ⟨named, wellFormed, outcome, found, answered, acted⟩
  · exact ⟨bus, found, .quiet same (.inl rfl) (fun did => other did.1)
      fun _ _ did => other did.1⟩
  · refine ⟨outcome.bus, found, ?_⟩
    have did {action : Action} (was : step.action = action)
        (succeeded : outcome.result = .ok .nothing) : step.Did coordinator.name action :=
      ⟨named, was, by rw [answered, succeeded]⟩
    have failed {error : Bus.Error} (refused : outcome.result = .error error) (action : Action) :
        ¬ step.Did coordinator.name action := by
      intro did
      have succeeded := answered.symm.trans did.2.2
      simp [refused] at succeeded
    have apart {action : Action} (was : step.action = action)
        (differs : ∀ act instant, action ≠ Bus.Act.action act instant) (act : Bus.Act)
        (instant : Instant) : ¬ step.Did coordinator.name (act.action instant) :=
      fun did => differs act instant (was.symm.trans did.2.1)
    generalize was : step.action = action at acted
    generalize called : step.calls = calls at acted
    generalize left : step.after.memory = after at acted
    cases acted with
    | listened | asked | messages | pending =>
        refine .quiet left.symm (.inl rfl) (fun did => ?_) (apart was fun act instant => ?_)
        · cases was.symm.trans did.2.1
        · cases act <;> simp [Bus.Act.action]
    | closed =>
        refine .quiet left.symm (.inr rfl) (fun did => ?_) (apart was fun act instant => ?_)
        · cases was.symm.trans did.2.1
        · cases act <;> simp [Bus.Act.action]
    | notBootstrapped | unread | refused | unpublished =>
        exact .quiet left.symm (.inl rfl) (failed rfl _) fun _ _ => failed rfl _
    | bootstrapped => exact .bootstrapped (did was rfl) left.symm
    | published publishes finished valid created =>
        refine .finished finished (did (was.trans publishes) rfl) fun message => ?_
        rw [left]
        exact Memory.mem_markers_create wellFormed.path_ne_empty valid created
    | started valid created performed drains =>
        refine .started (did was rfl) rfl ?_
        rw [called, left]
        exact .started valid created performed drains

end Coordinator

end MarkerBus
