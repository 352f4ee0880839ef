import MarkerBus.Proofs.Bus

namespace MarkerBus.Fleet

open Storage

variable {fault : Fault} {fleet later : Fleet} {name other : String} {bus : Bus}
  {before after : Memory} {action : Action} {calls : List Call}
  {answer : Option (Except Bus.Error Answer)}

def WellFormed (fleet : Fleet) : Prop :=
  ∀ name bus, fleet.bus? name = some bus → bus.WellFormed

@[simp] theorem bus?_empty : ({} : Fleet).bus? name = none :=
  rfl

@[simp] theorem bus?_insert_self : (fleet.insert name bus).bus? name = some bus :=
  Named.get?_insert_self _

theorem bus?_insert_of_ne (distinct : other ≠ name) :
    (fleet.insert name bus).bus? other = fleet.bus? other :=
  Named.get?_insert_of_ne _ distinct

@[simp] theorem bus?_erase_self : (fleet.erase name).bus? name = none :=
  Named.get?_erase_self _

theorem bus?_erase_of_ne (distinct : other ≠ name) :
    (fleet.erase name).bus? other = fleet.bus? other :=
  Named.get?_erase_of_ne _ distinct

theorem wellFormed_empty : ({} : Fleet).WellFormed := by
  intro name bus held
  simp at held

theorem WellFormed.insert (wellFormed : fleet.WellFormed) (made : bus.WellFormed) :
    (fleet.insert name bus).WellFormed := by
  intro other held found
  by_cases same : other = name
  · subst same
    rw [bus?_insert_self] at found
    cases found
    exact made
  · rw [bus?_insert_of_ne same] at found
    exact wellFormed other held found

theorem WellFormed.erase (wellFormed : fleet.WellFormed) : (fleet.erase name).WellFormed := by
  intro other held found
  by_cases same : other = name
  · subst same
    simp at found
  · rw [bus?_erase_of_ne same] at found
    exact wellFormed other held found

/-- All that an action can do to a fleet. -/
inductive Acts (fault : Fault) (fleet : Fleet) (name : String) (before : Memory) :
    Action → List Call → Option (Except Bus.Error Answer) → Fleet → Memory → Prop where
  | constructed {config : Bus.Config} {bus : Bus} (made : Bus.ofConfig config = .ok bus) :
      Acts fault fleet name before (.construct config) [] (some (.ok (.path config.path)))
        (fleet.insert name bus) before
  | rejected {config : Bus.Config} (invalid : ¬ config.Valid) :
      Acts fault fleet name before (.construct config) []
        (some (.error (.invalidConfig config.base))) fleet before
  | destroyed {bus : Bus} (held : fleet.bus? name = some bus) :
      Acts fault fleet name before .destroy [] (some (.ok .nothing)) (fleet.erase name) before
  | missing {action : Action} (needed : ∀ config, action ≠ .construct config)
      (absent : fleet.bus? name = none) : Acts fault fleet name before action [] none fleet before
  | acted {bus : Bus} {action : Action} {calls : List Call} {outcome : Bus.Outcome Answer}
      {after : Memory} (held : fleet.bus? name = some bus) (wellFormed : bus.WellFormed)
      (acts : Bus.Acts fault bus before action calls outcome after) :
      Acts fault fleet name before action calls (some outcome.result)
        (fleet.insert name outcome.bus) after

theorem act_of_held (held : fleet.bus? name = some bus) (ordinary : action.ordinary) :
    fleet.act name action = actOn bus action >>= fun outcome =>
      pure (some outcome.result, fleet.insert name outcome.bus) := by
  cases action with
  | construct | destroy => cases ordinary
  | listen | bootstrap | start | commit | abort | messages | pending | isAborted | close =>
      simp only [act, held]

theorem act_of_absent (absent : fleet.bus? name = none)
    (needed : ∀ config, action ≠ .construct config) :
    fleet.act name action = pure (none, fleet) := by
  cases action with
  | construct config => exact absurd rfl (needed config)
  | destroy | listen | bootstrap | start | commit | abort | messages | pending | isAborted
  | close =>
      simp only [act, absent]

theorem acts_of_construct {config : Bus.Config}
    (performed : Performs Memory.serve fault (fleet.act name (.construct config))
      before calls (answer, later) after) :
    Acts fault fleet name before (.construct config) calls answer later after := by
  simp only [act] at performed
  by_cases valid : config.Valid
  · obtain ⟨bus, made⟩ : ∃ bus, Bus.ofConfig config = .ok bus := ⟨_, if_pos valid⟩
    rw [made] at performed
    obtain ⟨rfl, same, rfl⟩ := performed.of_pure
    cases same
    rw [show bus.path = config.path from
      congrArg Bus.Config.path (Bus.WellFormed.of_config made).2.1]
    exact .constructed made
  · have refused : Bus.ofConfig config = .error (.invalidConfig config.base) := if_neg valid
    rw [refused] at performed
    obtain ⟨rfl, same, rfl⟩ := performed.of_pure
    cases same
    exact .rejected valid

theorem acts (reports : fault.Reports) (wellFormed : fleet.WellFormed)
    (performed : Performs Memory.serve fault (fleet.act name action)
      before calls (answer, later) after) :
    Acts fault fleet name before action calls answer later after := by
  by_cases builds : ∃ config, action = .construct config
  · obtain ⟨config, rfl⟩ := builds
    exact acts_of_construct performed
  · have needed : ∀ config, action ≠ .construct config := fun config same => builds ⟨config, same⟩
    cases held : fleet.bus? name with
    | none =>
        rw [act_of_absent held needed] at performed
        obtain ⟨rfl, same, rfl⟩ := performed.of_pure
        cases same
        exact .missing needed held
    | some bus =>
        cases ordinary : action.ordinary with
        | false =>
            obtain rfl : action = .destroy := by
              cases action with
              | destroy => rfl
              | construct config => exact absurd rfl (needed config)
              | _ => cases ordinary
            simp only [act, held] at performed
            obtain ⟨rfl, same, rfl⟩ := performed.of_pure
            cases same
            exact .destroyed held
        | true =>
            rw [act_of_held held ordinary] at performed
            obtain ⟨outcome, acted, same⟩ := performed.of_bind_pure
            cases same
            have made := wellFormed name bus held
            exact .acted held made (Bus.acts reports made ordinary acted)

theorem Acts.wellFormed (acts : Acts fault fleet name before action calls answer later after)
    (wellFormed : fleet.WellFormed) : later.WellFormed := by
  cases acts with
  | constructed made => exact wellFormed.insert (Bus.WellFormed.of_config made).1
  | rejected | missing => exact wellFormed
  | destroyed held => exact wellFormed.erase
  | acted held made acts => exact wellFormed.insert (acts.wellFormed made)

theorem Acts.memory_wellFormed
    (acts : Acts fault fleet name before action calls answer later after)
    (wellFormed : before.WellFormed) : after.WellFormed := by
  cases acts with
  | constructed | rejected | destroyed | missing => exact wellFormed
  | acted held made acts => exact acts.memory_wellFormed wellFormed

theorem Acts.bus?_of_ne (acts : Acts fault fleet name before action calls answer later after)
    (distinct : other ≠ name) : later.bus? other = fleet.bus? other := by
  cases acts with
  | constructed | acted => exact bus?_insert_of_ne distinct
  | rejected | missing => rfl
  | destroyed => exact bus?_erase_of_ne distinct

/-- Where a bus of the fleet comes from: it was there, it is new, or it has acted. -/
theorem Acts.bus?_cases (acts : Acts fault fleet name before action calls answer later after)
    (found : later.bus? other = some bus) :
    fleet.bus? other = some bus ∨
      (∃ config, action = .construct config ∧ Bus.ofConfig config = .ok bus) ∨
      ∃ held outcome, other = name ∧ fleet.bus? name = some held ∧ held.WellFormed ∧
        bus = outcome.bus ∧ answer = some outcome.result ∧
        Bus.Acts fault held before action calls outcome after := by
  by_cases same : other = name
  · subst same
    cases acts with
    | constructed made =>
        rw [bus?_insert_self] at found
        cases found
        exact .inr (.inl ⟨_, rfl, made⟩)
    | rejected | missing => exact .inl found
    | destroyed => simp at found
    | acted held wellFormed acts =>
        rw [bus?_insert_self] at found
        cases found
        exact .inr (.inr ⟨_, _, rfl, held, wellFormed, rfl, rfl, acts⟩)
  · rw [acts.bus?_of_ne same] at found
    exact .inl found

theorem Acts.of_held (acts : Acts fault fleet name before action calls answer later after)
    (ordinary : action.ordinary) (held : fleet.bus? name = some bus) :
    bus.WellFormed ∧ ∃ outcome, later.bus? name = some outcome.bus ∧
      answer = some outcome.result ∧ Bus.Acts fault bus before action calls outcome after := by
  cases acts with
  | constructed | rejected | destroyed => cases ordinary
  | missing needed absent => simp [held] at absent
  | acted found wellFormed acts =>
      cases held.symm.trans found
      exact ⟨wellFormed, _, bus?_insert_self, rfl, acts⟩

theorem Acts.held_of_answered
    (acts : Acts fault fleet name before action calls answer later after)
    (ordinary : action.ordinary) (answered : answer ≠ none) :
    ∃ bus, fleet.bus? name = some bus := by
  cases acts with
  | constructed | rejected | destroyed => cases ordinary
  | missing => exact absurd rfl answered
  | acted held => exact ⟨_, held⟩

end MarkerBus.Fleet
