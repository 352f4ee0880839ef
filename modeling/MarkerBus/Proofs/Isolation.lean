import MarkerBus.Proofs.Siblings
import MarkerBus.Proofs.Start

namespace MarkerBus

/-! Writers with different unique ids on one memory.

Two runs are compared: one of all buses, and one without the buses of the other
configuration.  Step by step they stay alike in all that the remaining buses look
at, unless one writer disturbs the other; and if it does, some run shows it.
-/

open Storage MarkerDirectory

variable {σ : Type} {name path : String} {action : Action} {moment whole alone : Moment Memory}

/-- What there is to see of a step: the answer, and the bus as it is afterwards. -/
def Step.seen (step : Step σ) : Option (Except Bus.Error Answer) × Option Bus :=
  (step.answer?, step.after.fleet.bus? step.name)

theorem Step.answer_of_seen {left right : Step σ} (same : left.seen = right.seen) :
    left.answer? = right.answer? :=
  congrArg Prod.fst same

namespace Fleet

/-- What an action answers, and which bus it leaves, where the fleet holds the
given bus under the name. -/
def respond (held? : Option Bus) :
    Action → Script (Option (Except Bus.Error Answer) × Option Bus)
  | .construct config =>
      match Bus.ofConfig config with
      | .ok bus => return (some (.ok (.path bus.path)), some bus)
      | .error error => return (some (.error error), held?)
  | .destroy => return (held?.map fun _ => .ok .nothing, none)
  | action =>
      match held? with
      | some bus => do
          let outcome ← actOn bus action
          return (some outcome.result, some outcome.bus)
      | none => return (none, none)

theorem asks_respond {held? : Option Bus} (own : ∀ bus ∈ held?, bus.path = path) :
    (respond held? action).Asks (Local path) := by
  cases action with
  | construct config =>
      simp only [respond]
      split <;> exact .done
  | destroy => exact .done
  | listen | bootstrap | start | commit | abort | messages | pending | isAborted | close =>
      cases held? with
      | none => exact .done
      | some bus =>
          have path := own bus rfl
          subst path
          exact Bus.asks_actOn.bind fun _ => .done

/-- An action depends on the fleet through its bus alone. -/
theorem run_act_eq (fleet : Fleet) (name : String) (action : Action) (backend : Backend σ)
    (storage : σ) :
    let run := (fleet.act name action).run backend storage
    let response := (respond (fleet.bus? name) action).run backend storage
    (run.value.1, run.value.2.bus? name) = response.value ∧ run.storage = response.storage := by
  cases action with
  | construct config => cases made : Bus.ofConfig config <;> simp [act, respond, made]
  | destroy | listen | bootstrap | start | commit | abort | messages | pending | isAborted
  | close =>
      cases held : fleet.bus? name <;> simp [act, respond, held, Script.run_bind]

end Fleet

namespace Moment

theorem seen_act (backend : Backend σ) (moment : Moment σ) (name : String) (action : Action) :
    let step := moment.act backend name action
    let response := (Fleet.respond (moment.fleet.bus? name) action).run backend moment.storage
    step.seen = response.value ∧ step.after.storage = response.storage := by
  intro step response
  obtain ⟨value, storage⟩ := moment.run_act backend name action
  obtain ⟨seen, stored⟩ := moment.fleet.run_act_eq name action backend moment.storage
  rw [value] at seen
  rw [storage] at stored
  exact ⟨seen, stored⟩

theorem acts_act (formed : moment.fleet.WellFormed) (name : String) (action : Action) :
    let step := moment.act Memory.serve name action
    ∃ calls, Fleet.Acts Fault.none moment.fleet name moment.storage action calls step.answer?
      step.after.fleet step.after.storage := by
  intro step
  obtain ⟨calls, performed⟩ := Script.performs_run Memory.serve Fault.none
    (moment.fleet.act name action) moment.storage
  obtain ⟨value, storage⟩ := moment.run_act Memory.serve name action
  rw [value, storage] at performed
  exact ⟨calls, Fleet.acts Fault.reports_none formed performed⟩

/-- The buses keep to the configurations of their names. -/
theorem config_act {config : String → Bus.Config} (formed : moment.fleet.WellFormed)
    (configs : ∀ name bus, moment.fleet.bus? name = some bus → bus.config = config name)
    (builds : ∀ built, action = .construct built → built = config name) :
    ∀ other bus, (moment.act Memory.serve name action).after.fleet.bus? other = some bus →
      bus.config = config other := by
  intro other bus found
  obtain ⟨calls, acts⟩ := acts_act formed name action
  by_cases same : other = name
  · subst same
    rcases acts.bus?_cases found with
      kept | ⟨built, constructs, made⟩ | ⟨old, outcome, _, held, _, rfl, _, acted⟩
    · exact configs other bus kept
    · exact (Bus.WellFormed.of_config made).2.1.trans (builds built constructs)
    · exact acted.config.trans (configs other old held)
  · rw [acts.bus?_of_ne same] at found
    exact configs other bus found

/-- Moments that do not differ in anything that the buses of one configuration,
which are marked as mine, could notice. -/
structure Alike (own other : Bus.Config) (mine : String → Bool) (whole alone : Moment Memory) :
    Prop where
  wholeFormed : whole.fleet.WellFormed
  aloneFormed : alone.fleet.WellFormed
  configs : ∀ name bus, whole.fleet.bus? name = some bus →
    bus.config = if mine name then own else other
  shared : ∀ name, mine name → whole.fleet.bus? name = alone.fleet.bus? name
  agree : Memory.Agree (Reaches own.path) whole.storage alone.storage

variable {own other : Bus.Config} {mine : String → Bool}

theorem Alike.path_of_held (alike : Alike own other mine whole alone) (name : String) :
    ∀ bus ∈ whole.fleet.bus? name, bus.path = (if mine name then own else other).path :=
  fun bus held => congrArg Bus.Config.path (alike.configs name bus held)

section

variable (siblings : own.Siblings other) (alike : Alike own other mine whole alone)
  (builds : ∀ built, action = .construct built → built = if mine name then own else other)

include siblings alike builds

theorem Alike.of_own (ours : mine name) :
    (whole.act Memory.serve name action).seen = (alone.act Memory.serve name action).seen ∧
      Alike own other mine (whole.act Memory.serve name action).after
        (alone.act Memory.serve name action).after := by
  obtain ⟨wholeCalls, wholeActs⟩ := acts_act alike.wholeFormed name action
  obtain ⟨aloneCalls, aloneActs⟩ := acts_act alike.aloneFormed name action
  obtain ⟨wholeSeen, wholeStored⟩ := seen_act Memory.serve whole name action
  obtain ⟨aloneSeen, aloneStored⟩ := seen_act Memory.serve alone name action
  have path := alike.path_of_held name
  rw [if_pos ours] at path
  rw [← alike.shared name ours] at aloneSeen aloneStored
  have asks : (Fleet.respond (whole.fleet.bus? name) action).Asks (Local own.path) :=
    Fleet.asks_respond path
  obtain ⟨same, agree⟩ := asks.run_eq
    (fun _ asked _ _ agree => asked.serve_eq siblings.valid.path_ne_empty agree) alike.agree
  have seen := wholeSeen.trans (same.trans aloneSeen.symm)
  refine ⟨seen, wholeActs.wellFormed alike.wholeFormed, aloneActs.wellFormed alike.aloneFormed,
    config_act alike.wholeFormed alike.configs builds, ?_, ?_⟩
  · intro held marked
    by_cases here : held = name
    · subst here
      exact (Prod.ext_iff.mp seen).2
    · rw [wholeActs.bus?_of_ne here, aloneActs.bus?_of_ne here]
      exact alike.shared held marked
  · rw [wholeStored, aloneStored]
    exact agree

theorem Alike.of_other (apart : ¬ other.Disturbs own) (theirs : mine name = false) :
    Alike own other mine (whole.act Memory.serve name action).after alone := by
  obtain ⟨calls, acts⟩ := acts_act alike.wholeFormed name action
  obtain ⟨_, stored⟩ := seen_act Memory.serve whole name action
  have path := alike.path_of_held name
  rw [theirs, if_neg Bool.false_ne_true] at path
  refine ⟨acts.wellFormed alike.wholeFormed, alike.aloneFormed,
    config_act alike.wholeFormed alike.configs builds, ?_, ?_⟩
  · intro held marked
    have here : held ≠ name := by
      rintro rfl
      simp [theirs] at marked
    rw [acts.bus?_of_ne here]
    exact alike.shared held marked
  · have asks : (Fleet.respond (whole.fleet.bus? name) action).Asks (Local other.path) :=
      Fleet.asks_respond path
    let unnoticed (memory : Memory) := Memory.Agree (Reaches own.path) memory alone.storage
    have served : ∀ request, Local other.path request → ∀ memory, unnoticed memory →
        unnoticed (Memory.serve request memory).storage := by
      intro request asked memory agree directory reached
      have outside := siblings.not_within_of_reaches apart reached
      rw [asked.lookup_serve siblings.otherValid.path_ne_empty outside]
      exact agree directory reached
    have kept := asks.run_keeps served alike.agree
    rw [stored]
    exact kept

end

end Moment

namespace Bus.Config

variable {own other : Config} {mine : String → Bool} {actions : List (String × Action)}

/-- My buses are made of the one configuration, and all others of the other one. -/
def Builds (own other : Config) (mine : String → Bool) (actions : List (String × Action)) :
    Prop :=
  ∀ name config, (name, .construct config) ∈ actions → config = if mine name then own else other

theorem Builds.of_cons {head : String × Action} (builds : own.Builds other mine (head :: actions)) :
    own.Builds other mine actions :=
  fun name config member => builds name config (List.mem_cons_of_mem _ member)

theorem Builds.cons (builds : own.Builds other mine actions) (ordinary : action.ordinary) :
    own.Builds other mine ((name, action) :: actions) := by
  intro built config member
  rcases List.mem_cons.mp member with same | earlier
  · cases same
    cases ordinary
  · exact builds built config earlier

/-- The buses of one configuration answer, and are, as if those of the other one
were not there: in every history, on every memory, whatever the buses are called. -/
def Isolated (own other : Config) : Prop :=
  ∀ (memory : Memory) (mine : String → Bool) (actions : List (String × Action)),
    own.Builds other mine actions →
      let start : Moment Memory := ⟨{}, memory⟩
      ((start.history Memory.serve actions).filter (mine ·.name)).map Step.seen =
        (start.history Memory.serve (actions.filter (mine ·.1))).map Step.seen

end Bus.Config

namespace Moment

variable {own other : Bus.Config} {mine : String → Bool} {start : Moment Memory}

theorem filter_history_cons (backend : Backend σ) (start : Moment σ) (name : String)
    (action : Action) (earlier : List (String × Action)) :
    (start.history backend ((name, action) :: earlier)).filter (mine ·.name) =
      if mine name then
        (start.following (start.history backend earlier)).act backend name action ::
          (start.history backend earlier).filter (mine ·.name)
      else (start.history backend earlier).filter (mine ·.name) :=
  List.filter_cons

theorem alike_history (siblings : own.Siblings other) (apart : ¬ other.Disturbs own)
    (alike : Alike own other mine start start) {actions : List (String × Action)}
    (builds : own.Builds other mine actions) :
    ((start.history Memory.serve actions).filter (mine ·.name)).map Step.seen =
        (start.history Memory.serve (actions.filter (mine ·.1))).map Step.seen ∧
      Alike own other mine (start.following (start.history Memory.serve actions))
        (start.following (start.history Memory.serve (actions.filter (mine ·.1)))) := by
  induction actions with
  | nil => exact ⟨rfl, alike⟩
  | cons head earlier ih =>
      obtain ⟨name, action⟩ := head
      obtain ⟨seen, alike⟩ := ih builds.of_cons
      have constructs : ∀ built, action = .construct built →
          built = if mine name then own else other := by
        rintro built rfl
        exact builds name built List.mem_cons_self
      by_cases ours : mine name = true
      · obtain ⟨same, after⟩ := alike.of_own siblings constructs ours
        rw [filter_history_cons, List.filter_cons, if_pos ours, if_pos ours, List.map_cons, seen,
          same]
        exact ⟨rfl, after⟩
      · have after := alike.of_other siblings constructs apart (Bool.eq_false_iff.mpr ours)
        rw [filter_history_cons, List.filter_cons, if_neg ours, if_neg ours]
        exact ⟨seen, after⟩

theorem alike_refl (memory : Memory) : Alike own other mine ⟨{}, memory⟩ ⟨{}, memory⟩ where
  wholeFormed := Fleet.wellFormed_empty
  aloneFormed := Fleet.wellFormed_empty
  configs := by simp
  shared _ _ := rfl
  agree _ _ := rfl

variable {config : Bus.Config} {bus : Bus} {instant : Instant}

theorem after_construct (made : Bus.ofConfig config = .ok bus) (backend : Backend σ)
    (moment : Moment σ) (name : String) : (moment.act backend name (.construct config)).after =
      ⟨moment.fleet.insert name bus, moment.storage⟩ := by
  obtain ⟨value, storage⟩ := moment.run_act backend name (.construct config)
  simp only [Fleet.act, made, Script.run_pure, Prod.mk.injEq] at value storage
  rw [value.2, storage]

theorem storage_bootstrap (held : moment.fleet.bus? name = some bus) :
    (moment.act Memory.serve name .bootstrap).after.storage = moment.storage.reset bus.path := by
  obtain ⟨_, stored⟩ := seen_act Memory.serve moment name .bootstrap
  rw [stored, held]
  rfl

theorem answer_messages (held : moment.fleet.bus? name = some bus) :
    (moment.act Memory.serve name .messages).answer? =
      some (.ok (.messages (View.resolve (moment.storage.markers bus.path)))) := by
  obtain ⟨seen, _⟩ := seen_act Memory.serve moment name .messages
  rw [held] at seen
  have answered := congrArg Prod.fst seen
  simpa [Step.seen, Fleet.respond, Fleet.actOn, Script.run_bind, Except.map,
    Bus.run_messages] using answered

section

variable (formed : moment.fleet.WellFormed) (held : moment.fleet.bus? name = some bus)

include formed

theorem bus?_act_of_ne {other : String} (apart : other ≠ name) :
    (moment.act Memory.serve name action).after.fleet.bus? other = moment.fleet.bus? other := by
  obtain ⟨calls, acts⟩ := acts_act formed name action
  exact acts.bus?_of_ne apart

theorem wellFormed_act : (moment.act Memory.serve name action).after.fleet.WellFormed := by
  obtain ⟨calls, acts⟩ := acts_act formed name action
  exact acts.wellFormed formed

include held

theorem answer_publish (accessible : moment.storage.Accessible bus.path) (valid : instant.Valid)
    (act : Bus.Act) :
    (moment.act Memory.serve name (act.action instant)).answer? = some (.ok .nothing) := by
  obtain ⟨calls, acts⟩ := acts_act formed name (act.action instant)
  obtain ⟨wellFormed, outcome, _, answered, acted⟩ := acts.of_held (act.ordinary_action instant) held
  rw [answered, acted.answers wellFormed accessible valid]

theorem marked_of_commit (accessible : moment.storage.Accessible bus.path)
    (valid : instant.Valid) :
    let step := moment.act Memory.serve name (.commit instant)
    ⟨instant, .completed⟩ ∈ step.after.storage.markers bus.path ∧
      ∃ later, step.after.fleet.bus? name = some later ∧ later.path = bus.path := by
  intro step
  obtain ⟨calls, acts⟩ := acts_act formed name (.commit instant)
  obtain ⟨wellFormed, outcome, found, _, acted⟩ := acts.of_held rfl held
  have commits : Action.commit instant = Bus.Act.commit.action instant := rfl
  rw [commits] at acted
  have result := acted.answers wellFormed accessible valid
  obtain ⟨_, _, recorded⟩ := acted.of_finished .commit (by decide) result wellFormed
  exact ⟨(recorded _).mpr (.inl rfl), outcome.bus, found, congrArg Bus.Config.path acted.config⟩

/-- No marker can be put where a directory stands. -/
theorem answer_of_known (act : Bus.Act)
    (known : moment.storage.Known (Path.trim (file bus.path ⟨instant, act.phase⟩))) :
    (moment.act Memory.serve name (act.action instant)).answer? ≠ some (.ok .nothing) := by
  obtain ⟨calls, acts⟩ := acts_act formed name (act.action instant)
  obtain ⟨_, outcome, _, answered, acted⟩ := acts.of_held (act.ordinary_action instant) held
  rw [answered]
  intro succeeded
  obtain ⟨_, _, created⟩ := acted.created (Option.some.inj succeeded)
  exact Memory.not_known_of_created created known

end

end Moment

namespace Bus.Config

variable {own other : Bus.Config}

theorem Isolated.seen_eq (isolated : own.Isolated other) (memory : Memory)
    (mine : String → Bool) (name : String) (action : Action) (earlier : List (String × Action))
    (ours : mine name) (builds : own.Builds other mine ((name, action) :: earlier)) :
    let start : Moment Memory := ⟨{}, memory⟩
    ((start.following (start.history Memory.serve earlier)).act Memory.serve name action).seen =
      ((start.following (start.history Memory.serve (earlier.filter (mine ·.1)))).act
        Memory.serve name action).seen := by
  intro start
  have same := isolated memory mine ((name, action) :: earlier) builds
  dsimp only at same
  rw [Moment.filter_history_cons, List.filter_cons, if_pos ours, if_pos ours] at same
  exact (List.cons.inj same).1

/-- A bus of each configuration on an empty memory. -/
def joined (own other : Config) : Moment Memory :=
  let start : Moment Memory := ⟨{}, {}⟩
  start.following
    (start.history Memory.serve [("other", .construct other), ("own", .construct own)])

/-- A bus of one configuration on an empty memory. -/
def lone (own : Config) : Moment Memory :=
  let start : Moment Memory := ⟨{}, {}⟩
  start.following (start.history Memory.serve [("own", .construct own)])

theorem builds_joined (own other : Config) : own.Builds other (· = "own")
    [("other", .construct other), ("own", .construct own)] := by
  intro built config member
  rcases List.mem_cons.mp member with same | rest
  · cases same
    rfl
  · cases List.mem_singleton.mp rest
    rfl

/-- A moment with a bus of this configuration, whose markers can all be made. -/
structure Ready (own : Config) (bus : Bus) (moment : Moment Memory) : Prop where
  path : bus.path = own.path
  formed : moment.fleet.WellFormed
  held : moment.fleet.bus? "own" = some bus
  accessible : moment.storage.Accessible bus.path

section

variable (siblings : own.Siblings other)

include siblings

theorem Siblings.exists_ready : ∃ bus otherBus : Bus, own.Ready bus (own.joined other) ∧
    own.Ready bus own.lone ∧ otherBus.path = other.path ∧
      (own.joined other).fleet.bus? "other" = some otherBus := by
  obtain ⟨bus, made⟩ : ∃ bus, Bus.ofConfig own = .ok bus := ⟨_, if_pos siblings.valid⟩
  obtain ⟨otherBus, otherMade⟩ : ∃ bus, Bus.ofConfig other = .ok bus :=
    ⟨_, if_pos siblings.otherValid⟩
  obtain ⟨formed, config, _⟩ := Bus.WellFormed.of_config made
  obtain ⟨otherFormed, otherConfig, _⟩ := Bus.WellFormed.of_config otherMade
  have joinedSpelt : own.joined other =
      ⟨(({} : Fleet).insert "own" bus).insert "other" otherBus, {}⟩ := by
    simp only [joined, Moment.history, Moment.following, Moment.after_construct made,
      Moment.after_construct otherMade]
  have loneSpelt : own.lone = ⟨({} : Fleet).insert "own" bus, {}⟩ := by
    simp only [lone, Moment.history, Moment.following, Moment.after_construct made]
  have path : bus.path = own.path := congrArg Config.path config
  have loneFormed : (({} : Fleet).insert "own" bus).WellFormed :=
    Fleet.wellFormed_empty.insert formed
  have accessible : ({} : Memory).Accessible bus.path :=
    fun _ _ known => Memory.not_known_empty known
  rw [joinedSpelt, loneSpelt]
  refine ⟨bus, otherBus, ⟨path, loneFormed.insert otherFormed, ?_, accessible⟩,
    ⟨path, loneFormed, Fleet.bus?_insert_self, accessible⟩, congrArg Config.path otherConfig,
    Fleet.bus?_insert_self⟩
  rw [Fleet.bus?_insert_of_ne (by decide), Fleet.bus?_insert_self]

/-- The one empties its directory, and with it that of the other. -/
theorem Siblings.not_isolated_of_slash (ends : other.path.toList.getLast? = some '/') :
    ¬ own.Isolated other := by
  intro isolated
  obtain ⟨bus, otherBus, joined, lone, otherPath, otherHeld⟩ := siblings.exists_ready
  let committed := (own.joined other).act Memory.serve "own" (.commit "a")
  let emptied := committed.after.act Memory.serve "other" .bootstrap
  let loneCommitted := own.lone.act Memory.serve "own" (.commit "a")
  have seen : (emptied.after.act Memory.serve "own" .messages).seen =
      (loneCommitted.after.act Memory.serve "own" .messages).seen :=
    isolated.seen_eq {} (· = "own") "own" .messages [("other", .bootstrap),
      ("own", .commit "a"), ("other", .construct other), ("own", .construct own)] rfl
      ((((builds_joined own other).cons rfl).cons rfl).cons rfl)
  have valid : Instant.Valid "a" := by decide
  obtain ⟨_, later, found, path⟩ := Moment.marked_of_commit joined.formed joined.held
    joined.accessible valid
  obtain ⟨marked, loneLater, loneFound, lonePath⟩ := Moment.marked_of_commit lone.formed
    lone.held lone.accessible valid
  have formed : committed.after.fleet.WellFormed := Moment.wellFormed_act joined.formed
  have kept : emptied.after.fleet.bus? "own" = some later :=
    (Moment.bus?_act_of_ne formed (by decide)).trans found
  have otherKept : committed.after.fleet.bus? "other" = some otherBus :=
    (Moment.bus?_act_of_ne joined.formed (by decide)).trans otherHeld
  have nothing : emptied.after.storage.markers later.path = [] := by
    rw [Moment.storage_bootstrap otherKept, otherPath, path, joined.path]
    exact Memory.markers_reset_of_within (siblings.within_of_slash ends)
  have answers := ((Moment.answer_messages kept).symm.trans (Step.answer_of_seen seen)).trans
    (Moment.answer_messages loneFound)
  rw [nothing, lonePath] at answers
  simp only [Option.some.injEq, Except.ok.injEq, Answer.messages.injEq] at answers
  obtain ⟨shown, member, _⟩ := View.exists_mem_resolve marked
  rw [← answers] at member
  cases member

/-- The one makes a directory where a marker of the other belongs. -/
theorem Siblings.not_isolated_of_name {message : Message} (named : message.instant.Valid)
    (ownEnds : own.path.toList.getLast? = some '/')
    (same : "_" ++ other.uniqueId = Marker.name message) : ¬ own.Isolated other := by
  intro isolated
  obtain ⟨bus, otherBus, joined, lone, otherPath, otherHeld⟩ := siblings.exists_ready
  obtain ⟨act, phase⟩ : ∃ act : Bus.Act, act.phase = message.phase := by
    cases message.phase
    · exact ⟨.start, rfl⟩
    · exact ⟨.abort, rfl⟩
    · exact ⟨.commit, rfl⟩
  let emptied := (own.joined other).act Memory.serve "other" .bootstrap
  have seen : (emptied.after.act Memory.serve "own" (act.action message.instant)).seen =
      (own.lone.act Memory.serve "own" (act.action message.instant)).seen :=
    isolated.seen_eq {} (· = "own") "own" _ [("other", .bootstrap),
      ("other", .construct other), ("own", .construct own)] rfl
      (((builds_joined own other).cons rfl).cons (act.ordinary_action message.instant))
  have formed : emptied.after.fleet.WellFormed := Moment.wellFormed_act joined.formed
  have kept : emptied.after.fleet.bus? "own" = some bus :=
    (Moment.bus?_act_of_ne joined.formed (by decide)).trans joined.held
  have known : emptied.after.storage.Known
      (Path.trim (file bus.path ⟨message.instant, act.phase⟩)) := by
    rw [Moment.storage_bootstrap otherHeld, Memory.known_reset, phase, joined.path, otherPath]
    exact .inl (congrArg Path.trim ((siblings.file_eq_iff ownEnds).mpr same))
  have answered := Moment.answer_publish lone.formed lone.held lone.accessible named act
  exact Moment.answer_of_known formed kept act known ((Step.answer_of_seen seen).trans answered)

end

/-- Writers with different ids are isolated, unless the directory that they share
ends with a slash and one id is empty: a writer without an id empties the
directories of all others, and one whose id spells a marker is in its way. -/
theorem isolated_iff (siblings : own.Siblings other) :
    own.Isolated other ↔ ¬ other.Disturbs own := by
  constructor
  · intro isolated disturbs
    obtain ⟨ends, plain | ⟨ownPlain, decodes⟩⟩ := disturbs
    · have otherEnds := (getLast?_path siblings.otherValid).mpr ⟨plain, siblings.directory ▸ ends⟩
      exact siblings.not_isolated_of_slash otherEnds isolated
    · have ownEnds := (getLast?_path siblings.valid).mpr ⟨ownPlain, ends⟩
      obtain ⟨message, decoded⟩ := Option.isSome_iff_exists.mp decodes
      obtain ⟨named, same⟩ := Marker.decode_eq_some_iff.mp decoded
      exact siblings.not_isolated_of_name named ownEnds same isolated
  · intro apart memory mine actions builds
    exact (Moment.alike_history siblings apart (Moment.alike_refl memory) builds).1

/-- One slash at the end of the directory makes the difference. -/
theorem isolated_without_slash :
    (⟨"t", "d", "x", 1⟩ : Config).Isolated ⟨"t", "d", "", 1⟩ ∧
      ¬ (⟨"t", "d/", "x", 1⟩ : Config).Isolated ⟨"t", "d/", "", 1⟩ := by
  have plain : (⟨"t", "d", "x", 1⟩ : Config).Siblings ⟨"t", "d", "", 1⟩ :=
    ⟨by decide, by decide, rfl, rfl, by decide⟩
  have slashed : (⟨"t", "d/", "x", 1⟩ : Config).Siblings ⟨"t", "d/", "", 1⟩ :=
    ⟨by decide, by decide, rfl, rfl, by decide⟩
  exact ⟨(isolated_iff plain).mpr (by decide), fun isolated => (isolated_iff slashed).mp isolated (by decide)⟩

end Bus.Config

end MarkerBus
