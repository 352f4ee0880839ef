import MarkerBus.Proofs.Bus
import MarkerBus.Proofs.Storage.Postcondition

namespace MarkerBus

open Storage MarkerDirectory
open Notice (warnings)

variable {σ : Type} {path : String} {instant : Instant} {bus : Bus}

theorem MarkerDirectory.ensures_append (path : String) (message : Message) :
    (append path message).Ensures fun given answer =>
      given = [] ∧ (answer = .ok () → message.instant.Valid) := by
  cases checked : message.instant.validate with
  | error defect =>
      simp only [append, Marker.encode_eq_error checked]
      exact ⟨rfl, fun passed => by cases passed⟩
  | ok _ =>
      have valid : message.instant.Valid := Instant.validate_eq_ok_iff.mp checked
      simp only [append, Marker.encode_eq_ok valid]
      refine Script.ensures_ask.mpr fun answer _ => ?_
      split <;> exact ⟨rfl, fun _ => valid⟩

theorem MarkerDirectory.ensures_decodeAll (path : String) (names : List String) :
    (decodeAll path names).Ensures fun given _ => given = [] := by
  induction names with
  | nil => rfl
  | cons name rest ih =>
      unfold decodeAll
      split
      · rw [Script.ensures_bind]
        exact ih.mono fun given messages silent => by simp [silent]
      · exact ih

theorem MarkerDirectory.ensures_scan (path : String) :
    (scan path).Ensures fun given _ => given = [] := by
  unfold scan
  refine Script.ensures_ask.mpr fun found _ => ?_
  split
  · rfl
  · rfl
  · refine Script.ensures_ask.mpr fun listed _ => ?_
    split
    · rfl
    · rw [Script.ensures_bind]
      exact (ensures_decodeAll path _).mono fun given messages silent => by simp [silent]

theorem MarkerDirectory.ensures_reset (path : String) :
    (MarkerDirectory.reset path).Ensures fun given _ => given = [] := by
  unfold MarkerDirectory.reset
  refine Script.ensures_ask.mpr fun answer _ => ?_
  split <;> rfl

theorem MarkerDirectory.ensures_removeEach (path : String) (names : List String) :
    (removeEach path names).Ensures fun given answer => given = [] ∧ ∃ all, answer = .ok all := by
  induction names with
  | nil => exact ⟨rfl, true, rfl⟩
  | cons name rest ih =>
      unfold removeEach
      refine Script.ensures_ask.mpr fun answer known => ?_
      split
      · exact ih
      · rw [Script.ensures_log, Script.ensures_bind]
        refine ih.mono fun given others passed => ?_
        obtain ⟨rfl, all, rfl⟩ := passed
        exact ⟨rfl, false, rfl⟩
      -- a failure without a report would end the loop, and there is none
      · rename_i failure unreported
        obtain ⟨report, rfl⟩ := known failure rfl
        exact absurd rfl (unreported report)

theorem MarkerDirectory.ensures_deleteAll (valid : instant.Valid) :
    (deleteAll path instant).Ensures fun given answer => given = [] ∧ ∃ all, answer = .ok all := by
  simp only [deleteAll, Marker.encodeAll_eq_ok valid]
  exact ensures_removeEach path _

namespace Retention

/-- The warning that a cleaning ends with, if it does. -/
def Cleaning.raised (cleaning : Cleaning) : List CleanupWarning :=
  match cleaning.outcome with
  | .ok (some warning) => [warning]
  | _ => []

/-- The cleaning ended by itself, and freed instants from the head of the queue. -/
structure Cleaning.Frees (cleaning : Cleaning) (queue : List Instant) : Prop where
  ended : ∃ warning?, cleaning.outcome = .ok warning?
  left : cleaning.queue <:+ queue
  length : cleaning.cleaned + cleaning.queue.length = queue.length

theorem ensures_drain (limit : Nat) {queue : List Instant}
    (valid : ∀ instant ∈ queue, instant.Valid) :
    (drain path limit queue).Ensures fun given cleaning => given = [] ∧ cleaning.Frees queue := by
  induction queue with
  | nil => exact ⟨rfl, ⟨_, rfl⟩, List.suffix_refl [], rfl⟩
  | cons oldest rest ih =>
      unfold drain
      split
      · exact ⟨rfl, ⟨_, rfl⟩, List.suffix_refl _, Nat.zero_add _⟩
      · rw [Script.ensures_bind]
        refine (ensures_deleteAll (valid oldest (by simp))).mono fun given answer deleted => ?_
        obtain ⟨rfl, all, rfl⟩ := deleted
        cases all with
        | false => exact ⟨rfl, ⟨_, rfl⟩, List.suffix_refl _, Nat.zero_add _⟩
        | true =>
            rw [Script.ensures_log, Script.ensures_bind]
            have tailValid : ∀ instant ∈ rest, instant.Valid :=
              fun instant member => valid instant (List.mem_cons_of_mem _ member)
            refine (ih tailValid).mono fun given cleaning freed => ?_
            obtain ⟨rfl, ended, left, length⟩ := freed
            refine ⟨rfl, ended, left.trans (List.suffix_cons oldest rest), ?_⟩
            simp only [List.length_cons, ← length]
            omega

theorem ensures_clean (retention : Retention) (path : String)
    (valid : ∀ instant ∈ retention.queue, instant.Valid) :
    (retention.clean path).Ensures fun given cleaned => given = [] ∧
      cleaned.1.Frees retention.queue ∧
      cleaned.2 = { retention with queue := cleaned.1.queue } := by
  unfold clean
  rw [Script.ensures_bind]
  refine (ensures_drain retention.limit valid).mono fun given cleaning freed => ?_
  obtain ⟨rfl, frees⟩ := freed
  exact ⟨rfl, frees, rfl⟩

end Retention

namespace Bus

theorem ensures_bootstrap (bus : Bus) :
    bus.bootstrap.Ensures fun given outcome => given = [] ∧ outcome.bus = bus := by
  unfold bootstrap
  rw [Script.ensures_bind]
  refine (ensures_reset bus.path).mono fun given answer silent => ?_
  subst silent
  split
  · exact ⟨rfl, rfl⟩
  · split <;> exact ⟨rfl, rfl⟩

theorem ensures_publish (bus : Bus) (act : Act) (instant : Instant) :
    (bus.publish act instant).Ensures fun given outcome => given = [] ∧
      (instant.Valid ∧ outcome = ⟨.ok (), bus.countMarker⟩ ∨
        ∃ error, outcome = ⟨.error error, bus⟩) := by
  unfold publish
  rw [Script.ensures_bind]
  refine (ensures_append bus.path ⟨instant, act.phase⟩).mono fun given answer appended => ?_
  obtain ⟨rfl, named⟩ := appended
  split
  · exact ⟨rfl, .inl ⟨named rfl, rfl⟩⟩
  · exact ⟨rfl, .inr ⟨_, rfl⟩⟩
  · exact ⟨rfl, .inr ⟨_, rfl⟩⟩

theorem ensures_load (bus : Bus) : bus.load.Ensures fun given outcome => given = [] ∧
    ((∃ view, outcome = ⟨.ok view, bus.loaded view⟩) ∨
      ∃ error, outcome = ⟨.error error, bus⟩) := by
  unfold load
  rw [Script.ensures_bind]
  refine (ensures_scan bus.path).mono fun given answer silent => ?_
  subst silent
  split
  · exact ⟨rfl, .inl ⟨_, rfl⟩⟩
  · exact ⟨rfl, .inr ⟨_, rfl⟩⟩
  · exact ⟨rfl, .inr ⟨_, rfl⟩⟩

theorem ensures_actOn_of_published (bus : Bus) {act : Act} (finished : act ≠ .start)
    (instant : Instant) :
    (Fleet.actOn bus (act.action instant)).Ensures fun given outcome => given = [] ∧
      (outcome = ⟨.ok .nothing, bus.countMarker⟩ ∨ ∃ error, outcome = ⟨.error error, bus⟩) := by
  have published : (Fleet.actOn bus (act.action instant)) = bus.publish act instant >>=
      fun outcome => pure ⟨outcome.result.map fun () => .nothing, outcome.bus⟩ := by
    cases act with
    | start => exact absurd rfl finished
    | commit | abort => rfl
  rw [published, Script.ensures_bind_pure]
  refine (ensures_publish bus act instant).mono fun given outcome ended => ?_
  obtain ⟨rfl, ⟨_, rfl⟩ | ⟨error, rfl⟩⟩ := ended
  · exact ⟨rfl, .inl rfl⟩
  · exact ⟨rfl, .inr ⟨error, rfl⟩⟩

theorem ensures_actOn_of_loads (bus : Bus) {action : Action}
    (loads : action = .messages ∨ action = .pending) :
    (Fleet.actOn bus action).Ensures fun given outcome => given = [] ∧
      ((∃ answer view, outcome = ⟨.ok answer, bus.loaded view⟩) ∨
        ∃ error, outcome = ⟨.error error, bus⟩) := by
  rcases loads with rfl | rfl
  · refine Script.ensures_bind_pure.mpr ((ensures_load bus).mono fun given outcome ended => ?_)
    obtain ⟨rfl, ⟨view, rfl⟩ | ⟨error, rfl⟩⟩ := ended
    · exact ⟨rfl, .inl ⟨_, _, rfl⟩⟩
    · exact ⟨rfl, .inr ⟨_, rfl⟩⟩
  · refine Script.ensures_bind_pure.mpr (Script.ensures_bind_pure.mpr
      ((ensures_load bus).mono fun given outcome ended => ?_))
    obtain ⟨rfl, ⟨view, rfl⟩ | ⟨error, rfl⟩⟩ := ended
    · exact ⟨rfl, .inl ⟨_, _, rfl⟩⟩
    · exact ⟨rfl, .inr ⟨_, rfl⟩⟩

/-- A listener hears a warning once, and fails by itself if at all. -/
theorem ensures_notify (listener : Listener) (warning : CleanupWarning) :
    (notify listener warning).Ensures fun given _ =>
      given = if listener = .absent then [] else [warning] := by
  cases listener <;> rfl

variable {backend : Backend σ}

theorem run_clean (plain : backend.Plain) (valid : ∀ instant ∈ bus.retained, instant.Valid)
    (storage : σ) :
    let cleaning := ((bus.retention.clean bus.path).run backend storage).value.1
    let run := bus.clean.run backend storage
    cleaning.Frees bus.retained ∧ run.value = ⟨.ok (), bus.settle cleaning⟩ ∧
      warnings run.notices = if bus.listener = .absent then [] else cleaning.raised := by
  obtain ⟨silent, frees, kept⟩ :=
    (Retention.ensures_clean bus.retention bus.path valid).run plain storage
  -- a cleaning that ends by itself never fails the start
  obtain ⟨warning?, ended⟩ := frees.ended
  intro cleaning
  refine ⟨frees, ?_⟩
  simp only [clean, Script.run_bind, Notice.warnings_append, silent, ended, kept,
    List.nil_append]
  cases warning? with
  | none => simp [settle, Retention.Cleaning.raised, cleaning, ended, warnings]
  | some warning =>
      have heard := (ensures_notify bus.listener warning).run plain
      simp only [Script.run_bind, Script.run_pure, Notice.warnings_append, heard, settle,
        Retention.Cleaning.raised, cleaning, ended]
      exact ⟨trivial, List.append_nil _⟩

end Bus

theorem Bus.cleanupFailures_settle (bus : Bus) (cleaning : Retention.Cleaning) :
    (bus.settle cleaning).stats.cleanupFailures =
      bus.stats.cleanupFailures + .ofNat cleaning.raised.length := by
  obtain ⟨outcome, cleaned, queue⟩ := cleaning
  rcases outcome with error | _ | warning <;> simp [Bus.settle, Retention.Cleaning.raised]

def Action.loads : Action → Bool
  | .messages | .pending => true
  | _ => false

/-- Who listens after the action, if this listener was there before it. -/
def Action.installs (listener : Bus.Listener) : Action → Bus.Listener
  | .listen other => other
  | _ => listener

/-- What a bus has done: the action, the bus that took it, and what came of it. -/
structure Deed (σ : Type) where
  action : Action
  before : Bus
  /-- The warnings of the cleaning, whether or not anyone hears them. -/
  raised : List CleanupWarning
  run : Run σ (Bus.Outcome Answer)

namespace Deed

def after (deed : Deed σ) : Bus :=
  deed.run.value.bus

def succeeded (deed : Deed σ) : Bool :=
  deed.run.value.result.isOk

def published (deed : Deed σ) : Bool :=
  deed.action.publishes && deed.succeeded

def loaded (deed : Deed σ) : Bool :=
  deed.action.loads && deed.succeeded

/-- Has the deed started an instant that the bus did not track? -/
def entered (deed : Deed σ) : Bool :=
  match deed.action with
  | .start instant => deed.succeeded && decide (instant ∉ deed.before.retained)
  | _ => false

/-- The instants that the bus has dropped without cleaning them. -/
def dropped (deed : Deed σ) : List Instant :=
  match deed.action with
  | .close => deed.before.retained
  | _ => []

/-- What the listener has heard meanwhile. -/
def heard (deed : Deed σ) : List CleanupWarning :=
  warnings deed.run.notices

/-- Who listens after some deeds of a new bus, latest first. -/
def installed (past : List (Deed σ)) : Bus.Listener :=
  past.foldr (fun deed listener => deed.action.installs listener) .absent

/-- The counters and the queue after the deed account for it. -/
structure Accounted (deed : Deed σ) : Prop where
  written : deed.after.stats.markersWritten =
    deed.before.stats.markersWritten + if deed.published then 1 else 0
  scanned : deed.after.stats.scans = deed.before.stats.scans + if deed.loaded then 1 else 0
  failed : deed.after.stats.cleanupFailures =
    deed.before.stats.cleanupFailures + .ofNat deed.raised.length
  heard : deed.heard = if deed.before.listener = .absent then [] else deed.raised
  cleaned : ∃ cleaned : Nat,
    deed.after.stats.instantsCleaned = deed.before.stats.instantsCleaned + .ofNat cleaned ∧
      cleaned + deed.after.retained.length + deed.dropped.length =
        deed.before.retained.length + if deed.entered then 1 else 0
  named : ∀ instant ∈ deed.after.retained, instant.Valid
  listener : deed.after.listener = deed.action.installs deed.before.listener

variable {deed : Deed σ}

/-- A deed that leaves the queue alone has only itself to be counted. -/
theorem Accounted.of_steady (named : ∀ instant ∈ deed.before.retained, instant.Valid)
    (silent : deed.heard = []) (raised : deed.raised = []) (entered : deed.entered = false)
    (dropped : deed.dropped = [])
    (listener : deed.after.listener = deed.action.installs deed.before.listener)
    (retention : deed.after.retention = deed.before.retention)
    (stats : deed.after.stats = { deed.before.stats with
      markersWritten := if deed.published then deed.before.stats.markersWritten + 1
        else deed.before.stats.markersWritten
      scans := if deed.loaded then deed.before.stats.scans + 1 else deed.before.stats.scans }) :
    deed.Accounted where
  written := by
    rw [stats]
    dsimp only
    split <;> simp
  scanned := by
    rw [stats]
    dsimp only
    split <;> simp
  failed := by simp [stats, raised]
  heard := by simp [silent, raised]
  cleaned := ⟨0, by simp [stats], by simp [entered, dropped, Bus.retained, retention]⟩
  named := by simpa [Bus.retained, retention] using named
  listener := listener

theorem Accounted.of_failed {error : Bus.Error}
    (failed : deed.run.value = ⟨.error error, deed.before⟩)
    (named : ∀ instant ∈ deed.before.retained, instant.Valid) (silent : deed.heard = [])
    (raised : deed.raised = []) (dropped : deed.dropped = [])
    (listener : deed.action.installs deed.before.listener = deed.before.listener) :
    deed.Accounted := by
  have refused : deed.succeeded = false := by
    rw [succeeded, failed]
    rfl
  have entered : deed.entered = false := by
    unfold Deed.entered
    split <;> simp [refused]
  refine .of_steady named silent raised entered dropped ?_ ?_ ?_
  · rw [after, failed, listener]
  · rw [after, failed]
  · simp [after, failed, published, loaded, refused]

/-- A start counts itself, its cleaning, and the instant if it is new. -/
theorem Accounted.of_started {instant : Instant} {cleaning : Retention.Cleaning}
    (starts : deed.action = .start instant)
    (ran : deed.run.value = ⟨.ok .nothing, (deed.before.tracking instant).settle cleaning⟩)
    (frees : cleaning.Frees (deed.before.tracking instant).retained)
    (named : ∀ other ∈ (deed.before.tracking instant).retained, other.Valid)
    (raised : deed.raised = cleaning.raised)
    (heard : deed.heard = if deed.before.listener = .absent then [] else deed.raised) :
    deed.Accounted := by
  have settled : deed.after = (deed.before.tracking instant).settle cleaning :=
    congrArg Bus.Outcome.bus ran
  have passed : deed.succeeded = true := by
    rw [succeeded, ran]
    rfl
  have published : deed.published = true := by
    simp [Deed.published, starts, Action.publishes, passed]
  have loaded : deed.loaded = false := by
    simp [Deed.loaded, starts, Action.loads]
  have dropped : deed.dropped = [] := by
    simp [Deed.dropped, starts]
  have length : cleaning.cleaned + cleaning.queue.length =
      deed.before.retained.length + if deed.entered then 1 else 0 := by
    simp only [frees.length, Deed.entered, starts, passed, Bool.true_and, decide_eq_true_eq]
    exact deed.before.retention.length_track instant
  refine ⟨?_, ?_, ?_, heard, ?_, ?_, ?_⟩
  · rw [settled, published]
    rfl
  · rw [settled, loaded, if_neg Bool.false_ne_true, UInt64.add_zero]
    rfl
  · rw [settled, raised]
    exact Bus.cleanupFailures_settle _ cleaning
  · rw [settled, dropped]
    exact ⟨cleaning.cleaned, rfl, length⟩
  · intro other member
    rw [settled] at member
    exact named other (frees.left.subset member)
  · rw [settled, starts]
    rfl

end Deed

namespace Bus

variable {backend : Backend σ}

/-- The warnings of the cleaning that follows a start. -/
def raised (backend : Backend σ) (bus : Bus) (storage : σ) : Action → List CleanupWarning
  | .start instant =>
      let published := (bus.publish .start instant).run backend storage
      match published.value.result with
      | .ok () =>
          let retention := published.value.bus.retention.track instant
          ((retention.clean bus.path).run backend published.storage).value.1.raised
      | .error _ => []
  | _ => []

def act (backend : Backend σ) (bus : Bus) (storage : σ) (action : Action) : Deed σ where
  action := action
  before := bus
  raised := bus.raised backend storage action
  run := (Fleet.actOn bus action).run backend storage

section

variable (plain : backend.Plain) (named : ∀ instant ∈ bus.retained, instant.Valid) (storage : σ)

include plain named

theorem accounted_of_bootstrap : (bus.act backend storage .bootstrap).Accounted := by
  have ensured : (Fleet.actOn bus .bootstrap).Ensures fun given outcome =>
      given = [] ∧ outcome.bus = bus :=
    Script.ensures_bind_pure.mpr (ensures_bootstrap bus)
  obtain ⟨silent, same⟩ := ensured.run plain storage
  exact .of_steady named silent rfl rfl rfl (congrArg Bus.listener same)
    (congrArg Bus.retention same) (congrArg Bus.stats same)

theorem accounted_of_published (act : Act) (finished : act ≠ .start) (instant : Instant) :
    (bus.act backend storage (act.action instant)).Accounted := by
  obtain ⟨silent, ended⟩ := (ensures_actOn_of_published bus finished instant).run plain storage
  cases act with
  | start => exact absurd rfl finished
  | commit | abort =>
      rcases ended with same | ⟨error, same⟩
      · refine .of_steady named silent rfl rfl rfl (congrArg (·.bus.listener) same)
          (congrArg (·.bus.retention) same) ?_
        simp only [Act.action] at same ⊢
        simp only [Deed.after, Deed.published, Deed.loaded, Deed.succeeded, Bus.act, same]
        rfl
      · exact .of_failed same named silent rfl rfl rfl

theorem accounted_of_loads {action : Action} (loads : action = .messages ∨ action = .pending) :
    (bus.act backend storage action).Accounted := by
  obtain ⟨silent, ended⟩ := (ensures_actOn_of_loads bus loads).run plain storage
  rcases loads with rfl | rfl
  all_goals
    rcases ended with ⟨answer, view, same⟩ | ⟨error, same⟩
    · refine .of_steady named silent rfl rfl rfl (congrArg (·.bus.listener) same)
        (congrArg (·.bus.retention) same) ?_
      simp only [Deed.after, Deed.published, Deed.loaded, Deed.succeeded, Bus.act, same]
      rfl
    · exact .of_failed same named silent rfl rfl rfl

omit named in
/-- A start that has been published goes on as a cleaning of the queue with the
instant in it. -/
theorem run_start {instant : Instant}
    (silent : warnings ((bus.publish .start instant).run backend storage).notices = [])
    (published : ((bus.publish .start instant).run backend storage).value =
      ⟨.ok (), bus.countMarker⟩)
    (tracked : ∀ other ∈ (bus.tracking instant).retained, other.Valid) :
    let deed := bus.act backend storage (.start instant)
    ∃ cleaning, cleaning.Frees (bus.tracking instant).retained ∧
      deed.raised = cleaning.raised ∧
      deed.run.value = ⟨.ok .nothing, (bus.tracking instant).settle cleaning⟩ ∧
      deed.heard = if bus.listener = .absent then [] else cleaning.raised := by
  intro deed
  generalize left : (bus.publish .start instant).run backend storage = first
    at silent published
  obtain ⟨frees, ended, heard⟩ := run_clean plain tracked first.storage
  refine ⟨_, frees, ?_, ?_, ?_⟩
  · simp only [deed, act, Bus.raised, left, published]
    rfl
  · simp only [deed, act, Fleet.actOn, start, Script.run_bind, Script.run_pure, left, published]
    exact congrArg (fun outcome : Outcome Unit =>
      (⟨outcome.result.map fun () => .nothing, outcome.bus⟩ : Outcome Answer)) ended
  · simp only [Deed.heard, deed, act, Fleet.actOn, start, Script.run_bind, Script.run_pure, left,
      published, Notice.warnings_append, silent, List.nil_append, List.append_nil]
    exact heard

theorem accounted_of_start (instant : Instant) :
    (bus.act backend storage (.start instant)).Accounted := by
  obtain ⟨silent, ⟨valid, written⟩ | ⟨error, failed⟩⟩ :=
    (ensures_publish bus .start instant).run plain storage
  · have tracked : ∀ other ∈ (bus.tracking instant).retained, other.Valid := by
      intro other member
      rcases mem_retained_tracking.mp member with rfl | earlier
      · exact valid
      · exact named other earlier
    obtain ⟨cleaning, frees, raised, ran, heard⟩ :=
      run_start plain storage silent written tracked
    exact .of_started rfl ran frees tracked raised (raised ▸ heard)
  · have ended : (bus.act backend storage (.start instant)).run.value = ⟨.error error, bus⟩ := by
      simp only [act, Fleet.actOn, start, Script.run_bind, Script.run_pure, failed]
      rfl
    refine .of_failed ended named ?_ ?_ rfl rfl
    · simp [Deed.heard, act, Fleet.actOn, start, Script.run_bind, failed, silent]
    · simp only [act, Bus.raised, failed]

theorem act_accounted (action : Action) : (bus.act backend storage action).Accounted := by
  cases action with
  | construct | destroy | listen | isAborted =>
      exact .of_steady named rfl rfl rfl rfl rfl rfl rfl
  | close =>
      have uncounted (count : UInt64) : count = count + 0 := (UInt64.add_zero count).symm
      exact ⟨uncounted _, uncounted _, uncounted _, (ite_self _).symm,
        ⟨0, uncounted _, Nat.zero_add _⟩, nofun, rfl⟩
  | bootstrap => exact accounted_of_bootstrap plain named storage
  | start instant => exact accounted_of_start plain named storage instant
  | commit instant =>
      exact accounted_of_published plain named storage .commit (by decide) instant
  | abort instant =>
      exact accounted_of_published plain named storage .abort (by decide) instant
  | messages => exact accounted_of_loads plain named storage (.inl rfl)
  | pending => exact accounted_of_loads plain named storage (.inr rfl)

end

/-- A bus and the storage below it after its deeds, which are given latest first. -/
def following (bus : Bus) (storage : σ) : List (Deed σ) → Bus × σ
  | [] => (bus, storage)
  | deed :: _ => (deed.after, deed.run.storage)

/-- What a bus does on some actions.  Deeds and actions are given latest first. -/
def deeds (backend : Backend σ) (bus : Bus) (storage : σ) : List Action → List (Deed σ)
  | [] => []
  | action :: earlier =>
      let past := bus.deeds backend storage earlier
      let (now, left) := bus.following storage past
      now.act backend left action :: past

/-- The counters and the queue of a bus account for all of its deeds. -/
structure Accounts (bus : Bus) (past : List (Deed σ)) : Prop where
  written : bus.stats.markersWritten = .ofNat (past.countP Deed.published)
  scanned : bus.stats.scans = .ofNat (past.countP Deed.loaded)
  failed : bus.stats.cleanupFailures = .ofNat (past.flatMap Deed.raised).length
  heard : ∀ later deed earlier, past = later ++ deed :: earlier →
    deed.heard = if Deed.installed earlier = .absent then [] else deed.raised
  cleaned : ∃ cleaned : Nat, bus.stats.instantsCleaned = .ofNat cleaned ∧
    cleaned + bus.retained.length + (past.flatMap Deed.dropped).length = past.countP Deed.entered
  named : ∀ instant ∈ bus.retained, instant.Valid
  listener : bus.listener = Deed.installed past

theorem Accounts.of_config {config : Config} (made : ofConfig config = .ok bus) :
    bus.Accounts ([] : List (Deed σ)) := by
  unfold ofConfig at made
  split at made
  · cases made
    exact ⟨rfl, rfl, rfl, by simp, ⟨0, rfl, rfl⟩, by simp [retained], rfl⟩
  · cases made

theorem Accounts.cons {deed : Deed σ} {past : List (Deed σ)}
    (accounts : deed.before.Accounts past) (accounted : deed.Accounted) :
    deed.after.Accounts (deed :: past) where
  written := by
    rw [accounted.written, accounts.written, List.countP_cons, UInt64.ofNat_add]
    split <;> rfl
  scanned := by
    rw [accounted.scanned, accounts.scanned, List.countP_cons, UInt64.ofNat_add]
    split <;> rfl
  failed := by
    rw [accounted.failed, accounts.failed, ← UInt64.ofNat_add, List.flatMap_cons,
      List.length_append, Nat.add_comm]
  heard later other earlier split := by
    cases later with
    | nil =>
        -- the latest deed was heard by whoever the earlier ones had installed
        cases split
        rw [accounted.heard, accounts.listener]
    | cons latest between =>
        cases split
        exact accounts.heard between other earlier rfl
  cleaned := by
    obtain ⟨before, counted, earlier⟩ := accounts.cleaned
    obtain ⟨now, added, whole⟩ := accounted.cleaned
    refine ⟨before + now, by rw [added, counted, UInt64.ofNat_add], ?_⟩
    rw [List.flatMap_cons, List.length_append, List.countP_cons, ← earlier]
    omega
  named := accounted.named
  listener := by
    rw [accounted.listener, accounts.listener]
    rfl

theorem accounts_deeds {backend : Backend σ} (plain : backend.Plain) {config : Config}
    (made : ofConfig config = .ok bus) (storage : σ) (actions : List Action) :
    (bus.following storage (bus.deeds backend storage actions)).1.Accounts
      (bus.deeds backend storage actions) := by
  induction actions with
  | nil => exact .of_config made
  | cons action earlier ih => exact ih.cons (act_accounted plain ih.named _ action)

/-- Whatever a storage does to a bus, its counters account for its past: for what it
has written, for its loads, for the cleanings that failed, each of which was told once
to whoever listened, and for every instant that has entered its queue.  The numbers are
exact, and the counters hold them modulo the size of a word. -/
theorem stats_account_for_past {backend : Backend σ} (plain : backend.Plain)
    {config : Config} (made : ofConfig config = .ok bus) (storage : σ)
    (actions : List Action) :
    let past := bus.deeds backend storage actions
    let now := (bus.following storage past).1
    now.stats.markersWritten = .ofNat (past.countP Deed.published) ∧
      now.stats.scans = .ofNat (past.countP Deed.loaded) ∧
      now.stats.cleanupFailures = .ofNat (past.flatMap Deed.raised).length ∧
      (∀ later deed earlier, past = later ++ deed :: earlier →
        deed.heard = if Deed.installed earlier = .absent then [] else deed.raised) ∧
      ∃ cleaned : Nat, now.stats.instantsCleaned = .ofNat cleaned ∧
        cleaned + now.retained.length + (past.flatMap Deed.dropped).length =
          past.countP Deed.entered := by
  obtain ⟨written, scanned, failed, heard, cleaned, _, _⟩ :=
    accounts_deeds plain made storage actions
  exact ⟨written, scanned, failed, heard, cleaned⟩

def lone : Bus where
  config := { base := "t", directory := "d", limit := 1 }
  retention := { limit := 1 }

def errands : List Action :=
  [.messages, .close, .start "d", .start "c", .listen .absent, .commit "", .start "b", .start "a",
    .listen (.failing "not again")]

/-- Two cleanings fail on a marker of `a`.  A listener hears of the first one and
takes offence; when the other fails, nobody listens. -/
def labour : List (Deed (Failing Nat Memory)) :=
  lone.deeds (Memory.serve.failing (.refusing "t/d/a.inflight")) ⟨2, {}⟩ errands

theorem labour_is_accounted_for :
    (Memory.serve.failing (Strike.refusing "t/d/a.inflight")).Plain ∧
      ofConfig lone.config = .ok lone ∧
      (lone.following ⟨2, {}⟩ labour).1.stats = ⟨4, 1, 3, 2⟩ ∧
      (lone.following ⟨2, {}⟩ labour).1.stats.markersWritten =
        .ofNat (labour.countP Deed.published) ∧
      (lone.following ⟨2, {}⟩ labour).1.stats.scans = .ofNat (labour.countP Deed.loaded) ∧
      (lone.following ⟨2, {}⟩ labour).1.stats.cleanupFailures =
        .ofNat (labour.flatMap Deed.raised).length ∧
      (∀ later deed earlier, labour = later ++ deed :: earlier →
        deed.heard = if Deed.installed earlier = .absent then [] else deed.raised) ∧
      ∃ cleaned : Nat,
        (lone.following ⟨2, {}⟩ labour).1.stats.instantsCleaned = .ofNat cleaned ∧
        cleaned + (lone.following ⟨2, {}⟩ labour).1.retained.length +
          (labour.flatMap Deed.dropped).length = labour.countP Deed.entered := by
  have within := (Strike.refusing_within "t/d/a.inflight").mono fun _ _ =>
    Fault.reported_of_removals
  have plain := Memory.plain_serve.failing within
  have made : ofConfig lone.config = .ok lone := if_pos (by decide +kernel)
  refine ⟨plain, made, by decide +kernel, ?_⟩
  unfold labour
  exact stats_account_for_past plain made ⟨2, {}⟩ errands

end Bus

end MarkerBus
