import MarkerBus.Bus.Basic
import MarkerBus.Fleet
import MarkerBus.Proofs.Retention

namespace MarkerBus

open Storage

variable {fault : Fault} {before after : Memory} {calls : List Call}

def Bus.Act.action : Act → Instant → Action
  | .start => .start
  | .commit => .commit
  | .abort => .abort

theorem Bus.Act.action_injective {left right : Act} {instant other : Instant}
    (same : left.action instant = right.action other) : left = right ∧ instant = other := by
  cases left <;> cases right <;> cases same <;> exact ⟨rfl, rfl⟩

/-- Is the action one that a bus carries out, and that needs it to stay? -/
def Action.ordinary : Action → Bool
  | .construct _ | .destroy => false
  | _ => true

def Action.publishes : Action → Bool
  | .start _ | .commit _ | .abort _ => true
  | _ => false

theorem Bus.Act.ordinary_action (act : Act) (instant : Instant) :
    (act.action instant).ordinary := by
  cases act <;> rfl

namespace Bus

open MarkerDirectory

/-- A bus that was made from a valid configuration and tracks what it started. -/
structure WellFormed (bus : Bus) : Prop where
  valid : bus.config.Valid
  limit : bus.retention.limit = bus.config.limit
  distinct : bus.retained.Nodup
  named : ∀ instant ∈ bus.retained, instant.Valid

theorem Config.Valid.path_ne_empty {config : Config} (valid : config.Valid) :
    config.path ≠ "" := by
  intro empty
  have list : config.path.toList = [] := by simp [empty]
  simp only [Config.path, String.toList_append, List.append_eq_nil_iff] at list
  exact valid.2.1 (String.toList_eq_nil_iff.mp list.1.2)

theorem WellFormed.path_ne_empty {bus : Bus} (wellFormed : bus.WellFormed) : bus.path ≠ "" :=
  wellFormed.valid.path_ne_empty

def loaded (bus : Bus) (view : View) : Bus :=
  { bus with view? := some view, stats := { bus.stats with scans := bus.stats.scans + 1 } }

/-- The bus after a cleaning that the storage let end or stop. -/
def settle (bus : Bus) (cleaning : Retention.Cleaning) : Bus :=
  let failures := match cleaning.outcome with
    | .ok (some _) => bus.stats.cleanupFailures + 1
    | _ => bus.stats.cleanupFailures
  { bus with
    retention := { bus.retention with queue := cleaning.queue }
    stats := { bus.stats with
      instantsCleaned := bus.stats.instantsCleaned + .ofNat cleaning.cleaned
      cleanupFailures := failures } }

def tracking (bus : Bus) (instant : Instant) : Bus :=
  { bus.countMarker with retention := bus.retention.track instant }

/-- All that an action can do, when the storage knows the reason of every failure. -/
inductive Acts (fault : Fault) (bus : Bus) (before : Memory) :
    Action → List Call → Outcome Answer → Memory → Prop where
  | listened {listener : Listener} :
      Acts fault bus before (.listen listener) [] ⟨.ok .nothing, { bus with listener }⟩ before
  | closed : Acts fault bus before .close [] ⟨.ok .nothing, bus.close⟩ before
  | asked {instant : Instant} :
      Acts fault bus before (.isAborted instant) []
        ⟨(bus.isAborted instant).map .flag, bus⟩ before
  | bootstrapped :
      Acts fault bus before .bootstrap [⟨.reset bus.path, false⟩] ⟨.ok .nothing, bus⟩
        (before.reset bus.path)
  | notBootstrapped {failure : Failure} (allowed : fault (.reset bus.path) failure) :
      Acts fault bus before .bootstrap [⟨.reset bus.path, true⟩]
        ⟨.error (.storage failure), bus⟩ before
  | messages {calls : List Call}
      (reads : ∀ call ∈ calls, call.request = .probe bus.path ∨ call.request = .list bus.path) :
      Acts fault bus before .messages calls
        ⟨.ok (.messages (View.resolve (before.markers bus.path))),
          bus.loaded (View.resolve (before.markers bus.path))⟩ before
  | pending {calls : List Call}
      (reads : ∀ call ∈ calls, call.request = .probe bus.path ∨ call.request = .list bus.path) :
      Acts fault bus before .pending calls
        ⟨.ok (.pending (View.resolve (before.markers bus.path)).pending?),
          bus.loaded (View.resolve (before.markers bus.path))⟩ before
  | unread {action : Action} {calls : List Call} {report : Report}
      (loads : action = .messages ∨ action = .pending)
      (reads : ∀ call ∈ calls, call.request = .probe bus.path ∨ call.request = .list bus.path)
      (allowed : ∃ request, fault request (.reported report)) :
      Acts fault bus before action calls ⟨.error (.scanning bus.path report), bus⟩ before
  | published {act : Act} {action : Action} {instant : Instant} {creation : Creation}
      {after : Memory} (publishes : action = act.action instant) (finished : act ≠ .start)
      (valid : instant.Valid)
      (created : before.create (file bus.path ⟨instant, act.phase⟩) = (.ok creation, after)) :
      Acts fault bus before action [⟨.create (file bus.path ⟨instant, act.phase⟩), false⟩]
        ⟨.ok .nothing, bus.countMarker⟩ after
  | started {instant : Instant} {creation : Creation} {written after : Memory}
      {calls : List Call} {cleaning : Retention.Cleaning} (valid : instant.Valid)
      (created : before.create (file bus.path ⟨instant, .inflight⟩) = (.ok creation, written))
      (performed : Performs Memory.serve fault
        (Retention.drain bus.path bus.retention.limit (bus.retention.track instant).queue)
        written calls cleaning after)
      (drains : Retention.Drains fault bus.path bus.retention.limit
        (bus.retention.track instant).queue calls cleaning) :
      Acts fault bus before (.start instant)
        (⟨.create (file bus.path ⟨instant, .inflight⟩), false⟩ :: calls)
        ⟨.ok .nothing, (bus.tracking instant).settle cleaning⟩ after
  | refused {act : Act} {action : Action} {instant : Instant} {defect : Instant.Defect}
      (publishes : action = act.action instant) (invalid : instant.validate = .error defect) :
      Acts fault bus before action [] ⟨.error (.invalidInstant defect), bus⟩ before
  | unpublished {act : Act} {action : Action} {instant : Instant} {report : Report}
      (publishes : action = act.action instant) (valid : instant.Valid)
      (cause : fault (.create (file bus.path ⟨instant, act.phase⟩)) (.reported report) ∨
        before.create (file bus.path ⟨instant, act.phase⟩) =
          (.error (.reported report), before)) :
      Acts fault bus before action [⟨.create (file bus.path ⟨instant, act.phase⟩), true⟩]
        ⟨.error (.publishing act instant report), bus⟩ before

variable {bus : Bus} {act : Act} {instant : Instant}

inductive Publishes (fault : Fault) (bus : Bus) (act : Act) (instant : Instant)
    (before : Memory) : List Call → Outcome Unit → Memory → Prop where
  | refused {defect : Instant.Defect} (invalid : instant.validate = .error defect) :
      Publishes fault bus act instant before [] ⟨.error (.invalidInstant defect), bus⟩ before
  | failed {report : Report} (valid : instant.Valid)
      (cause : fault (.create (file bus.path ⟨instant, act.phase⟩)) (.reported report) ∨
        before.create (file bus.path ⟨instant, act.phase⟩) =
          (.error (.reported report), before)) :
      Publishes fault bus act instant before
        [⟨.create (file bus.path ⟨instant, act.phase⟩), true⟩]
        ⟨.error (.publishing act instant report), bus⟩ before
  | written {creation : Creation} {after : Memory} (valid : instant.Valid)
      (created : before.create (file bus.path ⟨instant, act.phase⟩) = (.ok creation, after)) :
      Publishes fault bus act instant before
        [⟨.create (file bus.path ⟨instant, act.phase⟩), false⟩] ⟨.ok (), bus.countMarker⟩ after

theorem publishes {outcome : Outcome Unit} (reports : fault.Reports)
    (performed : Performs Memory.serve fault (bus.publish act instant)
      before calls outcome after) :
    Publishes fault bus act instant before calls outcome after := by
  simp only [publish] at performed
  obtain ⟨first, answer, middle, second, appended, rest, rfl⟩ := performed.of_bind
  cases MarkerDirectory.appends reports appended with
  | invalid refused =>
      obtain ⟨rfl, rfl, rfl⟩ := rest.of_pure
      exact .refused refused
  | failed valid cause =>
      obtain ⟨rfl, rfl, rfl⟩ := rest.of_log.of_pure
      exact .failed valid cause
  | written valid created =>
      obtain ⟨rfl, rfl, rfl⟩ := rest.of_log.of_pure
      exact .written valid created

theorem performs_notify {listener : Listener} {warning : CleanupWarning} {answer : Unit}
    (performed : Performs Memory.serve fault (notify listener warning)
      before calls answer after) : calls = [] ∧ before = after := by
  cases listener with
  | absent =>
      obtain ⟨rfl, _, rfl⟩ := performed.of_pure
      exact ⟨rfl, rfl⟩
  | attentive =>
      cases performed with
      | tell told =>
          cases told
          exact ⟨rfl, rfl⟩
  | failing reason =>
      obtain ⟨first, answer, middle, second, warned, logged, rfl⟩ := performed.of_bind
      cases warned with
      | tell told =>
          cases told
          cases logged with
          | tell told =>
              cases told
              exact ⟨rfl, rfl⟩

theorem performs_clean {outcome : Outcome Unit} (reports : fault.Reports)
    (named : ∀ instant ∈ bus.retained, instant.Valid)
    (performed : Performs Memory.serve fault bus.clean before calls outcome after) :
    ∃ cleaning, outcome = ⟨.ok (), bus.settle cleaning⟩ ∧
      Performs Memory.serve fault
        (Retention.drain bus.path bus.retention.limit bus.retention.queue)
        before calls cleaning after ∧
      Retention.Drains fault bus.path bus.retention.limit bus.retention.queue calls cleaning := by
  simp only [clean, Retention.clean] at performed
  obtain ⟨first, ⟨cleaning, retention⟩, middle, second, cleaned, rest, rfl⟩ := performed.of_bind
  obtain ⟨found, drained, same⟩ := cleaned.of_bind_pure
  cases same
  have drains := Retention.performs_drain reports named drained
  have settled : second = [] ∧ middle = after ∧ outcome = ⟨.ok (), bus.settle cleaning⟩ := by
    cases drains with
    | finished =>
        obtain ⟨rfl, rfl, rfl⟩ := rest.of_pure
        exact ⟨rfl, rfl, rfl⟩
    | stuck =>
        obtain ⟨told, answer, last, fourth, notified, tail, rfl⟩ := rest.of_log.of_bind
        obtain ⟨rfl, rfl⟩ := performs_notify notified
        obtain ⟨rfl, rfl, rfl⟩ := tail.of_pure
        exact ⟨rfl, rfl, rfl⟩
  obtain ⟨rfl, rfl, rfl⟩ := settled
  rw [List.append_nil]
  exact ⟨cleaning, rfl, drained, drains⟩

theorem performs_load {outcome : Outcome View} (reports : fault.Reports)
    (performed : Performs Memory.serve fault bus.load before calls outcome after) :
    before = after ∧
      (∀ call ∈ calls, call.request = .probe bus.path ∨ call.request = .list bus.path) ∧
      ((∃ report, (∃ request, fault request (.reported report)) ∧
          outcome = ⟨.error (.scanning bus.path report), bus⟩) ∨
        outcome = ⟨.ok (View.resolve (before.markers bus.path)),
          bus.loaded (View.resolve (before.markers bus.path))⟩) := by
  simp only [load] at performed
  obtain ⟨first, answer, middle, second, scanned, rest, rfl⟩ := performed.of_bind
  obtain ⟨rfl, reads, ⟨request, failure, allowed, rfl⟩ | rfl⟩ :=
    MarkerDirectory.performs_scan scanned
  · obtain ⟨report, rfl⟩ := reports _ _ allowed
    obtain ⟨rfl, rfl, rfl⟩ := rest.of_log.of_pure
    exact ⟨rfl, by simpa using reads, .inl ⟨report, ⟨request, allowed⟩, rfl⟩⟩
  · obtain ⟨rfl, rfl, rfl⟩ := rest.of_pure
    exact ⟨rfl, by simpa using reads, .inr rfl⟩

theorem mem_retained_tracking {other : Instant} :
    other ∈ (bus.tracking instant).retained ↔ other = instant ∨ other ∈ bus.retained :=
  Retention.mem_track

theorem acts_of_publishes (act : Act) {action : Action} {outcome : Outcome Unit}
    (publishes : action = act.action instant) (finished : act ≠ .start)
    (published : Publishes fault bus act instant before calls outcome after) :
    Acts fault bus before action calls
      ⟨outcome.result.map fun () => .nothing, outcome.bus⟩ after := by
  cases published with
  | refused invalid => exact .refused publishes invalid
  | failed valid cause => exact .unpublished publishes valid cause
  | written valid created => exact .published publishes finished valid created

theorem acts_of_start {outcome : Outcome Unit} (reports : fault.Reports)
    (wellFormed : bus.WellFormed)
    (performed : Performs Memory.serve fault (bus.start instant) before calls outcome after) :
    Acts fault bus before (.start instant) calls
      ⟨outcome.result.map fun () => .nothing, outcome.bus⟩ after := by
  simp only [start] at performed
  obtain ⟨first, published, middle, second, wrote, rest, rfl⟩ := performed.of_bind
  have publishes : Action.start instant = Act.start.action instant := rfl
  cases Bus.publishes reports wrote with
  | refused invalid =>
      obtain ⟨rfl, rfl, rfl⟩ := rest.of_pure
      exact .refused publishes invalid
  | failed valid cause =>
      obtain ⟨rfl, rfl, rfl⟩ := rest.of_pure
      exact .unpublished publishes valid cause
  | written valid created =>
      have named : ∀ other ∈ (bus.tracking instant).retained, other.Valid := by
        intro other member
        rcases mem_retained_tracking.mp member with rfl | tracked
        · exact valid
        · exact wellFormed.named other tracked
      obtain ⟨cleaning, rfl, drained, drains⟩ :=
        performs_clean reports named rest
      rw [show (bus.tracking instant).retention.limit = bus.retention.limit from
        bus.retention.limit_track] at drained drains
      exact .started valid created drained drains

theorem acts {action : Action} {outcome : Outcome Answer} (reports : fault.Reports)
    (wellFormed : bus.WellFormed) (ordinary : action.ordinary)
    (performed : Performs Memory.serve fault (Fleet.actOn bus action)
      before calls outcome after) :
    Acts fault bus before action calls outcome after := by
  cases action with
  | construct config => cases ordinary
  | destroy => cases ordinary
  | listen listener =>
      obtain ⟨rfl, rfl, rfl⟩ := performed.of_pure
      exact .listened
  | close =>
      obtain ⟨rfl, rfl, rfl⟩ := performed.of_pure
      exact .closed
  | isAborted instant =>
      obtain ⟨rfl, rfl, rfl⟩ := performed.of_pure
      exact .asked
  | bootstrap =>
      obtain ⟨emptied, bootstrapped, rfl⟩ := performed.of_bind_pure
      obtain ⟨_, answer, _, _, reset, rest, rfl⟩ := bootstrapped.of_bind
      rcases performs_reset reset with ⟨failure, allowed, rfl, rfl, rfl⟩ | ⟨rfl, rfl, rfl⟩
      · obtain ⟨report, rfl⟩ := reports _ _ allowed
        obtain ⟨rfl, rfl, rfl⟩ := rest.of_log.of_pure
        exact .notBootstrapped allowed
      · obtain ⟨rfl, rfl, rfl⟩ := rest.of_log.of_pure
        exact .bootstrapped
  | start instant =>
      obtain ⟨answer, started, rfl⟩ := performed.of_bind_pure
      exact acts_of_start reports wellFormed started
  | commit instant =>
      obtain ⟨answer, committed, rfl⟩ := performed.of_bind_pure
      exact acts_of_publishes .commit rfl (by decide) (publishes reports committed)
  | abort instant =>
      obtain ⟨answer, aborted, rfl⟩ := performed.of_bind_pure
      exact acts_of_publishes .abort rfl (by decide) (publishes reports aborted)
  | messages =>
      obtain ⟨found, loaded, rfl⟩ := performed.of_bind_pure
      obtain ⟨rfl, reads, ⟨report, allowed, rfl⟩ | rfl⟩ := performs_load reports loaded
      · exact .unread (.inl rfl) reads allowed
      · exact .messages reads
  | pending =>
      obtain ⟨found, asked, rfl⟩ := performed.of_bind_pure
      obtain ⟨view, loaded, rfl⟩ := asked.of_bind_pure
      obtain ⟨rfl, reads, ⟨report, allowed, rfl⟩ | rfl⟩ := performs_load reports loaded
      · exact .unread (.inr rfl) reads allowed
      · exact .pending reads

variable {action : Action} {outcome : Outcome Answer}

theorem WellFormed.of_config {config : Config} (made : ofConfig config = .ok bus) :
    bus.WellFormed ∧ bus.config = config ∧ bus.retained = [] ∧ bus.view? = none := by
  unfold ofConfig at made
  split at made
  · rename_i valid
    cases made
    exact ⟨⟨valid, rfl, .nil, by simp [retained]⟩, rfl, rfl, rfl⟩
  · cases made

theorem WellFormed.tracking (wellFormed : bus.WellFormed) (valid : instant.Valid) :
    (bus.tracking instant).WellFormed where
  valid := wellFormed.valid
  limit := bus.retention.limit_track.trans wellFormed.limit
  distinct := Retention.nodup_track wellFormed.distinct
  named := by
    intro other member
    rcases mem_retained_tracking.mp member with rfl | tracked
    · exact valid
    · exact wellFormed.named other tracked

theorem WellFormed.settle (wellFormed : bus.WellFormed) {path : String} {limit : Nat}
    {cleaning : Retention.Cleaning}
    (drains : Retention.Drains fault path limit bus.retained calls cleaning) :
    (bus.settle cleaning).WellFormed := by
  obtain ⟨freed, split, _⟩ := drains.split
  have kept : cleaning.queue.Sublist bus.retained := by
    rw [split]
    exact List.sublist_append_right ..
  exact ⟨wellFormed.valid, wellFormed.limit, wellFormed.distinct.sublist kept,
    fun instant member => wellFormed.named instant (kept.subset member)⟩

theorem Acts.config (acts : Acts fault bus before action calls outcome after) :
    outcome.bus.config = bus.config := by
  cases acts <;> rfl

theorem Acts.wellFormed (acts : Acts fault bus before action calls outcome after)
    (wellFormed : bus.WellFormed) : outcome.bus.WellFormed := by
  cases acts with
  | listened | asked | bootstrapped | notBootstrapped | messages | pending | unread | published
  | refused | unpublished =>
      exact ⟨wellFormed.valid, wellFormed.limit, wellFormed.distinct, wellFormed.named⟩
  | closed =>
      exact ⟨wellFormed.valid, wellFormed.limit, .nil, by simp [close, retained, Retention.clear]⟩
  | started valid created performed drains => exact (wellFormed.tracking valid).settle drains

theorem Acts.memory_wellFormed (acts : Acts fault bus before action calls outcome after)
    (wellFormed : before.WellFormed) : after.WellFormed := by
  cases acts with
  | listened | closed | asked | notBootstrapped | messages | pending | unread | refused
  | unpublished => exact wellFormed
  | bootstrapped => exact wellFormed.reset
  | published publishes finished valid created => exact wellFormed.create created
  | started valid created performed drains =>
      exact performed.keeps (fun request memory kept => kept.serve request)
        (wellFormed.create created)

/-- A bus tracks nothing but what it has started. -/
theorem Acts.mem_retained (acts : Acts fault bus before action calls outcome after)
    {other : Instant} (tracked : other ∈ outcome.bus.retained) :
    other ∈ bus.retained ∨ action = .start other := by
  cases acts with
  | listened | asked | bootstrapped | notBootstrapped | messages | pending | unread | published
  | refused | unpublished => exact .inl tracked
  | closed => cases tracked
  | started _ _ _ drains =>
      obtain ⟨freed, split, _⟩ := drains.split
      have queued := split ▸ List.mem_append_right freed tracked
      rcases Retention.mem_track.mp queued with rfl | earlier
      · exact .inr rfl
      · exact .inl earlier

theorem Acts.of_finished (act : Act) (finished : act ≠ .start)
    (acts : Acts fault bus before (act.action instant) calls outcome after)
    (answered : outcome.result = .ok .nothing) (wellFormed : bus.WellFormed) :
    outcome.bus = bus.countMarker ∧ instant.Valid ∧
      ∀ message, message ∈ after.markers bus.path ↔
        message = ⟨instant, act.phase⟩ ∨ message ∈ before.markers bus.path := by
  generalize wanted : act.action instant = action at acts
  cases acts with
  | published publishes _ valid created =>
      obtain ⟨rfl, rfl⟩ := Act.action_injective (wanted.trans publishes)
      exact ⟨rfl, valid, fun message =>
        Memory.mem_markers_create wellFormed.path_ne_empty valid created⟩
  | started =>
      have same : act.action instant = Act.start.action _ := wanted
      exact absurd (Act.action_injective same).1 finished
  | unread | refused | unpublished | notBootstrapped => cases answered
  | listened | closed | asked | bootstrapped | messages | pending => cases act <;> cases wanted

/-- Where nothing fails, a bootstrap empties the directory. -/
theorem Acts.of_bootstrap (acts : Acts Fault.none bus before .bootstrap calls outcome after) :
    outcome = ⟨.ok .nothing, bus⟩ ∧ before.reset bus.path = after := by
  cases acts with
  | bootstrapped => exact ⟨rfl, rfl⟩
  | notBootstrapped impossible => exact impossible.elim
  | unread _ _ allowed => exact allowed.choose_spec.elim
  | @published act _ _ _ _ publishes | @refused act _ _ _ publishes
  | @unpublished act _ _ _ publishes => cases act <;> cases publishes

/-- What has been published has been created. -/
theorem Acts.created (acts : Acts fault bus before (act.action instant) calls outcome after)
    (answered : outcome.result = .ok .nothing) : ∃ creation written,
      before.create (file bus.path ⟨instant, act.phase⟩) = (.ok creation, written) := by
  generalize wanted : act.action instant = action at acts
  cases acts with
  | published publishes _ _ created =>
      obtain ⟨rfl, rfl⟩ := Act.action_injective (wanted.trans publishes)
      exact ⟨_, _, created⟩
  | @started other _ _ _ _ _ _ created =>
      have same : act.action instant = Act.start.action other := wanted
      obtain ⟨rfl, rfl⟩ := Act.action_injective same
      exact ⟨_, _, created⟩
  | unread | refused | unpublished | notBootstrapped => cases answered
  | listened | closed | asked | bootstrapped | messages | pending => cases act <;> cases wanted

theorem Acts.accessible (acts : Acts fault bus before action calls outcome after)
    (wellFormed : bus.WellFormed) (accessible : before.Accessible bus.path) :
    after.Accessible bus.path := by
  have nonempty := wellFormed.path_ne_empty
  cases acts with
  | listened | closed | asked | notBootstrapped | messages | pending | unread | refused
  | unpublished => exact accessible
  | bootstrapped => exact Memory.accessible_reset nonempty
  | @published act _ instant _ _ _ _ valid created =>
      have named : (⟨instant, act.phase⟩ : Message).instant.Valid := valid
      exact accessible.create nonempty named created
  | @started instant _ _ _ _ _ valid created performed drains =>
      have named : (⟨instant, .inflight⟩ : Message).instant.Valid := valid
      intro message validity known
      rw [Memory.known_of_removals performed fun _ => drains.removes] at known
      exact accessible.create nonempty named created message validity known

/-- Where nothing fails and no directory is in the way, valid instants are published. -/
theorem Acts.answers {act : Act}
    (acts : Acts Fault.none bus before (act.action instant) calls outcome after)
    (wellFormed : bus.WellFormed) (accessible : before.Accessible bus.path)
    (valid : instant.Valid) : outcome.result = .ok .nothing := by
  generalize wanted : act.action instant = action at acts
  cases acts with
  | published | started => rfl
  | @refused other _ instant _ publishes invalid =>
      obtain ⟨rfl, rfl⟩ := Act.action_injective (wanted.trans publishes)
      simp [Instant.validate_eq_ok_iff.mpr valid] at invalid
  | @unpublished other _ instant _ publishes named cause =>
      rcases cause with impossible | refused
      · exact impossible.elim
      · have validity : (⟨instant, other.phase⟩ : Message).instant.Valid := named
        obtain ⟨_, _, created⟩ := accessible.create_ok wellFormed.path_ne_empty validity
        rw [refused] at created
        cases created
  | unread _ _ allowed => exact allowed.choose_spec.elim
  | listened | closed | asked | bootstrapped | notBootstrapped | messages | pending =>
      cases act <;> cases wanted

end Bus

end MarkerBus
