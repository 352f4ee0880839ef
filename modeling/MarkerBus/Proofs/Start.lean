import MarkerBus.Proofs.History
import MarkerBus.Proofs.View

namespace MarkerBus.Bus

open Storage MarkerDirectory

variable {π : Type} {bus : Bus} {instant other : Instant} {memory before after : Memory}
  {calls : List Call} {fault : Fault} {outcome : Outcome Answer} {message : Message}

/-- The marker of the start stands, the bus tracks the instant, and a view that
is loaded without a failure shows it. -/
def Keeps (bus : Bus) (memory : Memory) (instant : Instant) : Prop :=
  Marker.name ⟨instant, .inflight⟩ ∈ memory.names bus.path ∧
    instant ∈ bus.retained ∧
    ∃ view, (bus.messages.run Memory.serve memory).value.result = .ok view ∧
      ∃ message ∈ view, message.instant = instant

theorem run_messages (bus : Bus) (memory : Memory) :
    (bus.messages.run Memory.serve memory).value.result =
      .ok (View.resolve (memory.markers bus.path)) := by
  obtain ⟨calls, performed⟩ := Script.performs_run Memory.serve Fault.none bus.messages memory
  obtain ⟨_, _, ⟨_, ⟨_, impossible⟩, _⟩ | loaded⟩ := performs_load Fault.reports_none performed
  · exact impossible.elim
  · rw [loaded]

theorem keeps_iff (valid : instant.Valid) : bus.Keeps memory instant ↔
    ⟨instant, .inflight⟩ ∈ memory.markers bus.path ∧ instant ∈ bus.retained := by
  unfold Keeps
  rw [run_messages, Memory.mem_markers_iff]
  constructor
  · intro given
    obtain ⟨written, tracked, _⟩ := given
    exact ⟨⟨valid, written⟩, tracked⟩
  · intro given
    obtain ⟨⟨_, written⟩, tracked⟩ := given
    obtain ⟨held, shown, same, _⟩ :=
      View.exists_mem_resolve (Memory.mem_markers_iff.mpr ⟨valid, written⟩)
    exact ⟨written, tracked, _, rfl, held, shown, same⟩

theorem Acts.of_started (acts : Acts fault bus before (.start instant) calls outcome after)
    (answered : outcome.result = .ok .nothing) :
    ∃ creation written cleaned cleaning, instant.Valid ∧
      calls = ⟨.create (file bus.path ⟨instant, .inflight⟩), false⟩ :: cleaned ∧
      outcome.bus = (bus.tracking instant).settle cleaning ∧
      before.create (file bus.path ⟨instant, .inflight⟩) = (.ok creation, written) ∧
      Performs Memory.serve fault
        (Retention.drain bus.path bus.retention.limit (bus.retention.track instant).queue)
        written cleaned cleaning after ∧
      Retention.Drains fault bus.path bus.retention.limit (bus.retention.track instant).queue
        cleaned cleaning := by
  cases acts with
  | @published act _ _ _ _ publishes finished =>
      cases act with
      | start => exact absurd rfl finished
      | commit | abort => cases publishes
  | started valid created performed drains =>
      exact ⟨_, _, _, _, valid, rfl, rfl, created, performed, drains⟩
  | unread | refused | unpublished => cases answered

/-- After a start, the messages on record are those from before and the one
that it wrote, less those whose markers the cleaning removed. -/
theorem Acts.mem_markers_of_started (wellFormed : bus.WellFormed) (formed : before.WellFormed)
    (acts : Acts fault bus before (.start instant) calls outcome after)
    (answered : outcome.result = .ok .nothing) :
    message ∈ after.markers bus.path ↔
      (message = ⟨instant, .inflight⟩ ∨ message ∈ before.markers bus.path) ∧
        ⟨.remove (file bus.path message), false⟩ ∉ calls := by
  obtain ⟨creation, written, cleaned, cleaning, valid, rfl, _, created, performed, drains⟩ :=
    acts.of_started answered
  have named : ∀ other ∈ (bus.retention.track instant).queue, other.Valid :=
    (wellFormed.tracking valid).named
  rw [drains.mem_markers performed (formed.create created) wellFormed.path_ne_empty named,
    Memory.mem_markers_create wellFormed.path_ne_empty valid created]
  simp

/-- A start removes markers of instants that overhang the limit, and of no other. -/
theorem Acts.overhang_of_started (wellFormed : bus.WellFormed)
    (acts : Acts fault bus before (.start instant) calls outcome after)
    (answered : outcome.result = .ok .nothing) (named : message.instant.Valid) {failed : Bool}
    (made : ⟨.remove (file bus.path message), failed⟩ ∈ calls) :
    message.instant ∈ (bus.retention.track instant).overhang := by
  obtain ⟨_, _, cleaned, cleaning, valid, rfl, _, _, _, drains⟩ := acts.of_started answered
  have swept : ⟨.remove (file bus.path message), failed⟩ ∈ cleaned := by simpa using made
  obtain ⟨other, exceeds, removal⟩ := drains.touches swept
  obtain ⟨phase, same⟩ := mem_removals.mp removal
  have otherNamed := (wellFormed.tracking valid).named other (List.mem_of_mem_take exceeds)
  have here : message = ⟨other, phase⟩ :=
    file_injective wellFormed.path_ne_empty named otherNamed (by simpa using same)
  rw [here]
  simpa [Retention.overhang] using exceeds

theorem Acts.suffix_of_started (acts : Acts fault bus before (.start instant) calls outcome after)
    (answered : outcome.result = .ok .nothing) :
    outcome.bus.retained <:+ (bus.retention.track instant).queue := by
  obtain ⟨_, _, _, cleaning, _, _, settled, _, _, drains⟩ := acts.of_started answered
  obtain ⟨freed, split, _⟩ := drains.split
  rw [settled]
  exact ⟨freed, split.symm⟩

theorem Acts.removed_of_started (acts : Acts fault bus before (.start instant) calls outcome after)
    (answered : outcome.result = .ok .nothing)
    (tracked : message.instant = instant ∨ message.instant ∈ bus.retained)
    (left : message.instant ∉ outcome.bus.retained) :
    ⟨.remove (file bus.path message), false⟩ ∈ calls := by
  obtain ⟨_, _, cleaned, cleaning, _, rfl, settled, _, _, drains⟩ := acts.of_started answered
  rw [settled] at left
  exact List.mem_cons_of_mem _
    (drains.removed_of_notMem (Retention.mem_track.mpr tracked) left)

theorem Acts.failed_of_started (wellFormed : bus.WellFormed)
    (acts : Acts fault bus before (.start instant) calls outcome after)
    (answered : outcome.result = .ok .nothing) (named : message.instant.Valid)
    (removed : ⟨.remove (file bus.path message), false⟩ ∈ calls)
    (stays : message.instant ∈ outcome.bus.retained) :
    ∃ phase, ⟨.remove (file bus.path ⟨message.instant, phase⟩), true⟩ ∈ calls := by
  obtain ⟨_, _, cleaned, cleaning, valid, rfl, settled, _, _, drains⟩ := acts.of_started answered
  have tracked := wellFormed.tracking valid
  rw [settled] at stays
  obtain ⟨phase, failed⟩ := drains.failed_of_removed wellFormed.path_ne_empty tracked.distinct
    tracked.named named (by simpa using removed) stays
  exact ⟨phase, List.mem_cons_of_mem _ failed⟩

variable (wellFormed : bus.WellFormed) (formed : before.WellFormed)
  (acts : Acts fault bus before (.start instant) calls outcome after)
  (answered : outcome.result = .ok .nothing)

include wellFormed formed acts answered

theorem keeps_iff_of_started : outcome.bus.Keeps after instant ↔
    ⟨.remove (file bus.path ⟨instant, .inflight⟩), false⟩ ∉ calls := by
  obtain ⟨_, _, _, _, valid, _⟩ := acts.of_started answered
  have samePath : outcome.bus.path = bus.path := congrArg Config.path acts.config
  rw [keeps_iff valid, samePath, acts.mem_markers_of_started wellFormed formed answered]
  constructor
  · intro given
    obtain ⟨⟨_, untouched⟩, _⟩ := given
    exact untouched
  · intro untouched
    refine ⟨⟨.inl rfl, untouched⟩, ?_⟩
    by_contra left
    have removed : ⟨.remove (file bus.path ⟨instant, .inflight⟩), false⟩ ∈ calls :=
      acts.removed_of_started answered (.inl rfl) left
    exact untouched removed

theorem keeps_of_not_overhang (within : instant ∉ bus.retention.overhang) :
    outcome.bus.Keeps after instant := by
  obtain ⟨_, _, _, _, valid, _⟩ := acts.of_started answered
  apply (keeps_iff_of_started wellFormed formed acts answered).mpr
  intro removed
  apply within
  have limit : 1 ≤ bus.retention.limit := wellFormed.limit ▸ wellFormed.valid.2.2.1
  have exceeds : (⟨instant, .inflight⟩ : Message).instant ∈
      (bus.retention.track instant).overhang :=
    acts.overhang_of_started wellFormed answered valid removed
  exact (Retention.mem_overhang_track limit).mp exceeds

theorem lost_of_overhang (exceeds : instant ∈ bus.retention.overhang)
    (unhindered : ∀ file, ⟨.remove file, true⟩ ∉ calls) :
    instant ∉ outcome.bus.retained ∧
      ∀ message ∈ after.markers bus.path, message.instant ≠ instant := by
  obtain ⟨_, _, cleaned, cleaning, valid, split, settled, _, _, drains⟩ := acts.of_started answered
  have limit : 1 ≤ bus.retention.limit := wellFormed.limit ▸ wellFormed.valid.2.2.1
  have head : instant ∈ (bus.retention.track instant).overhang :=
    (Retention.mem_overhang_track limit).mpr exceeds
  have left : instant ∉ outcome.bus.retained := by
    rw [settled]
    rcases drains.length_le_or_failed with enough | ⟨file, failed⟩
    · apply drains.notMem_of_length_le (wellFormed.tracking valid).distinct enough
      simpa [Retention.overhang] using head
    · exact absurd (split ▸ List.mem_cons_of_mem _ failed) (unhindered file)
  refine ⟨left, ?_⟩
  intro message shown about
  subst about
  rw [acts.mem_markers_of_started wellFormed formed answered] at shown
  exact shown.2 (acts.removed_of_started answered (.inl rfl) left)

end MarkerBus.Bus

namespace MarkerBus

open Storage

variable {π : Type} {fault : Fault} {start : Moment (Failing π Memory)}
  {past : List (Step (Failing π Memory))} {step : Step (Failing π Memory)} {instant : Instant}

def Moment.Settled (moment : Moment (Failing π Memory)) : Prop :=
  ∀ name bus, moment.fleet.bus? name = some bus → bus.retention.overhang = []

def Step.Unhindered (step : Step (Failing π Memory)) : Prop :=
  ∀ file, ⟨.remove file, true⟩ ∉ step.calls

theorem Bus.Acts.overhang_eq_nil {bus : Bus} {before after : Memory} {action : Action}
    {calls : List Call} {outcome : Bus.Outcome Answer}
    (acts : Bus.Acts fault bus before action calls outcome after)
    (settled : bus.retention.overhang = []) (unhindered : ∀ file, ⟨.remove file, true⟩ ∉ calls) :
    outcome.bus.retention.overhang = [] := by
  cases acts with
  | listened | asked | bootstrapped | notBootstrapped | messages | pending | unread | published
  | refused | unpublished => exact settled
  | closed => exact List.take_nil
  | started valid created performed drains =>
      rcases drains.length_le_or_failed with enough | ⟨file, failed⟩
      · simp only [Bus.settle, Bus.tracking, Retention.overhang, Retention.limit_track,
          Nat.sub_eq_zero_of_le enough, List.take_zero]
      · exact absurd (List.mem_cons_of_mem _ failed) (unhindered file)

/-- Only a removal that failed leaves a bus with too many instants. -/
theorem Trace.settled (trace : Trace fault start past) (settled : start.Settled)
    (unhindered : ∀ step ∈ past, step.Unhindered) : (start.following past).Settled := by
  induction trace with
  | start => exact settled
  | @step step past earlier follows wellFormed acts ih =>
      have before := ih fun step member => unhindered step (List.mem_cons_of_mem _ member)
      rw [← follows] at before
      intro name bus held
      rcases acts.bus?_cases held with
        kept | ⟨config, _, made⟩ | ⟨old, outcome, _, present, _, rfl, _, acts⟩
      · exact before name bus kept
      · have fresh : bus.retained = [] := (Bus.WellFormed.of_config made).2.2.1
        simp only [Bus.retained] at fresh
        simp [Retention.overhang, fresh]
      · exact acts.overhang_eq_nil (before _ old present) (unhindered step List.mem_cons_self)

/-- A start that answers keeps its instant, unless the instant was tracked
before, an earlier failure left it beyond the limit, and the cleaning of this
very start reaches it.  Then the start removes the marker that it has written. -/
theorem Moment.start_keeps_iff {strike : Strike π} (reported : strike.Within Fault.reported)
    (wellFormed : start.WellFormed) {actions : List (String × Action)}
    (ran : start.history (Memory.serve.failing strike) actions = step :: past)
    (started : step.action = .start instant) (answered : step.answer? = some (.ok .nothing)) :
    ∃ bus later, step.before.fleet.bus? step.name = some bus ∧
      step.after.fleet.bus? step.name = some later ∧
      (later.Keeps step.after.memory instant ↔
        ⟨.remove (MarkerDirectory.file bus.path ⟨instant, .inflight⟩), false⟩ ∉ step.calls) ∧
      (instant ∉ bus.retention.overhang → later.Keeps step.after.memory instant) ∧
      (instant ∈ bus.retention.overhang → step.Unhindered →
        instant ∉ later.retained ∧
          ∀ message ∈ step.after.memory.markers bus.path, message.instant ≠ instant) ∧
      (start.Settled → (∀ earlier ∈ past, earlier.Unhindered) →
        later.Keeps step.after.memory instant) := by
  have trace := start.trace_history Fault.reports_reported reported wellFormed actions
  rw [ran] at trace
  cases trace with
  | step earlier follows formed acts =>
      unfold Step.Acts at acts
      rw [started] at acts
      obtain ⟨bus, held⟩ := acts.held_of_answered rfl (by simp [answered])
      obtain ⟨made, outcome, found, same, acts⟩ := acts.of_held rfl held
      have result : outcome.result = .ok .nothing := Option.some.inj (same.symm.trans answered)
      have within := Bus.keeps_of_not_overhang made formed.2 acts result
      refine ⟨bus, outcome.bus, held, found, Bus.keeps_iff_of_started made formed.2 acts result, within,
        Bus.lost_of_overhang made formed.2 acts result, ?_⟩
      intro settled unhindered
      have tidy := earlier.settled settled unhindered
      rw [← follows] at tidy
      exact within (by simp [tidy _ bus held])

/-- The markers of `a` cannot all be deleted when `b` is started; then `a` is
started again. -/
def Moment.restart : List (Step (Failing Nat Memory)) :=
  let config : Bus.Config := { base := "t", directory := "d", limit := 1 }
  let start : Moment (Failing Nat Memory) := ⟨{}, ⟨1, {}⟩⟩
  start.history (Memory.serve.failing (.refusing "t/d/a.inflight"))
    [("w", .start "a"), ("w", .start "b"), ("w", .start "a"), ("w", .bootstrap),
      ("w", .construct config)]

theorem Moment.restart_loses_instant : ∃ step past later, restart = step :: past ∧
    step.action = .start "a" ∧ step.answer? = some (.ok .nothing) ∧
    step.after.fleet.bus? "w" = some later ∧ ¬ later.Keeps step.after.memory "a" := by
  have within := (Strike.refusing_within "t/d/a.inflight").mono fun _ _ =>
    Fault.reported_of_removals
  obtain ⟨step, past, ran⟩ : ∃ step past, restart = step :: past := ⟨_, _, rfl⟩
  have started : step.action = .start "a" := by
    cases ran
    rfl
  have answered : step.answer? = some (.ok .nothing) := by
    cases ran
    decide +kernel
  have formed : Moment.WellFormed (⟨{}, ⟨1, {}⟩⟩ : Moment (Failing Nat Memory)) :=
    ⟨Fleet.wellFormed_empty, Memory.wellFormed_empty⟩
  obtain ⟨bus, later, held, found, kept, _⟩ := start_keeps_iff within formed ran started answered
  refine ⟨step, past, later, ran, started, answered, ?_, ?_⟩
  · cases ran
    exact found
  · rw [kept, not_not]
    cases ran
    cases held
    decide +kernel

end MarkerBus
