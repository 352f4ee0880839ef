import MarkerBus.Proofs.Observation

namespace MarkerBus

open Storage MarkerDirectory

variable {π : Type} {fault : Fault} {start : Moment (Failing π Memory)}
  {past : List (Step (Failing π Memory))} {step : Step (Failing π Memory)}
  {coordinator : Coordinator} {instant : Instant}

namespace Coordinator

/-- Instants are started in their order, repetitions included, and only what has
been started is committed or aborted. -/
def Orderly {σ : Type} (coordinator : Coordinator) : List (Step σ) → Prop
  | [] => True
  | step :: past =>
      (∀ instant ∈ coordinator.published .start [step],
          ∀ last ∈ (coordinator.published .start past).head?, last ≤ instant) ∧
        (∀ instant ∈ coordinator.published .commit [step] ++ coordinator.published .abort [step],
          instant ∈ coordinator.published .start past) ∧
        coordinator.Orderly past

instance decidableOrderly {σ : Type} (coordinator : Coordinator) :
    (history : List (Step σ)) → Decidable (coordinator.Orderly history)
  | [] => isTrue trivial
  | _ :: past =>
      have := coordinator.decidableOrderly past
      inferInstanceAs (Decidable (_ ∧ _ ∧ coordinator.Orderly past))

/-- The instant that was started last, unless it has been committed. -/
def latestPending {σ : Type} (coordinator : Coordinator) (history : List (Step σ)) :
    Option Instant :=
  match (coordinator.published .start history).head? with
  | some last => if last ∈ coordinator.published .commit history then none else some last
  | none => none

theorem Orderly.le_head (orderly : coordinator.Orderly past) {last : Instant}
    (latest : (coordinator.published .start past).head? = some last)
    (member : instant ∈ coordinator.published .start past) : instant ≤ last := by
  induction past generalizing last with
  | nil => simp [published] at member
  | cons step past ih =>
      by_cases starts : ∃ newest, step.Did coordinator.name (.start newest)
      · obtain ⟨newest, did⟩ := starts
        rw [published_of_did .start did] at latest member
        cases latest
        rcases List.mem_cons.mp member with rfl | earlier
        · exact le_refl _
        · cases list : coordinator.published .start past with
          | nil => simp [list] at earlier
          | cons head rest =>
              have above := orderly.1 last (mem_published_singleton.mpr did) head (by simp [list])
              have below : instant ≤ head := ih orderly.2.2 (by simp [list]) earlier
              exact le_trans below above
      · have silent : ∀ newest, ¬ step.Did coordinator.name (Bus.Act.start.action newest) :=
          fun newest did => starts ⟨newest, did⟩
        rw [published_of_silent silent] at latest member
        exact ih orderly.2.2 latest member

/-- An instant that is started again, in order, is the latest one. -/
theorem Orderly.head?_of_restarted (orderly : coordinator.Orderly past)
    (above : ∀ last ∈ (coordinator.published .start past).head?, last ≤ instant)
    (again : instant ∈ coordinator.published .start past) :
    (coordinator.published .start past).head? = some instant := by
  cases latest : (coordinator.published .start past).head? with
  | none =>
      rw [List.head?_eq_none_iff.mp latest] at again
      cases again
  | some last =>
      exact congrArg some (le_antisymm (above last latest) (orderly.le_head latest again))

theorem Orderly.started_of_committed (orderly : coordinator.Orderly past)
    (committed : instant ∈ coordinator.published .commit past) :
    instant ∈ coordinator.published .start past := by
  induction past with
  | nil => simp [published] at committed
  | cons step past ih =>
      rw [published_cons] at committed ⊢
      apply List.mem_append_right _
      rcases List.mem_append.mp committed with now | before
      · exact orderly.2.1 instant (List.mem_append_left _ now)
      · exact ih orderly.2.2 before

/-- The queue ascends to the latest instant, if it holds any. -/
structure Lined (coordinator : Coordinator) (past : List (Step (Failing π Memory))) (bus : Bus) :
    Prop where
  ascending : bus.retained.Pairwise (· < ·)
  last : ∀ instant ∈ bus.retained.getLast?, instant ∈ (coordinator.published .start past).head?

/-- What is on record was started, and the latest instant is on record as it should be. -/
structure Marked (coordinator : Coordinator) (past : List (Step (Failing π Memory)))
    (markers : List Message) : Prop where
  known : ∀ message ∈ markers, message.instant ∈ coordinator.published .start past
  inflight : ∀ last ∈ (coordinator.published .start past).head?,
    (⟨last, .inflight⟩ : Message) ∈ markers
  completed : ∀ last ∈ (coordinator.published .start past).head?,
    (⟨last, .completed⟩ : Message) ∈ markers ↔ last ∈ coordinator.published .commit past

theorem le_getLast {queue : List Instant} (ascending : queue.Pairwise (· < ·)) {last other : Instant}
    (found : queue.getLast? = some last) (member : other ∈ queue) : other ≤ last := by
  obtain ⟨front, rfl⟩ := List.getLast?_eq_some_iff.mp found
  rcases List.mem_append.mp member with earlier | same
  · exact le_of_lt ((List.pairwise_append.mp ascending).2.2 other earlier last (by simp))
  · exact le_of_eq (List.mem_singleton.mp same)

theorem Lined.track {bus : Bus} (lined : coordinator.Lined past bus)
    (above : ∀ last ∈ (coordinator.published .start past).head?, last ≤ instant) :
    (bus.retention.track instant).queue.Pairwise (· < ·) ∧
      (bus.retention.track instant).queue.getLast? = some instant := by
  have below {other : Instant} (member : other ∈ bus.retained) : ∃ last,
      bus.retained.getLast? = some last ∧ other ≤ last ∧ last ≤ instant := by
    have found := List.getLast?_eq_some_getLast (List.ne_nil_of_mem member)
    generalize bus.retained.getLast _ = last at found
    exact ⟨last, found, le_getLast lined.ascending found member,
      above last (lined.last last found)⟩
  unfold Retention.track
  split
  · rename_i tracked
    obtain ⟨last, found, le, ge⟩ := below tracked
    exact ⟨lined.ascending, found.trans (congrArg some (le_antisymm ge le))⟩
  · rename_i fresh
    refine ⟨List.pairwise_append.mpr ⟨lined.ascending, List.pairwise_singleton .., ?_⟩, by simp⟩
    intro other member newest here
    rw [List.mem_singleton.mp here]
    obtain ⟨last, _, le, ge⟩ := below member
    exact lt_of_le_of_ne (le_trans le ge) fun same => fresh (same ▸ member)

variable {bus later : Bus}

theorem Lined.of_progress (lined : coordinator.Lined past bus)
    (orderly : coordinator.Orderly (step :: past))
    (progress : coordinator.Progress fault step bus later) :
    coordinator.Lined (step :: past) later := by
  cases progress with
  | quiet memory queue still silent =>
      have same : coordinator.published .start (step :: past) = coordinator.published .start past :=
        published_of_silent (silent .start)
      rcases queue with kept | gone
      · exact ⟨kept ▸ lined.ascending, by rw [kept, same]; exact lined.last⟩
      · exact ⟨by simp [gone], by simp [gone]⟩
  | bootstrapped did =>
      have silent : ∀ instant, ¬ step.Did coordinator.name (Bus.Act.start.action instant) :=
        fun instant other => by cases did.2.1.symm.trans other.2.1
      exact ⟨lined.ascending, by rw [published_of_silent silent]; exact lined.last⟩
  | finished finished did =>
      have silent : ∀ instant, ¬ step.Did coordinator.name (Bus.Act.start.action instant) :=
        fun instant other =>
          finished (Step.Did.unique did other).1
      exact ⟨lined.ascending, by rw [published_of_silent silent]; exact lined.last⟩
  | @started instant outcome did answered acted =>
      obtain ⟨ascending, last⟩ :=
        lined.track (orderly.1 instant (mem_published_singleton.mpr did))
      have suffix := acted.suffix_of_started answered
      refine ⟨ascending.sublist suffix.sublist, ?_⟩
      intro other found
      obtain ⟨freed, split⟩ := suffix
      rw [published_of_did .start did]
      rw [← split, List.getLast?_append, found] at last
      exact last.symm

/-- The markers of the instant that is started are out of the reach of the cleaning. -/
theorem Lined.mem_markers_of_started {before after : Memory} {calls : List Call}
    {outcome : Bus.Outcome Answer} {message : Message} (lined : coordinator.Lined past bus)
    (above : ∀ last ∈ (coordinator.published .start past).head?, last ≤ instant)
    (wellFormed : bus.WellFormed) (formed : before.WellFormed)
    (acted : Bus.Acts fault bus before (.start instant) calls outcome after)
    (answered : outcome.result = .ok .nothing) (about : message.instant = instant) :
    message ∈ after.markers bus.path ↔
      message = ⟨instant, .inflight⟩ ∨ message ∈ before.markers bus.path := by
  subst about
  obtain ⟨_, _, _, _, valid, _⟩ := acted.of_started answered
  have tracked := wellFormed.tracking valid
  have limit : 1 ≤ (bus.retention.track message.instant).limit :=
    tracked.limit ▸ tracked.valid.2.2.1
  have out := Retention.getLast?_notMem_overhang tracked.distinct limit (lined.track above).2
  rw [acted.mem_markers_of_started wellFormed formed answered]
  refine ⟨And.left, fun recorded => ⟨recorded, fun removed => out ?_⟩⟩
  exact acted.overhang_of_started wellFormed answered valid removed

theorem Marked.of_finished {act : Bus.Act} {before after : List Message}
    (marked : coordinator.Marked past before) (orderly : coordinator.Orderly (step :: past))
    (finished : act ≠ .start) (did : step.Did coordinator.name (act.action instant))
    (recorded : ∀ message, message ∈ after ↔ message = ⟨instant, act.phase⟩ ∨ message ∈ before) :
    coordinator.Marked (step :: past) after := by
  have silent {other : Bus.Act} (differs : act ≠ other) :
      coordinator.published other (step :: past) = coordinator.published other past :=
    published_of_silent fun _ was =>
      differs (did.unique was).1
  have started : instant ∈ coordinator.published .start past := by
    refine orderly.2.1 instant (List.mem_append.mpr ?_)
    cases act with
    | start => exact absurd rfl finished
    | commit => exact .inl (mem_published_singleton.mpr did)
    | abort => exact .inr (mem_published_singleton.mpr did)
  constructor
  · intro message member
    rw [silent finished]
    rcases (recorded message).mp member with rfl | earlier
    · exact started
    · exact marked.known message earlier
  · intro last latest
    rw [silent finished] at latest
    exact (recorded _).mpr (.inr (marked.inflight last latest))
  · intro last latest
    rw [silent finished] at latest
    rw [recorded, marked.completed last latest]
    cases act with
    | start => exact absurd rfl finished
    | commit => simp [published_of_did .commit did, Bus.Act.phase]
    | abort =>
        have same : coordinator.published .commit (step :: past) =
            coordinator.published .commit past := silent (by decide)
        simp [same, Bus.Act.phase]

theorem Marked.of_started {before after : Memory} {calls : List Call}
    {outcome : Bus.Outcome Answer}
    (marked : coordinator.Marked past (before.markers bus.path))
    (lined : coordinator.Lined past bus) (orderly : coordinator.Orderly (step :: past))
    (wellFormed : bus.WellFormed) (formed : before.WellFormed)
    (did : step.Did coordinator.name (.start instant))
    (answered : outcome.result = .ok .nothing)
    (acted : Bus.Acts fault bus before (.start instant) calls outcome after) :
    coordinator.Marked (step :: past) (after.markers bus.path) := by
  have above := orderly.1 instant (mem_published_singleton.mpr did)
  have own (phase : Phase) : (⟨instant, phase⟩ : Message) ∈ after.markers bus.path ↔
      (⟨instant, phase⟩ : Message) = ⟨instant, .inflight⟩ ∨
        ⟨instant, phase⟩ ∈ before.markers bus.path :=
    lined.mem_markers_of_started above wellFormed formed acted answered rfl
  have starts : coordinator.published .start (step :: past) =
      instant :: coordinator.published .start past := published_of_did .start did
  have silent : coordinator.published .commit (step :: past) =
      coordinator.published .commit past :=
    published_of_silent fun _ was => by cases did.2.1.symm.trans was.2.1
  constructor
  · intro message member
    rw [starts]
    obtain ⟨rfl | earlier, _⟩ :=
      (acted.mem_markers_of_started wellFormed formed answered).mp member
    · exact List.mem_cons_self
    · exact List.mem_cons_of_mem _ (marked.known message earlier)
  · intro last latest
    rw [starts] at latest
    cases latest
    exact (own .inflight).mpr (.inl rfl)
  · intro last latest
    rw [starts] at latest
    cases latest
    rw [own .completed, silent]
    by_cases again : instant ∈ coordinator.published .start past
    · have latest := orderly.2.2.head?_of_restarted above again
      simpa using marked.completed instant latest
    · have unmarked : (⟨instant, .completed⟩ : Message) ∉ before.markers bus.path :=
        fun member => again (marked.known _ member)
      have uncommitted : instant ∉ coordinator.published .commit past :=
        fun member => again (orderly.2.2.started_of_committed member)
      simp [unmarked, uncommitted]

theorem Marked.of_progress
    (marked : coordinator.Marked past (step.before.memory.markers bus.path))
    (lined : coordinator.Lined past bus) (orderly : coordinator.Orderly (step :: past))
    (wellFormed : bus.WellFormed) (formed : step.before.memory.WellFormed)
    (still : ¬ step.Did coordinator.name .bootstrap)
    (progress : coordinator.Progress fault step bus later) :
    coordinator.Marked (step :: past) (step.after.memory.markers bus.path) := by
  cases progress with
  | quiet memory queue still silent =>
      rw [← memory]
      constructor
      · rw [published_of_silent (silent .start)]
        exact marked.known
      · rw [published_of_silent (silent .start)]
        exact marked.inflight
      · rw [published_of_silent (silent .start), published_of_silent (silent .commit)]
        exact marked.completed
  | bootstrapped did => exact absurd did still
  | finished finished did recorded => exact marked.of_finished orderly finished did recorded
  | started did answered acted =>
      exact marked.of_started lined orderly wellFormed formed did answered acted

theorem Marked.of_bootstrapped (conforms : coordinator.Conforms (step :: past))
    (did : step.Did coordinator.name .bootstrap)
    (progress : coordinator.Progress fault step bus later) :
    coordinator.Marked (step :: past) (step.after.memory.markers bus.path) := by
  have differs (act : Bus.Act) (instant : Instant) :
      ¬ step.Did coordinator.name (act.action instant) := by
    intro was
    have same := did.2.1.symm.trans was.2.1
    cases act <;> cases same
  have nothing : coordinator.published .start (step :: past) = [] := by
    rw [published_of_silent (differs .start)]
    exact conforms.2.published_eq_nil (conforms.1.2.2.1 did)
  have empty : step.after.memory.markers bus.path = [] := by
    cases progress with
    | bootstrapped did emptied => rw [← emptied, Memory.markers_reset]
    | quiet memory queue still => exact absurd did still
    | finished finished was => exact absurd was (differs _ _)
    | started was => exact absurd was (differs .start _)
  rw [empty]
  constructor <;> simp [nothing]

theorem tracks_of_trace (trace : Trace fault start past) (opens : coordinator.Opens start)
    (conforms : coordinator.Conforms past) (orderly : coordinator.Orderly past) :
    ∃ bus, (start.following past).fleet.bus? coordinator.name = some bus ∧
      coordinator.Lined past bus ∧
      (coordinator.Bootstrapped past ∨ start.memory.markers coordinator.config.path = [] →
        coordinator.Marked past
          ((start.following past).memory.markers coordinator.config.path)) := by
  induction trace with
  | start =>
      obtain ⟨bus, made, alone⟩ := opens
      have empty : bus.retained = [] := (Bus.WellFormed.of_config made).2.2.1
      refine ⟨bus, ?_, ⟨by simp [empty], by simp [empty]⟩, ?_⟩
      · rw [Moment.following, alone, Fleet.bus?_insert_self]
      · intro either
        rcases either with ⟨_, impossible, _⟩ | clean
        · cases impossible
        · rw [Moment.following, clean]
          constructor <;> simp [published]
  | @step step past earlier follows formed acts ih =>
      obtain ⟨bus, held, lined, marked⟩ := ih conforms.2 orderly.2.2
      have leads := leads_of_trace earlier opens conforms.2
      rw [← follows] at held marked leads
      have path := leads.shared _ bus held
      obtain ⟨later, found, progress⟩ := coordinator.progress acts conforms.1 held
      refine ⟨later, found, lined.of_progress orderly progress, fun clean => ?_⟩
      rw [Moment.following_cons, ← path]
      rw [← path] at marked
      rw [bootstrapped_cons, or_assoc] at clean
      by_cases did : step.Did coordinator.name .bootstrap
      · exact .of_bootstrapped conforms did progress
      · exact (marked (path ▸ clean.resolve_left did)).of_progress lined orderly
          (formed.1 _ bus held) formed.2 did progress

theorem Marked.pending? {markers : List Message} (marked : coordinator.Marked past markers)
    (orderly : coordinator.Orderly past) :
    (View.resolve markers).pending? = coordinator.latestPending past := by
  unfold latestPending
  split
  · rename_i last latest
    have greatest : ∀ message ∈ markers, message.instant ≤ last :=
      fun message member => orderly.le_head latest (marked.known message member)
    split
    · rename_i committed
      apply Option.eq_none_iff_forall_ne_some.mpr
      intro other found
      obtain ⟨⟨message, member, rfl⟩, above, incomplete⟩ :=
        View.pending?_resolve_eq_some_iff.mp found
      have same : message.instant = last :=
        le_antisymm (greatest message member) (above _ (marked.inflight last latest))
      rw [same] at incomplete
      exact incomplete ((marked.completed last latest).mpr committed)
    · rename_i uncommitted
      refine View.pending?_resolve_eq_some_iff.mpr
        ⟨⟨_, marked.inflight last latest, rfl⟩, greatest, ?_⟩
      exact fun complete => uncommitted ((marked.completed last latest).mp complete)
  · rename_i nothing
    apply Option.eq_none_iff_forall_ne_some.mpr
    intro other found
    obtain ⟨⟨message, member, _⟩, _⟩ := View.pending?_resolve_eq_some_iff.mp found
    have started := marked.known message member
    rw [List.head?_eq_none_iff.mp nothing] at started
    cases started

end Coordinator

/-- Every answer about the pending instant is the instant that was started last,
or none if that has been committed or nothing was started, whatever calls failed. -/
theorem Moment.pending_is_latest {strike : Strike π} (reported : strike.Within Fault.reported)
    (opens : coordinator.Opens start) (formed : start.memory.WellFormed)
    {actions : List (String × Action)}
    (ran : start.history (Memory.serve.failing strike) actions = step :: past)
    (conforms : coordinator.Conforms (step :: past))
    (orderly : coordinator.Orderly (step :: past))
    (clean : coordinator.Bootstrapped past ∨
      start.memory.markers coordinator.config.path = [])
    {instant? : Option Instant} (answered : step.answer? = some (.ok (.pending instant?))) :
    instant? = coordinator.latestPending past := by
  have trace := start.trace_history Fault.reports_reported reported
    (opens.wellFormed formed) actions
  rw [ran] at trace
  cases trace with
  | step earlier follows _ acts =>
      have leads := Coordinator.leads_of_trace earlier opens conforms.2
      obtain ⟨_, _, _, marked⟩ :=
        Coordinator.tracks_of_trace earlier opens conforms.2 orderly.2.2
      rw [← follows] at leads marked
      obtain ⟨_, rfl⟩ := Coordinator.pending_of_answer acts leads answered
      exact (marked clean).pending? orderly.2.2

/-- The markers of `a` cannot all be deleted when `b` is started; the coordinator
closes, and a reader asks. -/
def Moment.handover : List (Step (Failing Nat Memory)) :=
  (Coordinator.single.opening 1).history (Memory.serve.failing (.refusing "t/d/a.inflight"))
    [("r", .pending), ("w", .close), ("w", .start "b"), ("w", .commit "a"), ("w", .start "a"),
      ("w", .bootstrap), ("r", .construct Coordinator.single.config)]

theorem Moment.handover_finds_latest : ∃ step past, handover = step :: past ∧
    step.answer? = some (.ok (.pending (some "b"))) ∧
    some "b" = Coordinator.single.latestPending past := by
  have within := (Strike.refusing_within "t/d/a.inflight").mono fun _ _ =>
    Fault.reported_of_removals
  obtain ⟨step, past, ran⟩ : ∃ step past, handover = step :: past := ⟨_, _, rfl⟩
  have answered : step.answer? = some (.ok (.pending (some "b"))) := by
    cases ran
    decide +kernel
  have latest : some "b" = Coordinator.single.latestPending past := by
    refine pending_is_latest within (Coordinator.opens_opening (by decide) 1)
      Memory.wellFormed_empty ran ?_ ?_ (.inr rfl) answered
    · cases ran
      decide +kernel
    · cases ran
      decide +kernel
  exact ⟨step, past, ran, answered, latest⟩

end MarkerBus
