import Mathlib.Data.Finset.Card
import MarkerBus.Proofs.Reading
import MarkerBus.Proofs.Start

namespace MarkerBus

/-! Rounds of writes that end alike.

A directory of markers only grows while no bus starts more instants than it keeps,
for then no cleaning has anything to free.  What is read after such a round is
settled by the set of messages written, and not by who wrote them, how often, or
in what order; so a writer that does not know whether it got through may write
again.
-/

open Storage MarkerDirectory

variable {path name : String} {bus : Bus} {action : Action} {memory : Memory} {fleet : Fleet}

namespace Bus

section

variable {fault : Fault} {act : Act} {instant : Instant} {message : Message}
  {before after : Memory} {calls : List Call} {outcome : Outcome Answer}

/-- A write that finds room for its instant adds its message, and removes none. -/
theorem Acts.mem_markers_of_room (wellFormed : bus.WellFormed) (formed : before.WellFormed)
    (acts : Acts fault bus before (act.action instant) calls outcome after)
    (answered : outcome.result = .ok .nothing)
    (room : act = .start → (bus.retention.track instant).queue.length ≤ bus.retention.limit) :
    message ∈ after.markers bus.path ↔
      message = ⟨instant, act.phase⟩ ∨ message ∈ before.markers bus.path := by
  by_cases finished : act = .start
  · subst finished
    have overhang : (bus.retention.track instant).overhang = [] := by
      simp [Retention.overhang, Nat.sub_eq_zero_of_le (room rfl)]
    -- nothing overhangs the limit, so the cleaning has nothing to remove
    have untouched (valid : message.instant.Valid) :
        ⟨.remove (file bus.path message), false⟩ ∉ calls := by
      intro removed
      have exceeds := acts.overhang_of_started wellFormed answered valid removed
      simp [overhang] at exceeds
    rw [acts.mem_markers_of_started wellFormed formed answered]
    refine and_iff_left_of_imp fun there => untouched ?_
    rcases there with rfl | recorded
    · obtain ⟨_, _, _, _, valid, _⟩ := acts.of_started answered
      exact valid
    · exact (Memory.mem_markers_iff.mp recorded).1
  · exact (acts.of_finished act finished answered wellFormed).2.2 message

/-- Where nothing fails, a load shows what is on record. -/
theorem Acts.of_loads (acts : Acts Fault.none bus before action calls outcome after)
    (loads : action = .messages ∨ action = .pending) :
    outcome = bus.showing action (before.markers bus.path) := by
  cases acts with
  | messages | pending => rfl
  | unread _ _ allowed => exact allowed.choose_spec.elim
  | @published act _ _ _ _ publishes | @refused act _ _ _ publishes
  | @unpublished act _ _ _ publishes =>
      subst publishes
      cases act <;> rcases loads with impossible | impossible <;> cases impossible
  | listened | closed | asked | bootstrapped | notBootstrapped | started =>
      rcases loads with impossible | impossible <;> cases impossible

end

end Bus

/-- A bus starts, commits or aborts an instant. -/
structure Write where
  name : String
  act : Bus.Act
  instant : Instant
deriving DecidableEq, Repr

namespace Write

def message (write : Write) : Message :=
  ⟨write.instant, write.act.phase⟩

def turn (write : Write) : String × Action :=
  (write.name, write.act.action write.instant)

/-- The instants that a bus starts, however often it starts them. -/
def started (name : String) (writes : List Write) : Finset Instant :=
  ((writes.filter fun write => write.name = name ∧ write.act = .start).map instant).toFinset

variable {writes others : List Write}

theorem mem_started {instant : Instant} :
    instant ∈ started name writes ↔ ⟨name, .start, instant⟩ ∈ writes := by
  simp only [started, List.mem_toFinset, List.mem_map, List.mem_filter, decide_eq_true_eq]
  constructor
  · intro given
    obtain ⟨⟨_, _, _⟩, ⟨member, rfl, rfl⟩, rfl⟩ := given
    exact member
  · intro member
    exact ⟨_, ⟨member, rfl, rfl⟩, rfl⟩

theorem started_subset (within : writes ⊆ others) : started name writes ⊆ started name others :=
  fun _ member => mem_started.mpr (within (mem_started.mp member))

end Write

/-- The buses are as they were made, and they are on this path. -/
def Fleet.Fresh (path : String) (fleet : Fleet) : Prop :=
  ∀ name bus, fleet.bus? name = some bus →
    ∃ config, Bus.ofConfig config = .ok bus ∧ config.path = path

theorem Fleet.fresh_empty : ({} : Fleet).Fresh path := by
  intro name bus held
  simp at held

theorem Fleet.Fresh.insert {config : Bus.Config} (fresh : fleet.Fresh path)
    (made : Bus.ofConfig config = .ok bus) (here : config.path = path) :
    (fleet.insert name bus).Fresh path := by
  intro other held found
  by_cases same : other = name
  · subst same
    rw [bus?_insert_self] at found
    cases found
    exact ⟨config, made, here⟩
  · rw [bus?_insert_of_ne same] at found
    exact fresh other held found

/-- Some buses write in turn, after one of them has bootstrapped the directory. -/
structure Round where
  fleet : Fleet
  memory : Memory
  chief : String
  writes : List Write

namespace Round

def run (round : Round) : Run Memory (List (Option (Except Bus.Error Answer)) × Fleet) :=
  (round.fleet.run ((round.chief, .bootstrap) :: round.writes.map Write.turn)).run
    Memory.serve round.memory

/-- What a bus answers when the round is over. -/
def answer? (round : Round) (reader : String) (action : Action) :
    Option (Except Bus.Error Answer) :=
  ((round.run.value.2.act reader action).run Memory.serve round.run.storage).value.1

/-- The buses of the round are new on one path, and none starts more instants
than it keeps. -/
structure Proper (path : String) (round : Round) : Prop where
  fresh : round.fleet.Fresh path
  formed : round.memory.WellFormed
  led : (round.fleet.bus? round.chief).isSome
  manned : ∀ write ∈ round.writes, (round.fleet.bus? write.name).isSome
  valid : ∀ write ∈ round.writes, write.instant.Valid
  roomy : ∀ name bus, round.fleet.bus? name = some bus →
    (Write.started name round.writes).card ≤ bus.config.limit

/-- Every call of the round is answered, and any of its buses then loads this view. -/
structure Ends (round : Round) (view : View) : Prop where
  answered : ∀ answer ∈ round.run.value.1, answer = some (.ok .nothing)
  messages : ∀ reader, (round.fleet.bus? reader).isSome →
    round.answer? reader .messages = some (.ok (.messages view))
  pending : ∀ reader, (round.fleet.bus? reader).isSome →
    round.answer? reader .pending = some (.ok (.pending view.pending?))

/-- The buses of the round are there, and each tracks only what it has started
itself. -/
structure Manned (round : Round) (past : List Write) (fleet : Fleet) : Prop where
  wellFormed : fleet.WellFormed
  present : ∀ name origin, round.fleet.bus? name = some origin →
    ∃ bus, fleet.bus? name = some bus ∧ bus.config = origin.config ∧
      ∀ instant ∈ bus.retained, ⟨name, .start, instant⟩ ∈ past

/-- Where the round stands after some of its writes: they are what is on record. -/
structure Stands (round : Round) (path : String) (past : List Write) (fleet : Fleet)
    (memory : Memory) : Prop where
  manned : round.Manned past fleet
  formed : memory.WellFormed
  accessible : memory.Accessible path
  recorded : ∀ message, message ∈ memory.markers path ↔ message ∈ past.map Write.message

variable {round : Round} {past later : List Write} {origin : Bus}

theorem Manned.act {after : Memory} {calls : List Call} {left : Fleet}
    {answer : Option (Except Bus.Error Answer)} {more : List Write}
    (manned : round.Manned past fleet) (ordinary : action.ordinary)
    (acts : Fleet.Acts Fault.none fleet name memory action calls answer left after)
    (within : past ⊆ more)
    (starts : ∀ instant, action = .start instant → ⟨name, .start, instant⟩ ∈ more) :
    round.Manned more left := by
  refine ⟨acts.wellFormed manned.wellFormed, fun other origin held => ?_⟩
  obtain ⟨bus, found, config, tracked⟩ := manned.present other origin held
  by_cases same : other = name
  · subst same
    obtain ⟨_, outcome, stays, _, acted⟩ := acts.of_held ordinary found
    refine ⟨outcome.bus, stays, acted.config.trans config, fun instant kept => ?_⟩
    rcases acted.mem_retained kept with earlier | started
    · exact within (tracked instant earlier)
    · exact starts instant started
  · exact ⟨bus, (acts.bus?_of_ne same).trans found, config,
      fun instant kept => within (tracked instant kept)⟩

namespace Proper

theorem manned_nil (proper : round.Proper path) : round.Manned [] round.fleet where
  wellFormed name bus held := by
    obtain ⟨config, made, _⟩ := proper.fresh name bus held
    exact (Bus.WellFormed.of_config made).1
  present name bus held := by
    obtain ⟨config, made, _⟩ := proper.fresh name bus held
    exact ⟨bus, held, rfl, by simp [(Bus.WellFormed.of_config made).2.2.1]⟩

theorem path_eq (proper : round.Proper path) (held : round.fleet.bus? name = some bus) :
    bus.path = path := by
  obtain ⟨config, made, here⟩ := proper.fresh name bus held
  exact (congrArg Bus.Config.path (Bus.WellFormed.of_config made).2.1).trans here

/-- No queue grows beyond its limit. -/
theorem room (proper : round.Proper path) (held : round.fleet.bus? name = some origin)
    (wellFormed : bus.WellFormed) (config : bus.config = origin.config)
    (tracked : ∀ instant ∈ bus.retained, ⟨name, .start, instant⟩ ∈ round.writes)
    {instant : Instant} (starts : ⟨name, .start, instant⟩ ∈ round.writes) :
    (bus.retention.track instant).queue.length ≤ bus.retention.limit := by
  have distinct : (bus.retention.track instant).queue.Nodup :=
    Retention.nodup_track wellFormed.distinct
  have covered : (bus.retention.track instant).queue.toFinset ⊆
      Write.started name round.writes := by
    intro other member
    rw [Write.mem_started]
    rcases Retention.mem_track.mp (List.mem_toFinset.mp member) with rfl | earlier
    · exact starts
    · exact tracked other earlier
  calc (bus.retention.track instant).queue.length
      = (bus.retention.track instant).queue.toFinset.card :=
        (List.toFinset_card_of_nodup distinct).symm
    _ ≤ (Write.started name round.writes).card := Finset.card_le_card covered
    _ ≤ origin.config.limit := proper.roomy name origin held
    _ = bus.retention.limit := by rw [wellFormed.limit, config]

theorem bootstrap (proper : round.Proper path) :
    let run := (round.fleet.act round.chief .bootstrap).run Memory.serve round.memory
    run.value.1 = some (.ok .nothing) ∧ round.Stands path [] run.value.2 run.storage := by
  obtain ⟨chief, held⟩ := Option.isSome_iff_exists.mp proper.led
  obtain ⟨calls, performed⟩ := Script.performs_run Memory.serve Fault.none
    (round.fleet.act round.chief .bootstrap) round.memory
  have acts := Fleet.acts Fault.reports_none proper.manned_nil.wellFormed performed
  obtain ⟨wellFormed, outcome, _, answer, acted⟩ := acts.of_held rfl held
  have manned := proper.manned_nil.act rfl acts (List.Subset.refl []) nofun
  have here : chief.path = path := proper.path_eq held
  obtain ⟨rfl, emptied⟩ := acted.of_bootstrap
  refine ⟨answer, manned, ?_, ?_, ?_⟩
  · rw [← emptied]
    exact proper.formed.reset
  · rw [← emptied, here]
    exact Memory.accessible_reset (here ▸ wellFormed.path_ne_empty)
  · simp [← emptied, here, Memory.markers_reset]

end Proper

theorem Stands.write (proper : round.Proper path) (stands : round.Stands path past fleet memory)
    {write : Write} (split : round.writes = past ++ write :: later) :
    let run := (fleet.act write.name (write.act.action write.instant)).run Memory.serve memory
    run.value.1 = some (.ok .nothing) ∧
      round.Stands path (past ++ [write]) run.value.2 run.storage := by
  have mine : write ∈ round.writes := by simp [split]
  have earlier : past ⊆ round.writes := by simp [split]
  obtain ⟨origin, held⟩ := Option.isSome_iff_exists.mp (proper.manned write mine)
  obtain ⟨bus, found, config, tracked⟩ := stands.manned.present write.name origin held
  have here : bus.path = path :=
    (congrArg Bus.Config.path config).trans (proper.path_eq held)
  obtain ⟨calls, performed⟩ := Script.performs_run Memory.serve Fault.none
    (fleet.act write.name (write.act.action write.instant)) memory
  have acts := Fleet.acts Fault.reports_none stands.manned.wellFormed performed
  have ordinary := write.act.ordinary_action write.instant
  obtain ⟨wellFormed, outcome, _, answer, acted⟩ := acts.of_held ordinary found
  have accessible : memory.Accessible bus.path := here ▸ stands.accessible
  have answered := acted.answers wellFormed accessible (proper.valid write mine)
  have room (starts : write.act = .start) :
      (bus.retention.track write.instant).queue.length ≤ bus.retention.limit := by
    refine proper.room held wellFormed config (fun other kept => earlier (tracked other kept)) ?_
    exact starts ▸ mine
  refine ⟨answer.trans (congrArg some answered), ?_, ?_, ?_, fun message => ?_⟩
  · refine stands.manned.act ordinary acts (List.subset_append_left ..) fun instant starts => ?_
    have named : write.act.action write.instant = Bus.Act.start.action instant := starts
    obtain ⟨act, same⟩ := Bus.Act.action_injective named
    rw [← act, ← same]
    exact List.mem_append_right past (List.mem_singleton_self write)
  · exact acts.memory_wellFormed stands.formed
  · exact here ▸ acted.accessible wellFormed accessible
  · rw [← here, acted.mem_markers_of_room wellFormed stands.formed answered room, here,
      stands.recorded]
    simp [Write.message, or_comm]

theorem Stands.run (proper : round.Proper path) (stands : round.Stands path past fleet memory)
    (split : round.writes = past ++ later) :
    let run := (fleet.run (later.map Write.turn)).run Memory.serve memory
    (∀ answer ∈ run.value.1, answer = some (.ok .nothing)) ∧
      round.Stands path round.writes run.value.2 run.storage := by
  -- on the writes to come, for all that may have been written before
  induction later generalizing past fleet memory with
  | nil =>
      rw [List.append_nil] at split
      exact ⟨by simp [Fleet.run], split ▸ stands⟩
  | cons write rest ih =>
      obtain ⟨answered, standing⟩ := stands.write proper split
      obtain ⟨others, stood⟩ := ih standing (by simp [split])
      simp only [List.map_cons, Write.turn, Fleet.run, Script.run_bind, Script.run_pure,
        List.mem_cons, forall_eq_or_imp]
      exact ⟨⟨answered, others⟩, stood⟩

namespace Proper

theorem stands (proper : round.Proper path) :
    (∀ answer ∈ round.run.value.1, answer = some (.ok .nothing)) ∧
      round.Stands path round.writes round.run.value.2 round.run.storage := by
  obtain ⟨answered, standing⟩ := proper.bootstrap
  obtain ⟨others, stood⟩ := standing.run proper (List.nil_append _).symm
  simp only [Round.run, Fleet.run, Script.run_bind, Script.run_pure, List.mem_cons,
    forall_eq_or_imp]
  exact ⟨⟨answered, others⟩, stood⟩

theorem answer?_eq (proper : round.Proper path) {reader : String}
    (present : (round.fleet.bus? reader).isSome)
    (loads : action = .messages ∨ action = .pending) :
    ∃ bus : Bus, round.answer? reader action =
      some (bus.showing action (round.writes.map Write.message)).result := by
  obtain ⟨_, standing⟩ := proper.stands
  obtain ⟨origin, held⟩ := Option.isSome_iff_exists.mp present
  obtain ⟨bus, found, config, _⟩ := standing.manned.present reader origin held
  have here : bus.path = path :=
    (congrArg Bus.Config.path config).trans (proper.path_eq held)
  obtain ⟨calls, performed⟩ := Script.performs_run Memory.serve Fault.none
    (round.run.value.2.act reader action) round.run.storage
  have acts := Fleet.acts Fault.reports_none standing.manned.wellFormed performed
  obtain ⟨_, outcome, _, answer, acted⟩ :=
    acts.of_held (by rcases loads with rfl | rfl <;> rfl) found
  have view : View.resolve (round.run.storage.markers bus.path) =
      View.resolve (round.writes.map Write.message) :=
    View.resolve_congr (here ▸ standing.recorded)
  refine ⟨bus, ?_⟩
  rw [answer?, answer, acted.of_loads loads]
  simp only [Bus.showing, view]

/-- How a round ends is settled by the messages written. -/
theorem ends_of_mem_iff (proper : round.Proper path) {messages : List Message}
    (same : ∀ message, message ∈ round.writes.map Write.message ↔ message ∈ messages) :
    round.Ends (View.resolve messages) where
  answered := proper.stands.1
  messages reader present := by
    obtain ⟨bus, answer⟩ := proper.answer?_eq present (.inl rfl)
    rw [answer, ← View.resolve_congr same]
    rfl
  pending reader present := by
    obtain ⟨bus, answer⟩ := proper.answer?_eq present (.inr rfl)
    rw [answer, ← View.resolve_congr same]
    rfl

/-- A round stays proper when its writes are arranged and repeated in another way. -/
theorem of_mem_iff (proper : round.Proper path) {writes : List Write}
    (same : ∀ write, write ∈ writes ↔ write ∈ round.writes) :
    Proper path { round with writes } where
  fresh := proper.fresh
  formed := proper.formed
  led := proper.led
  manned write member := proper.manned write ((same write).mp member)
  valid write member := proper.valid write ((same write).mp member)
  roomy name bus held :=
    (Finset.card_le_card (Write.started_subset fun write => (same write).mp)).trans
      (proper.roomy name bus held)

end Proper

/-- Rounds that write the same messages end alike, whoever writes them and in
whatever order, and they end no other way if what was written first is written
again later, any number of times. -/
theorem ends_alike_of_same_messages {left right : Round} (leftProper : left.Proper path)
    (rightProper : right.Proper path)
    (same : ∀ message, message ∈ left.writes.map Write.message ↔
      message ∈ right.writes.map Write.message) :
    ∃ view, left.Ends view ∧ right.Ends view ∧
      (∀ round, round = left ∨ round = right →
        ∀ front middle back times, round.writes = front ++ middle ++ back →
          Ends { round with
            writes := front ++ middle ++ (List.replicate times front).flatten ++ back } view) ∧
      view = View.resolve (left.writes.map Write.message) := by
  refine ⟨_, leftProper.ends_of_mem_iff fun _ => Iff.rfl,
    rightProper.ends_of_mem_iff fun message => (same message).symm, ?_, rfl⟩
  intro round either front middle back times split
  have known : round.Proper path ∧ ∀ message, message ∈ round.writes.map Write.message ↔
      message ∈ left.writes.map Write.message := by
    rcases either with rfl | rfl
    · exact ⟨leftProper, fun _ => Iff.rfl⟩
    · exact ⟨rightProper, fun message => (same message).symm⟩
  obtain ⟨proper, written⟩ := known
  -- a repetition adds no write that was not there
  have repeated (write : Write) :
      write ∈ front ++ middle ++ (List.replicate times front).flatten ++ back ↔
        write ∈ round.writes := by
    simp only [split, List.mem_append, List.mem_flatten, List.mem_replicate]
    grind
  refine (proper.of_mem_iff repeated).ends_of_mem_iff fun message => ?_
  rw [← written message]
  simp only [List.mem_map, repeated]

/-- A bus as it is made, which keeps this many instants. -/
def keeping (limit : Nat) : Bus where
  config := { base := "t", directory := "d", limit }
  retention := { limit }

theorem fresh_insert_keeping (fresh : fleet.Fresh "t/d") {limit : Nat} (positive : 1 ≤ limit) :
    (fleet.insert name (keeping limit)).Fresh "t/d" := by
  have valid : (keeping limit).config.Valid :=
    ⟨by simp only [keeping]; decide, by simp only [keeping]; decide, positive,
      by simp only [keeping]; decide⟩
  have here : (keeping 1).config.path = "t/d" := by decide +kernel
  exact fresh.insert (if_pos valid) here

/-- Two buses take turns, and one of them writes a start again. -/
def alternating : Round where
  fleet := (({} : Fleet).insert "a" (keeping 1)).insert "b" (keeping 1)
  memory := {}
  chief := "a"
  writes := [⟨"a", .start, "1"⟩, ⟨"b", .start, "2"⟩, ⟨"a", .commit, "1"⟩, ⟨"a", .start, "1"⟩]

/-- Another bus writes the same messages in another order. -/
def reversed : Round where
  fleet := ({} : Fleet).insert "c" (keeping 2)
  memory := ⟨[("t/d", ["0.completed"])]⟩
  chief := "c"
  writes := [⟨"c", .commit, "1"⟩, ⟨"c", .start, "2"⟩, ⟨"c", .start, "1"⟩]

theorem proper_alternating : alternating.Proper "t/d" where
  fresh := fresh_insert_keeping (fresh_insert_keeping Fleet.fresh_empty le_rfl) le_rfl
  formed := Memory.wellFormed_empty
  led := by decide
  manned := by decide
  valid := by decide +kernel
  roomy name bus held := by
    by_cases second : name = "b"
    · rw [second, alternating, Fleet.bus?_insert_self] at held
      cases held
      subst second
      decide
    · rw [alternating, Fleet.bus?_insert_of_ne second] at held
      by_cases first : name = "a"
      · rw [first, Fleet.bus?_insert_self] at held
        cases held
        subst first
        decide
      · simp [Fleet.bus?_insert_of_ne first] at held

theorem proper_reversed : reversed.Proper "t/d" where
  fresh := fresh_insert_keeping Fleet.fresh_empty (by decide)
  formed directory := by
    simp only [reversed, Memory.namesAt, List.lookup_cons, List.lookup_nil]
    split <;> simp
  led := by decide
  manned := by decide
  valid := by decide +kernel
  roomy name bus held := by
    by_cases only : name = "c"
    · rw [only, reversed, Fleet.bus?_insert_self] at held
      cases held
      subst only
      decide
    · simp [reversed, Fleet.bus?_insert_of_ne only] at held

theorem alternating_ends_as_reversed :
    (alternating.Proper "t/d" ∧ reversed.Proper "t/d") ∧
      (∀ message, message ∈ alternating.writes.map Write.message ↔
        message ∈ reversed.writes.map Write.message) ∧
      ∃ view, alternating.Ends view ∧ reversed.Ends view ∧
        Ends { alternating with
          writes := [⟨"a", .start, "1"⟩, ⟨"b", .start, "2"⟩] ++ [⟨"a", .commit, "1"⟩] ++
            (List.replicate 2 [⟨"a", .start, "1"⟩, ⟨"b", .start, "2"⟩]).flatten ++
              [⟨"a", .start, "1"⟩] } view ∧
        view = [⟨"1", .completed⟩, ⟨"2", .inflight⟩] := by
  have same (message : Message) : message ∈ alternating.writes.map Write.message ↔
      message ∈ reversed.writes.map Write.message := by
    simp only [alternating, reversed, List.map_cons, List.map_nil, List.mem_cons]
    grind [Write.message]
  obtain ⟨view, left, right, repeats, shown⟩ :=
    ends_alike_of_same_messages proper_alternating proper_reversed same
  refine ⟨⟨proper_alternating, proper_reversed⟩, same, view, left, right,
    repeats alternating (.inl rfl) _ _ _ 2 rfl, shown.trans ?_⟩
  decide +kernel

end Round

end MarkerBus
