import Mathlib.Data.List.Induction
import MarkerBus.Proofs.Chief
import MarkerBus.Proofs.Failure
import MarkerBus.Proofs.Sweep

namespace MarkerBus

/-! Loads as snapshots, while the chief starts instants and deletes others.

Only the calls of the chief change the markers.  Within a deletion these are the
removals of one instant, in order; and what the chief has done of a start can be
completed as if it were alone, so the new marker outlives the cleaning.
-/

open Storage MarkerDirectory

variable {config : Bus.Config} {chief name : String} {instant : Instant} {memory after : Memory}

/-- A start that has created its marker answers. -/
theorem Bus.Acts.started_of_created {fault : Fault} {bus : Bus} {calls : List Call}
    {outcome : Bus.Outcome Answer}
    (acts : Bus.Acts fault bus memory (.start instant) calls outcome after)
    (made : ⟨.create (file bus.path ⟨instant, .inflight⟩), false⟩ ∈ calls) :
    outcome.result = .ok .nothing := by
  cases failed : outcome.result with
  | error error =>
      rcases acts.start_error failed with ⟨_, _, rfl⟩ | ⟨_, _, rfl⟩ <;> simp at made
  | ok answer =>
      cases acts with
      | started | published => exact failed.symm
      | unread | refused | unpublished => cases failed

namespace Crew

variable {crew : Crew} {party : Party} {moves : List (String × Move)} {path : String} {task : Task}

theorem Led.of_cons {head : String × Move} (led : Led chief config.path (head :: moves)) :
    (∀ action, head.2 = .begins action → head.1 ≠ chief → action.reads config.path) ∧
      Led chief config.path moves := by
  refine ⟨fun action begins => led head.1 action ?_, fun name action member =>
    led name action (List.mem_cons_of_mem _ member)⟩
  rw [← begins]
  exact List.mem_cons_self

/-- Only the calls of the chief change the memory. -/
theorem Sound.memory_move {head : String × Move} (sound : crew.Sound config chief)
    (led : ∀ action, head.2 = .begins action → head.1 ≠ chief → action.reads config.path)
    (silent : head ≠ (chief, .calls)) : (crew.move head.1 head.2).memory = crew.memory := by
  obtain ⟨name, turn⟩ := head
  by_cases same : name = chief
  · subst same
    obtain ⟨party, present, _⟩ := sound.present
    rw [Crew.memory_move present]
    refine Party.memory_move ?_
    rintro rfl
    exact silent rfl
  · exact sound.memory_of_reader same fun action begins => led action begins same

theorem Sound.memory_of_silent (sound : crew.Sound config chief)
    (led : Led chief config.path moves) (silent : (chief, .calls) ∉ moves) :
    (crew.run moves).memory = crew.memory := by
  induction moves generalizing crew with
  | nil => rfl
  | cons head rest ih =>
      obtain ⟨first, led⟩ := led.of_cons
      obtain ⟨other, silent⟩ := List.ne_and_not_mem_of_not_mem_cons silent
      exact (ih (sound.move first) led silent).trans (sound.memory_move first (Ne.symm other))

/-- While the chief has calls to make, it goes on by these calls only. -/
theorem party?_move_of_due {head : String × Move} {task : Task}
    (present : crew.party? chief = some party) (busy : party.task? = some task)
    (due : task.left.request?.isSome) (silent : head ≠ (chief, .calls)) :
    (crew.move head.1 head.2).party? chief = some party := by
  obtain ⟨name, turn⟩ := head
  by_cases same : name = chief
  · subst same
    have moved := party?_move_self present turn
    cases turn with
    | begins action => rwa [Party.move_begins_of_busy busy] at moved
    | calls => exact absurd rfl silent
    | returns =>
        have unfinished : task.left.value? = none := by
          cases ended : task.left.value? with
          | none => rfl
          | some outcome => simp [Script.request?_of_value? ended] at due
        simpa only [Party.move, busy, Option.bind_some, unfinished] using moved
  · exact (party?_move_of_ne (Ne.symm same) turn).trans present

theorem Sound.memory_of_removes {names : List String} {task : Task}
    {next : Except Error Bool → Script (Bus.Outcome Answer)}
    (sound : crew.Sound config chief) (led : Led chief config.path moves)
    (present : crew.party? chief = some party) (busy : party.task? = some task)
    (removes : task.left.Removes config.path names next)
    (within : moves.count (chief, .calls) ≤ names.length) :
    (crew.run moves).memory =
      crew.memory.without config.path (names.take (moves.count (chief, .calls))) := by
  induction moves generalizing crew party task names with
  | nil => rfl
  | cons head rest ih =>
      cases names with
      | nil =>
          have none := Nat.le_zero.mp within
          rw [none, List.take_zero]
          exact sound.memory_of_silent led (List.count_eq_zero.mp none)
      | cons name names =>
          obtain ⟨first, ledLater⟩ := led.of_cons
          have later := sound.move first
          by_cases own : head = (chief, .calls)
          · subst own
            obtain ⟨goes, removed⟩ := removes.advance task.calls crew.memory
            have moved := party?_move_self present .calls
            have memory := Crew.memory_move present .calls
            rw [Party.move_calls busy] at moved memory
            rw [List.count_cons_self] at within ⊢
            change (Crew.run (crew.move chief .calls) rest).memory = _
            rw [ih later ledLater moved rfl goes (Nat.le_of_succ_le_succ within), memory, removed]
            rfl
          · rw [List.count_cons_of_ne own] at within ⊢
            have due : task.left.request?.isSome := Option.isSome_of_eq_some removes.request?
            change (Crew.run (crew.move head.1 head.2) rest).memory = _
            rw [ih later ledLater (party?_move_of_due present busy due own) busy removes within,
              sound.memory_move first own]

/-- A deletion that began in the course of these moves, and has a call left. -/
def Deleting (crew : Crew) (chief path : String) (moves : List (String × Move))
    (left : Script (Bus.Outcome Answer)) : Prop :=
  ∃ past since party instant next, moves = past ++ since ∧
    (crew.run past).party? chief = some party ∧ instant.Valid ∧ party.Deletes instant ∧
    since.count (chief, .calls) < Phase.all.length ∧
    left.Removes path ((Marker.names instant).drop (since.count (chief, .calls))) next ∧
    ∀ answer, (next answer).Sweeps path

theorem Deleting.of_sweeps (present : (crew.run moves).party? chief = some party)
    (busy : party.task? = some task) (sweeps : task.left.Sweeps party.bus.path) {file : String}
    (due : task.left.request? = some (.remove file)) :
    crew.Deleting chief party.bus.path moves task.left := by
  obtain ⟨instant, next, valid, removes, rest⟩ := sweeps.request? due
  exact ⟨moves, [], party, instant, next, (List.append_nil _).symm, present, valid,
    ⟨task, next, busy, (Script.removes_deleteAll valid).mpr removes⟩, Nat.zero_lt_succ _, removes,
    rest⟩

theorem Deleting.append {left : Script (Bus.Outcome Answer)} {head : String × Move}
    (deleting : crew.Deleting chief path moves left) (silent : head ≠ (chief, .calls)) :
    crew.Deleting chief path (moves ++ [head]) left := by
  obtain ⟨past, since, party, instant, next, rfl, present, valid, deletes, some, removes, rest⟩ :=
    deleting
  have same : (since ++ [head]).count (chief, .calls) = since.count (chief, .calls) := by
    simp [List.count_append, silent]
  refine ⟨past, since ++ [head], party, instant, next, List.append_assoc _ _ _, present, valid,
    deletes, ?_⟩
  rw [same]
  exact ⟨some, removes, rest⟩

theorem Deleting.advance {left : Script (Bus.Outcome Answer)}
    (deleting : crew.Deleting chief path moves left) (calls : List Call) (memory : Memory) :
    let rest := (left.advance Memory.serve.recorded ⟨calls, memory⟩).1
    rest.Sweeps path ∨ crew.Deleting chief path (moves ++ [(chief, .calls)]) rest := by
  obtain ⟨past, since, party, instant, next, rfl, present, valid, deletes, some, removes, rest⟩ :=
    deleting
  obtain ⟨phase, _, split⟩ := Marker.drop_names instant some
  rw [split] at removes
  obtain ⟨goes, _⟩ := removes.advance calls memory
  have count : (since ++ [(chief, Move.calls)]).count (chief, .calls) =
      since.count (chief, .calls) + 1 := by simp
  by_cases last : since.count (chief, .calls) + 1 < Phase.all.length
  · refine .inr ⟨past, since ++ [(chief, .calls)], party, instant, next, List.append_assoc _ _ _,
      present, valid, deletes, ?_⟩
    rw [count]
    exact ⟨last, goes, rest⟩
  · left
    have empty : (Marker.names instant).drop (since.count (chief, .calls) + 1) = [] :=
      List.drop_eq_nil_of_le (by simpa [Marker.names] using Nat.le_of_not_lt last)
    rw [empty] at goes
    refine .of_due ?_
    rw [goes]
    exact (rest (.ok true)).due

/-- The chief is in a deletion, or in a script that removes in whole deletions only. -/
theorem Sound.deleting (sound : crew.Sound config chief) (led : Led chief config.path moves)
    (idle : ∀ party, crew.party? chief = some party → party.task? = none) :
    ∀ party task, (crew.run moves).party? chief = some party → party.task? = some task →
      task.left.Sweeps config.path ∨ crew.Deleting chief config.path moves task.left := by
  induction moves using List.reverseRecOn with
  | nil =>
      intro party task present busy
      simp [idle party present] at busy
  | append_singleton moves head ih =>
      intro later task present busy
      have ledBefore : Led chief config.path moves := fun name action member =>
        led name action (List.mem_append_left _ member)
      obtain ⟨party, was, leads⟩ := (sound.run ledBefore).present
      have path : party.bus.path = config.path := congrArg Bus.Config.path leads.shared
      have before := ih ledBefore party
      rw [run_append] at present
      change ((crew.run moves).move head.1 head.2).party? chief = some later at present
      have stayed (busy : party.task? = some task) (silent : head ≠ (chief, .calls)) :
          task.left.Sweeps config.path ∨
            crew.Deleting chief config.path (moves ++ [head]) task.left :=
        (before task was busy).imp_right (·.append silent)
      by_cases own : head = (chief, .calls)
      · subst own
        rw [party?_move_self was] at present
        cases present
        cases held : party.task? with
        | none => simp [Party.move, held] at busy
        | some old =>
            rw [Party.move_calls held] at busy
            cases busy
            have deleting : crew.Deleting chief config.path moves old.left ∨
                old.left.Sweeps config.path ∧ ∀ file, old.left.request? ≠ some (.remove file) := by
              rcases before old was held with sweeps | deleting
              · by_cases due : ∃ file, old.left.request? = some (.remove file)
                · obtain ⟨file, due⟩ := due
                  rw [← path] at sweeps ⊢
                  exact .inl (.of_sweeps was held sweeps due)
                · exact .inr ⟨sweeps, fun file same => due ⟨file, same⟩⟩
              · exact .inl deleting
            rcases deleting with deleting | ⟨sweeps, kept⟩
            · exact deleting.advance old.calls _
            · exact .inl (sweeps.advance kept old.calls _)
      · by_cases mine : head.1 = chief
        · obtain ⟨_, turn⟩ := head
          subst mine
          have moved := party.moves (crew.run moves).memory turn
          rw [party?_move_self was] at present
          cases present
          generalize party.move (crew.run moves).memory turn = result at moved busy ⊢
          obtain ⟨later, after⟩ := result
          cases moved with
          | stayed => exact stayed busy own
          | begun =>
              cases busy
              left
              rw [← path]
              exact Bus.sweeps_actOn leads.wellFormed _
          | called => exact absurd rfl own
          | returned => cases busy
        · rw [party?_move_of_ne (Ne.symm mine)] at present
          cases was.symm.trans present
          exact stayed busy own

/-- Every removal of the chief belongs to a deletion, at the place of its rank. -/
theorem Sound.deletes_of_request? (sound : crew.Sound config chief)
    (led : Led chief config.path moves)
    (idle : ∀ party, crew.party? chief = some party → party.task? = none) {file : String}
    (due : (crew.run moves).request? chief = some (.remove file)) :
    ∃ past since party instant phase, moves = past ++ since ∧
      (crew.run past).party? chief = some party ∧ instant.Valid ∧ party.Deletes instant ∧
      file = MarkerDirectory.file config.path ⟨instant, phase⟩ ∧
      since.count (chief, .calls) = phase.rank := by
  obtain ⟨party, present, leads⟩ := (sound.run led).present
  have path : party.bus.path = config.path := congrArg Bus.Config.path leads.shared
  simp only [request?, present, Option.bind_some] at due
  obtain ⟨task, busy, due⟩ := Option.bind_eq_some_iff.mp due
  have deleting : crew.Deleting chief config.path moves task.left := by
    rcases sound.deleting led idle party task present busy with sweeps | deleting
    · rw [← path] at sweeps ⊢
      exact .of_sweeps present busy sweeps due
    · exact deleting
  obtain ⟨past, since, was, instant, next, split, there, valid, deletes, some, removes, _⟩ :=
    deleting
  obtain ⟨phase, rank, names⟩ := Marker.drop_names instant some
  rw [names] at removes
  have same := removes.request?.symm.trans due
  simp only [Option.some.injEq, Request.remove.injEq] at same
  exact ⟨past, since, was, instant, phase, split, there, valid, deletes, same.symm, rank.symm⟩

/-- The chief has created the marker of a start that has not returned. -/
def Starting (crew : Crew) (chief path : String) (instant : Instant) : Prop :=
  ∃ party task, crew.party? chief = some party ∧ party.task? = some task ∧
    task.action = .start instant ∧ ⟨.create (file path ⟨instant, .inflight⟩), false⟩ ∈ task.calls

theorem Sound.recorded (sound : crew.Sound config chief)
    (starting : crew.Starting chief config.path instant) :
    ⟨instant, .inflight⟩ ∈ crew.memory.markers config.path := by
  obtain ⟨party, task, present, busy, starts, written⟩ := starting
  obtain ⟨leader, there, leads⟩ := sound.present
  cases there.symm.trans present
  have path : party.bus.path = config.path := congrArg Bus.Config.path leads.shared
  rw [← path] at written ⊢
  obtain ⟨ordinary, before, formed, partly⟩ := leads.begun task busy
  -- the rest of the start, as if the chief went on alone
  obtain ⟨rest, performed⟩ :=
    Script.performs_run Memory.serve Fault.none task.left crew.memory
  have acts := Bus.acts Fault.reports_none leads.wellFormed ordinary (partly.performs performed)
  rw [starts] at acts
  have made := List.mem_append_left rest written
  have answered := acts.started_of_created made
  obtain ⟨_, _, cleaned, _, valid, calls, _, _, _, drains⟩ := acts.of_started answered
  have removals : ∀ call ∈ rest, ∃ file, call.request = .remove file := by
    intro call member
    obtain ⟨head, tail, first⟩ := List.exists_cons_of_ne_nil (List.ne_nil_of_mem written)
    rw [first, List.cons_append, List.cons.injEq] at calls
    exact drains.removes (calls.2 ▸ List.mem_append_right tail member)
  have kept := (acts.mem_markers_of_started leads.wellFormed formed answered).mpr
    ⟨.inl rfl, fun removed => ?_⟩
  · obtain ⟨named, member⟩ := Memory.mem_markers_iff.mp kept
    have earlier := (Memory.mem_namesAt_of_removals performed sound.formed removals).mp member
    exact Memory.mem_markers_iff.mpr ⟨named, earlier.1⟩
  · have limit : 1 ≤ party.bus.retention.limit :=
      leads.wellFormed.limit ▸ leads.wellFormed.valid.2.2.1
    have exceeds := acts.overhang_of_started leads.wellFormed answered valid removed
    have none := (Retention.mem_overhang_track limit).mp exceeds
    simp [leads.tidy] at none

/-- A load of the directory that is about to list it while an instant starts. -/
theorem Sound.shows_starting (sound : crew.Sound config chief)
    (present : crew.party? name = some party) (busy : party.task? = some task)
    (loads : task.action = .messages ∨ task.action = .pending)
    (shared : party.bus.path = config.path)
    (due : crew.request? name = some (.list config.path))
    (starting : crew.Starting chief config.path instant) :
    ∃ next outcome view,
      (crew.move name .calls).party? name = some ⟨party.bus, some next⟩ ∧
        next.left.value? = some outcome ∧ outcome.bus.view? = some view ∧
        ∃ message ∈ view, message.instant = instant := by
  obtain ⟨count, loading⟩ := sound.loads name party present task busy loads
  rw [request?_of_busy present busy, ← shared] at due
  have listing := loading.listing_of_request? loads due
  have moved := party?_move_self present .calls
  rw [Party.move_calls busy] at moved
  obtain ⟨held, shown, same, _⟩ := View.exists_mem_resolve (sound.recorded starting)
  rw [← shared] at shown
  exact ⟨_, _, _, moved, listing.shows task.calls crew.memory, rfl, held, shown, same⟩

/-- Whatever the interleaving, every load ends after two calls and shows the
markers of the moment of one of them.  From the beginning of a deletion to its
end, the markers resolve to the view from before it, or to that view without the
instant; every removal is part of a deletion.  A load that lists the directory
between the creation of a start and its return shows the instant. -/
theorem loads_are_snapshots (opens : crew.Opens config chief)
    (led : Led chief config.path moves) :
    (∀ past between name action bus, moves = past ++ (name, .begins action) :: between →
      (action = .messages ∨ action = .pending) →
      (crew.run past).party? name = some { bus } → (name, .returns) ∉ between →
      ∃ task, (crew.run moves).party? name = some ⟨bus, some task⟩ ∧
        (2 ≤ between.count (name, .calls) → task.left.value?.isSome) ∧
        ∀ outcome, task.left.value? = some outcome →
          ((crew.run past).move name (.begins action)).Reads name bus action between outcome) ∧
    (∀ past since party instant, moves = past ++ since →
      (crew.run past).party? chief = some party → instant.Valid → party.Deletes instant →
      since.count (chief, .calls) ≤ Phase.all.length →
      let earlier := View.resolve ((crew.run past).memory.markers config.path)
      let later := View.resolve ((crew.run moves).memory.markers config.path)
      later = earlier ∨ later = earlier.filter (·.instant ≠ instant)) ∧
    (∀ file, (crew.run moves).request? chief = some (.remove file) →
      ∃ past since party instant phase, moves = past ++ since ∧
        (crew.run past).party? chief = some party ∧ instant.Valid ∧ party.Deletes instant ∧
        file = MarkerDirectory.file config.path ⟨instant, phase⟩ ∧
        since.count (chief, .calls) = phase.rank) ∧
    ∀ name party task instant, (crew.run moves).party? name = some party →
      party.task? = some task → (task.action = .messages ∨ task.action = .pending) →
      party.bus.path = config.path → (crew.run moves).request? name = some (.list config.path) →
      (crew.run moves).Starting chief config.path instant →
      ∃ next outcome view,
        ((crew.run moves).move name .calls).party? name = some ⟨party.bus, some next⟩ ∧
          next.left.value? = some outcome ∧ outcome.bus.view? = some view ∧
          ∃ message ∈ view, message.instant = instant := by
  have sound := opens.sound
  refine ⟨?_, ?_, ?_, ?_⟩
  · rintro past between name action bus rfl loads present stays
    have ordinary : action.ordinary := by rcases loads with rfl | rfl <;> rfl
    have begun := party?_move_self present (.begins action)
    rw [Party.move_begins rfl ordinary] at begun
    obtain ⟨task, busy, ends, reads⟩ := ends_of_loading begun loads .begun stays
    rw [run_append]
    refine ⟨task, busy, ends, fun outcome ended => (reads outcome ended).resolve_left ?_⟩
    intro early
    obtain ⟨probed, same, _⟩ := bus.actOn_of_loads loads
    rw [same] at early
    cases early
  · rintro past since party instant rfl present valid deletes within earlier later
    have ledPast : Led chief config.path past := fun name action member =>
      led name action (List.mem_append_left _ member)
    have ledSince : Led chief config.path since := fun name action member =>
      led name action (List.mem_append_right _ member)
    have now := sound.run ledPast
    obtain ⟨leader, there, leads⟩ := now.present
    cases there.symm.trans present
    have path : party.bus.path = config.path := congrArg Bus.Config.path leads.shared
    obtain ⟨task, next, busy, due⟩ := deletes
    rw [path] at due
    have removes := (Script.removes_deleteAll valid).mp due
    have memory := now.memory_of_removes ledSince present busy removes
      (by simpa [Marker.names] using within)
    have nonempty : config.path ≠ "" := path ▸ leads.wellFormed.path_ne_empty
    have faded := Memory.faded_without now.formed nonempty valid (since.count (chief, .calls))
    rw [← memory, ← run_append] at faded
    exact faded.resolve_eq
  · exact fun file => sound.deletes_of_request? led fun party => opens.idle chief party
  · intro name party task instant present busy loads shared due starting
    exact (sound.run led).shows_starting present busy loads shared due starting

def single : Bus :=
  { config := Coordinator.single.config, retention := { limit := 1 } }

/-- A chief that keeps one instant, and a reader. -/
def pair : Crew :=
  { parties := (({} : Named Party).insert "w" { bus := single }).insert "r" { bus := single } }

theorem opens_pair : pair.Opens Coordinator.single.config "w" where
  formed := Memory.wellFormed_empty
  chief := ⟨single, rfl, rfl⟩
  idle name party present := by
    simp only [pair, party?] at present
    by_cases reader : name = "r"
    · rw [reader, Named.get?_insert_self] at present
      cases present
      rfl
    · rw [Named.get?_insert_of_ne _ reader] at present
      by_cases chief : name = "w"
      · rw [chief, Named.get?_insert_self] at present
        cases present
        rfl
      · simp [Named.get?_insert_of_ne _ chief] at present

/-- The chief starts `b` and deletes the markers of the completed `a`.  One of
them is gone when the reader, who has found the directory, is about to list it. -/
def meeting : List (String × Move) :=
  [("w", .begins .bootstrap), ("w", .calls), ("w", .returns),
    ("w", .begins (.start "a")), ("w", .calls), ("w", .returns),
    ("w", .begins (.commit "a")), ("w", .calls), ("w", .returns),
    ("w", .begins (.start "b")), ("r", .begins .messages), ("w", .calls), ("r", .calls),
    ("w", .calls)]

theorem led_meeting (rest : List (String × Move)) (silent : ∀ move ∈ rest, move = ("r", .calls)) :
    Led "w" Coordinator.single.config.path (meeting ++ rest) := by
  intro name action member other
  rcases List.mem_append.mp member with early | late
  · simp only [meeting, List.mem_cons, Prod.mk.injEq, Move.begins.injEq, reduceCtorEq, and_false,
      List.not_mem_nil, or_false, false_or] at early
    rcases early with ⟨rfl, _⟩ | ⟨rfl, _⟩ | ⟨rfl, _⟩ | ⟨rfl, _⟩ | ⟨_, rfl⟩
    · exact absurd rfl other
    · exact absurd rfl other
    · exact absurd rfl other
    · exact absurd rfl other
    · rfl
  · cases silent _ late

theorem meeting_shows : ∃ past since party next outcome view,
    meeting = past ++ since ∧ (pair.run past).party? "w" = some party ∧ party.Deletes "a" ∧
    since.count ("w", .calls) = 1 ∧
    (let earlier := View.resolve ((pair.run past).memory.markers "t/d")
      let later := View.resolve ((pair.run meeting).memory.markers "t/d")
      later = earlier ∨ later = earlier.filter (·.instant ≠ "a")) ∧
    (pair.run (meeting ++ [("r", .calls)])).party? "r" = some ⟨single, some next⟩ ∧
    next.left.value? = some outcome ∧ outcome.bus.view? = some view ∧
    (∃ message ∈ view, message.instant = "b") ∧
    ∃ (earlier : Crew) (between : List (String × Move)),
      earlier.Reads "r" single .messages between outcome := by
  have led := led_meeting [] (by simp)
  rw [List.append_nil] at led
  obtain ⟨_, fades, belongs, contains⟩ := loads_are_snapshots opens_pair led
  obtain ⟨past, since, party, instant, phase, split, present, valid, deletes, file, count⟩ :=
    belongs "t/d/a.aborted" (by decide +kernel)
  have spelt : MarkerDirectory.file Coordinator.single.config.path ⟨"a", .aborted⟩ =
      "t/d/a.aborted" := by decide +kernel
  have same : (⟨"a", .aborted⟩ : Message) = ⟨instant, phase⟩ :=
    file_injective (by decide +kernel) (by decide) valid (spelt.trans file)
  cases same
  have faded := fades past since party "a" split present valid deletes (by rw [count]; decide)
  have reading : ((pair.run meeting).party? "r").map (fun party =>
      (party.bus, party.task?.map (·.action))) = some (single, some .messages) := by
    decide +kernel
  obtain ⟨reader, there, reads⟩ := Option.map_eq_some_iff.mp reading
  obtain ⟨bus, busy⟩ := Prod.mk.inj reads
  obtain ⟨task, busy, loads⟩ := Option.map_eq_some_iff.mp busy
  have writing : ((pair.run meeting).party? "w").bind (fun party => party.task?.map fun task =>
      (task.action, decide (⟨.create "t/d/b.inflight", false⟩ ∈ task.calls))) =
      some (.start "b", true) := by
    decide +kernel
  obtain ⟨writer, writes, started⟩ := Option.bind_eq_some_iff.mp writing
  obtain ⟨start, begun, started⟩ := Option.map_eq_some_iff.mp started
  obtain ⟨starts, created⟩ := Prod.mk.inj started
  have starting : (pair.run meeting).Starting "w" Coordinator.single.config.path "b" :=
    ⟨writer, start, writes, begun, starts, of_decide_eq_true created⟩
  obtain ⟨next, outcome, view, ends, ended, shown, contains⟩ := contains "r" reader task "b" there
    busy (.inl loads) (by rw [bus]; rfl) (by decide +kernel) starting
  rw [bus] at ends
  have whole : (pair.run (meeting ++ [("r", .calls)])).party? "r" = some ⟨single, some next⟩ := by
    rw [run_append]
    exact ends
  obtain ⟨snapshots, _⟩ := loads_are_snapshots opens_pair (led_meeting [("r", .calls)] (by simp))
  obtain ⟨last, found, _, tells⟩ := snapshots (meeting.take 10) (meeting.drop 11 ++ [("r", .calls)])
    "r" .messages single rfl (.inl rfl) rfl (by decide)
  cases found.symm.trans whole
  exact ⟨past, since, party, next, outcome, view, split, present, deletes, count, faded, whole,
    ended, shown, contains, _, _, tells outcome ended⟩

end Crew

end MarkerBus
