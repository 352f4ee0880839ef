import MarkerBus.Proofs.MarkerDirectory
import MarkerBus.Retention

namespace MarkerBus.Retention

open Storage MarkerDirectory

variable {retention : Retention} {instant other : Instant} {path : String} {limit : Nat}
  {queue freed : List Instant} {calls : List Call} {cleaning : Cleaning}
  {before after : Memory} {fault : Fault} {message : Message}

theorem mem_track : other ∈ (retention.track instant).queue ↔
    other = instant ∨ other ∈ retention.queue := by
  unfold track
  split
  · rename_i tracked
    refine ⟨.inr, ?_⟩
    intro either
    rcases either with rfl | member
    · exact tracked
    · exact member
  · simp [or_comm]

@[simp] theorem limit_track : (retention.track instant).limit = retention.limit := by
  unfold track
  split <;> rfl

theorem nodup_track (distinct : retention.queue.Nodup) :
    (retention.track instant).queue.Nodup := by
  unfold track
  split
  · exact distinct
  · rename_i fresh
    refine List.nodup_append.mpr ⟨distinct, by simp, ?_⟩
    intro other member last single same
    subst same
    rw [List.mem_singleton.mp single] at member
    exact fresh member

/-- An instant that is new makes the queue longer by one. -/
theorem length_track (retention : Retention) (instant : Instant) :
    (retention.track instant).queue.length =
      retention.queue.length + if instant ∉ retention.queue then 1 else 0 := by
  unfold track
  split <;> simp [*]

/-- The instants, oldest first, that are kept beyond the limit. -/
def overhang (retention : Retention) : List Instant :=
  retention.queue.take (retention.queue.length - retention.limit)

/-- An instant that was new stands last, within the limit; one that was tracked
stays where it was. -/
theorem mem_overhang_track (limit : 1 ≤ retention.limit) :
    instant ∈ (retention.track instant).overhang ↔ instant ∈ retention.overhang := by
  by_cases tracked : instant ∈ retention.queue
  · rw [track, if_pos tracked]
  · have apart : instant ∉ retention.overhang := fun member => tracked (List.mem_of_mem_take member)
    refine ⟨fun member => ?_, fun member => absurd member apart⟩
    rw [track, if_neg tracked] at member
    have short : retention.queue.length + 1 - retention.limit ≤ retention.queue.length := by omega
    simp only [overhang, List.length_append, List.length_singleton,
      List.take_append_of_le_length short] at member
    exact absurd (List.mem_of_mem_take member) tracked

theorem getLast?_notMem_overhang (distinct : retention.queue.Nodup)
    (limit : 1 ≤ retention.limit) (last : retention.queue.getLast? = some instant) :
    instant ∉ retention.overhang := by
  obtain ⟨front, split⟩ := List.getLast?_eq_some_iff.mp last
  intro member
  have short : retention.queue.length - retention.limit ≤ front.length := by
    simp only [split, List.length_append, List.length_singleton]
    omega
  rw [overhang, split] at member
  rw [split] at distinct short
  rw [List.take_append_of_le_length short] at member
  exact (List.nodup_append.mp distinct).2.2 instant (List.mem_of_mem_take member) instant
    (by simp) rfl

theorem mem_drop_iff (distinct : queue.Nodup) {count : Nat} :
    other ∈ queue.drop count ↔ other ∈ queue ∧ other ∉ queue.take count := by
  rw [← List.take_append_drop count queue] at distinct
  have apart := (List.nodup_append.mp distinct).2.2
  constructor
  · intro kept
    exact ⟨List.mem_of_mem_drop kept, fun gone => apart other gone other kept rfl⟩
  · intro given
    obtain ⟨tracked, kept⟩ := given
    rw [← List.take_append_drop count queue] at tracked
    exact (List.mem_append.mp tracked).resolve_left kept

def freeing (path : String) (freed : List Instant) : List Call :=
  freed.flatMap fun instant => (removals path instant).map fun request => ⟨request, false⟩

theorem mem_freeing {call : Call} : call ∈ freeing path freed ↔
    call.failed = false ∧ ∃ instant ∈ freed, call.request ∈ removals path instant := by
  obtain ⟨request, failed⟩ := call
  simp only [freeing, List.mem_flatMap, List.mem_map, Call.mk.injEq]
  constructor
  · intro given
    obtain ⟨instant, member, request, removal, rfl, rfl⟩ := given
    exact ⟨rfl, instant, member, removal⟩
  · intro given
    obtain ⟨rfl, instant, member, removal⟩ := given
    exact ⟨instant, member, request, removal, rfl, rfl⟩

inductive Drains (fault : Fault) (path : String) (limit : Nat) (queue : List Instant) :
    List Call → Cleaning → Prop where
  | finished {freed kept : List Instant} (split : queue = freed ++ kept)
      (enough : kept.length ≤ limit) (needed : freed = [] ∨ kept.length = limit) :
      Drains fault path limit queue (freeing path freed) ⟨.ok none, freed.length, kept⟩
  | stuck {freed rest : List Instant} {head : Instant} {tried : List Call}
      (split : queue = freed ++ head :: rest) (exceeds : limit < (head :: rest).length)
      (requests : tried.map Call.request = removals path head)
      (failed : ∃ call ∈ tried, call.failed = true ∧
        ∃ failure, fault call.request failure) :
      Drains fault path limit queue (freeing path freed ++ tried)
        ⟨.ok (some (warning path head (head :: rest).length)), freed.length, head :: rest⟩

theorem freeing_cons : freeing path (instant :: freed) =
    freeing path [instant] ++ freeing path freed := by
  simp [freeing]

theorem eq_freeing_of_served (requests : calls.map Call.request = removals path instant)
    (served : calls.all fun call => !call.failed) : calls = freeing path [instant] := by
  simp only [freeing, List.flatMap_cons, List.flatMap_nil, List.append_nil]
  rw [← requests, List.map_map]
  refine (List.map_id _).symm.trans (List.map_congr_left fun call member => ?_)
  have passed := List.all_eq_true.mp served call member
  obtain ⟨request, failed⟩ := call
  simpa using passed

/-- What frees the oldest instant and then drains the rest drains the whole. -/
theorem Drains.cons (exceeds : limit < (instant :: queue).length)
    (drains : Drains fault path limit queue calls cleaning) :
    Drains fault path limit (instant :: queue) (freeing path [instant] ++ calls)
      { cleaning with cleaned := cleaning.cleaned + 1 } := by
  cases drains with
  | @finished freed kept split enough needed =>
      rw [← freeing_cons]
      refine .finished (by rw [split, List.cons_append]) enough (.inr ?_)
      rcases needed with rfl | full
      · subst split
        exact le_antisymm enough (Nat.lt_succ_iff.mp exceeds)
      · exact full
  | stuck split exceeds requests failed =>
      rw [← List.append_assoc, ← freeing_cons]
      exact .stuck (by rw [split, List.cons_append]) exceeds requests failed

theorem Drains.of_failed (exceeds : limit < (instant :: queue).length)
    (requests : calls.map Call.request = removals path instant)
    (failed : (calls.all fun call => !call.failed) = false) {deleted : Bool}
    (performed : Performs Memory.serve fault (deleteAll path instant)
      before calls (.ok deleted) after) :
    Drains fault path limit (instant :: queue) calls
      ⟨.ok (some (warning path instant (instant :: queue).length)), 0, instant :: queue⟩ := by
  obtain ⟨call, member, struck⟩ := List.all_eq_false.mp failed
  have struck : call.failed = true := by simpa using struck
  have removal : call.request ∈ removals path instant := by
    rw [← requests]
    exact List.mem_map_of_mem member
  obtain ⟨phase, same⟩ := mem_removals.mp removal
  have cause : ∃ failure, fault call.request failure := by
    rw [same]
    apply Memory.fault_of_failed_removal performed
    rw [← same, ← struck]
    exact member
  exact @Drains.stuck fault path limit _ [] queue instant calls rfl exceeds requests
    ⟨call, member, struck, cause⟩

theorem performs_drain (reports : fault.Reports) (valid : ∀ instant ∈ queue, instant.Valid)
    (performed : Performs Memory.serve fault (drain path limit queue)
      before calls cleaning after) :
    Drains fault path limit queue calls cleaning := by
  induction queue generalizing before calls cleaning with
  | nil =>
      obtain ⟨rfl, rfl, rfl⟩ := performed.of_pure
      exact @Drains.finished fault path limit _ [] _ rfl (Nat.zero_le _) (.inl rfl)
  | cons oldest rest ih =>
      unfold drain at performed
      split at performed
      · rename_i room
        obtain ⟨rfl, rfl, rfl⟩ := performed.of_pure
        exact @Drains.finished fault path limit _ [] _ rfl room (.inl rfl)
      · rename_i full
        have exceeds : limit < (oldest :: rest).length := Nat.lt_succ_of_le (not_lt.mp full)
        obtain ⟨tried, answer, middle, later, deleted, tail, rfl⟩ := performed.of_bind
        obtain ⟨requests, rfl⟩ := performs_deleteAll reports (valid oldest (by simp)) deleted
        cases served : tried.all fun call => !call.failed with
        | false =>
            simp only [served] at tail
            obtain ⟨rfl, rfl, rfl⟩ := tail.of_pure
            rw [List.append_nil]
            exact .of_failed exceeds requests served deleted
        | true =>
            simp only [served] at tail
            obtain ⟨recursed, cleaned, final, last, drained, answered, rfl⟩ :=
              tail.of_log.of_bind
            obtain ⟨rfl, rfl, rfl⟩ := answered.of_pure
            have tailValid : ∀ instant ∈ rest, instant.Valid :=
              fun instant member => valid instant (List.mem_cons_of_mem _ member)
            rw [eq_freeing_of_served requests served, List.append_nil]
            exact (ih tailValid drained).cons exceeds

/-- Only instants that overhang the limit are touched. -/
theorem Drains.touches (drains : Drains fault path limit queue calls cleaning) {call : Call}
    (made : call ∈ calls) :
    ∃ instant ∈ queue.take (queue.length - limit), call.request ∈ removals path instant := by
  cases drains with
  | @finished freed kept split enough needed =>
      obtain ⟨_, instant, member, removal⟩ := mem_freeing.mp made
      refine ⟨instant, ?_, removal⟩
      rcases needed with rfl | full
      · simp at member
      · have first : queue.take (queue.length - limit) = freed := by simp [split, full]
        exact first ▸ member
  | @stuck freed rest head tried split exceeds requests failed =>
      have beyond : freed.length + 1 ≤ queue.length - limit := by
        simp only [split, List.length_append]
        omega
      have covered : freed ++ [head] <+: queue.take (queue.length - limit) := by
        refine List.prefix_take_iff.mpr ⟨⟨rest, by simp [split]⟩, by simpa using beyond⟩
      rcases List.mem_append.mp made with swept | attempted
      · obtain ⟨_, instant, member, removal⟩ := mem_freeing.mp swept
        exact ⟨instant, covered.subset (by simp [member]), removal⟩
      · refine ⟨head, covered.subset (by simp), ?_⟩
        rw [← requests]
        exact List.mem_map_of_mem attempted

theorem Drains.removes (drains : Drains fault path limit queue calls cleaning) {call : Call}
    (made : call ∈ calls) : ∃ file, call.request = .remove file := by
  obtain ⟨instant, _, removal⟩ := drains.touches made
  obtain ⟨phase, same⟩ := mem_removals.mp removal
  exact ⟨_, same⟩

theorem Drains.split (drains : Drains fault path limit queue calls cleaning) :
    ∃ freed, queue = freed ++ cleaning.queue ∧ cleaning.cleaned = freed.length ∧
      ∀ message : Message, message.instant ∈ freed →
        ⟨.remove (file path message), false⟩ ∈ calls := by
  have swept (freed : List Instant) (message : Message) (member : message.instant ∈ freed) :
      ⟨.remove (file path message), false⟩ ∈ freeing path freed :=
    mem_freeing.mpr ⟨rfl, message.instant, member, mem_removals.mpr ⟨message.phase, rfl⟩⟩
  cases drains with
  | @finished freed kept split enough needed => exact ⟨freed, split, rfl, swept freed⟩
  | @stuck freed rest head tried split exceeds requests failed =>
      exact ⟨freed, split, rfl, fun message member => List.mem_append_left _ (swept freed message member)⟩

theorem Drains.removed_of_notMem (drains : Drains fault path limit queue calls cleaning)
    (tracked : message.instant ∈ queue) (left : message.instant ∉ cleaning.queue) :
    ⟨.remove (file path message), false⟩ ∈ calls := by
  obtain ⟨freed, split, _, swept⟩ := drains.split
  rw [split, List.mem_append] at tracked
  exact swept message (tracked.resolve_right left)

theorem Drains.length_le_or_failed (drains : Drains fault path limit queue calls cleaning) :
    cleaning.queue.length ≤ limit ∨ ∃ file, ⟨.remove file, true⟩ ∈ calls := by
  cases drains with
  | finished split enough needed => exact .inl enough
  | stuck split exceeds requests failed =>
      obtain ⟨⟨request, struck⟩, member, rfl, _⟩ := failed
      have removal := List.mem_map_of_mem (f := Call.request) member
      rw [requests] at removal
      obtain ⟨phase, rfl⟩ := mem_removals.mp removal
      exact .inr ⟨_, List.mem_append_right _ member⟩

theorem Drains.queue_eq_drop (drains : Drains Fault.none path limit queue calls cleaning) :
    cleaning.queue = queue.drop (queue.length - limit) := by
  cases drains with
  | @finished freed kept split enough needed =>
      subst split
      rcases needed with rfl | full
      · simp [Nat.sub_eq_zero_of_le enough]
      · simp [full]
  | stuck split exceeds requests failed =>
      obtain ⟨_, _, _, _, impossible⟩ := failed
      exact impossible.elim

/-- A cleaning that leaves too many instants stops at the oldest of them. -/
theorem Drains.head_failed (drains : Drains fault path limit queue calls cleaning)
    (exceeds : limit < cleaning.queue.length) : ∃ head ∈ cleaning.queue.head?,
      ∃ request ∈ removals path head, ∃ failure, fault request failure := by
  cases drains with
  | finished split enough needed => exact absurd enough (Nat.not_le.mpr exceeds)
  | @stuck freed rest head tried split _ requests failed =>
      obtain ⟨call, member, _, struck⟩ := failed
      refine ⟨head, rfl, call.request, ?_, struck⟩
      rw [← requests]
      exact List.mem_map_of_mem member

theorem Drains.notMem_of_length_le (drains : Drains fault path limit queue calls cleaning)
    (distinct : queue.Nodup) (enough : cleaning.queue.length ≤ limit)
    (exceeds : instant ∈ queue.take (queue.length - limit)) : instant ∉ cleaning.queue := by
  obtain ⟨freed, split, _, _⟩ := drains.split
  subst split
  have short : (freed ++ cleaning.queue).length - limit ≤ freed.length := by
    rw [List.length_append]
    omega
  have gone : instant ∈ freed := by
    rw [List.take_append_of_le_length short] at exceeds
    exact List.mem_of_mem_take exceeds
  exact fun member => (List.nodup_append.mp distinct).2.2 instant gone instant member rfl

/-- An instant that stays in the queue though a marker of it was removed has
another marker that could not be removed. -/
theorem Drains.failed_of_removed (drains : Drains fault path limit queue calls cleaning)
    (nonempty : path ≠ "") (distinct : queue.Nodup) (valid : ∀ instant ∈ queue, instant.Valid)
    (named : message.instant.Valid) (removed : ⟨.remove (file path message), false⟩ ∈ calls)
    (stays : message.instant ∈ cleaning.queue) :
    ∃ phase, ⟨.remove (file path ⟨message.instant, phase⟩), true⟩ ∈ calls := by
  have owner {instant : Instant} (member : instant ∈ queue)
      (removal : .remove (file path message) ∈ removals path instant) :
      message.instant = instant := by
    obtain ⟨phase, same⟩ := mem_removals.mp removal
    rw [file_injective nonempty named (valid instant member) (by simpa using same)]
  have gone {freed kept : List Instant} (split : queue = freed ++ kept)
      (swept : ⟨.remove (file path message), false⟩ ∈ freeing path freed) :
      message.instant ∉ kept := by
    obtain ⟨_, instant, member, removal⟩ := mem_freeing.mp swept
    rw [owner (split ▸ List.mem_append_left _ member) removal]
    rw [split] at distinct
    exact fun later => (List.nodup_append.mp distinct).2.2 instant member instant later rfl
  cases drains with
  | finished split => exact absurd stays (gone split removed)
  | @stuck freed rest head tried split exceeds requests failed =>
      rcases List.mem_append.mp removed with swept | attempted
      · exact absurd stays (gone split swept)
      · have here : message.instant = head := by
          apply owner (by simp [split])
          rw [← requests]
          exact List.mem_map_of_mem attempted
        obtain ⟨⟨request, struck⟩, member, rfl, _⟩ := failed
        have removal := List.mem_map_of_mem (f := Call.request) member
        rw [requests, ← here] at removal
        obtain ⟨phase, rfl⟩ := mem_removals.mp removal
        exact ⟨phase, List.mem_append_right _ member⟩

/-- A message on record goes with the call that removes its marker. -/
theorem Drains.mem_markers (drains : Drains fault path limit queue calls cleaning)
    (performed : Performs Memory.serve fault (drain path limit queue)
      before calls cleaning after)
    (wellFormed : before.WellFormed) (nonempty : path ≠ "")
    (valid : ∀ instant ∈ queue, instant.Valid) :
    message ∈ after.markers path ↔
      message ∈ before.markers path ∧ ⟨.remove (file path message), false⟩ ∉ calls := by
  apply Memory.mem_markers_of_removals performed wellFormed nonempty
  intro call made
  obtain ⟨instant, member, removal⟩ := drains.touches made
  obtain ⟨phase, same⟩ := mem_removals.mp removal
  exact ⟨⟨instant, phase⟩, valid instant (List.mem_of_mem_take member), same⟩

end MarkerBus.Retention
