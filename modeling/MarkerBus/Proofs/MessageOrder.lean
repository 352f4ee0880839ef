import MarkerBus.Proofs.View

namespace MarkerBus

namespace Message

variable {left right : Message}

theorem not_lt_iff : ¬ right < left ↔
    left.instant < right.instant ∨
      left.instant = right.instant ∧ left.phase.rank ≤ right.phase.rank := by
  rw [lt_iff]
  constructor
  · intro least
    rcases lt_trichotomy left.instant right.instant with below | same | above
    · exact .inl below
    · exact .inr ⟨same, not_lt.mp fun outranks => least (.inr ⟨same.symm, outranks⟩)⟩
    · exact absurd (.inl above) least
  · rintro (below | ⟨same, bounded⟩) (above | ⟨again, outranks⟩)
    · exact lt_asymm below above
    · exact ne_of_gt below again
    · exact ne_of_gt above same
    · exact not_lt.mpr bounded outranks

theorem not_lt_of_lt (below : left < right) : ¬ right < left :=
  not_lt_iff.mpr ((lt_iff.mp below).imp_right (.imp_right le_of_lt))

/-- No message stands before a lesser one. -/
def Sorted (messages : List Message) : Prop :=
  messages.Pairwise fun left right => ¬ right < left

theorem sort_perm (messages : List Message) : (sort messages).Perm messages :=
  List.mergeSort_perm messages _

theorem sorted_sort (messages : List Message) : Sorted (sort messages) := by
  have ordered : (sort messages).Pairwise fun left right => !decide (right < left) := by
    refine List.pairwise_mergeSort (fun low middle high first second => ?_)
      (fun left right => ?_) messages
    · simp only [Bool.not_eq_true', decide_eq_false_iff_not, not_lt_iff] at first second ⊢
      rcases first with below | ⟨same, bounded⟩ <;> rcases second with above | ⟨again, level⟩
      · exact .inl (below.trans above)
      · exact .inl (again ▸ below)
      · exact .inl (same ▸ above)
      · exact .inr ⟨same.trans again, bounded.trans level⟩
    · simp only [Bool.or_eq_true, Bool.not_eq_true', decide_eq_false_iff_not]
      by_cases above : right < left
      · exact .inr (not_lt_of_lt above)
      · exact .inl above
  exact ordered.imp fun least => by simpa using least

/-- Of every run of messages about one instant, the last message. -/
def lastOfEach : List Message → List Message
  | [] => []
  | [message] => [message]
  | message :: next :: rest =>
      if message.instant = next.instant then lastOfEach (next :: rest)
      else message :: lastOfEach (next :: rest)

theorem lastOfEach_sublist (messages : List Message) :
    (lastOfEach messages).Sublist messages := by
  fun_induction lastOfEach messages with
  | case1 => exact .slnil
  | case2 message => exact .refl _
  | case3 message next rest same ih => exact ih.cons message
  | case4 message next rest apart ih => exact ih.cons_cons message

theorem Sorted.exists_mem_lastOfEach {messages : List Message} (sorted : Sorted messages)
    {message : Message} (member : message ∈ messages) :
    ∃ held ∈ lastOfEach messages, held.instant = message.instant ∧
      message.phase.rank ≤ held.phase.rank := by
  fun_induction lastOfEach messages generalizing message with
  | case1 => cases member
  | case2 only =>
      rw [List.mem_singleton.mp member]
      exact ⟨only, List.mem_singleton_self only, rfl, le_rfl⟩
  | case3 head next rest same ih =>
      obtain ⟨least, later⟩ := List.pairwise_cons.mp sorted
      rcases List.mem_cons.mp member with rfl | member
      -- the head goes with the run of the next message, which ranks no lower
      · obtain ⟨held, shown, about, above⟩ := ih later List.mem_cons_self
        have bounded : message.phase.rank ≤ next.phase.rank := by
          rcases not_lt_iff.mp (least next List.mem_cons_self) with below | ⟨_, bounded⟩
          · exact absurd same (ne_of_lt below)
          · exact bounded
        exact ⟨held, shown, about.trans same.symm, bounded.trans above⟩
      · exact ih later member
  | case4 head next rest apart ih =>
      rcases List.mem_cons.mp member with rfl | member
      · exact ⟨message, List.mem_cons_self, rfl, le_rfl⟩
      · obtain ⟨held, shown, given⟩ := ih (List.pairwise_cons.mp sorted).2 member
        exact ⟨held, List.mem_cons_of_mem _ shown, given⟩

theorem Sorted.ascending_lastOfEach {messages : List Message} (sorted : Sorted messages) :
    View.Ascending (lastOfEach messages) := by
  fun_induction lastOfEach messages with
  | case1 => exact .nil
  | case2 message => exact List.pairwise_singleton _ _
  | case3 message next rest same ih => exact ih (List.pairwise_cons.mp sorted).2
  | case4 message next rest apart ih =>
      obtain ⟨least, later⟩ := List.pairwise_cons.mp sorted
      refine List.pairwise_cons.mpr ⟨fun held shown => ?_, ih later⟩
      have below : message.instant < next.instant := by
        rcases not_lt_iff.mp (least next List.mem_cons_self) with below | ⟨same, _⟩
        · exact below
        · exact absurd same apart
      rcases List.mem_cons.mp ((lastOfEach_sublist (next :: rest)).subset shown) with rfl | member
      · exact below
      · rcases not_lt_iff.mp ((List.pairwise_cons.mp later).1 held member) with above | ⟨same, _⟩
        · exact below.trans above
        · exact same ▸ below

end Message

namespace View

open Message

variable {messages sorted : List Message}

theorem resolve_eq_lastOfEach (ordered : Sorted sorted) (shuffled : sorted.Perm messages) :
    resolve messages = lastOfEach sorted := by
  calc
    resolve messages = resolve sorted := resolve_congr fun _ => shuffled.symm.mem_iff
    _ = resolve (lastOfEach sorted) :=
      resolve_eq_of_covers (fun _ shown => (lastOfEach_sublist sorted).subset shown)
        fun _ => ordered.exists_mem_lastOfEach
    _ = lastOfEach sorted := ordered.ascending_lastOfEach.resolve_eq

theorem exists_mem_resolve_iff {instant : Instant} :
    (∃ held ∈ resolve messages, held.instant = instant) ↔
      ∃ message ∈ messages, message.instant = instant := by
  constructor
  · rintro ⟨held, shown, about⟩
    exact ⟨held, (mem_resolve_iff.mp shown).1, about⟩
  · rintro ⟨message, member, rfl⟩
    obtain ⟨held, shown, same, _⟩ := exists_mem_resolve member
    exact ⟨held, shown, same⟩

/-- Parts of a list may be resolved beforehand. -/
theorem resolve_append (left right : List Message) :
    resolve (left ++ right) = resolve (resolve left ++ resolve right) := by
  apply resolve_eq_of_covers
  · intro message member
    rcases List.mem_append.mp member with inside | inside
    · exact List.mem_append_left _ (mem_resolve_iff.mp inside).1
    · exact List.mem_append_right _ (mem_resolve_iff.mp inside).1
  · intro message member
    rcases List.mem_append.mp member with inside | inside
    · obtain ⟨held, shown, given⟩ := exists_mem_resolve inside
      exact ⟨held, List.mem_append_left _ shown, given⟩
    · obtain ⟨held, shown, given⟩ := exists_mem_resolve inside
      exact ⟨held, List.mem_append_right _ shown, given⟩

/-- Messages resolve to what their order says: sorted, the last of every instant.
The view ascends and shows each instant with its greatest rank; it does not
depend on order and repetitions, and resolving beforehand does not change it. -/
theorem resolve_follows_order :
    (∀ messages, resolve messages = lastOfEach (sort messages)) ∧
    (∀ messages, (resolve messages).Pairwise fun left right => left.instant < right.instant) ∧
    (∀ messages instant, (∃ held ∈ resolve messages, held.instant = instant) ↔
      ∃ message ∈ messages, message.instant = instant) ∧
    (∀ messages, ∀ held ∈ resolve messages, held ∈ messages ∧
      ∀ message ∈ messages, message.instant = held.instant →
        message.phase.rank ≤ held.phase.rank) ∧
    (∀ left right, (∀ message, message ∈ left ↔ message ∈ right) →
      resolve left = resolve right) ∧
    (∀ messages, resolve (resolve messages) = resolve messages) ∧
    ∀ left right, resolve (left ++ right) = resolve (resolve left ++ resolve right) := by
  refine ⟨fun messages => ?_, ascending_resolve, fun _ _ => exists_mem_resolve_iff,
    fun _ _ => mem_resolve_iff.mp, fun _ _ => resolve_congr, fun messages => ?_, resolve_append⟩
  · exact resolve_eq_lastOfEach (sorted_sort messages) (sort_perm messages)
  · exact (ascending_resolve messages).resolve_eq

/-- The instants stand in no order, one is a beginning of the other, and a message
comes twice. -/
theorem shuffled_messages_resolve :
    let messages : List Message :=
      [⟨"a.b", .aborted⟩, ⟨"a", .inflight⟩, ⟨"a.b", .inflight⟩, ⟨"a", .completed⟩,
        ⟨"a.b", .aborted⟩]
    let shuffled : List Message :=
      [⟨"a", .completed⟩, ⟨"a.b", .inflight⟩, ⟨"a", .inflight⟩, ⟨"a.b", .aborted⟩]
    (∀ message, message ∈ messages ↔ message ∈ shuffled) ∧ resolve messages = resolve shuffled ∧
      resolve messages = lastOfEach (sort messages) ∧
      resolve messages = [⟨"a", .completed⟩, ⟨"a.b", .aborted⟩] := by
  intro messages shuffled
  obtain ⟨ordered, _, _, _, same, _⟩ := resolve_follows_order
  have members : ∀ message, message ∈ messages ↔ message ∈ shuffled := by
    intro message
    simp only [messages, shuffled, List.mem_cons, List.not_mem_nil, or_false]
    tauto
  exact ⟨members, same messages shuffled members, ordered messages, by decide +kernel⟩

end View

end MarkerBus
