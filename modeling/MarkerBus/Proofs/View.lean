import Mathlib.Data.List.Nodup
import Mathlib.Data.String.Basic
import MarkerBus.View

namespace MarkerBus.View

variable {view : View} {message other : Message} {messages : List Message}

def Ascending (view : View) : Prop :=
  view.Pairwise fun left right => left.instant < right.instant

/-- The message is among the messages, and none about its instant ranks above it. -/
def Highest (messages : List Message) (message : Message) : Prop :=
  message ∈ messages ∧
    ∀ other ∈ messages, other.instant = message.instant → other.phase.rank ≤ message.phase.rank

/-- Two ascending views with the same members are the same view. -/
theorem Ascending.ext {left right : View} (leftAscending : left.Ascending)
    (rightAscending : right.Ascending)
    (same : ∀ message, message ∈ left ↔ message ∈ right) : left = right := by
  have leftDistinct : left.Nodup :=
    leftAscending.imp fun below equal => ne_of_lt below (congrArg Message.instant equal)
  have rightDistinct : right.Nodup :=
    rightAscending.imp fun below equal => ne_of_lt below (congrArg Message.instant equal)
  have shuffled : left.Perm right :=
    (List.perm_ext_iff_of_nodup leftDistinct rightDistinct).mpr same
  exact shuffled.eq_of_pairwise (fun _ _ _ _ below above => absurd below (lt_asymm above))
    leftAscending rightAscending

/-- A view shows no instant twice. -/
theorem Ascending.eq_of_instant_eq (ascending : view.Ascending) (member : message ∈ view)
    (inside : other ∈ view) (same : message.instant = other.instant) : message = other := by
  have distinct : (view.map Message.instant).Nodup :=
    List.pairwise_map.mpr (ascending.imp ne_of_lt)
  exact List.inj_on_of_nodup_map distinct member inside same

theorem Ascending.lt_of_lt_head {head : Message} {rest : View}
    (ascending : Ascending (head :: rest)) (before : message.instant < head.instant) :
    ∀ held ∈ head :: rest, message.instant < held.instant := by
  intro held member
  rcases List.mem_cons.mp member with rfl | later
  · exact before
  · exact lt_trans before ((List.pairwise_cons.mp ascending).1 held later)

theorem Ascending.tail_ne {head : Message} {rest : View} (ascending : Ascending (head :: rest))
    (same : head.instant = message.instant) : ∀ held ∈ rest, held.instant ≠ message.instant := by
  intro held later equal
  exact ne_of_lt ((List.pairwise_cons.mp ascending).1 held later) (same.trans equal.symm)

/-- The message brings itself in where nothing of its rank stands, drops what it
outranks, and leaves the rest. -/
def Joins (view : View) (message other : Message) : Prop :=
  other = message ∧
      (∀ held ∈ view, held.instant = message.instant → held.phase.rank < message.phase.rank) ∨
    other ∈ view ∧ ¬ (other.instant = message.instant ∧ other.phase.rank < message.phase.rank)

theorem joins_of_apart (apart : ∀ held ∈ view, held.instant ≠ message.instant) :
    Joins view message other ↔ other ∈ message :: view := by
  rw [List.mem_cons]
  constructor
  · intro either
    rcases either with ⟨same, _⟩ | ⟨member, _⟩
    · exact .inl same
    · exact .inr member
  · intro either
    rcases either with same | member
    · exact .inl ⟨same, fun held inside equal => absurd equal (apart held inside)⟩
    · exact .inr ⟨member, fun outranked => apart other member outranked.1⟩

theorem joins_cons_of_ne {head : Message} {rest : View} (apart : head.instant ≠ message.instant) :
    Joins (head :: rest) message other ↔ other = head ∨ Joins rest message other := by
  constructor
  · intro either
    rcases either with ⟨same, outranks⟩ | ⟨member, stays⟩
    · exact .inr (.inl ⟨same, fun held later => outranks held (List.mem_cons_of_mem _ later)⟩)
    · rcases List.mem_cons.mp member with same | later
      · exact .inl same
      · exact .inr (.inr ⟨later, stays⟩)
  · intro either
    rcases either with rfl | ⟨same, outranks⟩ | ⟨member, stays⟩
    · exact .inr ⟨List.mem_cons_self, fun outranked => apart outranked.1⟩
    · refine .inl ⟨same, ?_⟩
      intro held member equal
      rcases List.mem_cons.mp member with rfl | later
      · exact absurd equal apart
      · exact outranks held later equal
    · exact .inr ⟨List.mem_cons_of_mem _ member, stays⟩

theorem joins_cons_of_outranks {head : Message} {rest : View}
    (same : head.instant = message.instant) (outranks : head.phase.rank < message.phase.rank)
    (apart : ∀ held ∈ rest, held.instant ≠ message.instant) :
    Joins (head :: rest) message other ↔ other ∈ message :: rest := by
  rw [List.mem_cons]
  constructor
  · intro either
    rcases either with ⟨equal, _⟩ | ⟨member, stays⟩
    · exact .inl equal
    · rcases List.mem_cons.mp member with rfl | later
      · exact absurd ⟨same, outranks⟩ stays
      · exact .inr later
  · intro either
    rcases either with equal | later
    · refine .inl ⟨equal, ?_⟩
      intro held inside about
      rcases List.mem_cons.mp inside with rfl | later
      · exact outranks
      · exact absurd about (apart held later)
    · exact .inr ⟨List.mem_cons_of_mem _ later, fun outranked => apart other later outranked.1⟩

theorem joins_cons_of_holds {head : Message} {rest : View}
    (same : head.instant = message.instant) (holds : ¬ head.phase.rank < message.phase.rank)
    (apart : ∀ held ∈ rest, held.instant ≠ message.instant) :
    Joins (head :: rest) message other ↔ other ∈ head :: rest := by
  constructor
  · intro either
    rcases either with ⟨_, outranks⟩ | ⟨member, _⟩
    · exact absurd (outranks head List.mem_cons_self same) holds
    · exact member
  · intro member
    refine .inr ⟨member, ?_⟩
    rcases List.mem_cons.mp member with rfl | later
    · exact fun outranked => holds outranked.2
    · exact fun outranked => apart other later outranked.1

theorem mem_record (ascending : view.Ascending) :
    other ∈ view.record message ↔ Joins view message other := by
  induction view with
  | nil => simp [record, Joins]
  | cons head rest ih =>
      unfold record
      split
      · rename_i before
        have apart : ∀ held ∈ head :: rest, held.instant ≠ message.instant :=
          fun held member => ne_of_gt (ascending.lt_of_lt_head before held member)
        exact (joins_of_apart apart).symm
      · split
        · rename_i after
          rw [List.mem_cons, ih (List.pairwise_cons.mp ascending).2]
          exact (joins_cons_of_ne (ne_of_lt after)).symm
        · rename_i notBefore notAfter
          have same : head.instant = message.instant :=
            le_antisymm (not_lt.mp notBefore) (not_lt.mp notAfter)
          have apart := ascending.tail_ne same
          split
          · rename_i outranks
            exact (joins_cons_of_outranks same outranks apart).symm
          · rename_i holds
            exact (joins_cons_of_holds same holds apart).symm

theorem exists_mem_record (ascending : view.Ascending) :
    ∃ held ∈ view.record message, held.instant = message.instant := by
  by_cases outranks : ∀ held ∈ view, held.instant = message.instant →
      held.phase.rank < message.phase.rank
  · exact ⟨message, (mem_record ascending).mpr (.inl ⟨rfl, outranks⟩), rfl⟩
  · push Not at outranks
    obtain ⟨held, member, same, holds⟩ := outranks
    exact ⟨held, (mem_record ascending).mpr (.inr ⟨member, fun outranked => by omega⟩), same⟩

theorem Ascending.record (ascending : view.Ascending) : (view.record message).Ascending := by
  induction view with
  | nil => exact List.pairwise_singleton _ _
  | cons head rest ih =>
      obtain ⟨below, restAscending⟩ := List.pairwise_cons.mp ascending
      unfold View.record
      split
      · rename_i before
        exact List.pairwise_cons.mpr ⟨ascending.lt_of_lt_head before, ascending⟩
      · split
        · rename_i _ after
          refine List.pairwise_cons.mpr ⟨?_, ih restAscending⟩
          intro held member
          rcases (mem_record restAscending).mp member with ⟨rfl, _⟩ | ⟨later, _⟩
          · exact after
          · exact below held later
        · rename_i notBefore notAfter
          have same : head.instant = message.instant :=
            le_antisymm (not_lt.mp notBefore) (not_lt.mp notAfter)
          split
          · exact List.pairwise_cons.mpr ⟨fun held later => same ▸ below held later, restAscending⟩
          · exact ascending

/-- How a view stands to the messages that it was made of. -/
structure Resolves (messages : List Message) (view : View) : Prop where
  ascending : view.Ascending
  shows : ∀ message, message ∈ view ↔ Highest messages message
  covers : ∀ message ∈ messages, ∃ held ∈ view, held.instant = message.instant

theorem Resolves.highest_of_joins (resolves : Resolves messages view)
    (joins : Joins view message other) : Highest (messages ++ [message]) other := by
  rcases joins with ⟨rfl, outranks⟩ | ⟨member, stays⟩
  · refine ⟨by simp, ?_⟩
    intro earlier inside same
    rcases List.mem_append.mp inside with inside | last
    · obtain ⟨held, member, covered⟩ := resolves.covers earlier inside
      have bounded := ((resolves.shows held).mp member).2 earlier inside covered.symm
      exact le_of_lt (lt_of_le_of_lt bounded (outranks held member (covered.trans same)))
    · rw [List.mem_singleton.mp last]
  · obtain ⟨inside, highest⟩ := (resolves.shows other).mp member
    refine ⟨List.mem_append_left _ inside, ?_⟩
    intro earlier within same
    rcases List.mem_append.mp within with within | last
    · exact highest earlier within same
    · rw [List.mem_singleton.mp last] at same ⊢
      exact not_lt.mp fun outranked => stays ⟨same.symm, outranked⟩

theorem Resolves.joins_of_highest (resolves : Resolves messages view)
    (greatest : Highest (messages ++ [message]) other) : Joins view message other := by
  obtain ⟨inside, highest⟩ := greatest
  by_cases member : other ∈ view
  · refine .inr ⟨member, fun outranked => ?_⟩
    have bounded := highest message (by simp) outranked.1.symm
    omega
  · -- what the view does not show yet can only be the new message
    have missed : ¬ Highest messages other := fun shown => member ((resolves.shows other).mpr shown)
    have earlierBounded : ∀ earlier ∈ messages, earlier.instant = other.instant →
        earlier.phase.rank ≤ other.phase.rank :=
      fun earlier within => highest earlier (List.mem_append_left _ within)
    have last : other = message := by
      rcases List.mem_append.mp inside with earlier | last
      · exact absurd ⟨earlier, earlierBounded⟩ missed
      · exact List.mem_singleton.mp last
    subst last
    refine .inl ⟨rfl, ?_⟩
    intro held shown same
    obtain ⟨within, _⟩ := (resolves.shows held).mp shown
    apply lt_of_le_of_ne (earlierBounded held within same)
    intro level
    apply member
    rwa [Message.eq_of_rank_eq same level] at shown

theorem Resolves.record (resolves : Resolves messages view) (message : Message) :
    Resolves (messages ++ [message]) (view.record message) where
  ascending := resolves.ascending.record
  shows other := (mem_record resolves.ascending).trans
    ⟨resolves.highest_of_joins, resolves.joins_of_highest⟩
  covers earlier inside := by
    rcases List.mem_append.mp inside with inside | last
    · obtain ⟨held, member, covered⟩ := resolves.covers earlier inside
      by_cases outranked : held.instant = message.instant ∧ held.phase.rank < message.phase.rank
      · obtain ⟨kept, shown, same⟩ : ∃ kept ∈ view.record message,
            kept.instant = message.instant := exists_mem_record resolves.ascending
        exact ⟨kept, shown, same.trans (outranked.1.symm.trans covered)⟩
      · exact ⟨held, (mem_record resolves.ascending).mpr (.inr ⟨member, outranked⟩), covered⟩
    · rw [List.mem_singleton.mp last]
      exact exists_mem_record resolves.ascending

theorem resolves_resolve (messages : List Message) : Resolves messages (resolve messages) := by
  have start : Resolves [] [] :=
    ⟨.nil, fun message => by simp [Highest], fun message member => by simp at member⟩
  suffices generalized : ∀ (rest past : List Message) (view : View), Resolves past view →
      Resolves (past ++ rest) (rest.foldl (fun view message => view.record message) view) by
    exact generalized messages [] [] start
  intro rest
  induction rest with
  | nil =>
      intro past view resolves
      simpa using resolves
  | cons head rest ih =>
      intro past view resolves
      simpa using ih (past ++ [head]) (view.record head) (resolves.record head)

theorem ascending_resolve (messages : List Message) : (resolve messages).Ascending :=
  (resolves_resolve messages).ascending

theorem mem_resolve_iff : message ∈ resolve messages ↔ Highest messages message :=
  (resolves_resolve messages).shows message

theorem exists_mem_resolve (member : message ∈ messages) :
    ∃ held ∈ resolve messages, held.instant = message.instant ∧
      message.phase.rank ≤ held.phase.rank := by
  obtain ⟨held, shown, same⟩ := (resolves_resolve messages).covers message member
  exact ⟨held, shown, same, (mem_resolve_iff.mp shown).2 message member same.symm⟩

/-- Messages resolve to the same view as those among them that outrank the others. -/
theorem resolve_eq_of_covers {kept : List Message} (within : ∀ message ∈ kept, message ∈ messages)
    (covers : ∀ message ∈ messages, ∃ held ∈ kept, held.instant = message.instant ∧
      message.phase.rank ≤ held.phase.rank) : resolve messages = resolve kept := by
  refine (ascending_resolve messages).ext (ascending_resolve kept) fun message => ?_
  rw [mem_resolve_iff, mem_resolve_iff]
  constructor
  · rintro ⟨member, highest⟩
    obtain ⟨held, stays, same, above⟩ := covers message member
    have level := le_antisymm (highest held (within held stays) same) above
    obtain rfl := Message.eq_of_rank_eq same level
    exact ⟨stays, fun other inside => highest other (within other inside)⟩
  · rintro ⟨stays, highest⟩
    refine ⟨within message stays, fun other member about => ?_⟩
    obtain ⟨held, inside, same, above⟩ := covers other member
    exact above.trans (highest held inside (same.trans about))

theorem resolve_congr {left right : List Message}
    (same : ∀ message, message ∈ left ↔ message ∈ right) : resolve left = resolve right :=
  resolve_eq_of_covers (fun message => (same message).mpr)
    fun message member => ⟨message, (same message).mp member, rfl, le_rfl⟩

theorem Ascending.resolve_eq (ascending : view.Ascending) : resolve view = view := by
  refine (ascending_resolve view).ext ascending fun message => ?_
  rw [mem_resolve_iff]
  refine ⟨And.left, fun member => ⟨member, fun other inside about => ?_⟩⟩
  rw [ascending.eq_of_instant_eq inside member about]

theorem Ascending.getLast?_eq_some_iff (ascending : view.Ascending) :
    view.getLast? = some message ↔
      message ∈ view ∧ ∀ other ∈ view, other.instant ≤ message.instant := by
  constructor
  · intro last
    obtain ⟨front, rfl⟩ := List.getLast?_eq_some_iff.mp last
    refine ⟨by simp, ?_⟩
    intro other member
    rcases List.mem_append.mp member with earlier | same
    · exact le_of_lt ((List.pairwise_append.mp ascending).2.2 other earlier message (by simp))
    · rw [List.mem_singleton.mp same]
  · intro given
    obtain ⟨member, greatest⟩ := given
    obtain ⟨last, found⟩ : ∃ last, view.getLast? = some last := by
      cases found : view.getLast? with
      | none =>
          rw [List.getLast?_eq_none_iff.mp found] at member
          simp at member
      | some last => exact ⟨last, rfl⟩
    obtain ⟨front, rfl⟩ := List.getLast?_eq_some_iff.mp found
    rcases List.mem_append.mp member with earlier | same
    · have below := (List.pairwise_append.mp ascending).2.2 message earlier last (by simp)
      exact absurd below (not_lt.mpr (greatest last (by simp)))
    · rw [found, List.mem_singleton.mp same]

/-- The pending instant is the greatest one on record, unless it is complete. -/
theorem pending?_resolve_eq_some_iff {instant : Instant} :
    (resolve messages).pending? = some instant ↔
      (∃ message ∈ messages, message.instant = instant) ∧
        (∀ message ∈ messages, message.instant ≤ instant) ∧
        (⟨instant, .completed⟩ : Message) ∉ messages := by
  have ascending := ascending_resolve messages
  constructor
  · intro pending
    unfold pending? at pending
    cases last : (resolve messages).getLast? with
    | none => simp [last] at pending
    | some message =>
        obtain ⟨shown, greatest⟩ := ascending.getLast?_eq_some_iff.mp last
        obtain ⟨inside, highest⟩ := mem_resolve_iff.mp shown
        simp only [last, Option.ite_none_left_eq_some, Option.some.injEq] at pending
        obtain ⟨incomplete, rfl⟩ := pending
        refine ⟨⟨message, inside, rfl⟩, ?_, ?_⟩
        · intro other member
          obtain ⟨held, visible, same, _⟩ := exists_mem_resolve member
          exact same ▸ greatest held visible
        · intro complete
          have bounded := highest _ complete rfl
          apply incomplete
          cases phase : message.phase <;> simp_all [Message.isComplete, Phase.rank]
  · intro given
    obtain ⟨⟨message, member, rfl⟩, greatest, incomplete⟩ := given
    obtain ⟨held, shown, same, _⟩ := exists_mem_resolve member
    have last : (resolve messages).getLast? = some held := by
      refine ascending.getLast?_eq_some_iff.mpr ⟨shown, ?_⟩
      intro other visible
      exact same ▸ greatest other (mem_resolve_iff.mp visible).1
    have unfinished : held.isComplete = false := by
      apply decide_eq_false
      intro complete
      apply incomplete
      have inside := (mem_resolve_iff.mp shown).1
      obtain ⟨instant, phase⟩ := held
      cases same
      cases complete
      exact inside
    simp [pending?, last, unfinished, same]

theorem isAborted_iff {instant : Instant} :
    view.isAborted instant = true ↔ (⟨instant, .aborted⟩ : Message) ∈ view := by
  unfold isAborted
  rw [List.any_eq_true]
  constructor
  · intro given
    obtain ⟨⟨held, phase⟩, member, found⟩ := given
    obtain ⟨rfl, aborted⟩ : held = instant ∧ (⟨held, phase⟩ : Message).isAborted = true := by
      simpa using found
    cases of_decide_eq_true aborted
    exact member
  · intro member
    exact ⟨_, member, by simp [Message.isAborted]⟩

end MarkerBus.View
