import MarkerBus.Instant
import MarkerBus.Phase

namespace MarkerBus

structure Message where
  instant : Instant
  phase : Phase
deriving DecidableEq, Repr, Inhabited

namespace Message

def isInflight (message : Message) : Bool :=
  message.phase = .inflight

def isAborted (message : Message) : Bool :=
  message.phase = .aborted

def isComplete (message : Message) : Bool :=
  message.phase = .completed

def text (message : Message) : String :=
  "(" ++ message.instant ++ ", " ++ message.phase.name ++ ")"

/-- Messages are ordered by instant, and within an instant by rank. -/
instance : LT Message where
  lt left right :=
    left.instant < right.instant ∨
      left.instant = right.instant ∧ left.phase.rank < right.phase.rank

instance (left right : Message) : Decidable (left < right) :=
  inferInstanceAs (Decidable (_ ∨ _ ∧ _))

theorem lt_iff {left right : Message} :
    left < right ↔ left.instant < right.instant ∨
      left.instant = right.instant ∧ left.phase.rank < right.phase.rank :=
  Iff.rfl

theorem eq_of_rank_eq {left right : Message} (same : left.instant = right.instant)
    (level : left.phase.rank = right.phase.rank) : left = right := by
  cases left
  cases right
  cases same
  cases Phase.rank_injective level
  rfl

def sort (messages : List Message) : List Message :=
  messages.mergeSort fun left right => !decide (right < left)

end Message

end MarkerBus
