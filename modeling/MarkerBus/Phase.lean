namespace MarkerBus

inductive Phase where
  | inflight
  | aborted
  | completed
deriving DecidableEq, Repr, Inhabited

namespace Phase

def all : List Phase :=
  [.inflight, .aborted, .completed]

def rank : Phase → Nat
  | .inflight => 0
  | .aborted => 1
  | .completed => 2

def name : Phase → String
  | .inflight => "inflight"
  | .aborted => "aborted"
  | .completed => "completed"

def ofName? (text : String) : Option Phase :=
  all.find? (·.name = text)

theorem mem_all (phase : Phase) : phase ∈ all := by
  cases phase <;> decide

theorem rank_injective {left right : Phase} (same : left.rank = right.rank) : left = right := by
  cases left <;> cases right <;> simp_all [rank]

theorem name_injective {left right : Phase} (same : left.name = right.name) : left = right := by
  cases left <;> cases right <;> simp_all [name]

theorem ofName?_name (phase : Phase) : ofName? phase.name = some phase := by
  cases phase <;> decide

theorem ofName?_eq_some_iff {text : String} {phase : Phase} :
    ofName? text = some phase ↔ text = phase.name := by
  constructor
  · intro found
    have same := List.find?_some found
    exact (of_decide_eq_true same).symm
  · rintro rfl
    exact ofName?_name phase

theorem dot_notMem_name (phase : Phase) : '.' ∉ phase.name.toList := by
  cases phase <;> decide

end Phase

end MarkerBus
