import MarkerBus.Text.Terminated

namespace MarkerBus

/-- Instants are compared by code point, as the bytes of their UTF-8 are. -/
abbrev Instant := String

namespace Instant

inductive Defect where
  | empty
  | slash (text : String)
deriving DecidableEq, Repr

namespace Defect

def message : Defect → String
  | .empty => "Checkpoint instant must not be empty"
  | .slash text => Text.beforeNul ("Checkpoint instant must not contain '/': " ++ text)

end Defect

def Valid (instant : Instant) : Prop :=
  instant ≠ "" ∧ '/' ∉ instant.toList

instance (instant : Instant) : Decidable instant.Valid :=
  inferInstanceAs (Decidable (_ ∧ _))

def validate (instant : Instant) : Except Defect Unit :=
  if instant = "" then
    .error .empty
  else if '/' ∈ instant.toList then
    .error (.slash instant)
  else
    .ok ()

theorem validate_eq_ok_iff {instant : Instant} :
    instant.validate = .ok () ↔ instant.Valid := by
  unfold validate Valid
  split
  · simp_all
  · split <;> simp_all

end Instant

end MarkerBus
