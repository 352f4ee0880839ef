namespace MarkerBus

structure Named (α : Type) where
  entries : List (String × α) := []
deriving DecidableEq, Repr

namespace Named

variable {α : Type} {name other : String} {value : α}

def get? (known : Named α) (name : String) : Option α :=
  known.entries.lookup name

def erase (known : Named α) (name : String) : Named α :=
  ⟨known.entries.filter fun entry => entry.1 ≠ name⟩

def insert (known : Named α) (name : String) (value : α) : Named α :=
  ⟨(name, value) :: (known.erase name).entries⟩

@[simp] theorem get?_empty : ({} : Named α).get? name = none :=
  rfl

@[simp] theorem get?_erase_self (known : Named α) : (known.erase name).get? name = none := by
  simp only [get?, erase]
  induction known.entries with
  | nil => rfl
  | cons entry rest ih =>
      obtain ⟨key, held⟩ := entry
      by_cases same : key = name
      · simpa [same] using ih
      · have differs : (name == key) = false := by simpa using Ne.symm same
        simpa [same, List.lookup_cons, differs] using ih

theorem get?_erase_of_ne (known : Named α) (distinct : other ≠ name) :
    (known.erase name).get? other = known.get? other := by
  simp only [get?, erase]
  induction known.entries with
  | nil => rfl
  | cons entry rest ih =>
      obtain ⟨key, held⟩ := entry
      by_cases same : key = name
      · subst same
        have differs : (other == key) = false := by simpa using distinct
        simpa [List.lookup_cons, differs] using ih
      · simp only [ne_eq, same, not_false_eq_true, decide_true, List.filter_cons_of_pos,
          List.lookup_cons]
        rw [ih]

@[simp] theorem get?_insert_self (known : Named α) :
    (known.insert name value).get? name = some value := by
  simp [get?, insert]

theorem get?_insert_of_ne (known : Named α) (distinct : other ≠ name) :
    (known.insert name value).get? other = known.get? other := by
  have differs : (other == name) = false := by simpa using distinct
  rw [← get?_erase_of_ne known distinct]
  simp [get?, insert, List.lookup_cons, differs]

end Named

end MarkerBus
