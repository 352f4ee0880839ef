namespace MarkerBus.Text

/-- What is seen of a text that is handed over as a terminated one. -/
def beforeNul (text : String) : String :=
  String.ofList (text.toList.takeWhile (· ≠ '\x00'))

theorem takeWhile_ne_eq_self {separator : Char} {text : List Char} (free : separator ∉ text) :
    text.takeWhile (· ≠ separator) = text := by
  induction text with
  | nil => rfl
  | cons char rest ih =>
      have other : char ≠ separator := fun equal => free (by simp [equal])
      have restFree : separator ∉ rest := fun member => free (List.mem_cons_of_mem _ member)
      rw [List.takeWhile_cons, if_pos (by simpa using other), ih restFree]

theorem beforeNul_eq_self {text : String} (free : '\x00' ∉ text.toList) :
    beforeNul text = text := by
  rw [beforeNul, takeWhile_ne_eq_self free, String.ofList_toList]

end MarkerBus.Text
