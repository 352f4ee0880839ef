namespace MarkerBus.Text

/-- What stands before and after the last occurrence of a character. -/
def splitLast? (separator : Char) : List Char → Option (List Char × List Char)
  | [] => none
  | char :: rest =>
      match splitLast? separator rest with
      | some (before, after) => some (char :: before, after)
      | none => if char = separator then some ([], rest) else none

theorem splitLast?_eq_none_iff {separator : Char} {text : List Char} :
    splitLast? separator text = none ↔ separator ∉ text := by
  induction text with
  | nil => simp [splitLast?]
  | cons char rest ih =>
      cases found : splitLast? separator rest with
      | some parts =>
          have member : separator ∈ rest := by
            false_or_by_contra
            rename_i missing
            simp [ih.mpr missing] at found
          simp [splitLast?, found, member]
      | none =>
          have missing := ih.mp found
          by_cases same : char = separator
          · simp [splitLast?, found, same]
          · have other : separator ≠ char := fun equal => same equal.symm
            simp [splitLast?, found, same, other, missing]

theorem splitLast?_append {separator : Char} {before after : List Char}
    (free : separator ∉ after) :
    splitLast? separator (before ++ separator :: after) = some (before, after) := by
  induction before with
  | nil => simp [splitLast?, splitLast?_eq_none_iff.mpr free]
  | cons char rest ih => simp [splitLast?, ih]

theorem splitLast?_eq_some_iff {separator : Char} {text before after : List Char} :
    splitLast? separator text = some (before, after) ↔
      text = before ++ separator :: after ∧ separator ∉ after := by
  constructor
  · intro found
    induction text generalizing before with
    | nil => simp [splitLast?] at found
    | cons char rest ih =>
        cases inner : splitLast? separator rest with
        | some parts =>
            obtain ⟨front, back⟩ := parts
            simp only [splitLast?, inner, Option.some.injEq, Prod.mk.injEq] at found
            obtain ⟨rfl, rfl⟩ := found
            obtain ⟨rebuilt, free⟩ := ih inner
            exact ⟨by simp [rebuilt], free⟩
        | none =>
            have missing := splitLast?_eq_none_iff.mp inner
            by_cases same : char = separator
            · simp only [splitLast?, inner, same, if_pos, Option.some.injEq, Prod.mk.injEq] at found
              obtain ⟨rfl, rfl⟩ := found
              exact ⟨by simp [same], missing⟩
            · simp [splitLast?, inner, same] at found
  · rintro ⟨rfl, free⟩
    exact splitLast?_append free

end MarkerBus.Text
