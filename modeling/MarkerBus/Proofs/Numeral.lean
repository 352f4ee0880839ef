import Mathlib.Data.List.Induction
import Mathlib.Data.Nat.Digits.Defs
import MarkerBus.Numeral

namespace MarkerBus.Numeral

variable {text : String} {rest other sign digits : List Char} {negative : Bool}
  {value number : Int}

/-- How a sign is spelt, and whether it negates. -/
inductive Spells : Bool → List Char → Prop where
  | absent : Spells false []
  | plus : Spells false ['+']
  | minus : Spells true ['-']

/-- The number that decimal digits denote, the last one counting ones. -/
def denoted (digits : List Char) : Nat :=
  Nat.ofDigits 10 (digits.reverse.map fun digit => digit.toNat - '0'.toNat)

/-- Digits with a sign. -/
def signedBy (negative : Bool) (digits : List Char) : Int :=
  if negative then -(denoted digits : Int) else denoted digits

/-- The text begins with a numeral of this value, and goes on with the rest. -/
inductive Begins (text : String) (rest : List Char) : Int → Prop where
  | numeral {blanks sign digits : List Char} {negative : Bool}
      (spelt : text.toList = blanks ++ sign ++ digits ++ rest)
      (blank : ∀ char ∈ blanks, isBlank char = true) (signed : Spells negative sign)
      (nonempty : digits ≠ []) (decimal : ∀ char ∈ digits, char.isDigit = true)
      (ended : ∀ char ∈ rest.head?, char.isDigit = false) :
      Begins text rest (signedBy negative digits)

theorem magnitude_eq_denoted (digits : List Char) : magnitude digits = denoted digits := by
  induction digits using List.reverseRecOn with
  | nil => rfl
  | append_singleton front digit ih =>
      have more : magnitude (front ++ [digit]) =
          10 * magnitude front + (digit.toNat - '0'.toNat) := by
        simp [magnitude]
      rw [more, ih, denoted, denoted, List.reverse_append, List.reverse_singleton,
        List.singleton_append, List.map_cons, Nat.ofDigits_cons, Nat.add_comm]

theorem value_eq (lead : Lead) : lead.value = signedBy lead.negative lead.digits := by
  rw [Lead.value, signedBy, magnitude_eq_denoted]

/-- What stands behind the sign and the digits that a text leads with. -/
def remainder (text : String) : List Char :=
  match text.toList.dropWhile isBlank with
  | '-' :: rest => rest.dropWhile Char.isDigit
  | '+' :: rest => rest.dropWhile Char.isDigit
  | rest => rest.dropWhile Char.isDigit

/-- A run of characters ends where the next one is none of them. -/
theorem run_of_ended {p : Char → Bool} (inside : ∀ char ∈ digits, p char = true)
    (ended : ∀ char ∈ rest.head?, p char = false) :
    (digits ++ rest).takeWhile p = digits ∧ (digits ++ rest).dropWhile p = rest := by
  rw [List.takeWhile_append_of_pos inside, List.dropWhile_append_of_pos inside]
  cases rest with
  | nil => simp
  | cons char rest => simp [ended char rfl]

theorem isBlank_of_isDigit {char : Char} (digit : char.isDigit = true) : isBlank char = false := by
  rw [← Bool.not_eq_true]
  intro blank
  simp only [isBlank, decide_eq_true_eq] at blank
  rcases blank with rfl | rfl | rfl | rfl | rfl | rfl <;> cases digit

theorem head?_not_blank (signed : Spells negative sign) (nonempty : digits ≠ [])
    (decimal : ∀ char ∈ digits, char.isDigit = true) :
    ∀ char ∈ (sign ++ digits ++ rest).head?, isBlank char = false := by
  obtain ⟨digit, more, rfl⟩ := List.exists_cons_of_ne_nil nonempty
  intro char first
  cases signed with
  | absent =>
      cases first
      exact isBlank_of_isDigit (decimal digit List.mem_cons_self)
  | plus | minus => cases first; rfl

theorem Begins.lead_eq (begins : Begins text rest value) :
    (lead text).digits ≠ [] ∧ (lead text).value = value ∧ remainder text = rest := by
  obtain ⟨spelt, blank, signed, nonempty, decimal, ended⟩ := begins
  rename_i blanks sign digits negative
  have cut : text.toList.dropWhile isBlank = sign ++ digits ++ rest := by
    rw [spelt, List.append_assoc, List.append_assoc, ← List.append_assoc sign]
    exact (run_of_ended blank (head?_not_blank signed nonempty decimal)).2
  obtain ⟨taken, left⟩ := run_of_ended decimal ended
  rw [value_eq, lead, remainder, cut]
  cases signed with
  | plus | minus => simp [taken, left, nonempty]
  | absent =>
      obtain ⟨digit, more, rfl⟩ := List.exists_cons_of_ne_nil nonempty
      have first := decimal digit List.mem_cons_self
      have noMinus : digit ≠ '-' := by rintro rfl; cases first
      have noPlus : digit ≠ '+' := by rintro rfl; cases first
      rw [List.cons_append] at taken left
      simp [taken, left, noMinus, noPlus]

theorem begins_of_cut {tail : List Char} (cut : text.toList.dropWhile isBlank = sign ++ tail)
    (signed : Spells negative sign) (found : tail.takeWhile Char.isDigit ≠ []) :
    Begins text (tail.dropWhile Char.isDigit) (signedBy negative (tail.takeWhile Char.isDigit)) := by
  have spelt : text.toList = text.toList.takeWhile isBlank ++ sign ++
      tail.takeWhile Char.isDigit ++ tail.dropWhile Char.isDigit := by
    rw [List.append_assoc, List.takeWhile_append_dropWhile, List.append_assoc, ← cut,
      List.takeWhile_append_dropWhile]
  refine .numeral spelt ?_ signed found ?_ ?_
  · exact List.all_eq_true.mp List.all_takeWhile
  · exact List.all_eq_true.mp List.all_takeWhile
  · intro char first
    have stops := List.head?_dropWhile_not Char.isDigit tail
    rw [Option.mem_def.mp first] at stops
    simpa using stops

/-- Behind the white space there is a sign or none, and what is read goes on from there. -/
theorem lead_eq (text : String) : ∃ negative sign tail, Spells negative sign ∧
    text.toList.dropWhile isBlank = sign ++ tail ∧
    lead text = ⟨negative, tail.takeWhile Char.isDigit⟩ ∧
    remainder text = tail.dropWhile Char.isDigit := by
  unfold lead remainder
  cases text.toList.dropWhile isBlank with
  | nil => exact ⟨false, [], [], .absent, rfl, rfl, rfl⟩
  | cons char rest =>
      by_cases minus : char = '-'
      · subst minus
        exact ⟨true, ['-'], rest, .minus, rfl, rfl, rfl⟩
      · by_cases plus : char = '+'
        · subst plus
          exact ⟨false, ['+'], rest, .plus, rfl, rfl, rfl⟩
        · exact ⟨false, [], char :: rest, .absent, rfl, by simp [minus, plus],
            by simp [minus, plus]⟩

theorem begins_lead (found : (lead text).digits ≠ []) :
    Begins text (remainder text) (lead text).value := by
  obtain ⟨negative, sign, tail, signed, cut, led, left⟩ := lead_eq text
  rw [led] at found
  rw [value_eq, led, left]
  exact begins_of_cut cut signed found

/-- A text begins with one numeral at most. -/
theorem Begins.iff (begins : Begins text rest value) :
    Begins text other number ↔ number = value ∧ other = rest := by
  constructor
  · intro again
    obtain ⟨_, rfl, rfl⟩ := begins.lead_eq
    obtain ⟨_, rfl, rfl⟩ := again.lead_eq
    exact ⟨rfl, rfl⟩
  · rintro ⟨rfl, rfl⟩
    exact begins

theorem begins_or_not (text : String) :
    (∃ rest value, Begins text rest value) ∨ ∀ rest value, ¬ Begins text rest value := by
  by_cases found : ∃ rest value, Begins text rest value
  · exact .inl found
  · exact .inr fun rest value begins => found ⟨rest, value, begins⟩

theorem digits_of_not_begins (none : ∀ rest value, ¬ Begins text rest value) :
    (lead text).digits = [] := by
  by_contra found
  exact none _ _ (begins_lead found)

theorem signed_of_not_begins (none : ∀ rest value, ¬ Begins text rest value) :
    signed text = .error .noDigits := by
  rw [signed, if_pos (digits_of_not_begins none)]

theorem Begins.signed_eq (begins : Begins text rest value) :
    signed text = if -2 ^ 63 ≤ value ∧ value < 2 ^ 63 then .ok value else .error .outOfRange := by
  obtain ⟨found, rfl, _⟩ := begins.lead_eq
  have half : ((wordSize / 2 : Nat) : Int) = 2 ^ 63 := by decide
  simp only [signed, if_neg found, half]
  split <;> split <;> first | rfl | omega

theorem unsigned_of_not_begins (none : ∀ rest value, ¬ Begins text rest value) :
    unsigned text = .error .noDigits := by
  rw [unsigned, if_pos (digits_of_not_begins none)]

theorem Begins.unsigned_eq (begins : Begins text rest value) : unsigned text =
    if -2 ^ 64 < value ∧ value < 2 ^ 64 then .ok (value % 2 ^ 64).toNat
    else .error .outOfRange := by
  obtain ⟨found, same, _⟩ := begins.lead_eq
  rw [Lead.value] at same
  rw [unsigned, if_neg found, wordSize]
  by_cases large : 18446744073709551616 ≤ magnitude (lead text).digits
  · rw [if_pos large, if_neg]
    split at same <;> omega
  · rw [if_neg large]
    by_cases minus : (lead text).negative = true
    · rw [if_pos minus] at same ⊢
      rw [if_pos (by omega)]
      congr 1
      omega
    · rw [if_neg minus] at same ⊢
      rw [if_pos (by omega)]
      congr 1
      omega

/-- A number of less than a word is read, whatever its sign. -/
theorem unsigned_ok_iff : (∃ read, unsigned text = .ok read) ↔
    ∃ rest value, Begins text rest value ∧ -2 ^ 64 < value ∧ value < 2 ^ 64 := by
  rcases begins_or_not text with ⟨rest, value, begins⟩ | none
  · simp only [begins.unsigned_eq, begins.iff]
    split_ifs with small
    · exact ⟨fun _ => ⟨rest, value, ⟨rfl, rfl⟩, small⟩, fun _ => ⟨_, rfl⟩⟩
    · refine ⟨nofun, ?_⟩
      rintro ⟨_, _, ⟨rfl, rfl⟩, bounded⟩
      exact absurd bounded small
  · simp [unsigned_of_not_begins none, none]

end MarkerBus.Numeral
