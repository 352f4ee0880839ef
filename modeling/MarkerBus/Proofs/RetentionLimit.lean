import MarkerBus.Bus.Config
import MarkerBus.Proofs.Numeral

namespace MarkerBus.Bus.Config

open Numeral

variable {environment : Environment} {base text : String} {rest : List Char} {value : Int}
  {limit : Nat}

theorem limitOf_of_not_begins (none : ∀ rest value, ¬ Begins text rest value) :
    limitOf text = .error (.unreadableLimit .noDigits) := by
  rw [limitOf, signed_of_not_begins none]

theorem limitOf_of_begins (begins : Begins text rest value) : limitOf text =
    if value < -2 ^ 63 ∨ 2 ^ 63 ≤ value then .error (.unreadableLimit .outOfRange)
    else if value < 1 then .error (.limitBelowOne text)
    else .ok value.toNat := by
  rw [limitOf, begins.signed_eq]
  by_cases inside : -2 ^ 63 ≤ value ∧ value < 2 ^ 63
  · rw [if_pos inside, if_neg (by omega)]
  · rw [if_neg inside, if_pos (by omega)]

theorem limitOf_eq_ok_iff : limitOf text = .ok limit ↔
    ∃ rest, Begins text rest limit ∧ 1 ≤ limit ∧ limit < 2 ^ 63 := by
  rcases begins_or_not text with ⟨rest, value, begins⟩ | none
  · simp only [limitOf_of_begins begins, begins.iff]
    split_ifs <;> simp <;> omega
  · simp [limitOf_of_not_begins none, none]

theorem limitOf_eq_noDigits_iff : limitOf text = .error (.unreadableLimit .noDigits) ↔
    ∀ rest value, ¬ Begins text rest value := by
  refine ⟨fun refused rest value begins => ?_, limitOf_of_not_begins⟩
  rw [limitOf_of_begins begins] at refused
  split at refused
  · cases refused
  · split at refused <;> cases refused

theorem limitOf_eq_belowOne_iff : limitOf text = .error (.limitBelowOne text) ↔
    ∃ rest value, Begins text rest value ∧ -2 ^ 63 ≤ value ∧ value < 1 := by
  rcases begins_or_not text with ⟨rest, value, begins⟩ | none
  · simp only [limitOf_of_begins begins, begins.iff]
    split_ifs <;> simp <;> omega
  · simp [limitOf_of_not_begins none, none]

theorem limitOf_eq_outOfRange_iff : limitOf text = .error (.unreadableLimit .outOfRange) ↔
    ∃ rest value, Begins text rest value ∧ (value < -2 ^ 63 ∨ 2 ^ 63 ≤ value) := by
  rcases begins_or_not text with ⟨rest, value, begins⟩ | none
  · simp only [limitOf_of_begins begins, begins.iff]
    split_ifs <;> simp <;> omega
  · simp [limitOf_of_not_begins none, none]

/-- Nothing but whole numerals of 64 bits is read, and no other numeral is found, exactly
if nothing follows a number from one on and every number is one of 64 bits. -/
theorem whole_iff :
    (∀ limit : Nat, limitOf text = .ok limit ↔ Begins text [] limit ∧ 1 ≤ limit ∧ limit < 2 ^ 63) ∧
        limitOf text ≠ .error (.unreadableLimit .outOfRange) ↔
      ∀ rest value, Begins text rest value →
        -2 ^ 63 ≤ value ∧ value < 2 ^ 63 ∧ (1 ≤ value → rest = []) := by
  constructor
  · rintro ⟨whole, told⟩ rest value begins
    have bounded : -2 ^ 63 ≤ value ∧ value < 2 ^ 63 := by
      by_contra outside
      exact told (limitOf_eq_outOfRange_iff.mpr ⟨rest, value, begins, by omega⟩)
    refine ⟨bounded.1, bounded.2, fun positive => ?_⟩
    obtain ⟨limit, rfl⟩ := Int.eq_ofNat_of_zero_le (a := value) (by omega)
    have read := limitOf_eq_ok_iff.mpr ⟨rest, begins, by omega, by omega⟩
    exact (begins.iff.mp ((whole limit).mp read).1).2.symm
  · intro whole
    refine ⟨fun limit => limitOf_eq_ok_iff.trans ⟨?_, fun read => ⟨[], read⟩⟩, fun refused => ?_⟩
    · rintro ⟨rest, begins, positive, bounded⟩
      obtain rfl := (whole rest limit begins).2.2 (by omega)
      exact ⟨begins, positive, bounded⟩
    · obtain ⟨rest, value, begins, outside⟩ := limitOf_eq_outOfRange_iff.mp refused
      have inside := whole rest value begins
      omega

theorem ofEnvironment_eq (given : environment.value? "CKPBUS_MAX_RETAINED_INSTANTS" = some text) :
    ofEnvironment environment base = (limitOf text).map fun limit =>
      { base, uniqueId := (environment.value? "CKPBUS_UNIQUE_ID").getD "", limit } := by
  simp only [ofEnvironment, given]
  cases environment.value? "CKPBUS_UNIQUE_ID" <;> cases limitOf text <;> rfl

/-- A limit is accepted if the text begins with its numeral; what follows the numeral is
ignored.  So the limit is that of the whole text, and a number that is too large is told
like any other text that gives no limit, exactly if nothing follows a number from one on
and the number is one of 64 bits. -/
theorem limit_is_leading_numeral
    (given : environment.value? "CKPBUS_MAX_RETAINED_INSTANTS" = some text) :
    let read := ofEnvironment environment base
    let accepts (limit : Nat) : Prop :=
      read = .ok { base, uniqueId := (environment.value? "CKPBUS_UNIQUE_ID").getD "", limit }
    (∀ config, read = .ok config → accepts config.limit) ∧
      (∀ limit : Nat, accepts limit ↔
        ∃ rest, Begins text rest limit ∧ 1 ≤ limit ∧ limit < 2 ^ 63) ∧
      (read = .error (.unreadableLimit .noDigits) ↔ ∀ rest value, ¬ Begins text rest value) ∧
      (read = .error (.limitBelowOne text) ↔
        ∃ rest value, Begins text rest value ∧ -2 ^ 63 ≤ value ∧ value < 1) ∧
      (read = .error (.unreadableLimit .outOfRange) ↔
        ∃ rest value, Begins text rest value ∧ (value < -2 ^ 63 ∨ 2 ^ 63 ≤ value)) ∧
      ((∀ limit : Nat, accepts limit ↔ Begins text [] limit ∧ 1 ≤ limit ∧ limit < 2 ^ 63) ∧
          read ≠ .error (.unreadableLimit .outOfRange) ↔
        ∀ rest value, Begins text rest value →
          -2 ^ 63 ≤ value ∧ value < 2 ^ 63 ∧ (1 ≤ value → rest = [])) := by
  intro read accepts
  have error (defect : EnvironmentDefect) : read = .error defect ↔ limitOf text = .error defect := by
    rw [show read = _ from ofEnvironment_eq given]
    cases limitOf text <;> simp [Except.map]
  have accepted (limit : Nat) : accepts limit ↔ limitOf text = .ok limit := by
    simp only [accepts]
    rw [show read = _ from ofEnvironment_eq given]
    cases limitOf text <;> simp [Except.map]
  simp only [error, accepted, ne_eq]
  refine ⟨?_, fun _ => limitOf_eq_ok_iff, limitOf_eq_noDigits_iff, limitOf_eq_belowOne_iff,
    limitOf_eq_outOfRange_iff, whole_iff⟩
  intro config came
  rw [show read = _ from ofEnvironment_eq given] at came
  cases found : limitOf text with
  | error => rw [found] at came; cases came
  | ok limit => rw [found] at came; cases came; rfl

theorem trailing_letters_are_ignored :
    let environment : Environment := ⟨[("CKPBUS_MAX_RETAINED_INSTANTS", "12abc")]⟩
    environment.value? "CKPBUS_MAX_RETAINED_INSTANTS" = some "12abc" ∧
      Begins "12abc" ['a', 'b', 'c'] 12 ∧ (∀ value, ¬ Begins "12abc" [] value) ∧
      ofEnvironment environment "t" = .ok { base := "t", limit := 12 } := by
  intro environment
  have given : environment.value? "CKPBUS_MAX_RETAINED_INSTANTS" = some "12abc" := by
    decide +kernel
  have begins : Begins "12abc" ['a', 'b', 'c'] 12 := @begins_lead "12abc" (by decide)
  refine ⟨given, begins, fun value whole => ?_, ?_⟩
  · cases (begins.iff.mp whole).2
  · exact ((limit_is_leading_numeral given).2.1 12).mpr ⟨_, begins, by decide, by decide⟩

end MarkerBus.Bus.Config
