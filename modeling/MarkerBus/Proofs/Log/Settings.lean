import MarkerBus.Log.Setup
import MarkerBus.Proofs.Numeral

namespace MarkerBus.Log

open Numeral

variable {environment other : Environment} {settings larger : Settings} {text : String}
  {rest : List Char} {mebibytes more : Int} {file : RotatingFile} {journal : Journal} {content : ByteArray}

namespace RotatingFile

theorem rotateIfDue_of_size (holds : journal.files.read? file.path = some content) :
    file.rotateIfDue journal =
      if content.size < file.policy.maxSize then ⟨.ok false, file, journal⟩
      else ⟨(file.rotate journal).result.map fun () => true, (file.rotate journal).file,
        (file.rotate journal).journal⟩ := by
  simp only [rotateIfDue, isDue, holds, decide_eq_true_eq]
  by_cases small : content.size < file.policy.maxSize
  · rw [if_pos small, if_neg (by omega)]
  · rw [if_neg small, if_pos (by omega)]

end RotatingFile

namespace Settings

/-- The environment sets the size to so many mebibytes, and these settings are made of it. -/
structure Accepts (environment : Environment) (mebibytes : Int) (settings : Settings) : Prop where
  made : ofEnvironment environment = .ok settings
  given : ∃ text rest, environment.value? "CKPBUS_LOG_MAX_SIZE_MB" = some text ∧
    Begins text rest mebibytes

theorem maxSize_of_environment (made : ofEnvironment environment = .ok settings)
    (given : environment.value? "CKPBUS_LOG_MAX_SIZE_MB" = some text) :
    ∃ size, unsigned text = .ok size ∧ settings.policy.maxSize = bytesOfMebibytes size := by
  simp only [ofEnvironment, given] at made
  cases read : unsigned text with
  | error defect =>
      rw [read] at made
      cases made
  | ok size =>
      refine ⟨size, rfl, ?_⟩
      simp only [read, bind, Except.bind, pure, Except.pure] at made
      -- the variables that are read after the size leave it as it is
      split at made
      · split at made <;> cases made <;> rfl
      · split at made
        · cases made
        · split at made <;> cases made <;> rfl

/-- Settings are made of an environment if its two numbers can be read. -/
theorem ofEnvironment_ok_iff (given : environment.value? "CKPBUS_LOG_MAX_SIZE_MB" = some text) :
    (∃ settings, ofEnvironment environment = .ok settings) ↔ (∃ size, unsigned text = .ok size) ∧
      ∀ count, environment.value? "CKPBUS_LOG_MAX_FILES" = some count →
        ∃ maxFiles, unsigned count = .ok maxFiles := by
  simp only [ofEnvironment, given, bind, Except.bind, pure, Except.pure]
  cases unsigned text with
  | error => simp
  | ok size =>
      cases environment.value? "CKPBUS_LOG_MAX_FILES" with
      | none => cases environment.value? "CKPBUS_LOG_AUTO_ROTATE" <;> simp
      | some count =>
          cases read : unsigned count with
          | error => simp [read]
          | ok maxFiles => cases environment.value? "CKPBUS_LOG_AUTO_ROTATE" <;> simp [read]

namespace Accepts

theorem maxSize_eq (accepts : Accepts environment mebibytes settings) :
    -2 ^ 64 < mebibytes ∧ mebibytes < 2 ^ 64 ∧
      (settings.policy.maxSize : Int) = mebibytes * 1048576 % 2 ^ 64 := by
  obtain ⟨text, rest, given, begins⟩ := accepts.given
  obtain ⟨size, read, same⟩ := maxSize_of_environment accepts.made given
  rw [begins.unsigned_eq] at read
  split at read
  · rename_i bounded
    cases read
    rw [same, bytesOfMebibytes, wordSize]
    omega
  · cases read

theorem maxSize_eq_iff (accepts : Accepts environment mebibytes settings) :
    (settings.policy.maxSize : Int) = mebibytes * 1048576 ↔ 0 ≤ mebibytes ∧ mebibytes < 2 ^ 44 := by
  obtain ⟨lower, upper, same⟩ := accepts.maxSize_eq
  omega

theorem maxSize_le (accepts : Accepts environment mebibytes settings)
    (again : Accepts other more larger) (positive : 0 ≤ mebibytes) (le : mebibytes ≤ more)
    (bounded : more < 2 ^ 44) : settings.policy.maxSize ≤ larger.policy.maxSize := by
  have exact := accepts.maxSize_eq_iff.mpr ⟨positive, by omega⟩
  have larger := again.maxSize_eq_iff.mpr ⟨by omega, bounded⟩
  omega

end Accepts

/-- Every setting of less than a word is accepted, with either sign.  The limit in bytes is
what the setting says up to multiples of the word, and so it is exact for the settings
from zero to below 2 ^ 44, and only for those.  A log file rotates by the limit in bytes. -/
theorem size_limit_is_modulo_word
    (given : environment.value? "CKPBUS_LOG_MAX_SIZE_MB" = some text)
    (begins : Begins text rest mebibytes) :
    ((∃ settings, ofEnvironment environment = .ok settings) ↔
      (-2 ^ 64 < mebibytes ∧ mebibytes < 2 ^ 64) ∧
        ∀ count, environment.value? "CKPBUS_LOG_MAX_FILES" = some count →
          ∃ rest value, Begins count rest value ∧ -2 ^ 64 < value ∧ value < 2 ^ 64) ∧
    ∀ settings, ofEnvironment environment = .ok settings →
      (settings.policy.maxSize : Int) = mebibytes * 1048576 % 2 ^ 64 ∧
      ((settings.policy.maxSize : Int) = mebibytes * 1048576 ↔
        0 ≤ mebibytes ∧ mebibytes < 2 ^ 44) ∧
      (∀ other more larger, Accepts other more larger → 0 ≤ mebibytes → mebibytes ≤ more →
        more < 2 ^ 44 → settings.policy.maxSize ≤ larger.policy.maxSize) ∧
      ∀ (file : RotatingFile) (journal : Journal) (content : ByteArray),
        file.policy = settings.policy → journal.files.read? file.path = some content →
        (((content.size : Int) < mebibytes * 1048576 % 2 ^ 64 →
            file.rotateIfDue journal = ⟨.ok false, file, journal⟩) ∧
          (mebibytes * 1048576 % 2 ^ 64 ≤ content.size →
            (file.rotateIfDue journal).journal = (file.rotate journal).journal)) := by
  refine ⟨?_, fun settings made => ?_⟩
  · rw [ofEnvironment_ok_iff given, unsigned_ok_iff]
    simp only [begins.iff, unsigned_ok_iff]
    refine and_congr_left fun _ => ⟨?_, fun bounded => ⟨rest, mebibytes, ⟨rfl, rfl⟩, bounded⟩⟩
    rintro ⟨_, _, ⟨rfl, rfl⟩, bounded⟩
    exact bounded
  · have accepts : Accepts environment mebibytes settings := ⟨made, text, rest, given, begins⟩
    obtain ⟨lower, upper, same⟩ := accepts.maxSize_eq
    refine ⟨same, accepts.maxSize_eq_iff, fun _ _ _ again => accepts.maxSize_le again, ?_⟩
    intro file journal content kept holds
    rw [RotatingFile.rotateIfDue_of_size holds, kept]
    refine ⟨fun small => ?_, fun large => ?_⟩
    · rw [if_pos (by omega)]
    · rw [if_neg (by omega)]

/-- A setting of 2 ^ 44 leaves no byte to a log file. -/
theorem size_of_whole_word_is_zero :
    let environment : Environment := ⟨[("CKPBUS_LOG_MAX_SIZE_MB", "17592186044416")]⟩
    environment.value? "CKPBUS_LOG_MAX_SIZE_MB" = some "17592186044416" ∧
      Begins "17592186044416" [] (2 ^ 44) ∧
      ∃ settings, ofEnvironment environment = .ok settings ∧ settings.policy.maxSize = 0 ∧
        ∀ (file : RotatingFile) (journal : Journal) (content : ByteArray),
          file.policy = settings.policy → journal.files.read? file.path = some content →
          (file.rotateIfDue journal).journal = (file.rotate journal).journal := by
  intro environment
  have given : environment.value? "CKPBUS_LOG_MAX_SIZE_MB" = some "17592186044416" := by decide
  have begins : Begins "17592186044416" [] (2 ^ 44) := @begins_lead "17592186044416" (by decide)
  have alone : environment.value? "CKPBUS_LOG_MAX_FILES" = none := by decide
  obtain ⟨accepted, limits⟩ := size_limit_is_modulo_word given begins
  obtain ⟨settings, made⟩ := accepted.mpr ⟨by decide, by simp [alone]⟩
  obtain ⟨same, _, _, rotates⟩ := limits settings made
  refine ⟨given, begins, settings, made, by omega, fun file journal content kept holds => ?_⟩
  exact (rotates file journal content kept holds).2 (by omega)

end Settings

end MarkerBus.Log
