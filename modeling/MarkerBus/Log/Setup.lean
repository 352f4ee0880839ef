import MarkerBus.Log.RotatingFile
import MarkerBus.Numeral

namespace MarkerBus.Log

structure Settings where
  toFile : Bool := false
  /-- Where the log file is; empty for the current directory. -/
  directory : String := ""
  policy : RotationPolicy := {}
  initial : Level := .warning
deriving DecidableEq, Repr

namespace Settings

/-- The number of bytes in so many mebibytes, modulo the size of a word. -/
def bytesOfMebibytes (size : Nat) : Nat :=
  size * 1024 * 1024 % Numeral.wordSize

def withPolicy (settings : Settings) (change : RotationPolicy → RotationPolicy) : Settings :=
  { settings with policy := change settings.policy }

def ofEnvironment (environment : Environment) : Except Numeral.Defect Settings := do
  let settings : Settings := {
    toFile := (environment.value? "CKPBUS_LOG_ENABLE_FILE").any (· ≠ "0")
    directory := (environment.value? "CKPBUS_LOG_DIR").getD "" }
  let settings ← match environment.value? "CKPBUS_LOG_MAX_SIZE_MB" with
    | none => pure settings
    | some text =>
        let size ← Numeral.unsigned text
        pure (settings.withPolicy ({ · with maxSize := bytesOfMebibytes size }))
  let settings ← match environment.value? "CKPBUS_LOG_MAX_FILES" with
    | none => pure settings
    | some text =>
        let maxFiles ← Numeral.unsigned text
        pure (settings.withPolicy ({ · with maxFiles }))
  match environment.value? "CKPBUS_LOG_AUTO_ROTATE" with
  | none => return settings
  | some text => return settings.withPolicy ({ · with automatic := text ≠ "0" })

end Settings

structure Setup where
  file? : Option RotatingFile := none
deriving DecidableEq, Repr

namespace Setup

/-- Start logging as the settings say.  If the log file cannot be opened, the
threshold has been set all the same. -/
def start (settings : Settings) (environment : Environment) (journal : Journal)
    (startable : Bool := true) : Except FileError Setup × Journal :=
  let journal := { journal with threshold := settings.initial }.adopt environment
  if settings.toFile then
    match RotatingFile.create settings.directory settings.policy journal startable with
    | (.ok file, journal) => (.ok ⟨some file⟩, journal)
    | (.error error, journal) => (.error error, journal)
  else
    (.ok {}, journal)

/-- Close the log file.  Lines go to the console from then on, even those that
went to the file of another set-up. -/
def stop (setup : Setup) (journal : Journal) : Setup × Journal :=
  let journal := match setup.file? with
    | some file => file.close journal
    | none => journal
  ({}, { journal with target? := none })

def rotate (setup : Setup) (journal : Journal) : Except FileError Unit × Setup × Journal :=
  match setup.file? with
  | none => (.ok (), setup, journal)
  | some file =>
      let rotated := file.rotate journal
      (rotated.result, ⟨some rotated.file⟩, rotated.journal)

def elapse (setup : Setup) (journal : Journal) : Setup × Journal :=
  match setup.file? with
  | none => (setup, journal)
  | some file =>
      let (file, journal) := file.elapse journal
      (⟨some file⟩, journal)

end Setup

/-- A set-up with the threshold from before, which is restored in the end. -/
structure Guard where
  saved : Level
  setup : Setup
deriving DecidableEq, Repr

namespace Guard

def start (settings : Settings) (environment : Environment) (journal : Journal)
    (startable : Bool := true) : Except FileError Guard × Journal :=
  let (result, after) := Setup.start settings environment journal startable
  (result.map (⟨journal.threshold, ·⟩), after)

def stop (guard : Guard) (journal : Journal) : Journal :=
  { (guard.setup.stop journal).2 with threshold := guard.saved }

def elapse (guard : Guard) (journal : Journal) : Guard × Journal :=
  let (setup, journal) := guard.setup.elapse journal
  ({ guard with setup }, journal)

end Guard

end MarkerBus.Log
