import MarkerBus.Log.Journal
import MarkerBus.Path

namespace MarkerBus.Log

/-! A log file that is rotated.

While it is open, the journal's lines go to it.  Rotation moves the file aside
under the suffix `.1`, what was there under `.2`, and so on up to the number of
files to keep, and goes on with a new file.  If no files are to be kept, the
file is emptied instead.
-/

structure RotationPolicy where
  /-- The size from which on the file is due for rotation. -/
  maxSize : Nat := 64 * 1024 * 1024
  maxFiles : Nat := 5
  automatic : Bool := true
  interval : Int := 1000
deriving DecidableEq, Repr

/-- The milliseconds from one check in the background to the next: the interval,
but at least one. -/
def RotationPolicy.period (policy : RotationPolicy) : Nat :=
  max 1 policy.interval.toNat

inductive FileError where
  | unusableDirectory (path : String)
  | cannotOpen (path : String) (code : ErrorNumber)
  /-- The process has as many threads as it may have, and none is left for the checks. -/
  | cannotCheck
deriving DecidableEq, Repr

def FileError.message : FileError → String
  | .unusableDirectory path => "can't use [" ++ path ++ "] as log directory"
  | .cannotOpen path code => "can't open [" ++ path ++ "] for log file: " ++ code.describe
  | .cannotCheck => "Resource temporarily unavailable"

structure RotatingFile where
  path : String
  policy : RotationPolicy
  /-- How many handles had been given out before the first one of this file. -/
  seniority : Nat
  untilCheck : Nat
  /-- None after a rotation that could not open the new file. -/
  handle? : Option Nat := none
deriving DecidableEq, Repr

/-- How an operation on the file ended, with the file and the journal as they
are then. -/
structure FileOutcome (α : Type) where
  result : Except FileError α
  file : RotatingFile
  journal : Journal

namespace RotatingFile

def fileName : String := "ckpbus.log"

/-- The path of the file that has been moved aside so many times. -/
def generation (file : RotatingFile) (number : Nat) : String :=
  file.path ++ "." ++ toString number

def release (file : RotatingFile) (journal : Journal) : RotatingFile × Journal :=
  match file.handle? with
  | none => (file, journal)
  | some handle =>
      ({ file with handle? := none }, { journal with files := journal.files.close handle })

/-- Open the file, direct the journal to it, and close what was open before. -/
def reopen (file : RotatingFile) (mode : FileTree.Mode) (journal : Journal) : FileOutcome Unit :=
  match journal.files.openFile file.path mode with
  | .error code => ⟨.error (.cannotOpen file.path code), file, journal⟩
  | .ok (handle, files) =>
      let (file, journal) := file.release { journal with files, target? := some handle }
      ⟨.ok (), { file with handle? := some handle }, journal⟩

/-- Open a log file in a directory, which is made if it is missing.  Without a
directory, the file is in the current one. -/
def openIn (directory : String) (policy : RotationPolicy) (journal : Journal) :
    Except FileError RotatingFile × Journal :=
  let directory := if directory = "" then journal.files.originPath else directory
  match journal.files.makeDirectories directory with
  | (.error _, files) => (.error (.unusableDirectory directory), { journal with files })
  | (.ok (), files) =>
      let journal := { journal with files }
      if !files.isDirectoryAt directory then
        (.error (.unusableDirectory directory), journal)
      else
        let file : RotatingFile := {
          path := Path.join directory fileName
          policy
          seniority := files.opened
          untilCheck := policy.period }
        let opened := file.reopen .append journal
        (opened.result.map fun () => opened.file, opened.journal)

/-- Open a log file and start its checks in the background, if it is to have any.
If they cannot be started there is no log file, but the journal has been directed to
what was opened, and nobody is left to close that. -/
def create (directory : String) (policy : RotationPolicy) (journal : Journal)
    (startable : Bool := true) : Except FileError RotatingFile × Journal :=
  match openIn directory policy journal with
  | (.error error, journal) => (.error error, journal)
  | (.ok file, journal) =>
      if policy.automatic && !startable then (.error .cannotCheck, journal)
      else (.ok file, journal)

theorem create_startable (directory : String) (policy : RotationPolicy) (journal : Journal) :
    create directory policy journal = openIn directory policy journal := by
  unfold create
  rcases openIn directory policy journal with ⟨_ | file, after⟩ <;> simp

/-- Move every file that was moved aside before one place further, from the
given place down. -/
def shift (file : RotatingFile) (files : FileTree) : Nat → FileTree
  | 0 => files
  | 1 => files
  | number + 2 =>
      let moved :=
        if files.existsAt (file.generation (number + 1)) then
          match files.rename (file.generation (number + 1)) (file.generation (number + 2)) with
          | .ok files => files
          | .error _ => files
        else
          files
      shift file moved (number + 1)

/-- Make room at the last place, and move everything else one place further. -/
def shiftAll (file : RotatingFile) (files : FileTree) : FileTree :=
  let emptied :=
    match files.remove (file.generation file.policy.maxFiles) with
    | .ok files => files
    | .error _ => files
  shift file emptied file.policy.maxFiles

/-- Move the current file to the first place.  If that is impossible, the console
is told. -/
def setAside (file : RotatingFile) (journal : Journal) : Journal :=
  match journal.files.rename file.path (file.generation 1) with
  | .ok files => { journal with files }
  | .error code => journal.print ("failed to rotate " ++ file.path ++ ": " ++ code.text ++ "\n")

def rotate (file : RotatingFile) (journal : Journal) : FileOutcome Unit :=
  if file.policy.maxFiles = 0 then
    file.reopen .truncate journal
  else
    let files := file.shiftAll journal.files
    let (file, journal) := file.release { journal with files, target? := none }
    file.reopen .append (file.setAside journal)

/-- Is the file as large as the policy allows?  One that is missing is not. -/
def isDue (file : RotatingFile) (files : FileTree) : Bool :=
  match files.read? file.path with
  | some content => file.policy.maxSize ≤ content.size
  | none => false

/-- Rotate the file if it is due; the answer tells whether it was. -/
def rotateIfDue (file : RotatingFile) (journal : Journal) : FileOutcome Bool :=
  if file.isDue journal.files then
    let rotated := file.rotate journal
    ⟨rotated.result.map fun () => true, rotated.file, rotated.journal⟩
  else
    ⟨.ok false, file, journal⟩

/-- A check in the background.  Nobody waits for its result, so the console is
told about a failure. -/
def check (file : RotatingFile) (journal : Journal) : RotatingFile × Journal :=
  let checked := file.rotateIfDue journal
  match checked.result with
  | .ok _ => (checked.file, checked.journal)
  | .error error =>
      (checked.file, checked.journal.print ("log rotation failed: " ++ error.message ++ "\n"))

/-- The file after one more millisecond, at the end of which a check may be
due. -/
def elapse (file : RotatingFile) (journal : Journal) : RotatingFile × Journal :=
  if !file.policy.automatic then
    (file, journal)
  else if 1 < file.untilCheck then
    ({ file with untilCheck := file.untilCheck - 1 }, journal)
  else
    let (file, journal) := file.check journal
    ({ file with untilCheck := file.policy.period }, journal)

/-- Give the file up.  From then on lines go to the console. -/
def close (file : RotatingFile) (journal : Journal) : Journal :=
  (file.release { journal with target? := none }).2

end RotatingFile

end MarkerBus.Log
