import MarkerBus.Marker
import MarkerBus.Path
import MarkerBus.Storage.Script

namespace MarkerBus.MarkerDirectory

/-! A directory of markers on a storage, known by its path.

Appending a message creates its marker; a marker that is already there is as
good.  Scanning lists the directory and passes over names that are no markers.
Deleting goes through all marker names of an instant, also after a failure, so
that one marker that cannot be deleted keeps no other.
-/

open Storage

inductive Error where
  | invalidInstant (defect : Instant.Defect)
  | storage (failure : Failure)
deriving DecidableEq, Repr

def reset (path : String) : Script (Except Error Unit) := do
  match ← Script.reset path with
  | .error failure => return .error (.storage failure)
  | .ok () => return .ok ()

def append (path : String) (message : Message) : Script (Except Error Unit) :=
  match Marker.encode message with
  | .error defect => return .error (.invalidInstant defect)
  | .ok name => do
      let file := Path.join path name
      match ← Script.create file with
      | .error failure => return .error (.storage failure)
      | .ok .created => return .ok ()
      | .ok .present =>
          Script.log .debug ("[CKP_APPEND] marker already present: " ++ file)
          return .ok ()

def decodeAll (path : String) : List String → Script (List Message)
  | [] => return []
  | name :: rest =>
      match Marker.decode name with
      | some message => do
          let messages ← decodeAll path rest
          return message :: messages
      | none => do
          Script.log .debug ("[CKP_SCAN] skipping stray entry " ++ name ++ " under " ++ path)
          decodeAll path rest

def scan (path : String) : Script (Except Error (List Message)) := do
  match ← Script.probe path with
  | .error failure => return .error (.storage failure)
  | .ok false => return .ok []
  | .ok true =>
      match ← Script.list path with
      | .error failure => return .error (.storage failure)
      | .ok names => return .ok (← decodeAll path names)

/-- Remove entries one by one.  The answer tells whether every call succeeded;
only a failure that the storage did not report ends the loop. -/
def removeEach (path : String) : List String → Script (Except Error Bool)
  | [] => return .ok true
  | name :: rest => do
      let file := Path.join path name
      match ← Script.remove file with
      | .ok _ => removeEach path rest
      | .error (.reported report) =>
          Script.log .warning
            ("Exception while cleaning the checkpoint meta file: " ++ file ++ ": " ++ report.message)
          match ← removeEach path rest with
          | .ok _ => return .ok false
          | .error error => return .error error
      | .error failure => return .error (.storage failure)

def deleteAll (path : String) (instant : Instant) : Script (Except Error Bool) :=
  match Marker.encodeAll instant with
  | .error defect => return .error (.invalidInstant defect)
  | .ok names => removeEach path names

end MarkerBus.MarkerDirectory
