import MarkerBus.ErrorNumber
import MarkerBus.Notice
import MarkerBus.Text.Terminated

namespace MarkerBus.Storage

inductive Creation where
  | created
  | present
deriving DecidableEq, Repr

inductive Removal where
  | removed
  | absent
deriving DecidableEq, Repr

inductive Request where
  /-- Make an entry, unless there is one. -/
  | create (path : String)
  | list (path : String)
  | remove (path : String)
  | probe (path : String)
  /-- Empty a directory, or make it. -/
  | reset (path : String)
deriving DecidableEq, Repr

namespace Request

abbrev Answer : Request → Type
  | .create _ => Creation
  | .list _ => List String
  | .remove _ => Removal
  | .probe _ => Bool
  | .reset _ => Unit

def path : Request → String
  | .create path | .list path | .remove path | .probe path | .reset path => path

end Request

inductive Activity where
  | createFile
  | createDirectory
  | listDirectory
  | deleteFile
  | deleteDirectory
  /-- Nothing yet: the failure was planned in advance. -/
  | planned
deriving DecidableEq, Repr

def Activity.text : Activity → String
  | .createFile => "Failed to create file"
  | .createDirectory => "Failed to create directory"
  | .listDirectory => "Failed to list directory"
  | .deleteFile => "Failed to delete file"
  | .deleteDirectory => "Failed to delete directory"
  | .planned => "injected failure"

/-- The text of a failure: what was done, the path, and the error number where
there is one. -/
def failureText (activity path : String) (code : ErrorNumber) : String :=
  let cause := if code = 0 then "" else " (" ++ code.describe ++ ")"
  Text.beforeNul (activity ++ ": " ++ path ++ cause)

/-- A failure that the storage itself recognised. -/
structure Report where
  activity : Activity
  path : String
  code : ErrorNumber
deriving DecidableEq, Repr

def Report.message (report : Report) : String :=
  failureText report.activity.text report.path report.code

inductive Failure where
  | reported (report : Report)
  /-- The call was broken off, for no reason that the storage knows. -/
  | interrupted (path : String)
  /-- The system could not say what a path stands for. -/
  | unresolved (code : ErrorNumber)
deriving DecidableEq, Repr

def Failure.message : Failure → String
  | .reported report => report.message
  | .interrupted path => Text.beforeNul ("injected runtime failure: " ++ path)
  | .unresolved code => "status is unknown: " ++ code.describe

structure Reply (σ : Type) (request : Request) where
  result : Except Failure request.Answer
  storage : σ
  notices : List Notice := []

/-- Serves each call in one indivisible step. -/
abbrev Backend (σ : Type) :=
  (request : Request) → σ → Reply σ request

end MarkerBus.Storage
