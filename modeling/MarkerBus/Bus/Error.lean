import MarkerBus.MarkerDirectory

namespace MarkerBus.Bus

inductive Act where
  | start
  | commit
  | abort
deriving DecidableEq, Repr

namespace Act

def phase : Act → Phase
  | .start => .inflight
  | .commit => .completed
  | .abort => .aborted

def word : Act → String
  | .start => "start"
  | .commit => "commit"
  | .abort => "abort"

end Act

inductive Error where
  | invalidConfig (base : String)
  | invalidInstant (defect : Instant.Defect)
  | notLoaded
  /-- The storage failed, and the bus has nothing to add. -/
  | storage (failure : Storage.Failure)
  | publishing (act : Act) (instant : Instant) (cause : Storage.Report)
  | scanning (path : String) (cause : Storage.Report)
deriving DecidableEq, Repr

namespace Error

def ofDirectory : MarkerDirectory.Error → Error
  | .invalidInstant defect => .invalidInstant defect
  | .storage failure => .storage failure

def message : Error → String
  | .invalidConfig base =>
      Text.beforeNul ("Invalid checkpoint bus configuration for base path '" ++ base ++ "'")
  | .invalidInstant defect => defect.message
  | .notLoaded =>
      "The checkpoint metadata should be loaded first (get_messages or last_pending_instant)"
  | .storage failure => failure.message
  | .publishing act instant cause =>
      Storage.failureText
        ("Exception while adding checkpoint " ++ act.word ++ " metadata for instant " ++ instant)
        cause.path cause.code
  | .scanning path cause =>
      Storage.failureText "Exception while scanning the checkpoint meta files" path cause.code

end Error

end MarkerBus.Bus
