import MarkerBus.Instant
import MarkerBus.Log.Level

namespace MarkerBus

/-- Markers of `instant` could not all be deleted; `pending` instants are still
tracked, this one first. -/
structure CleanupWarning where
  instant : Instant
  message : String
  pending : Nat
deriving DecidableEq, Repr

inductive Notice where
  | log (entry : Log.Entry)
  | cleanup (warning : CleanupWarning)
deriving DecidableEq, Repr

end MarkerBus
