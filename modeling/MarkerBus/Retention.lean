import MarkerBus.MarkerDirectory

namespace MarkerBus

/-! Retention: the instants whose markers are kept, oldest first.

Once more than `limit` instants are tracked, the markers of the oldest ones are
deleted.  An instant leaves the queue when all of its markers are gone; if they
cannot be deleted, it stays at the head, and the next cleaning starts with it.
-/

structure Retention where
  limit : Nat
  queue : List Instant := []
deriving DecidableEq, Repr

namespace Retention

open Storage

def limitMessage : String :=
  "InstantRetention: max_retained must be at least 1"

def ofLimit? (limit : Nat) : Option Retention :=
  if limit < 1 then none else some { limit }

def track (retention : Retention) (instant : Instant) : Retention :=
  if instant ∈ retention.queue then retention
  else { retention with queue := retention.queue ++ [instant] }

def clear (retention : Retention) : Retention :=
  { retention with queue := [] }

/-- How a cleaning ended, how many instants it freed, and the queue it left. -/
structure Cleaning where
  outcome : Except MarkerDirectory.Error (Option CleanupWarning)
  cleaned : Nat
  queue : List Instant

def warning (path : String) (instant : Instant) (pending : Nat) : CleanupWarning where
  instant := instant
  message := "Failed to delete checkpoint markers of instant " ++ instant ++ " under " ++ path ++
    ", will retry on next start"
  pending := pending

def drain (path : String) (limit : Nat) : List Instant → Script Cleaning
  | [] => return ⟨.ok none, 0, []⟩
  | oldest :: rest =>
      if rest.length < limit then
        return ⟨.ok none, 0, oldest :: rest⟩
      else do
        match ← MarkerDirectory.deleteAll path oldest with
        | .error error => return ⟨.error error, 0, oldest :: rest⟩
        | .ok false =>
            return ⟨.ok (some (warning path oldest (rest.length + 1))), 0, oldest :: rest⟩
        | .ok true =>
            Script.log .debug ("[CKP_CLEAN] removed markers of instant " ++ oldest)
            let cleaning ← drain path limit rest
            return { cleaning with cleaned := cleaning.cleaned + 1 }

def clean (retention : Retention) (path : String) : Script (Cleaning × Retention) := do
  let cleaning ← drain path retention.limit retention.queue
  return (cleaning, { retention with queue := cleaning.queue })

end Retention

end MarkerBus
