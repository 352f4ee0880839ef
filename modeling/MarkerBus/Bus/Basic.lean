import MarkerBus.Bus.Config
import MarkerBus.Bus.Error
import MarkerBus.Retention
import MarkerBus.View

namespace MarkerBus

/-! A bus: one participant of a marker directory.

A coordinator starts, commits and aborts instants; every participant loads views
and asks about them.  A start cleans up after itself.  A cleanup that fails never
fails the start: it is logged, counted and told to the listener, and the next
start tries again.

Operations are scripts over the storage.  An `Outcome` pairs what an operation
answers with the bus as it is afterwards, which also follows a failure.
-/

structure Bus.Stats where
  markersWritten : UInt64 := 0
  scans : UInt64 := 0
  instantsCleaned : UInt64 := 0
  cleanupFailures : UInt64 := 0
deriving DecidableEq, Repr

/-- Who is told about a cleanup that failed. -/
inductive Bus.Listener where
  | absent
  | attentive
  /-- Hears the warning, and then fails for a reason of its own. -/
  | failing (reason : String)
deriving DecidableEq, Repr

structure Bus where
  config : Bus.Config
  retention : Retention
  view? : Option View := none
  stats : Bus.Stats := {}
  listener : Bus.Listener := .absent
deriving DecidableEq, Repr

namespace Bus

open Storage

structure Outcome (α : Type) where
  result : Except Error α
  bus : Bus

def ofConfig (config : Config) : Except Error Bus :=
  if config.Valid then
    .ok { config, retention := { limit := config.limit } }
  else
    .error (.invalidConfig config.base)

def path (bus : Bus) : String :=
  bus.config.path

/-- The instants whose markers the bus still has to delete some day. -/
def retained (bus : Bus) : List Instant :=
  bus.retention.queue

def bootstrap (bus : Bus) : Script (Outcome Unit) := do
  match ← MarkerDirectory.reset bus.path with
  | .ok () =>
      Script.log .info ("Bootstrapped checkpoint metadata under " ++ bus.path)
      return ⟨.ok (), bus⟩
  | .error error =>
      if let .storage (.reported report) := error then
        Script.log .error
          ("Failed to bootstrap checkpoint metadata under " ++ bus.path ++ ": " ++ report.message)
      return ⟨.error (.ofDirectory error), bus⟩

def countMarker (bus : Bus) : Bus :=
  { bus with stats := { bus.stats with markersWritten := bus.stats.markersWritten + 1 } }

def publish (bus : Bus) (act : Act) (instant : Instant) : Script (Outcome Unit) := do
  match ← MarkerDirectory.append bus.path ⟨instant, act.phase⟩ with
  | .ok () =>
      Script.log .debug
        ("[CKP] " ++ act.word ++ " instant=" ++ instant ++ " state=" ++ act.phase.name)
      return ⟨.ok (), bus.countMarker⟩
  | .error (.storage (.reported report)) =>
      Script.log .error
        ("Exception while adding checkpoint " ++ act.word ++ " metadata for instant: " ++ instant ++
          ": " ++ report.message)
      return ⟨.error (.publishing act instant report), bus⟩
  | .error error => return ⟨.error (.ofDirectory error), bus⟩

/-- Tell the listener.  Its own failure goes into the log and no further. -/
def notify (listener : Listener) (warning : CleanupWarning) : Script Unit :=
  match listener with
  | .absent => return ()
  | .attentive => Script.warn warning
  | .failing reason => do
      Script.warn warning
      Script.log .warning ("Checkpoint cleanup callback threw: " ++ Text.beforeNul reason)

def clean (bus : Bus) : Script (Outcome Unit) := do
  let (cleaning, retention) ← bus.retention.clean bus.path
  let bus := { bus with retention }
  match cleaning.outcome with
  | .error error => return ⟨.error (.ofDirectory error), bus⟩
  | .ok warning? =>
      let stats :=
        { bus.stats with instantsCleaned := bus.stats.instantsCleaned + .ofNat cleaning.cleaned }
      match warning? with
      | none => return ⟨.ok (), { bus with stats }⟩
      | some warning =>
          Script.log .warning warning.message
          notify bus.listener warning
          let stats := { stats with cleanupFailures := stats.cleanupFailures + 1 }
          return ⟨.ok (), { bus with stats }⟩

def start (bus : Bus) (instant : Instant) : Script (Outcome Unit) := do
  let published ← bus.publish .start instant
  match published.result with
  | .error error => return ⟨.error error, published.bus⟩
  | .ok () =>
      let bus := published.bus
      { bus with retention := bus.retention.track instant }.clean

def commit (bus : Bus) (instant : Instant) : Script (Outcome Unit) :=
  bus.publish .commit instant

def abort (bus : Bus) (instant : Instant) : Script (Outcome Unit) :=
  bus.publish .abort instant

/-- The view of the directory as it is now.  The bus keeps it for later
questions; if the scan fails, it keeps the view that it had. -/
def load (bus : Bus) : Script (Outcome View) := do
  match ← MarkerDirectory.scan bus.path with
  | .ok messages =>
      let view := View.resolve messages
      let stats := { bus.stats with scans := bus.stats.scans + 1 }
      return ⟨.ok view, { bus with view? := some view, stats }⟩
  | .error (.storage (.reported report)) =>
      Script.log .error
        ("Exception while scanning the checkpoint meta files under path: " ++ bus.path ++ ": " ++
          report.message)
      return ⟨.error (.scanning bus.path report), bus⟩
  | .error error => return ⟨.error (.ofDirectory error), bus⟩

def messages (bus : Bus) : Script (Outcome (List Message)) :=
  bus.load

def pending (bus : Bus) : Script (Outcome (Option Instant)) := do
  let loaded ← bus.load
  return ⟨loaded.result.map View.pending?, loaded.bus⟩

/-- Does the view loaded last show the instant aborted? -/
def isAborted (bus : Bus) (instant : Instant) : Except Error Bool :=
  match bus.view? with
  | some view => .ok (view.isAborted instant)
  | none => .error .notLoaded

def close (bus : Bus) : Bus :=
  { bus with retention := bus.retention.clear }

end Bus

end MarkerBus
