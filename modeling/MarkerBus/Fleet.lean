import MarkerBus.Bus.Basic
import MarkerBus.Named

namespace MarkerBus

inductive Action where
  | construct (config : Bus.Config)
  | listen (listener : Bus.Listener)
  | bootstrap
  | start (instant : Instant)
  | commit (instant : Instant)
  | abort (instant : Instant)
  | messages
  | pending
  | isAborted (instant : Instant)
  | close
  | destroy
deriving DecidableEq, Repr

inductive Answer where
  | nothing
  | path (path : String)
  | messages (messages : List Message)
  | pending (instant? : Option Instant)
  | flag (value : Bool)
deriving DecidableEq, Repr

/-- Buses that share one storage, each under a name. -/
structure Fleet where
  buses : Named Bus := {}
deriving DecidableEq, Repr

namespace Fleet

open Storage

def bus? (fleet : Fleet) (name : String) : Option Bus :=
  fleet.buses.get? name

def insert (fleet : Fleet) (name : String) (bus : Bus) : Fleet :=
  ⟨fleet.buses.insert name bus⟩

def erase (fleet : Fleet) (name : String) : Fleet :=
  ⟨fleet.buses.erase name⟩

def actOn (bus : Bus) : Action → Script (Bus.Outcome Answer)
  | .construct _ | .destroy => return ⟨.ok .nothing, bus⟩
  | .listen listener => return ⟨.ok .nothing, { bus with listener }⟩
  | .bootstrap => do
      let outcome ← bus.bootstrap
      return ⟨outcome.result.map fun () => .nothing, outcome.bus⟩
  | .start instant => do
      let outcome ← bus.start instant
      return ⟨outcome.result.map fun () => .nothing, outcome.bus⟩
  | .commit instant => do
      let outcome ← bus.commit instant
      return ⟨outcome.result.map fun () => .nothing, outcome.bus⟩
  | .abort instant => do
      let outcome ← bus.abort instant
      return ⟨outcome.result.map fun () => .nothing, outcome.bus⟩
  | .messages => do
      let outcome ← bus.messages
      return ⟨outcome.result.map .messages, outcome.bus⟩
  | .pending => do
      let outcome ← bus.pending
      return ⟨outcome.result.map .pending, outcome.bus⟩
  | .isAborted instant => return ⟨(bus.isAborted instant).map .flag, bus⟩
  | .close => return ⟨.ok .nothing, bus.close⟩

def act (fleet : Fleet) (name : String) (action : Action) :
    Script (Option (Except Bus.Error Answer) × Fleet) :=
  match action, fleet.bus? name with
  | .construct config, _ =>
      match Bus.ofConfig config with
      | .ok bus => return (some (.ok (.path bus.path)), fleet.insert name bus)
      | .error error => return (some (.error error), fleet)
  | .destroy, some _ => return (some (.ok .nothing), fleet.erase name)
  | action, some bus => do
      let outcome ← actOn bus action
      return (some outcome.result, fleet.insert name outcome.bus)
  | _, none => return (none, fleet)

def run (fleet : Fleet) :
    List (String × Action) → Script (List (Option (Except Bus.Error Answer)) × Fleet)
  | [] => return ([], fleet)
  | (name, action) :: rest => do
      let (answer, fleet) ← fleet.act name action
      let (answers, fleet) ← fleet.run rest
      return (answer :: answers, fleet)

end Fleet

end MarkerBus
