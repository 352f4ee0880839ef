import MarkerBus.Storage.Request

namespace MarkerBus.Storage

/-- Decides whether a call fails before it has any effect. -/
abbrev Strike (π : Type) :=
  Request → π → Option Failure × π

structure Failing (π σ : Type) where
  plan : π
  storage : σ
deriving DecidableEq, Repr

/-- A backend whose calls fail where the strike says so. -/
def Backend.failing {π σ : Type} (backend : Backend σ) (strike : Strike π) :
    Backend (Failing π σ) :=
  fun request state =>
    match strike request state.plan with
    | (some failure, plan) => { result := .error failure, storage := { state with plan } }
    | (none, plan) =>
        let reply := backend request state.storage
        { reply with storage := ⟨plan, reply.storage⟩ }

end MarkerBus.Storage
