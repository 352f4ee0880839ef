import MarkerBus.Storage.Request

namespace MarkerBus.Storage

/-! Scripts: sequences of storage calls, each of which may depend on the answers
so far, with notices in between.

A script says nothing about the storage that serves it.  `run` carries a script
out on a backend; `advance` makes a single call of it, so that several scripts
can take turns on one storage.
-/

inductive Script (α : Type) where
  | done (value : α)
  | tell (notice : Notice) (rest : Script α)
  | ask (request : Request) (next : Except Failure request.Answer → Script α)

/-- What is left after a script has been carried out. -/
structure Run (σ α : Type) where
  value : α
  storage : σ
  notices : List Notice

namespace Script

variable {σ α β : Type}

def bind : Script α → (α → Script β) → Script β
  | .done value, next => next value
  | .tell notice rest, next => .tell notice (rest.bind next)
  | .ask request answered, next => .ask request fun answer => (answered answer).bind next

instance : Monad Script where
  pure := .done
  bind := bind

def log (level : Log.Level) (text : String) : Script Unit :=
  .tell (.log ⟨level, text⟩) (.done ())

def warn (warning : CleanupWarning) : Script Unit :=
  .tell (.cleanup warning) (.done ())

def create (path : String) : Script (Except Failure Creation) :=
  .ask (.create path) .done

def list (path : String) : Script (Except Failure (List String)) :=
  .ask (.list path) .done

def remove (path : String) : Script (Except Failure Removal) :=
  .ask (.remove path) .done

def probe (path : String) : Script (Except Failure Bool) :=
  .ask (.probe path) .done

def reset (path : String) : Script (Except Failure Unit) :=
  .ask (.reset path) .done

def run (backend : Backend σ) : Script α → σ → Run σ α
  | .done value, storage => ⟨value, storage, []⟩
  | .tell notice rest, storage =>
      let after := rest.run backend storage
      { after with notices := notice :: after.notices }
  | .ask request next, storage =>
      let reply := backend request storage
      let after := (next reply.result).run backend reply.storage
      { after with notices := reply.notices ++ after.notices }

/-- The script and the storage after the next call; a script that has no call
left stays as it is. -/
def advance (backend : Backend σ) : Script α → σ → Script α × σ
  | .done value, storage => (.done value, storage)
  | .tell _ rest, storage => rest.advance backend storage
  | .ask request next, storage =>
      let reply := backend request storage
      (next reply.result, reply.storage)

@[simp] theorem run_pure (backend : Backend σ) (value : α) (storage : σ) :
    (pure value : Script α).run backend storage = ⟨value, storage, []⟩ :=
  rfl

/-- Carrying out two scripts in a row carries out the second on what the first
left, and keeps all notices in order. -/
theorem run_bind (backend : Backend σ) (script : Script α) (next : α → Script β) (storage : σ) :
    (script >>= next).run backend storage =
      let first := script.run backend storage
      let second := (next first.value).run backend first.storage
      { second with notices := first.notices ++ second.notices } := by
  change (script.bind next).run backend storage = _
  induction script generalizing storage with
  | done value => simp [bind, run]
  | tell notice rest ih => simp [bind, run, ih]
  | ask request answered ih => simp [bind, run, ih]

end Script

end MarkerBus.Storage
