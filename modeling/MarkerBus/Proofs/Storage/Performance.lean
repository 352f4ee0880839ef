import MarkerBus.Storage.Failing
import MarkerBus.Storage.Script

namespace MarkerBus.Storage

/-! Performances: what a script can do on a storage whose calls may fail.

`Performs` says that a script, step by step, can make a list of calls, answer a
value and leave a storage, where a call may be struck by a fault before it has
any effect.  It speaks of the storage under the faults and not of the way in
which the faults are chosen.  Every run of a failing backend is a performance,
so an operation is described once, for all patterns of failures.
-/

structure Call where
  request : Request
  failed : Bool
deriving DecidableEq, Repr

/-- The failures that may strike a call. -/
abbrev Fault :=
  Request → Failure → Prop

namespace Fault

def none : Fault :=
  fun _ _ => False

def reported : Fault :=
  fun _ failure => ∃ report, failure = .reported report

def removals : Fault :=
  fun request failure => (∃ path, request = .remove path) ∧ ∃ report, failure = .reported report

/-- The storage knows the reason of every failure. -/
def Reports (fault : Fault) : Prop :=
  ∀ request failure, fault request failure → ∃ report, failure = .reported report

theorem reports_none : none.Reports := by
  intro request failure impossible
  exact impossible.elim

theorem reports_reported : reported.Reports := by
  intro request failure known
  exact known

theorem reported_of_removals {request : Request} {failure : Failure}
    (struck : removals request failure) : reported request failure :=
  struck.2

end Fault

def Strike.Within {π : Type} (strike : Strike π) (fault : Fault) : Prop :=
  ∀ request plan failure, (strike request plan).1 = some failure → fault request failure

theorem Strike.Within.mono {π : Type} {strike : Strike π} {weaker stronger : Fault}
    (within : strike.Within weaker)
    (le : ∀ request failure, weaker request failure → stronger request failure) :
    strike.Within stronger := by
  intro request plan failure struck
  exact le request failure (within request plan failure struck)

/-- The removal of one file fails as often as the plan says; nothing else fails. -/
def Strike.refusing (file : String) : Strike Nat
  | .remove path, times + 1 =>
      if path = file then (some (.reported ⟨.deleteFile, path, .ioError⟩), times)
      else (none, times + 1)
  | _, times => (none, times)

theorem Strike.refusing_within_of {fault : Fault} {file : String}
    (allowed : ∀ report, fault (.remove file) (.reported report)) :
    (refusing file).Within fault := by
  intro request plan failure struck
  unfold refusing at struck
  split at struck
  · split at struck
    · rename_i same
      subst same
      cases struck
      exact allowed _
    · cases struck
  · cases struck

theorem Strike.refusing_within (file : String) : (refusing file).Within Fault.removals :=
  refusing_within_of fun report => ⟨⟨file, rfl⟩, report, rfl⟩

/-- A storage with the record of the calls that were made on it. -/
structure Recorded (σ : Type) where
  calls : List Call
  storage : σ

def Backend.recorded {σ : Type} (backend : Backend σ) : Backend (Recorded σ) :=
  fun request state =>
    let reply := backend request state.storage
    { reply with storage := ⟨state.calls ++ [⟨request, !reply.result.isOk⟩], reply.storage⟩ }

inductive Performs {σ α : Type} (base : Backend σ) (fault : Fault) :
    Script α → σ → List Call → α → σ → Prop where
  | done {value : α} {storage : σ} : Performs base fault (.done value) storage [] value storage
  | tell {notice : Notice} {rest : Script α} {before after : σ} {calls : List Call} {value : α}
      (told : Performs base fault rest before calls value after) :
      Performs base fault (.tell notice rest) before calls value after
  | struck {request : Request} {next : Except Failure request.Answer → Script α}
      {before after : σ} {calls : List Call} {value : α} {failure : Failure}
      (allowed : fault request failure)
      (answered : Performs base fault (next (.error failure)) before calls value after) :
      Performs base fault (.ask request next) before (⟨request, true⟩ :: calls) value after
  | served {request : Request} {next : Except Failure request.Answer → Script α}
      {before after : σ} {calls : List Call} {value : α}
      (answered : Performs base fault (next (base request before).result)
        (base request before).storage calls value after) :
      Performs base fault (.ask request next) before
        (⟨request, !(base request before).result.isOk⟩ :: calls) value after

namespace Performs

variable {σ α β : Type} {base : Backend σ} {fault : Fault} {before after : σ}
  {calls : List Call} {script : Script α}

theorem of_pure {value result : α}
    (performed : Performs base fault (pure value : Script α) before calls result after) :
    calls = [] ∧ result = value ∧ before = after := by
  cases performed
  exact ⟨rfl, rfl, rfl⟩

theorem of_bind {next : α → Script β} {result : β}
    (performed : Performs base fault (script >>= next) before calls result after) :
    ∃ first value middle second, Performs base fault script before first value middle ∧
      Performs base fault (next value) middle second result after ∧ calls = first ++ second := by
  change Performs base fault (script.bind next) before calls result after at performed
  induction script generalizing before calls with
  | done value => exact ⟨[], value, before, calls, .done, performed, rfl⟩
  | tell notice rest ih =>
      cases performed with
      | tell told =>
          obtain ⟨first, value, middle, second, head, tail, split⟩ := ih told
          exact ⟨first, value, middle, second, .tell head, tail, split⟩
  | ask request answered ih =>
      cases performed with
      | struck allowed rest =>
          obtain ⟨first, value, middle, second, head, tail, rfl⟩ := ih _ rest
          exact ⟨_, value, middle, second, .struck allowed head, tail, rfl⟩
      | served rest =>
          obtain ⟨first, value, middle, second, head, tail, rfl⟩ := ih _ rest
          exact ⟨_, value, middle, second, .served head, tail, rfl⟩

theorem of_bind_pure {answer : α → β} {result : β}
    (performed : Performs base fault (script >>= fun value => pure (answer value))
      before calls result after) :
    ∃ value, Performs base fault script before calls value after ∧ result = answer value := by
  obtain ⟨first, value, middle, second, head, tail, rfl⟩ := performed.of_bind
  obtain ⟨rfl, rfl, rfl⟩ := tail.of_pure
  rw [List.append_nil]
  exact ⟨value, head, rfl⟩

/-- Telling the log makes no call. -/
theorem of_log {level : Log.Level} {text : String} {next : Unit → Script α} {result : α}
    (performed : Performs base fault (Script.log level text >>= next) before calls result after) :
    Performs base fault (next ()) before calls result after := by
  obtain ⟨first, value, middle, second, told, rest, rfl⟩ := performed.of_bind
  cases told with
  | tell told =>
      cases told
      exact rest

theorem of_ask {request : Request} {result : Except Failure request.Answer}
    (performed : Performs base fault (.ask request .done) before calls result after) :
    (∃ failure, fault request failure ∧ result = .error failure ∧ before = after ∧
        calls = [⟨request, true⟩]) ∨
      result = (base request before).result ∧ (base request before).storage = after ∧
        calls = [⟨request, !(base request before).result.isOk⟩] := by
  cases performed with
  | struck allowed answered =>
      cases answered
      exact .inl ⟨_, allowed, rfl, rfl, rfl⟩
  | served answered =>
      cases answered
      exact .inr ⟨rfl, rfl, rfl⟩

theorem keeps {keeps : σ → Prop} {result : α}
    (step : ∀ request storage, keeps storage → keeps (base request storage).storage)
    (performed : Performs base fault script before calls result after)
    (kept : keeps before) : keeps after := by
  induction performed with
  | done => exact kept
  | tell _ ih => exact ih kept
  | struck _ _ ih => exact ih kept
  | served _ ih => exact ih (step _ _ kept)

end Performs

namespace Script

variable {σ π α : Type} {base : Backend σ} {fault : Fault}

theorem performs_run (base : Backend σ) (fault : Fault) (script : Script α) (storage : σ) :
    ∃ calls, Performs base fault script storage calls
      (script.run base storage).value (script.run base storage).storage := by
  induction script generalizing storage with
  | done value => exact ⟨[], .done⟩
  | tell notice rest ih =>
      obtain ⟨calls, performed⟩ := ih storage
      exact ⟨calls, .tell performed⟩
  | ask request next ih =>
      obtain ⟨calls, performed⟩ := ih _ (base request storage).storage
      exact ⟨_, .served performed⟩

theorem run_recorded (backend : Backend σ) (script : Script α) (calls : List Call) (storage : σ) :
    (script.run backend.recorded ⟨calls, storage⟩).value = (script.run backend storage).value ∧
      (script.run backend.recorded ⟨calls, storage⟩).storage.storage =
        (script.run backend storage).storage := by
  induction script generalizing calls storage with
  | done value => exact ⟨rfl, rfl⟩
  | tell notice rest ih => exact ih calls storage
  | ask request next ih => exact ih _ _ _

/-- A run on a failing backend performs the script on the storage under the
faults, with the calls that the record shows. -/
theorem performs_failing (base : Backend σ) {strike : Strike π} (within : strike.Within fault)
    (script : Script α) (recorded : List Call) (state : Failing π σ) :
    ∃ calls,
      (script.run (base.failing strike).recorded ⟨recorded, state⟩).storage.calls =
        recorded ++ calls ∧
      Performs base fault script state.storage calls
        (script.run (base.failing strike) state).value
        (script.run (base.failing strike) state).storage.storage := by
  induction script generalizing recorded state with
  | done value => exact ⟨[], by simp [run], .done⟩
  | tell notice rest ih =>
      obtain ⟨calls, record, performed⟩ := ih recorded state
      exact ⟨calls, record, .tell performed⟩
  | ask request next ih =>
      obtain ⟨plan, storage⟩ := state
      cases struck : strike request plan with
      | mk failure? later =>
          cases failure? with
          | some failure =>
              have allowed := within request plan failure (by rw [struck])
              obtain ⟨calls, record, performed⟩ :=
                ih (.error failure) (recorded ++ [⟨request, true⟩]) ⟨later, storage⟩
              refine ⟨⟨request, true⟩ :: calls, ?_, ?_⟩
              · simpa [run, Backend.recorded, Backend.failing, struck, Except.isOk,
                  Except.toBool] using record
              · simpa [run, Backend.failing, struck] using Performs.struck allowed performed
          | none =>
              obtain ⟨calls, record, performed⟩ := ih (base request storage).result
                (recorded ++ [⟨request, !(base request storage).result.isOk⟩])
                ⟨later, (base request storage).storage⟩
              refine ⟨⟨request, !(base request storage).result.isOk⟩ :: calls, ?_, ?_⟩
              · simpa [run, Backend.recorded, Backend.failing, struck] using record
              · simpa [run, Backend.failing, struck] using Performs.served performed

end Script

end MarkerBus.Storage
