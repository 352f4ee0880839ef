import MarkerBus.Proofs.Fleet

namespace MarkerBus

/-! Histories: what a fleet did, action by action, latest first.

Each step holds its action, its answer, the calls that it made, and the moments
before and after it.  `history` computes the steps on any backend.  On a memory
whose calls may fail, every history is a `Trace`: each step is one of the things
that an action can do, whatever the pattern of failures.
-/

open Storage

instance decidableEqExcept {ε α : Type} [DecidableEq ε] [DecidableEq α] :
    DecidableEq (Except ε α)
  | .ok left, .ok right => decidable_of_iff (left = right) (by simp)
  | .error left, .error right => decidable_of_iff (left = right) (by simp)
  | .ok _, .error _ => isFalse nofun
  | .error _, .ok _ => isFalse nofun

/-- A fleet and the storage below it at one time. -/
structure Moment (σ : Type) where
  fleet : Fleet
  storage : σ

structure Step (σ : Type) where
  name : String
  action : Action
  before : Moment σ
  /-- There is no answer if no bus has the name. -/
  answer? : Option (Except Bus.Error Answer)
  calls : List Call
  after : Moment σ

namespace Moment

variable {σ π : Type}

def act (backend : Backend σ) (moment : Moment σ) (name : String) (action : Action) : Step σ :=
  let run := (moment.fleet.act name action).run backend.recorded ⟨[], moment.storage⟩
  ⟨name, action, moment, run.value.1, run.storage.calls, ⟨run.value.2, run.storage.storage⟩⟩

def following (start : Moment σ) : List (Step σ) → Moment σ
  | [] => start
  | step :: _ => step.after

@[simp] theorem following_cons (start : Moment σ) (step : Step σ) (past : List (Step σ)) :
    start.following (step :: past) = step.after :=
  rfl

/-- The history of some actions, which are given latest first as well. -/
def history (backend : Backend σ) (start : Moment σ) : List (String × Action) → List (Step σ)
  | [] => []
  | (name, action) :: earlier =>
      let past := start.history backend earlier
      (start.following past).act backend name action :: past

def memory (moment : Moment (Failing π Memory)) : Memory :=
  moment.storage.storage

def WellFormed (moment : Moment (Failing π Memory)) : Prop :=
  moment.fleet.WellFormed ∧ moment.memory.WellFormed

theorem run_act (backend : Backend σ) (moment : Moment σ) (name : String) (action : Action) :
    let run := (moment.fleet.act name action).run backend moment.storage
    let step := moment.act backend name action
    run.value = (step.answer?, step.after.fleet) ∧ run.storage = step.after.storage := by
  obtain ⟨value, storage⟩ := Script.run_recorded backend (moment.fleet.act name action) []
    moment.storage
  exact ⟨value.symm, storage.symm⟩

end Moment

section

variable {σ : Type}

end

variable {π : Type} {fault : Fault} {start : Moment (Failing π Memory)}
  {past later : List (Step (Failing π Memory))} {step : Step (Failing π Memory)}

def Step.Acts (fault : Fault) (step : Step (Failing π Memory)) : Prop :=
  Fleet.Acts fault step.before.fleet step.name step.before.memory step.action step.calls
    step.answer? step.after.fleet step.after.memory

/-- The histories that are possible from a start, under the faults. -/
inductive Trace (fault : Fault) (start : Moment (Failing π Memory)) :
    List (Step (Failing π Memory)) → Prop where
  | start : Trace fault start []
  | step {step : Step (Failing π Memory)} {past : List (Step (Failing π Memory))}
      (earlier : Trace fault start past) (follows : step.before = start.following past)
      (wellFormed : step.before.WellFormed) (acts : step.Acts fault) :
      Trace fault start (step :: past)

theorem Step.Acts.wellFormed (acts : step.Acts fault) (wellFormed : step.before.WellFormed) :
    step.after.WellFormed :=
  ⟨Fleet.Acts.wellFormed acts wellFormed.1, Fleet.Acts.memory_wellFormed acts wellFormed.2⟩

theorem Trace.wellFormed (trace : Trace fault start past) (wellFormed : start.WellFormed) :
    (start.following past).WellFormed := by
  cases trace with
  | start => exact wellFormed
  | step earlier follows formed acts => exact acts.wellFormed formed

theorem Trace.of_append (trace : Trace fault start (later ++ past)) : Trace fault start past := by
  induction later with
  | nil => exact trace
  | cons step later ih =>
      cases trace with
      | step earlier => exact ih earlier

theorem Moment.trace_history {strike : Strike π} (reports : fault.Reports)
    (within : strike.Within fault) (wellFormed : start.WellFormed)
    (actions : List (String × Action)) :
    Trace fault start (start.history (Memory.serve.failing strike) actions) := by
  induction actions with
  | nil => exact .start
  | cons head earlier ih =>
      obtain ⟨name, action⟩ := head
      have formed := ih.wellFormed wellFormed
      refine .step ih rfl formed ?_
      simp only [Step.Acts, act]
      generalize start.following (start.history (Memory.serve.failing strike) earlier) = now
        at formed
      obtain ⟨calls, record, performed⟩ := Script.performs_failing Memory.serve within
        (now.fleet.act name action) [] now.storage
      obtain ⟨value, storage⟩ := Script.run_recorded (Memory.serve.failing strike)
        (now.fleet.act name action) [] now.storage
      simp only [record, value, List.nil_append, memory, storage]
      exact Fleet.acts reports formed.1 performed

end MarkerBus
