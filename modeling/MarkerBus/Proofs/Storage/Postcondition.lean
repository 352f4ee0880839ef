import MarkerBus.Proofs.Storage.Performance
import MarkerBus.Storage.Memory

namespace MarkerBus

/-- The warnings among some notices. -/
def Notice.warnings : List Notice → List CleanupWarning
  | [] => []
  | .log _ :: rest => warnings rest
  | .cleanup warning :: rest => warning :: warnings rest

@[simp] theorem Notice.warnings_append (earlier later : List Notice) :
    warnings (earlier ++ later) = warnings earlier ++ warnings later := by
  induction earlier with
  | nil => rfl
  | cons notice rest ih => cases notice <;> simp [warnings, ih]

namespace Storage

open Notice (warnings)

variable {σ α β : Type}

def Reported (answer : Except Failure α) : Prop :=
  ∀ failure, answer = .error failure → ∃ report, failure = .reported report

/-- The storage reports the reason of every failure, and leaves warnings to others. -/
structure Backend.Plain (backend : Backend σ) : Prop where
  reports : ∀ request storage, Reported (backend request storage).result
  silent : ∀ request storage, warnings (backend request storage).notices = []

theorem Memory.plain_serve : Memory.serve.Plain where
  reports request memory failure failed := by
    cases request with
    | create path =>
        change (memory.create path).1 = .error failure at failed
        unfold create at failed
        dsimp only at failed
        split at failed
        · cases failed
          exact ⟨_, rfl⟩
        · split at failed
          · cases failed
            exact ⟨_, rfl⟩
          · split at failed <;> cases failed
    | list | remove | probe | reset => cases failed
  silent request memory := by cases request <;> rfl

theorem Backend.Plain.failing {π : Type} {backend : Backend σ} (plain : backend.Plain)
    {strike : Strike π} (within : strike.Within Fault.reported) :
    (backend.failing strike).Plain where
  reports request state failure failed := by
    unfold Backend.failing at failed
    split at failed
    · rename_i struck
      cases failed
      exact within request state.plan failure (by rw [struck])
    · exact plain.reports request state.storage failure failed
  silent request state := by
    unfold Backend.failing
    split
    · rfl
    · exact plain.silent request state.storage

namespace Script

/-- The postcondition holds of the warnings and the value, however the storage
answers. -/
def Ensures : Script α → (List CleanupWarning → α → Prop) → Prop
  | .done value, post => post [] value
  | .tell notice rest, post => rest.Ensures fun given => post (warnings [notice] ++ given)
  | .ask _ next, post => ∀ answer, Reported answer → (next answer).Ensures post

variable {script : Script α} {next : α → Script β} {post weaker : List CleanupWarning → α → Prop}

theorem Ensures.mono (ensures : script.Ensures post)
    (le : ∀ given value, post given value → weaker given value) : script.Ensures weaker := by
  induction script generalizing post weaker with
  | done value => exact le _ _ ensures
  | tell notice rest ih => exact ih ensures fun given => le _
  | ask request answered ih => exact fun answer known => ih _ (ensures answer known) le

theorem ensures_bind {post : List CleanupWarning → β → Prop} :
    (script >>= next).Ensures post ↔ script.Ensures fun given value =>
      (next value).Ensures fun more => post (given ++ more) := by
  change (script.bind next).Ensures post ↔ _
  induction script generalizing post with
  | done value => rfl
  | tell notice rest ih => simp only [bind, Ensures, ih, List.append_assoc]
  | ask request answered ih => simp only [bind, Ensures, ih]

@[simp] theorem ensures_pure {value : α} : (pure value : Script α).Ensures post ↔ post [] value :=
  Iff.rfl

theorem ensures_bind_pure {answer : α → β} {post : List CleanupWarning → β → Prop} :
    (script >>= fun value => pure (answer value)).Ensures post ↔
      script.Ensures fun given value => post given (answer value) := by
  simp only [ensures_bind, ensures_pure, List.append_nil]

theorem ensures_log {level : Log.Level} {text : String} {next : Unit → Script β}
    {post : List CleanupWarning → β → Prop} :
    (log level text >>= next).Ensures post ↔ (next ()).Ensures post :=
  Iff.rfl

theorem ensures_ask {request : Request} {next : Except Failure request.Answer → Script β}
    {post : List CleanupWarning → β → Prop} :
    (.ask request .done >>= next : Script β).Ensures post ↔
      ∀ answer, Reported answer → (next answer).Ensures post :=
  Iff.rfl

/-- A script keeps on every run what it ensures. -/
theorem Ensures.run {backend : Backend σ} (plain : backend.Plain) (ensures : script.Ensures post)
    (storage : σ) :
    post (warnings (script.run backend storage).notices) (script.run backend storage).value := by
  induction script generalizing post storage with
  | done value => exact ensures
  | tell notice rest ih =>
      have kept := ih ensures storage
      rwa [← Notice.warnings_append] at kept
  | ask request answered ih =>
      have kept := ih _ (ensures _ (plain.reports request storage)) (backend request storage).storage
      simpa [Script.run, plain.silent] using kept

end Script

end Storage

end MarkerBus
