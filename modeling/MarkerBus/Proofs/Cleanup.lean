import MarkerBus.Proofs.Statistics
import MarkerBus.Storage.Directory

namespace MarkerBus

open Storage MarkerDirectory
open Notice (warnings)

variable {σ α β : Type} {backend : Backend σ} {path : String} {limit : Nat} {bus : Bus}
  {instant : Instant} {queue : List Instant} {storage : σ}

namespace Storage

/-- Any call may fail, in any way. -/
def Fault.any : Fault :=
  fun _ _ => True

/-- The storage reports why it refuses a removal, and leaves warnings to others. -/
structure Backend.Removes (backend : Backend σ) : Prop where
  reports : ∀ file storage, Reported (backend (.remove file) storage).result
  silent : ∀ request storage, warnings (backend request storage).notices = []

theorem Backend.Plain.removes (plain : backend.Plain) : backend.Removes where
  reports file := plain.reports (.remove file)
  silent := plain.silent

/-- A directory of a file tree is such a storage, though not all of its failures
have a reason. -/
theorem Directory.removes_serve : Directory.serve.Removes where
  reports file tree failure failed := by
    change (Directory.remove tree file).1 = .error failure at failed
    unfold Directory.remove at failed
    split at failed
    · cases failed
    · split at failed
      · cases failed
      · cases failed
        exact ⟨_, rfl⟩
  silent request tree := by
    have settled (tree : FileTree) (path : String) :
        warnings (Directory.settled tree path) = [] := by
      simp only [Directory.settled]
      split <;> rfl
    cases request with
    | create path =>
        simp only [Directory.serve, Directory.create, Directory.create.refused]
        split
        · exact settled _ _
        · split
          · split
            · rfl
            · split
              · exact settled _ _
              · split <;> rfl
          · split <;> rfl
    | list | remove | probe => rfl
    | reset path =>
        simp only [Directory.serve, Directory.reset]
        split
        · rfl
        · split
          · rfl
          · dsimp only
            split
            · rfl
            · split <;> rfl

theorem Backend.Removes.failing {π : Type} (removes : backend.Removes) {strike : Strike π}
    (known : ∀ file plan failure, (strike (.remove file) plan).1 = some failure →
      ∃ report, failure = .reported report) :
    (backend.failing strike).Removes where
  reports file state failure failed := by
    unfold Backend.failing at failed
    split at failed
    · rename_i struck
      cases failed
      exact known file state.plan failure (by rw [struck])
    · exact removes.reports file state.storage failure failed
  silent request state := by
    unfold Backend.failing
    split
    · rfl
    · exact removes.silent request state.storage

namespace Script

/-- Wherever the script runs on the backend, it gives no warning, and its calls
and its value are as described. -/
def Makes (script : Script α) (backend : Backend σ) (post : List Call → α → Prop) : Prop :=
  ∀ recorded storage,
    let run := script.run backend.recorded ⟨recorded, storage⟩
    warnings run.notices = [] ∧ ∃ calls, run.storage.calls = recorded ++ calls ∧ post calls run.value

variable {script : Script α} {next : α → Script β} {value : α} {post : List Call → α → Prop}

theorem run_log (backend : Backend σ) (level : Log.Level) (text : String) (storage : σ) :
    (log level text).run backend storage = ⟨(), storage, [.log ⟨level, text⟩]⟩ :=
  rfl

theorem makes_pure (holds : post [] value) : (pure value : Script α).Makes backend post :=
  fun recorded _ => ⟨rfl, [], (List.append_nil recorded).symm, holds⟩

theorem Makes.bind {last : List Call → β → Prop} (made : script.Makes backend post)
    (continues : ∀ calls value, post calls value →
      (next value).Makes backend fun more => last (calls ++ more)) :
    (script >>= next).Makes backend last := by
  intro recorded storage
  obtain ⟨silent, calls, record, holds⟩ := made recorded storage
  obtain ⟨quiet, more, extended, holds⟩ := continues calls _ holds
    (recorded ++ calls) (script.run backend.recorded ⟨recorded, storage⟩).storage.storage
  rw [← record] at quiet extended holds
  simp only [run_bind, Notice.warnings_append]
  refine ⟨?_, calls ++ more, ?_, holds⟩
  · rw [silent, quiet, List.append_nil]
  · rw [extended, record, List.append_assoc]

theorem makes_log_bind {level : Log.Level} {text : String} {next : Unit → Script β}
    {post : List Call → β → Prop} (made : (next ()).Makes backend post) :
    (log level text >>= next).Makes backend post :=
  fun recorded storage => made recorded storage

theorem makes_remove_bind {file : String} {next : Except Failure Removal → Script β}
    {post : List Call → β → Prop} (removes : backend.Removes)
    (answered : ∀ answer, Reported answer →
      (next answer).Makes backend fun more => post (⟨.remove file, !answer.isOk⟩ :: more)) :
    (remove file >>= next).Makes backend post := by
  have asked : (remove file).Makes backend fun calls answer =>
      Reported answer ∧ calls = [⟨.remove file, !answer.isOk⟩] := by
    intro recorded storage
    refine ⟨?_, _, rfl, removes.reports file storage, rfl⟩
    simpa [remove, run, Backend.recorded] using removes.silent (.remove file) storage
  refine asked.bind ?_
  rintro _ answer ⟨known, rfl⟩
  exact answered answer known

end Script

end Storage

theorem MarkerDirectory.makes_removeEach (removes : backend.Removes) (path : String)
    (names : List String) :
    (removeEach path names).Makes backend fun calls answer =>
      calls.map Call.request = names.map (fun name => .remove (Path.join path name)) ∧
        answer = .ok (calls.all fun call => !call.failed) := by
  induction names with
  | nil => exact Script.makes_pure ⟨rfl, rfl⟩
  | cons name rest ih =>
      unfold removeEach
      refine Script.makes_remove_bind removes fun answer known => ?_
      split
      · refine fun recorded storage => ?_
        obtain ⟨silent, calls, record, requests, answered⟩ := ih recorded storage
        refine ⟨silent, calls, record, by simp [requests], ?_⟩
        simp [answered, Except.isOk, Except.toBool]
      · refine Script.makes_log_bind (ih.bind fun calls answer tried => ?_)
        obtain ⟨requests, rfl⟩ := tried
        exact Script.makes_pure ⟨by simp [requests], by simp [Except.isOk, Except.toBool]⟩
      -- a failure without a report would end the loop, and there is none
      · rename_i failure unreported
        obtain ⟨report, rfl⟩ := known failure rfl
        exact absurd rfl (unreported report)

theorem MarkerDirectory.makes_deleteAll (removes : backend.Removes) (path : String)
    (valid : instant.Valid) :
    (deleteAll path instant).Makes backend fun calls answer =>
      calls.map Call.request = removals path instant ∧
        answer = .ok (calls.all fun call => !call.failed) := by
  have requests : removals path instant =
      (Marker.names instant).map fun name => .remove (Path.join path name) := by
    rw [removals, Marker.names, List.map_map]
    rfl
  simp only [deleteAll, Marker.encodeAll_eq_ok valid, requests]
  exact makes_removeEach removes path _

namespace Retention

theorem makes_drain (removes : backend.Removes) (path : String) (limit : Nat)
    (valid : ∀ instant ∈ queue, instant.Valid) :
    (drain path limit queue).Makes backend fun calls cleaning =>
      Drains .any path limit queue calls cleaning := by
  induction queue with
  | nil => exact Script.makes_pure (@Drains.finished _ _ _ _ [] [] rfl (Nat.zero_le _) (.inl rfl))
  | cons oldest rest ih =>
      unfold drain
      split
      · rename_i room
        exact Script.makes_pure (@Drains.finished _ _ _ _ [] (oldest :: rest) rfl room (.inl rfl))
      · rename_i full
        have exceeds : limit < (oldest :: rest).length := Nat.lt_succ_of_le (not_lt.mp full)
        refine (makes_deleteAll removes path (valid oldest (by simp))).bind fun tried answer ended => ?_
        obtain ⟨requests, rfl⟩ := ended
        cases served : tried.all fun call => !call.failed with
        | false =>
            obtain ⟨call, member, struck⟩ := List.all_eq_false.mp served
            have failed : call.failed = true := by simpa using struck
            refine Script.makes_pure ?_
            rw [List.append_nil]
            exact @Drains.stuck _ _ _ _ [] rest oldest tried rfl exceeds requests
              ⟨call, member, failed, .interrupted "", trivial⟩
        | true =>
            have tailValid : ∀ instant ∈ rest, instant.Valid :=
              fun instant member => valid instant (List.mem_cons_of_mem _ member)
            refine Script.makes_log_bind ((ih tailValid).bind fun calls cleaning drains => ?_)
            refine Script.makes_pure ?_
            rw [eq_freeing_of_served requests served, List.append_nil]
            exact drains.cons exceeds

theorem makes_clean (removes : backend.Removes) (retention : Retention) (path : String)
    (valid : ∀ instant ∈ retention.queue, instant.Valid) :
    (retention.clean path).Makes backend fun calls cleaned =>
      Drains .any path retention.limit retention.queue calls cleaned.1 ∧
        cleaned.2 = { retention with queue := cleaned.1.queue } := by
  refine (makes_drain removes path retention.limit valid).bind fun calls cleaning drains => ?_
  refine Script.makes_pure ⟨?_, rfl⟩
  rwa [List.append_nil]

variable {fault : Fault} {calls : List Call} {cleaning : Cleaning}

/-- The markers of different instants are different files. -/
theorem eq_of_mem_removals {other : Instant} {request : Request} (nonempty : path ≠ "")
    (valid : instant.Valid) (otherValid : other.Valid) (own : request ∈ removals path instant)
    (shared : request ∈ removals path other) : instant = other := by
  obtain ⟨phase, rfl⟩ := mem_removals.mp own
  obtain ⟨otherPhase, same⟩ := mem_removals.mp shared
  have named : (⟨instant, phase⟩ : Message).instant.Valid := valid
  have otherNamed : (⟨other, otherPhase⟩ : Message).instant.Valid := otherValid
  exact congrArg Message.instant (file_injective nonempty named otherNamed (Request.remove.inj same))

/-- How a cleaning ends: by the queue before and after it, its calls, and the
warnings that it raises. -/
inductive Ends (path : String) (limit : Nat) (before after : List Instant) (calls : List Call)
    (raised : List CleanupWarning) : Prop where
  /-- All that was due is deleted. -/
  | drained (served : ∀ call ∈ calls, call.failed = false) (silent : raised = [])
      (length : after.length = min before.length limit)
  /-- A marker of the first instant that is left could not be removed, and those of
  the later ones were not tried. -/
  | stuck {head : Instant} {rest : List Instant} (left : after = head :: rest)
      (exceeds : limit < after.length) (warned : raised = [warning path head after.length])
      (failed : ∃ call ∈ calls, call.failed = true)
      (own : ∀ call ∈ calls, call.failed = true → call.request ∈ removals path head)
      (untried : ∀ call ∈ calls, ∀ later ∈ rest, call.request ∉ removals path later)

/-- A call before the cleaning that has nothing to do with it is of no account. -/
theorem Ends.cons {before after : List Instant} {raised : List CleanupWarning} {call : Call}
    (ends : Ends path limit before after calls raised) (served : call.failed = false)
    (apart : ∀ instant, call.request ∉ removals path instant) :
    Ends path limit before after (call :: calls) raised := by
  cases ends with
  | drained passed silent length =>
      exact .drained (List.forall_mem_cons.mpr ⟨served, passed⟩) silent length
  | stuck left exceeds warned failed own untried =>
      obtain ⟨struck, made, fails⟩ := failed
      refine .stuck left exceeds warned ⟨struck, List.mem_cons_of_mem _ made, fails⟩ ?_ ?_
      · exact List.forall_mem_cons.mpr ⟨fun fails => by simp [served] at fails, own⟩
      · exact List.forall_mem_cons.mpr ⟨fun later _ => apart later, untried⟩

theorem Drains.ends (drains : Drains fault path limit queue calls cleaning) (nonempty : path ≠ "")
    (distinct : queue.Nodup) (valid : ∀ instant ∈ queue, instant.Valid) :
    Ends path limit queue cleaning.queue calls cleaning.raised := by
  cases drains with
  | @finished freed kept split enough needed =>
      refine .drained (fun call made => (mem_freeing.mp made).1) rfl ?_
      have whole : queue.length = freed.length + kept.length := by simp [split]
      rcases needed with rfl | full
      · simp [whole, enough]
      · simp [whole, full]
  | @stuck freed rest head tried split exceeds requests failed =>
      obtain ⟨struck, attempted, fails, _⟩ := failed
      refine .stuck rfl exceeds rfl ⟨struck, List.mem_append_right _ attempted, fails⟩ ?_ ?_
      · intro call made fails
        rcases List.mem_append.mp made with swept | attempted
        · simp [(mem_freeing.mp swept).1] at fails
        · exact requests ▸ List.mem_map_of_mem attempted
      · intro call made later waits removal
        -- the call is about an instant in front of those that wait
        have front : ∃ earlier ∈ freed ++ [head], call.request ∈ removals path earlier := by
          rcases List.mem_append.mp made with swept | attempted
          · obtain ⟨_, earlier, member, own⟩ := mem_freeing.mp swept
            exact ⟨earlier, List.mem_append_left _ member, own⟩
          · exact ⟨head, by simp, requests ▸ List.mem_map_of_mem attempted⟩
        obtain ⟨earlier, member, own⟩ := front
        have whole : queue = (freed ++ [head]) ++ rest := by simp [split]
        rw [whole] at distinct valid
        have same := eq_of_mem_removals nonempty (valid earlier (List.mem_append_left _ member))
          (valid later (List.mem_append_right _ waits)) own removal
        exact (List.nodup_append.mp distinct).2.2 earlier member later waits same

end Retention

namespace Bus

/-- How the warnings of an operation come out: in the counter, in the log, and at
the listener if there is one. -/
structure Raises (bus later : Bus) (notices : List Notice) (raised : List CleanupWarning) :
    Prop where
  counted : later.stats.cleanupFailures = bus.stats.cleanupFailures + .ofNat raised.length
  logged : ∀ warning ∈ raised, .log ⟨.warning, warning.message⟩ ∈ notices
  heard : warnings notices = if bus.listener = .absent then [] else raised

section

variable (backend : Backend σ) (listener : Listener) (warning : CleanupWarning) (storage : σ)

theorem storage_run_notify : ((notify listener warning).run backend storage).storage = storage := by
  cases listener <;> rfl

theorem warnings_run_notify : warnings ((notify listener warning).run backend storage).notices =
    if listener = .absent then [] else [warning] := by
  cases listener <;> rfl

end

/-- A cleaning settles the bus, and raises a warning just if it got stuck. -/
theorem run_clean_of_removes (removes : backend.Removes)
    (valid : ∀ instant ∈ bus.retained, instant.Valid) (recorded : List Call) (storage : σ) :
    let run := bus.clean.run backend.recorded ⟨recorded, storage⟩
    ∃ calls cleaning, run.storage.calls = recorded ++ calls ∧
      run.value = ⟨.ok (), bus.settle cleaning⟩ ∧
      Retention.Drains .any bus.path bus.retention.limit bus.retained calls cleaning ∧
      bus.Raises (bus.settle cleaning) run.notices cleaning.raised := by
  obtain ⟨silent, calls, record, drains, kept⟩ :=
    Retention.makes_clean removes bus.retention bus.path valid recorded storage
  generalize cleaned : (bus.retention.clean bus.path).run backend.recorded ⟨recorded, storage⟩ =
    first at silent record drains kept
  obtain ⟨⟨cleaning, retention⟩, left, notices⟩ := first
  dsimp only at silent record drains kept
  subst kept
  refine ⟨calls, cleaning, ?_, ?_, drains, bus.cleanupFailures_settle cleaning, ?_, ?_⟩ <;>
    simp only [clean, Script.run_bind, cleaned] <;>
    cases drains with
    | finished => simp [record, silent, settle, Retention.Cleaning.raised]
    | stuck =>
        simp [Script.run_bind, Script.run_log, record, silent, settle, storage_run_notify,
          warnings_run_notify, Retention.Cleaning.raised, warnings]

theorem run_publish_of_created {act : Act} {creation : Creation} (removes : backend.Removes)
    (valid : instant.Valid)
    (created : (backend (.create (file bus.path ⟨instant, act.phase⟩)) storage).result =
      .ok creation) (recorded : List Call) :
    let run := (bus.publish act instant).run backend.recorded ⟨recorded, storage⟩
    run.value = ⟨.ok (), bus.countMarker⟩ ∧ warnings run.notices = [] ∧
      run.storage.calls =
        recorded ++ [⟨.create (file bus.path ⟨instant, act.phase⟩), false⟩] := by
  have named : (⟨instant, act.phase⟩ : Message).instant.Valid := valid
  have silent := removes.silent (.create (file bus.path ⟨instant, act.phase⟩)) storage
  unfold file at created silent
  cases creation <;>
    simp [publish, append, Marker.encode_eq_ok named, Script.run_bind, Script.create, Script.run,
      Script.run_log, Backend.recorded, created, silent, warnings, file, Except.isOk, Except.toBool]

/-- A start whose marker was created succeeds, and cleans the queue with its instant in it. -/
theorem run_start_of_created {creation : Creation} (removes : backend.Removes)
    (wellFormed : bus.WellFormed) (valid : instant.Valid)
    (created : (backend (.create (file bus.path ⟨instant, .inflight⟩)) storage).result =
      .ok creation) :
    let run := (bus.start instant).run backend.recorded ⟨[], storage⟩
    ∃ calls cleaning,
      run.storage.calls = ⟨.create (file bus.path ⟨instant, .inflight⟩), false⟩ :: calls ∧
      run.value = ⟨.ok (), (bus.tracking instant).settle cleaning⟩ ∧
      Retention.Drains .any bus.path bus.config.limit (bus.tracking instant).retained calls
        cleaning ∧
      bus.Raises ((bus.tracking instant).settle cleaning) run.notices cleaning.raised := by
  have written : (backend (.create (file bus.path ⟨instant, Act.start.phase⟩)) storage).result =
      .ok creation := created
  obtain ⟨value, silent, record⟩ := run_publish_of_created removes valid written []
  generalize published :
    (bus.publish .start instant).run backend.recorded ⟨[], storage⟩ = first at value silent record
  obtain ⟨outcome, ⟨made, middle⟩, notices⟩ := first
  dsimp only [List.nil_append] at value silent record
  subst value record
  have tracked := wellFormed.tracking valid
  obtain ⟨calls, cleaning, record, value, drains, raises⟩ :=
    run_clean_of_removes removes tracked.named
      [⟨.create (file bus.path ⟨instant, .inflight⟩), false⟩] middle
  rw [tracked.limit] at drains
  refine ⟨calls, cleaning, ?_, ?_, drains, raises.counted, ?_, ?_⟩ <;>
    simp only [start, Script.run_bind, published]
  · exact record
  · exact value
  · exact fun warning raised => List.mem_append_right _ (raises.logged warning raised)
  · rw [Notice.warnings_append, silent]
    exact raises.heard

/-- Whichever removals fail and whoever listens, a start whose marker was created
succeeds.  It has freed a front part of the queue.  Either no removal failed, and
the queue is within its limit; or the start has stopped at the first instant that
is left, of which a removal failed, and has raised one warning about it.  The
warning is counted, logged and heard, and a listener that fails changes nothing. -/
theorem start_cleans_or_warns {creation : Creation} (removes : backend.Removes)
    (wellFormed : bus.WellFormed) (valid : instant.Valid)
    (created : (backend (.create (file bus.path ⟨instant, .inflight⟩)) storage).result =
      .ok creation) :
    let run := (bus.start instant).run backend.recorded ⟨[], storage⟩
    let calls := run.storage.calls
    let later := run.value.bus
    let queue := if instant ∈ bus.retained then bus.retained else bus.retained ++ [instant]
    run.value.result = .ok () ∧
      ∃ freed raised, queue = freed ++ later.retained ∧
        (∀ gone ∈ freed, ∀ phase, ⟨.remove (file bus.path ⟨gone, phase⟩), false⟩ ∈ calls) ∧
        bus.Raises later run.notices raised ∧
        Retention.Ends bus.path bus.config.limit queue later.retained calls raised := by
  intro run calls later queue
  obtain ⟨removed, cleaning, record, value, drains, raises⟩ :=
    run_start_of_created removes wellFormed valid created
  have tracked := wellFormed.tracking valid
  have queued : queue = (bus.tracking instant).retained := by
    by_cases known : instant ∈ bus.retention.queue <;>
      simp [queue, tracking, retained, Retention.track, known]
  have left : later = (bus.tracking instant).settle cleaning := congrArg Outcome.bus value
  have kept : later.retained = cleaning.queue := congrArg retained left
  obtain ⟨freed, split, _, swept⟩ := drains.split
  rw [← left] at raises
  refine ⟨congrArg Outcome.result value, freed, cleaning.raised, ?_, ?_, raises, ?_⟩
  · rw [queued, split, kept]
  · intro gone member phase
    simp only [calls, run, record]
    exact List.mem_cons_of_mem _ (swept ⟨gone, phase⟩ member)
  · rw [kept, queued]
    simp only [calls, run, record]
    refine (drains.ends wellFormed.path_ne_empty tracked.distinct tracked.named).cons rfl ?_
    intro other removal
    obtain ⟨phase, same⟩ := mem_removals.mp removal
    cases same

/-- More instants are left than the bus keeps, and whoever listens fails. -/
def overdue : Bus where
  config := { base := "t", directory := "d", limit := 2 }
  retention := { limit := 2, queue := ["a", "b", "c"] }
  listener := .failing "deaf"

theorem overdue_start_warns :
    let run := (overdue.start "e").run
      (Memory.serve.failing (.refusing "t/d/b.completed")).recorded ⟨[], 1, {}⟩
    overdue.WellFormed ∧ Instant.Valid "e" ∧ run.value.result = .ok () ∧
      run.value.bus.retained = ["b", "c", "e"] ∧
      overdue.Raises run.value.bus run.notices [Retention.warning "t/d" "b" 3] := by
  intro run
  have removes : (Memory.serve.failing (.refusing "t/d/b.completed")).Removes :=
    Memory.plain_serve.removes.failing fun file plan failure struck =>
      (Strike.refusing_within "t/d/b.completed" (.remove file) plan failure struck).2
  have wellFormed : overdue.WellFormed := ⟨by decide, rfl, by decide, by decide⟩
  have left : run.value.bus.retained = ["b", "c", "e"] := by decide +kernel
  have valid : Instant.Valid "e" := by decide
  have created : (Memory.serve.failing (.refusing "t/d/b.completed")
      (.create (file overdue.path ⟨"e", .inflight⟩)) ⟨1, {}⟩).result = .ok .created := by
    decide +kernel
  obtain ⟨answered, freed, raised, _, _, raises, ended⟩ :=
    start_cleans_or_warns removes wellFormed valid created
  refine ⟨wellFormed, valid, answered, left, ?_⟩
  cases ended with
  | drained _ _ enough => exact absurd enough (by rw [left]; decide)
  | stuck kept _ warned =>
      obtain ⟨rfl, rfl⟩ := List.cons.inj (kept.symm.trans left)
      rw [warned, left] at raises
      exact raises

end Bus

end MarkerBus
