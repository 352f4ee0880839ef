import Mathlib.Data.Finset.Sort
import MarkerBus.Fleet
import MarkerBus.Proofs.View

namespace MarkerBus

structure Participant where
  queue : List Instant := []
  view? : Option View := none

structure MarkerMachine where
  markers : Finset Message := ∅
  participants : Named Participant := {}

/-- The greatest phase of an instant in the set. -/
def highest? (markers : Finset Message) (instant : Instant) : Option Phase :=
  [.completed, .aborted, .inflight].find? fun phase => (⟨instant, phase⟩ : Message) ∈ markers

/-- The greatest phase of each instant, ascending by instant. -/
def viewOf (markers : Finset Message) : View :=
  (markers.image Message.instant).sort.filterMap fun instant =>
    (highest? markers instant).map fun phase => ⟨instant, phase⟩

/-- Pop the oldest instants until no more than `limit` are left, and take all
that is known of them out of the set. -/
def evict (limit : Nat) : List Instant → Finset Message → List Instant × Finset Message
  | [], markers => ([], markers)
  | head :: rest, markers =>
      if limit < (head :: rest).length then
        evict limit rest (markers.filter fun message => message.instant ≠ head)
      else (head :: rest, markers)

namespace Participant

def act (participant : Participant) (limit : Nat) (markers : Finset Message) :
    Action → Except Bus.Error Answer × Participant × Finset Message
  | .construct _ | .listen _ | .destroy => (.ok .nothing, participant, markers)
  | .bootstrap => (.ok .nothing, participant, ∅)
  | .start instant =>
      match instant.validate with
      | .error defect => (.error (.invalidInstant defect), participant, markers)
      | .ok () =>
          let queue :=
            if instant ∈ participant.queue then participant.queue
            else participant.queue ++ [instant]
          let (queue, markers) := evict limit queue (insert ⟨instant, .inflight⟩ markers)
          (.ok .nothing, { participant with queue }, markers)
  | .commit instant =>
      match instant.validate with
      | .error defect => (.error (.invalidInstant defect), participant, markers)
      | .ok () => (.ok .nothing, participant, insert ⟨instant, .completed⟩ markers)
  | .abort instant =>
      match instant.validate with
      | .error defect => (.error (.invalidInstant defect), participant, markers)
      | .ok () => (.ok .nothing, participant, insert ⟨instant, .aborted⟩ markers)
  | .messages =>
      let view := viewOf markers
      (.ok (.messages view), { participant with view? := some view }, markers)
  | .pending =>
      let view := viewOf markers
      let pending? :=
        match view.getLast? with
        | some message => if message.phase = .completed then none else some message.instant
        | none => none
      (.ok (.pending pending?), { participant with view? := some view }, markers)
  | .isAborted instant =>
      match participant.view? with
      | some view =>
          (.ok (.flag ((⟨instant, .aborted⟩ : Message) ∈ view)), participant, markers)
      | none => (.error .notLoaded, participant, markers)
  | .close => (.ok .nothing, { participant with queue := [] }, markers)

end Participant

namespace MarkerMachine

def act (machine : MarkerMachine) (config : Bus.Config) (name : String) (action : Action) :
    Option (Except Bus.Error Answer) × MarkerMachine :=
  match action, machine.participants.get? name with
  | .construct _, _ =>
      (some (.ok (.path config.path)),
        { machine with participants := machine.participants.insert name {} })
  | .destroy, some _ =>
      (some (.ok .nothing), { machine with participants := machine.participants.erase name })
  | action, some participant =>
      let turn := participant.act config.limit machine.markers action
      (some turn.1, ⟨turn.2.2, machine.participants.insert name turn.2.1⟩)
  | _, none => (none, machine)

def run (machine : MarkerMachine) (config : Bus.Config) :
    List (String × Action) → List (Option (Except Bus.Error Answer)) × MarkerMachine
  | [] => ([], machine)
  | (name, action) :: rest =>
      let (answer, machine) := machine.act config name action
      let (answers, machine) := machine.run config rest
      (answer :: answers, machine)

end MarkerMachine

variable {markers : Finset Message} {message : Message} {instant : Instant} {phase : Phase}

theorem Phase.forall_iff {holds : Phase → Prop} :
    (∀ phase, holds phase) ↔ holds .inflight ∧ holds .aborted ∧ holds .completed := by
  refine ⟨fun all => ⟨all _, all _, all _⟩, ?_⟩
  intro given phase
  cases phase with
  | inflight => exact given.1
  | aborted => exact given.2.1
  | completed => exact given.2.2

theorem highest?_eq_some_iff : highest? markers instant = some phase ↔
    (⟨instant, phase⟩ : Message) ∈ markers ∧
      ∀ other, (⟨instant, other⟩ : Message) ∈ markers → other.rank ≤ phase.rank := by
  rw [Phase.forall_iff]
  by_cases complete : (⟨instant, .completed⟩ : Message) ∈ markers <;>
    by_cases aborted : (⟨instant, .aborted⟩ : Message) ∈ markers <;>
    by_cases inflight : (⟨instant, .inflight⟩ : Message) ∈ markers <;>
    cases phase <;> simp [highest?, complete, aborted, inflight, Phase.rank]

theorem mem_viewOf : message ∈ viewOf markers ↔ message ∈ markers ∧
    ∀ other ∈ markers, other.instant = message.instant →
      other.phase.rank ≤ message.phase.rank := by
  obtain ⟨instant, phase⟩ := message
  simp only [viewOf, List.mem_filterMap, Finset.mem_sort, Finset.mem_image, Option.map_eq_some_iff,
    highest?_eq_some_iff, Message.mk.injEq]
  constructor
  · intro given
    obtain ⟨_, _, _, ⟨member, greatest⟩, rfl, rfl⟩ := given
    refine ⟨member, ?_⟩
    intro other held about
    obtain ⟨_, phase⟩ := other
    cases about
    exact greatest phase held
  · intro given
    obtain ⟨member, greatest⟩ := given
    exact ⟨instant, ⟨_, member, rfl⟩, phase,
      ⟨member, fun other held => greatest ⟨instant, other⟩ held rfl⟩, rfl, rfl⟩

theorem ascending_viewOf : (viewOf markers).Ascending := by
  have ascending : (markers.image Message.instant).sort.Pairwise (· < ·) :=
    (Finset.sortedLT_sort _).pairwise
  apply ascending.filterMap _
  intro low high below left leftIs right rightIs
  obtain ⟨_, _, rfl⟩ := Option.map_eq_some_iff.mp leftIs
  obtain ⟨_, _, rfl⟩ := Option.map_eq_some_iff.mp rightIs
  exact below

/-- A scan of a directory resolves to the view of the set that is on record. -/
theorem viewOf_eq_resolve {messages : List Message}
    (same : ∀ message, message ∈ markers ↔ message ∈ messages) :
    viewOf markers = View.resolve messages := by
  apply ascending_viewOf.ext (View.ascending_resolve messages)
  intro message
  simp only [mem_viewOf, View.mem_resolve_iff, View.Highest, same]

theorem evict_append {limit : Nat} {freed kept : List Instant} (enough : kept.length ≤ limit)
    (needed : freed = [] ∨ kept.length = limit) :
    evict limit (freed ++ kept) markers =
      (kept, markers.filter fun message => message.instant ∉ freed) := by
  induction freed generalizing markers with
  | nil =>
      cases kept with
      | nil => simp [evict]
      | cons head rest =>
          rw [List.nil_append, evict, if_neg (Nat.not_lt.mpr enough)]
          simp
  | cons head freed ih =>
      have full : kept.length = limit := needed.resolve_left (by simp)
      have exceeds : limit < (head :: (freed ++ kept)).length := by
        rw [List.length_cons, List.length_append, full]
        omega
      rw [List.cons_append, evict, if_pos exceeds, ih (.inr full), Finset.filter_filter]
      simp

end MarkerBus
