import MarkerBus.Proofs.Coordinator
import MarkerBus.Proofs.Reading
import MarkerBus.Proofs.Start

namespace MarkerBus

open Storage MarkerDirectory

variable {config : Bus.Config} {chief name : String} {memory after : Memory}

namespace Party

variable {party later : Party} {turn : Move}

/-- How the chief stands: it holds no instants beyond its limit, and has done some
calls of its action. -/
structure Leads (config : Bus.Config) (party : Party) (memory : Memory) : Prop where
  wellFormed : party.bus.WellFormed
  shared : party.bus.config = config
  tidy : party.bus.retention.overhang = []
  begun : ∀ task, party.task? = some task → task.action.ordinary ∧ ∃ before, before.WellFormed ∧
    (Fleet.actOn party.bus task.action).Partly Memory.serve before task.calls task.left memory

theorem Leads.move (leads : party.Leads config memory) (formed : memory.WellFormed)
    (moves : party.Moves memory turn later after) : later.Leads config after := by
  cases moves with
  | stayed => exact leads
  | begun idle ordinary =>
      refine ⟨leads.wellFormed, leads.shared, leads.tidy, fun task busy => ?_⟩
      cases busy
      exact ⟨ordinary, memory, formed, .start⟩
  | called busy made =>
      refine ⟨leads.wellFormed, leads.shared, leads.tidy, fun task now => ?_⟩
      cases now
      obtain ⟨ordinary, before, wellFormed, partly⟩ := leads.begun _ busy
      exact ⟨ordinary, before, wellFormed, partly.called made⟩
  | returned busy ended =>
      obtain ⟨ordinary, before, _, partly⟩ := leads.begun _ busy
      have ends : Performs Memory.serve Fault.none _ memory [] _ memory := .of_value? ended
      have performed := partly.performs ends
      have acts := Bus.acts Fault.reports_none leads.wellFormed ordinary performed
      refine ⟨acts.wellFormed leads.wellFormed, acts.config.trans leads.shared,
        acts.overhang_eq_nil leads.tidy fun file failed => ?_, nofun⟩
      exact (Memory.fault_of_failed_removal performed failed).choose_spec

/-- The party makes no call but to look. -/
def Looking (party : Party) : Prop :=
  ∀ task, party.task? = some task → task.left.Asks (Looks party.bus.path)

/-- What the party loads, it loads in the one way there is. -/
def Loads (party : Party) : Prop :=
  ∀ task, party.task? = some task → (task.action = .messages ∨ task.action = .pending) →
    ∃ count, party.bus.Loading task.action count task.left

theorem storage_of_looks {path : String} {request : Request} (looks : Looks path request)
    (memory : Memory) : (Memory.serve request memory).storage = memory := by
  cases looks <;> rfl

theorem asks_actOn_of_reads {bus : Bus} {action : Action} {path : String}
    (reads : action.reads path) : (Fleet.actOn bus action).Asks (Looks bus.path) := by
  cases action with
  | construct | destroy | listen | isAborted | close => exact .done
  | messages => exact Bus.asks_actOn_of_loads (.inl rfl)
  | pending => exact Bus.asks_actOn_of_loads (.inr rfl)
  | bootstrap | start | commit | abort => cases reads

theorem Looking.move (looking : party.Looking) {path : String}
    (reads : ∀ action, turn = .begins action → action.reads path)
    (moves : party.Moves memory turn later after) : later.Looking ∧ after = memory := by
  cases moves with
  | stayed => exact ⟨looking, rfl⟩
  | begun idle ordinary =>
      refine ⟨fun task busy => ?_, rfl⟩
      cases busy
      exact asks_actOn_of_reads (reads _ rfl)
  | @called task rest calls after busy made =>
      have asks := looking task busy
      have next := asks.advance Memory.serve.recorded ⟨task.calls, memory⟩
      have same := asks.storage_advance (fun _ => storage_of_looks) task.calls memory
      rw [made] at next same
      refine ⟨fun task now => ?_, same⟩
      cases now
      exact next
  | returned => exact ⟨nofun, rfl⟩

theorem Loads.move (loads : party.Loads) (moves : party.Moves memory turn later after) :
    later.Loads := by
  cases moves with
  | stayed => exact loads
  | begun idle ordinary =>
      intro task busy _
      cases busy
      exact ⟨2, .begun⟩
  | @called task rest calls after busy made =>
      intro next now is
      cases now
      obtain ⟨count, loading⟩ := loads task busy is
      cases count with
      | zero =>
          cases loading with
          | ended ended =>
              obtain ⟨outcome, ended⟩ := Option.isSome_iff_exists.mp ended
              rw [Script.advance_of_value? ended] at made
              cases made
              exact ⟨0, .ended rfl⟩
      | succ count =>
          have advanced := loading.advance is task.calls memory
          rw [made] at advanced
          rcases advanced with told | ⟨_, fewer⟩
          · exact ⟨0, .ended (Option.isSome_of_eq_some told)⟩
          · exact ⟨count, fewer⟩
  | returned => nofun

theorem Moves.formed (moves : party.Moves memory turn later after) (formed : memory.WellFormed) :
    after.WellFormed := by
  cases moves with
  | @called task rest calls after busy made =>
      have kept := Script.keeps_advance Memory.WellFormed (fun request _ formed => formed.serve request)
        task.left task.calls formed
      rwa [made] at kept
  | stayed | begun | returned => exact formed

end Party

namespace Crew

variable {crew : Crew} {party : Party} {moves : List (String × Move)}

/-- Only the chief begins what changes markers. -/
def Led (chief path : String) (moves : List (String × Move)) : Prop :=
  ∀ name action, (name, .begins action) ∈ moves → name ≠ chief → action.reads path

structure Sound (config : Bus.Config) (chief : String) (crew : Crew) : Prop where
  formed : crew.memory.WellFormed
  present : ∃ party, crew.party? chief = some party ∧ party.Leads config crew.memory
  readers : ∀ name party, name ≠ chief → crew.party? name = some party → party.Looking
  loads : ∀ name party, crew.party? name = some party → party.Loads

/-- A crew at rest, whose chief is a new bus. -/
structure Opens (config : Bus.Config) (chief : String) (crew : Crew) : Prop where
  formed : crew.memory.WellFormed
  chief : ∃ bus, Bus.ofConfig config = .ok bus ∧ crew.party? chief = some { bus }
  idle : ∀ name party, crew.party? name = some party → party.task? = none

theorem Opens.sound (opens : crew.Opens config chief) : crew.Sound config chief where
  formed := opens.formed
  present := by
    obtain ⟨bus, made, present⟩ := opens.chief
    obtain ⟨wellFormed, shared, fresh, _⟩ := Bus.WellFormed.of_config made
    have tidy : bus.retention.overhang = [] := by
      simp only [Bus.retained] at fresh
      simp [Retention.overhang, fresh]
    exact ⟨_, present, wellFormed, shared, tidy, fun _ busy => by cases busy⟩
  readers name party _ present task busy := by simp [opens.idle name party present] at busy
  loads name party present task busy := by simp [opens.idle name party present] at busy

theorem Sound.memory_of_reader (sound : crew.Sound config chief) (other : name ≠ chief)
    {turn : Move} (reads : ∀ action, turn = .begins action → action.reads config.path) :
    (crew.move name turn).memory = crew.memory := by
  cases present : crew.party? name with
  | none => rw [move_of_absent present]
  | some party =>
      have looking := sound.readers name party other present
      rw [memory_move present]
      exact (looking.move reads (party.moves crew.memory turn)).2

theorem Sound.move (sound : crew.Sound config chief) {turn : Move}
    (led : ∀ action, turn = .begins action → name ≠ chief → action.reads config.path) :
    (crew.move name turn).Sound config chief := by
  cases present : crew.party? name with
  | none => rwa [move_of_absent present]
  | some party =>
      have moves := party.moves crew.memory turn
      have memory := memory_move present turn
      have moved := party?_move_self present turn
      rw [← memory] at moves
      have found {other : String} {held : Party}
          (there : (crew.move name turn).party? other = some held) :
          other = name ∧ held = (party.move crew.memory turn).1 ∨
            other ≠ name ∧ crew.party? other = some held := by
        by_cases same : other = name
        · subst same
          exact .inl ⟨rfl, Option.some.inj (there.symm.trans moved)⟩
        · exact .inr ⟨same, (party?_move_of_ne same turn).symm.trans there⟩
      refine ⟨moves.formed sound.formed, ?_, ?_, ?_⟩
      · obtain ⟨leader, there, leads⟩ := sound.present
        by_cases same : chief = name
        · subst same
          cases there.symm.trans present
          exact ⟨_, moved, leads.move sound.formed moves⟩
        · refine ⟨leader, (party?_move_of_ne same turn).trans there, ?_⟩
          rwa [sound.memory_of_reader (Ne.symm same) fun action begins =>
            led action begins (Ne.symm same)]
      · intro other held apart there
        rcases found there with ⟨rfl, rfl⟩ | ⟨_, there⟩
        · have looking := sound.readers other party apart present
          exact (looking.move (fun action begins => led action begins apart) moves).1
        · exact sound.readers other held apart there
      · intro other held there
        rcases found there with ⟨rfl, rfl⟩ | ⟨_, there⟩
        · exact (sound.loads other party present).move moves
        · exact sound.loads other held there

theorem Sound.run (sound : crew.Sound config chief) (led : Led chief config.path moves) :
    (crew.run moves).Sound config chief := by
  induction moves generalizing crew with
  | nil => exact sound
  | cons head rest ih =>
      refine ih (sound.move ?_) fun name action member => led name action (List.mem_cons_of_mem _ member)
      intro action begins other
      exact led head.1 action (by rw [← begins]; exact List.mem_cons_self) other

end Crew

end MarkerBus
