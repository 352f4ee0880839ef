import MarkerBus.Proofs.Footprint

namespace MarkerBus

/-! Buses that take turns on one memory, call by call.

Each party carries out one action at a time.  It begins the action, makes the
calls of it one by one, and takes the result; in between, the other parties may
move.  A move that a party cannot make changes nothing, so every list of moves is
an interleaving.
-/

open Storage

namespace Storage

namespace Script

variable {σ α β : Type} {base : Backend σ} {allowed : Request → Prop} {script other : Script α}
  {value : α}

/-- The next call, behind the notices in front of it. -/
def request? : Script α → Option Request
  | .done _ => none
  | .tell _ rest => rest.request?
  | .ask request _ => some request

/-- The value of a script that has no call left. -/
def value? : Script α → Option α
  | .done value => some value
  | .tell _ rest => rest.value?
  | .ask _ _ => none

/-- The script without the notices in front of its next call. -/
def due : Script α → Script α
  | .done value => .done value
  | .tell _ rest => rest.due
  | .ask request next => .ask request next

theorem advance_due (base : Backend σ) (script : Script α) (storage : σ) :
    script.due.advance base storage = script.advance base storage := by
  induction script with
  | done => rfl
  | tell notice rest ih => exact ih
  | ask => rfl

theorem request?_due (script : Script α) : script.due.request? = script.request? := by
  induction script with
  | done => rfl
  | tell notice rest ih => exact ih
  | ask => rfl

theorem advance_of_value? (ended : script.value? = some value) (storage : σ) :
    script.advance base storage = (.done value, storage) := by
  induction script with
  | done =>
      cases ended
      rfl
  | tell notice rest ih => exact ih ended
  | ask => cases ended

theorem request?_of_value? (ended : script.value? = some value) : script.request? = none := by
  induction script with
  | done => rfl
  | tell notice rest ih => exact ih ended
  | ask => cases ended

theorem run_of_value? (ended : script.value? = some value) (base : Backend σ) (storage : σ) :
    (script.run base storage).value = value ∧ (script.run base storage).storage = storage := by
  induction script with
  | done =>
      cases ended
      exact ⟨rfl, rfl⟩
  | tell notice rest ih => exact ih ended
  | ask => cases ended

theorem value?_bind (script : Script α) (next : α → Script β) :
    (script >>= next).value? = script.value?.bind fun value => (next value).value? := by
  change (script.bind next).value? = _
  induction script with
  | done => rfl
  | tell notice rest ih => exact ih
  | ask => rfl

theorem Asks.advance (asks : script.Asks allowed) (base : Backend σ) (storage : σ) :
    (script.advance base storage).1.Asks allowed := by
  induction asks with
  | done => exact .done
  | tell _ ih => exact ih
  | ask _ answered => exact answered _

theorem Asks.storage_advance (asks : script.Asks allowed)
    (idle : ∀ request, allowed request → ∀ storage, (base request storage).storage = storage)
    (calls : List Call) (storage : σ) :
    (script.advance base.recorded ⟨calls, storage⟩).2.storage = storage := by
  induction asks with
  | done => rfl
  | tell _ ih => exact ih
  | ask permitted => exact idle _ permitted storage

theorem keeps_advance (keeps : σ → Prop)
    (serves : ∀ request storage, keeps storage → keeps (base request storage).storage)
    (script : Script α) (calls : List Call) {storage : σ} (kept : keeps storage) :
    keeps (script.advance base.recorded ⟨calls, storage⟩).2.storage := by
  induction script with
  | done => exact kept
  | tell notice rest ih => exact ih
  | ask request => exact serves request storage kept

/-- The calls that a script has made, and what is then left of it and of the
storage, which nobody else has changed. -/
inductive Partly (base : Backend σ) (script : Script α) (before : σ) :
    List Call → Script α → σ → Prop where
  | start : Partly base script before [] script before
  | called {calls later : List Call} {left rest : Script α} {storage after : σ}
      (earlier : Partly base script before calls left storage)
      (made : left.advance base.recorded ⟨calls, storage⟩ = (rest, ⟨later, after⟩)) :
      Partly base script before later rest after

end Script

variable {σ α : Type} {base : Backend σ} {fault : Fault} {script left rest : Script α}
  {calls later tail : List Call} {before storage after final : σ} {value : α}

theorem Performs.of_advance
    (made : left.advance base.recorded ⟨calls, storage⟩ = (rest, ⟨later, after⟩)) :
    ∃ call, later = calls ++ call ∧
      ∀ tail value final, Performs base fault rest after tail value final →
        Performs base fault left storage (call ++ tail) value final := by
  induction left with
  | done =>
      cases made
      exact ⟨[], by simp, fun _ _ _ performed => performed⟩
  | tell notice left ih =>
      obtain ⟨call, same, performs⟩ := ih made
      exact ⟨call, same, fun _ _ _ performed => .tell (performs _ _ _ performed)⟩
  | ask request next =>
      cases made
      exact ⟨[_], rfl, fun _ _ _ performed => .served performed⟩

/-- What has been done of a script and what is done of the rest perform the whole. -/
theorem Script.Partly.performs (partly : script.Partly base before calls left storage)
    (performed : Performs base fault left storage tail value final) :
    Performs base fault script before (calls ++ tail) value final := by
  induction partly generalizing tail with
  | start => exact performed
  | called _ made ih =>
      obtain ⟨call, rfl, performs⟩ := Performs.of_advance made
      rw [List.append_assoc]
      exact ih (performs _ _ _ performed)

theorem Performs.of_value? (ended : script.value? = some value) :
    Performs base fault script storage [] value storage := by
  induction script with
  | done =>
      cases ended
      exact .done
  | tell notice rest ih => exact .tell (ih ended)
  | ask => cases ended

end Storage

/-- An action under way, with the calls that it has made. -/
structure Task where
  action : Action
  calls : List Call := []
  left : Script (Bus.Outcome Answer)

structure Party where
  bus : Bus
  task? : Option Task := none

inductive Move where
  | begins (action : Action)
  | calls
  | returns
deriving DecidableEq, Repr

namespace Party

variable {party : Party} {memory : Memory} {task : Task}

def move (party : Party) (memory : Memory) : Move → Party × Memory
  | .begins action =>
      if party.task?.isNone ∧ action.ordinary then
        ({ party with task? := some { action, left := Fleet.actOn party.bus action } }, memory)
      else (party, memory)
  | .calls =>
      match party.task? with
      | none => (party, memory)
      | some task =>
          let (left, served) := task.left.advance Memory.serve.recorded ⟨task.calls, memory⟩
          ({ party with task? := some { task with calls := served.calls, left } }, served.storage)
  | .returns =>
      match party.task?.bind (·.left.value?) with
      | none => (party, memory)
      | some outcome => ({ bus := outcome.bus }, memory)

/-- All that a move can do. -/
inductive Moves (party : Party) (memory : Memory) : Move → Party → Memory → Prop where
  | stayed {move : Move} : Moves party memory move party memory
  | begun {action : Action} (idle : party.task? = none) (ordinary : action.ordinary) :
      Moves party memory (.begins action)
        { party with task? := some { action, left := Fleet.actOn party.bus action } } memory
  | called {task : Task} {rest : Script (Bus.Outcome Answer)} {calls : List Call}
      {after : Memory} (busy : party.task? = some task)
      (made : task.left.advance Memory.serve.recorded ⟨task.calls, memory⟩ =
        (rest, ⟨calls, after⟩)) :
      Moves party memory .calls
        { party with task? := some { task with calls, left := rest } } after
  | returned {task : Task} {outcome : Bus.Outcome Answer} (busy : party.task? = some task)
      (ended : task.left.value? = some outcome) :
      Moves party memory .returns { bus := outcome.bus } memory

theorem moves (party : Party) (memory : Memory) (move : Move) :
    party.Moves memory move (party.move memory move).1 (party.move memory move).2 := by
  cases move with
  | begins action =>
      simp only [Party.move]
      split
      · rename_i possible
        exact .begun (Option.isNone_iff_eq_none.mp possible.1) possible.2
      · exact .stayed
  | calls =>
      simp only [Party.move]
      split
      · exact .stayed
      · rename_i busy
        exact .called busy rfl
  | returns =>
      simp only [Party.move]
      split
      · exact .stayed
      · rename_i ended
        obtain ⟨task, busy, ended⟩ := Option.bind_eq_some_iff.mp ended
        exact .returned busy ended

theorem move_begins (idle : party.task? = none) {action : Action} (ordinary : action.ordinary) :
    party.move memory (.begins action) =
      ({ party with task? := some { action, left := Fleet.actOn party.bus action } }, memory) := by
  simp [move, idle, ordinary]

theorem move_calls (busy : party.task? = some task) :
    let reply := task.left.advance Memory.serve.recorded ⟨task.calls, memory⟩
    party.move memory .calls =
      ({ party with task? := some { task with calls := reply.2.calls, left := reply.1 } },
        reply.2.storage) := by
  simp only [move, busy]

/-- Who is busy begins nothing else. -/
theorem move_begins_of_busy (busy : party.task? = some task) (action : Action) :
    party.move memory (.begins action) = (party, memory) := by
  simp [move, busy]

theorem memory_move {move : Move} (silent : move ≠ .calls) :
    (party.move memory move).2 = memory := by
  have moves := party.moves memory move
  generalize party.move memory move = result at moves ⊢
  obtain ⟨later, after⟩ := result
  cases moves with
  | called => exact absurd rfl silent
  | stayed | begun | returned => rfl

end Party

/-- Parties known by name, and the memory that they share. -/
structure Crew where
  parties : Named Party := {}
  memory : Memory := {}

namespace Crew

variable {crew : Crew} {name other : String} {party : Party}

def party? (crew : Crew) (name : String) : Option Party :=
  crew.parties.get? name

def move (crew : Crew) (name : String) (move : Move) : Crew :=
  match crew.party? name with
  | none => crew
  | some party =>
      let (party, memory) := party.move crew.memory move
      ⟨crew.parties.insert name party, memory⟩

def run (crew : Crew) : List (String × Move) → Crew
  | [] => crew
  | (name, move) :: rest => (crew.move name move).run rest

/-- The call that a party is about to make. -/
def request? (crew : Crew) (name : String) : Option Request :=
  (crew.party? name).bind fun party => party.task?.bind (·.left.request?)

theorem run_append (crew : Crew) (earlier later : List (String × Move)) :
    crew.run (earlier ++ later) = (crew.run earlier).run later := by
  induction earlier generalizing crew with
  | nil => rfl
  | cons head rest ih => exact ih _

theorem party?_move_self (present : crew.party? name = some party) (move : Move) :
    (crew.move name move).party? name = some (party.move crew.memory move).1 := by
  simp only [Crew.move, present]
  exact Named.get?_insert_self _

theorem party?_move_of_ne (distinct : other ≠ name) (move : Move) :
    (crew.move name move).party? other = crew.party? other := by
  unfold Crew.move
  split
  · rfl
  · exact Named.get?_insert_of_ne _ distinct

theorem memory_move (present : crew.party? name = some party) (move : Move) :
    (crew.move name move).memory = (party.move crew.memory move).2 := by
  simp only [Crew.move, present]

theorem move_of_absent (absent : crew.party? name = none) (move : Move) :
    crew.move name move = crew := by
  simp only [Crew.move, absent]

theorem request?_of_busy {task : Task} (present : crew.party? name = some party)
    (busy : party.task? = some task) : crew.request? name = task.left.request? := by
  simp [request?, present, busy]

end Crew

end MarkerBus
