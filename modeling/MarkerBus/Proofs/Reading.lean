import MarkerBus.Proofs.Interleaving

namespace MarkerBus

open Storage MarkerDirectory

variable {bus : Bus} {action : Action} {left : Script (Bus.Outcome Answer)}

theorem MarkerDirectory.value?_decodeAll (path : String) (names : List String) :
    (decodeAll path names).value? = some (names.filterMap Marker.decode) := by
  induction names with
  | nil => rfl
  | cons name rest ih =>
      cases decoded : Marker.decode name with
      | some message =>
          simp only [decodeAll, decoded, Script.value?_bind, ih, List.filterMap_cons]
          rfl
      | none =>
          simp only [decodeAll, decoded, List.filterMap_cons]
          exact ih

namespace Bus

/-- How a load ends that found these messages. -/
def showing (bus : Bus) (action : Action) (messages : List Message) : Outcome Answer :=
  let view := View.resolve messages
  ⟨.ok (if action = .messages then .messages view else .pending view.pending?), bus.loaded view⟩

theorem actOn_of_loads (loads : action = .messages ∨ action = .pending) :
    ∃ probed, Fleet.actOn bus action = .ask (.probe bus.path) probed ∧
      (probed (.ok false)).value? = some (bus.showing action []) ∧
      ∃ listed, probed (.ok true) = .ask (.list bus.path) listed ∧
        ∀ names, (listed (.ok names)).value? =
          some (bus.showing action (names.filterMap Marker.decode)) := by
  rcases loads with rfl | rfl
  · refine ⟨_, rfl, rfl, _, rfl, fun names => ?_⟩
    change (((decodeAll bus.path names >>= _) >>= _) >>= _).value? = _
    simp only [Script.value?_bind, value?_decodeAll]
    rfl
  · refine ⟨_, rfl, rfl, _, rfl, fun names => ?_⟩
    change ((((decodeAll bus.path names >>= _) >>= _) >>= _) >>= _).value? = _
    simp only [Script.value?_bind, value?_decodeAll]
    rfl

section

variable {σ : Type} {backend : Backend σ} {storage : σ}
  (loads : action = .messages ∨ action = .pending)

include loads

theorem run_load_of_missing
    (missing : (backend (.probe bus.path) storage).result = .ok false) :
    let run := (Fleet.actOn bus action).run backend storage
    run.value = bus.showing action [] ∧
      run.storage = (backend (.probe bus.path) storage).storage := by
  obtain ⟨probed, same, ended, _⟩ := bus.actOn_of_loads loads
  rw [same]
  simp only [Script.run, missing]
  exact Script.run_of_value? ended _ _

theorem run_load_of_listed {names : List String}
    (found : (backend (.probe bus.path) storage).result = .ok true)
    (told : (backend (.list bus.path) (backend (.probe bus.path) storage).storage).result =
      .ok names) :
    let run := (Fleet.actOn bus action).run backend storage
    run.value = bus.showing action (names.filterMap Marker.decode) ∧
      run.storage =
        (backend (.list bus.path) (backend (.probe bus.path) storage).storage).storage := by
  obtain ⟨probed, same, _, listed, lists, ended⟩ := bus.actOn_of_loads loads
  rw [same]
  simp only [Script.run, found, lists, told]
  exact Script.run_of_value? (ended names) _ _

end

/-- A load that has found the directory and has not listed it yet. -/
structure Listing (bus : Bus) (action : Action) (left : Script (Outcome Answer)) : Prop where
  due : left.request? = some (.list bus.path)
  shows : ∀ calls memory, (left.advance Memory.serve.recorded ⟨calls, memory⟩).1.value? =
    some (bus.showing action (memory.markers bus.path))

/-- How far a load is, by the number of calls that it may still make. -/
inductive Loading (bus : Bus) (action : Action) : Nat → Script (Outcome Answer) → Prop where
  | begun : Loading bus action 2 (Fleet.actOn bus action)
  | listing {left : Script (Outcome Answer)} (listing : bus.Listing action left) :
      Loading bus action 1 left
  | ended {left : Script (Outcome Answer)} (ended : left.value?.isSome) :
      Loading bus action 0 left

theorem Loading.request? (loads : action = .messages ∨ action = .pending) {count : Nat}
    (loading : bus.Loading action (count + 1) left) : left.request?.isSome := by
  cases loading with
  | begun =>
      obtain ⟨probed, same, _⟩ := bus.actOn_of_loads loads
      rw [same]
      rfl
  | listing listing => simp [listing.due]

/-- A load that is about to list the directory has found it. -/
theorem Loading.listing_of_request? (loads : action = .messages ∨ action = .pending) {count : Nat}
    (loading : bus.Loading action count left) (due : left.request? = some (.list bus.path)) :
    bus.Listing action left := by
  cases loading with
  | begun =>
      obtain ⟨probed, same, _⟩ := bus.actOn_of_loads loads
      rw [same] at due
      cases due
  | listing listing => exact listing
  | ended ended =>
      obtain ⟨outcome, found⟩ := Option.isSome_iff_exists.mp ended
      rw [Script.request?_of_value? found] at due
      cases due

/-- The call that ends a load tells the markers of the moment. -/
theorem Loading.advance (loads : action = .messages ∨ action = .pending) {count : Nat}
    (loading : bus.Loading action (count + 1) left) (calls : List Call) (memory : Memory) :
    let rest := (left.advance Memory.serve.recorded ⟨calls, memory⟩).1
    rest.value? = some (bus.showing action (memory.markers bus.path)) ∨
      count = 1 ∧ bus.Loading action count rest := by
  cases loading with
  | begun =>
      obtain ⟨probed, same, missing, listed, found, shows⟩ := bus.actOn_of_loads loads
      rw [same]
      change (probed (.ok (memory.probe bus.path))).value? = _ ∨ _ ∧ Loading _ _ _
        (probed (.ok (memory.probe bus.path)))
      cases there : memory.probe bus.path with
      | false =>
          have none : memory.markers bus.path = [] := by
            rw [Memory.markers, Memory.names, Memory.namesAt_of_not_known, List.filterMap_nil]
            intro known
            simp [Memory.probe, Memory.isDirectory_iff.mpr known] at there
          rw [none]
          exact .inl missing
      | true =>
          refine .inr ⟨rfl, .listing ⟨by rw [found]; rfl, fun calls memory => ?_⟩⟩
          rw [found]
          exact shows _
  | listing listing => exact .inl (listing.shows calls memory)

end Bus

namespace Crew

variable {crew : Crew} {name : String} {task : Task} {between : List (String × Move)}

/-- A call of the party among these moves, after which its load tells the markers
of just this moment. -/
def Reads (crew : Crew) (name : String) (bus : Bus) (action : Action)
    (moves : List (String × Move)) (outcome : Bus.Outcome Answer) : Prop :=
  ∃ early late, moves = early ++ (name, .calls) :: late ∧
    ((crew.run early).request? name).isSome ∧
    outcome = bus.showing action ((crew.run early).memory.markers bus.path)

theorem Reads.cons {head : String × Move} {outcome : Bus.Outcome Answer}
    (reads : (crew.move head.1 head.2).Reads name bus action between outcome) :
    crew.Reads name bus action (head :: between) outcome := by
  obtain ⟨early, late, rfl, asked, same⟩ := reads
  exact ⟨head :: early, late, rfl, asked, same⟩

theorem Reads.head {head : String × Move} {outcome : Bus.Outcome Answer}
    (reads : crew.Reads name bus action [head] outcome) :
    crew.Reads name bus action (head :: between) outcome := by
  obtain ⟨early, late, split, asked, same⟩ := reads
  have whole : head :: between = (early ++ (name, .calls) :: late) ++ between := by
    rw [← split]
    rfl
  exact ⟨early, late ++ between, by simpa using whole, asked, same⟩

/-- Only its own calls take a load on. -/
theorem move_of_loading {count : Nat} {head : String × Move}
    (present : crew.party? name = some ⟨bus, some task⟩)
    (loads : task.action = .messages ∨ task.action = .pending)
    (loading : bus.Loading task.action count task.left) (stays : head ≠ (name, .returns)) :
    ∃ next fewer, (crew.move head.1 head.2).party? name = some ⟨bus, some next⟩ ∧
      next.action = task.action ∧ bus.Loading task.action fewer next.left ∧
      fewer ≤ count - [head].count (name, .calls) ∧
      ∀ outcome, next.left.value? = some outcome →
        task.left.value? = some outcome ∨ crew.Reads name bus task.action [head] outcome := by
  obtain ⟨other, move⟩ := head
  by_cases own : (other, move) = (name, .calls)
  · cases own
    have moved := party?_move_self present .calls
    rw [Party.move_calls rfl] at moved
    have once : [(name, Move.calls)].count (name, .calls) = 1 := List.count_singleton_self
    cases count with
    | zero =>
        cases loading with
        | ended ended =>
            obtain ⟨value, ended⟩ := Option.isSome_iff_exists.mp ended
            simp only [Script.advance_of_value? ended] at moved
            exact ⟨_, 0, moved, rfl, .ended rfl, Nat.zero_le _, fun _ found => .inl (ended ▸ found)⟩
    | succ count =>
        have asked : (crew.request? name).isSome := by
          rw [request?_of_busy present rfl]
          exact loading.request? loads
        rcases loading.advance loads task.calls crew.memory with told | ⟨rfl, less⟩
        · exact ⟨_, 0, moved, rfl, .ended (Option.isSome_of_eq_some told), Nat.zero_le _,
            fun _ found => .inr ⟨[], [], rfl, asked, Option.some.inj (found.symm.trans told)⟩⟩
        · refine ⟨_, 1, moved, rfl, less, by rw [once], fun outcome found => ?_⟩
          cases less with
          | listing listing =>
              have due := listing.due
              rw [Script.request?_of_value? found] at due
              cases due
  · -- the load stays as it is
    refine ⟨task, count, ?_, rfl, loading, by simp [own], fun _ ended => .inl ended⟩
    by_cases mine : other = name
    · subst mine
      have moved := party?_move_self present move
      cases move with
      | begins action => rwa [Party.move_begins_of_busy rfl] at moved
      | calls => exact absurd rfl own
      | returns => exact absurd rfl stays
    · exact (party?_move_of_ne (Ne.symm mine) move).trans present

theorem ends_of_loading {count : Nat} (present : crew.party? name = some ⟨bus, some task⟩)
    (loads : task.action = .messages ∨ task.action = .pending)
    (loading : bus.Loading task.action count task.left) (stays : (name, .returns) ∉ between) :
    ∃ last, (crew.run between).party? name = some ⟨bus, some last⟩ ∧
      (count ≤ between.count (name, .calls) → last.left.value?.isSome) ∧
      ∀ outcome, last.left.value? = some outcome →
        task.left.value? = some outcome ∨ crew.Reads name bus task.action between outcome := by
  induction between generalizing crew task count with
  | nil =>
      refine ⟨task, present, fun enough => ?_, fun outcome ended => .inl ended⟩
      obtain rfl := Nat.le_zero.mp enough
      cases loading with
      | ended ended => exact ended
  | cons head between ih =>
      obtain ⟨stay, stays⟩ := List.ne_and_not_mem_of_not_mem_cons stays
      obtain ⟨next, fewer, moved, same, closer, enough, told⟩ :=
        move_of_loading present loads loading (Ne.symm stay)
      rw [← same] at loads closer
      obtain ⟨last, busy, ends, reads⟩ := ih moved loads closer stays
      refine ⟨last, busy, fun made => ends ?_, fun outcome ended => ?_⟩
      · rw [← List.singleton_append, List.count_append] at made
        omega
      · rw [same] at reads
        rcases reads outcome ended with now | later
        · exact (told outcome now).imp_right .head
        · exact .inr later.cons

end Crew

end MarkerBus
