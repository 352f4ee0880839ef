import MarkerBus.Message
import MarkerBus.Text.LastSplit

namespace MarkerBus.Marker

/-- An instant may hold dots, but no phase does: the last dot is the one between
the two. -/
def name (message : Message) : String :=
  message.instant ++ "." ++ message.phase.name

def encode (message : Message) : Except Instant.Defect String := do
  message.instant.validate
  return name message

/-- The names of the markers that an instant may have, in the order of the ranks. -/
def names (instant : Instant) : List String :=
  Phase.all.map fun phase => name ⟨instant, phase⟩

def encodeAll (instant : Instant) : Except Instant.Defect (List String) := do
  instant.validate
  return names instant

def decode (text : String) : Option Message := do
  let (front, back) ← Text.splitLast? '.' text.toList
  let phase ← Phase.ofName? (String.ofList back)
  let instant : Instant := String.ofList front
  if instant.Valid then some ⟨instant, phase⟩ else none

theorem decode_eq_some_iff {text : String} {message : Message} :
    decode text = some message ↔ message.instant.Valid ∧ text = name message := by
  obtain ⟨instant, phase⟩ := message
  constructor
  · intro found
    simp only [decode, Option.bind_eq_bind, Option.bind_eq_some_iff] at found
    obtain ⟨⟨front, back⟩, cut, phase', named, rest⟩ := found
    obtain ⟨rebuilt, _⟩ := Text.splitLast?_eq_some_iff.mp cut
    have backName := Phase.ofName?_eq_some_iff.mp named
    split at rest
    · rename_i valid
      simp only [Option.some.injEq, Message.mk.injEq] at rest
      obtain ⟨rfl, rfl⟩ := rest
      refine ⟨valid, ?_⟩
      have backList : back = phase'.name.toList := by
        rw [← backName, String.toList_ofList]
      rw [← String.toList_inj, rebuilt, backList]
      simp [name, String.toList_append, String.toList_ofList]
    · contradiction
  · rintro ⟨valid, rfl⟩
    have shape : (name ⟨instant, phase⟩).toList = instant.toList ++ '.' :: phase.name.toList := by
      simp [name, String.toList_append]
    have cut : Text.splitLast? '.' (instant.toList ++ '.' :: phase.name.toList) =
        some (instant.toList, phase.name.toList) :=
      Text.splitLast?_append phase.dot_notMem_name
    simp [decode, shape, cut, Phase.ofName?_name, valid]

end MarkerBus.Marker
