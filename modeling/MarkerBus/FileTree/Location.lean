namespace MarkerBus

/-- The names on the way from an entry up to the root, innermost first. -/
structure Location where
  depth : Nat
  names : List String
  depth_eq : depth = names.length
deriving DecidableEq, Repr

namespace Location

variable {here there : Location} {name : String}

def ofNames (names : List String) : Location :=
  ⟨names.length, names, rfl⟩

def root : Location :=
  ofNames []

def child (here : Location) (name : String) : Location :=
  ⟨here.depth + 1, name :: here.names, by simp [here.depth_eq]⟩

def parent (here : Location) : Location :=
  ⟨here.depth - 1, here.names.tail, by simp [here.depth_eq]⟩

/-- The directory that a location is in, and its name there. -/
def split? (here : Location) : Option (Location × String) :=
  here.names.head?.map fun name => (here.parent, name)

/-- Is the second location the first one, or somewhere under it? -/
def encloses (outer inner : Location) : Bool :=
  outer.names.isSuffixOf inner.names

/-- The names from a location inwards to one under it, innermost first. -/
def namesFrom (outer inner : Location) : List String :=
  inner.names.take (inner.depth - outer.depth)

/-- The location as far under `target` as the given one is under `source`. -/
def transplant (here source target : Location) : Location :=
  ofNames (source.namesFrom here ++ target.names)

theorem eq_iff_names_eq : here = there ↔ here.names = there.names := by
  constructor
  · rintro rfl
    rfl
  · intro same
    obtain ⟨depth, names, depthEq⟩ := here
    obtain ⟨otherDepth, otherNames, otherDepthEq⟩ := there
    simp only at same
    subst same depthEq otherDepthEq
    rfl

@[simp] theorem parent_child : (here.child name).parent = here := by
  simp [parent, child]

@[simp] theorem split?_child : (here.child name).split? = some (here, name) := by
  have outwards : (here.child name).parent = here := parent_child
  simp [split?, outwards]
  rfl

@[simp] theorem split?_root : root.split? = none :=
  rfl

end Location

end MarkerBus
