import MarkerBus.FileTree.Calls

namespace MarkerBus.FileTree

inductive Mode where
  | append
  /-- The file is emptied first, and writes go on from its start. -/
  | truncate
deriving DecidableEq, Repr

def Mode.position? : Mode → Option Nat
  | .append => none
  | .truncate => some 0

/-- The location of a regular file that a path leads to; it is made if nothing
is there. -/
def locateFile (tree : FileTree) (path : String) : Except ErrorNumber (Location × FileTree) := do
  match ← tree.approach path with
  | .name _ _ false =>
      match ← tree.walkToFile path with
      | .vacant directory name =>
          let location := directory.child name
          return (location, tree.insertFile location)
      | .found location _ => return (location, tree)
  | _ => .error .isDirectory

/-- Open a file for writing.  The answer is the number of the handle. -/
def openFile (tree : FileTree) (path : String) (mode : Mode) : Except ErrorNumber (Nat × FileTree) := do
  let (location, tree) ← tree.locateFile path
  match tree.entry? location with
  | some (.regular file _) =>
      let tree := if mode = .truncate then tree.modify file fun _ => .empty else tree
      let handle : Handle := ⟨file, mode.position?⟩
      return (tree.opened,
        { tree with handles := (tree.opened, handle) :: tree.handles, opened := tree.opened + 1 })
  | _ => .error .isDirectory

def close (tree : FileTree) (number : Nat) : FileTree :=
  { tree with
    handles := tree.handles.filter fun known => known.1 ≠ number
    closed := number :: tree.closed }

/-- Content with bytes written at a position.  A gap in front of the position is
filled with zeros. -/
def overwrite (content : ByteArray) (position : Nat) (bytes : ByteArray) : ByteArray :=
  let gap : ByteArray := ⟨Array.replicate (position - content.size) 0⟩
  content.extract 0 position ++ gap ++ bytes ++
    content.extract (position + bytes.size) content.size

def write (tree : FileTree) (number : Nat) (bytes : ByteArray) : FileTree :=
  match tree.handles.lookup number with
  | none => tree
  | some ⟨file, none⟩ => tree.modify file (· ++ bytes)
  | some ⟨file, some position⟩ =>
      let moved : Handle := ⟨file, some (position + bytes.size)⟩
      { tree.modify file (overwrite · position bytes) with
        handles := tree.handles.map fun known =>
          if known.1 = number then (number, moved) else known }

def read? (tree : FileTree) (path : String) : Option ByteArray :=
  match tree.stat path with
  | .ok (_, .regular _ content) => some content
  | _ => none

end MarkerBus.FileTree
