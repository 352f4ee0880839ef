import MarkerBus.ErrorNumber
import MarkerBus.FileTree.Location

namespace MarkerBus

/-! A tree of directories, regular files and symbolic links.

Every location has at most one entry, the root is a directory, and so is what
encloses an entry.  A regular file carries a number of its own, under which an
open handle goes on knowing it after it has been renamed or unlinked.
-/

namespace FileTree

inductive Entry where
  | directory
  | regular (file : Nat) (content : ByteArray)
  | link (target : String)

def Entry.isDirectory : Entry → Bool
  | .directory => true
  | _ => false

def Entry.isRegular : Entry → Bool
  | .regular _ _ => true
  | _ => false

/-- A handle that writes to a regular file: at the end, wherever that is, or at
a position of its own. -/
structure Handle where
  file : Nat
  position? : Option Nat
deriving DecidableEq, Repr

end FileTree

structure FileTree where
  entries : List (Location × FileTree.Entry) := []
  origin : Location := .root
  files : Nat := 0
  /-- The handles that are open, each under the number it was given. -/
  handles : List (Nat × FileTree.Handle) := []
  opened : Nat := 0
  /-- The numbers under which a handle has been closed, the last one first. -/
  closed : List Nat := []

namespace FileTree

def entry? (tree : FileTree) (location : Location) : Option Entry :=
  if location = .root then some .directory
  else (tree.entries.find? fun known => known.1 = location).map (·.2)

def children (tree : FileTree) (directory : Location) : List (String × Entry) :=
  tree.entries.filterMap fun (location, entry) =>
    match location.split? with
    | some (parent, name) => if parent = directory then some (name, entry) else none
    | none => none

def insert (tree : FileTree) (location : Location) (entry : Entry) : FileTree :=
  { tree with entries := (location, entry) :: tree.entries }

def erase (tree : FileTree) (location : Location) : FileTree :=
  { tree with entries := tree.entries.filter fun known => known.1 ≠ location }

/-- The tree without anything under a directory; the directory itself stays. -/
def eraseUnder (tree : FileTree) (directory : Location) : FileTree :=
  { tree with
    entries := tree.entries.filter fun known =>
      known.1 = directory ∨ !directory.encloses known.1 }

def insertFile (tree : FileTree) (location : Location) : FileTree :=
  { tree.insert location (.regular tree.files .empty) with files := tree.files + 1 }

/-- Change the content of the file with a number.  A file that has left the tree
is out of everyone's sight. -/
def modify (tree : FileTree) (file : Nat) (change : ByteArray → ByteArray) : FileTree :=
  { tree with
    entries := tree.entries.map fun (location, entry) =>
      match entry with
      | .regular number content =>
          if number = file then (location, .regular number (change content))
          else (location, entry)
      | entry => (location, entry) }

end FileTree

end MarkerBus
