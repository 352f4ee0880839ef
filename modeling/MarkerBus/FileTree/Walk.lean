import MarkerBus.FileTree.Basic

namespace MarkerBus.FileTree

/-! Where a path leads in a tree.

A path is taken apart into names, and the names are followed one after the other
from the root or from the origin of the tree.  Links are followed too, at most
forty of them.  A trailing slash counts as one more name, the dot: what is in
front of it has to be a directory.
-/

/-- The pieces between the slashes of a path, empty ones included. -/
def pieces : List Char → List (List Char)
  | [] => [[]]
  | char :: rest =>
      if char = '/' then
        [] :: pieces rest
      else
        match pieces rest with
        | [] => [[char]]
        | first :: others => (char :: first) :: others

def namesOf (path : String) : List String :=
  ((pieces path.toList).filter (· ≠ [])).map String.ofList

def isAbsolute (path : String) : Bool :=
  path.toList.head? = some '/'

def endsInSlash (path : String) : Bool :=
  path.toList.getLast? = some '/'

def stepsOf (path : String) : List String :=
  namesOf path ++ if endsInSlash path then ["."] else []

def startOf (path : String) (here : Location) : Location :=
  if isAbsolute path then .root else here

def nameLimit : Nat := 255

def pathLimit : Nat := 4096

def linkLimit : Nat := 40

inductive Destination where
  /-- An entry is there, and so many more links might have been followed. -/
  | found (location : Location) (links : Nat)
  | vacant (directory : Location) (name : String)
deriving DecidableEq, Repr

/-- Follow names from a directory; a link is left to `onLink`, along with where
it stands and the names behind it. -/
def followNames (tree : FileTree) (links : Nat)
    (onLink : Location → String → List String → Except ErrorNumber Destination) :
    Location → List String → Except ErrorNumber Destination
  | here, [] => .ok (.found here links)
  | here, name :: rest =>
      if name = "." then
        followNames tree links onLink here rest
      else if name = ".." then
        followNames tree links onLink here.parent rest
      else if nameLimit < name.utf8ByteSize then
        .error .nameTooLong
      else
        match tree.entry? (here.child name) with
        | none => if rest = [] then .ok (.vacant here name) else .error .noEntry
        | some (.link target) => onLink here target rest
        | some .directory => followNames tree links onLink (here.child name) rest
        | some (.regular _ _) =>
            if rest = [] then .ok (.found (here.child name) links) else .error .notDirectory

/-- Follow names and at most so many links. -/
def follow (tree : FileTree) : Nat → Location → List String → Except ErrorNumber Destination
  | 0 => followNames tree 0 fun _ _ _ => .error .tooManyLinks
  | links + 1 =>
      followNames tree (links + 1) fun here target rest =>
        follow tree links (startOf target here) (stepsOf target ++ rest)

/-- The directory that names lead to, over at most so many links. -/
def enter (tree : FileTree) (links : Nat) (origin : Location) (names : List String) :
    Except ErrorNumber Location := do
  match ← tree.follow links origin names with
  | .vacant _ _ => .error .noEntry
  | .found location _ =>
      match tree.entry? location with
      | some .directory => return location
      | _ => .error .notDirectory

/-- Follow names to a file that is to be made if it is missing.  A slash at the
end asks for a directory, so the last link must not have one: what is in front
of it is not even looked up. -/
def followToFile (tree : FileTree) :
    Nat → Location → List String → Except ErrorNumber Destination
  | 0 => followNames tree 0 fun _ _ _ => .error .tooManyLinks
  | links + 1 =>
      followNames tree (links + 1) fun here target rest =>
        if rest = [] ∧ endsInSlash target then do
          let _ ← tree.enter links (startOf target here) (namesOf target).dropLast
          .error .isDirectory
        else
          followToFile tree links (startOf target here) (stepsOf target ++ rest)

def originPath (tree : FileTree) : String :=
  "/" ++ String.intercalate "/" tree.origin.names.reverse

def start (tree : FileTree) (path : String) : Location :=
  startOf path tree.origin

def checkPath (path : String) : Except ErrorNumber Unit :=
  if path = "" then .error .noEntry
  else if pathLimit ≤ path.utf8ByteSize then .error .nameTooLong
  else .ok ()

/-- Where a file is that a path leads to, or where it would have to be made. -/
def walkToFile (tree : FileTree) (path : String) : Except ErrorNumber Destination := do
  checkPath path
  tree.followToFile linkLimit (tree.start path) (stepsOf path)

def statNames (tree : FileTree) (origin : Location) (names : List String) :
    Except ErrorNumber (Location × Entry) := do
  match ← tree.follow linkLimit origin names with
  | .vacant _ _ => .error .noEntry
  | .found location _ =>
      match tree.entry? location with
      | some entry => return (location, entry)
      | none => .error .noEntry

def stat (tree : FileTree) (path : String) : Except ErrorNumber (Location × Entry) := do
  checkPath path
  tree.statNames (tree.start path) (stepsOf path)

/-- What the last name of a path is, before it is looked up. -/
inductive Ending where
  | root
  | dot
  | dotdot
  | name (directory : Location) (name : String) (slash : Bool)
deriving DecidableEq, Repr

def approachNames (tree : FileTree) (origin : Location) (names : List String) (slash : Bool) :
    Except ErrorNumber Ending :=
  match names.getLast? with
  | none => .ok .root
  | some last => do
      let (directory, entry) ← tree.statNames origin names.dropLast
      if !entry.isDirectory then .error .notDirectory
      else if last = "." then .ok .dot
      else if last = ".." then .ok .dotdot
      else .ok (.name directory last slash)

def approach (tree : FileTree) (path : String) : Except ErrorNumber Ending := do
  checkPath path
  tree.approachNames (tree.start path) (namesOf path) (endsInSlash path)

/-- Look a name up in a directory, without following it. -/
def peek (tree : FileTree) (directory : Location) (name : String) :
    Except ErrorNumber (Option Entry) :=
  if nameLimit < name.utf8ByteSize then .error .nameTooLong
  else .ok (tree.entry? (directory.child name))

end MarkerBus.FileTree
