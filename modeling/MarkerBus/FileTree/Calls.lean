import MarkerBus.FileTree.Walk

namespace MarkerBus.FileTree

/-- Make an empty regular file, where there is no entry of any kind. -/
def createExclusive (tree : FileTree) (path : String) : Except ErrorNumber FileTree := do
  match ← tree.approach path with
  | .root | .dot | .dotdot => .error .alreadyExists
  | .name _ _ true => .error .isDirectory
  | .name directory name false =>
      match ← tree.peek directory name with
      | some _ => .error .alreadyExists
      | none => return tree.insertFile (directory.child name)

def unlink (tree : FileTree) (path : String) : Except ErrorNumber FileTree := do
  match ← tree.approach path with
  | .root | .dot | .dotdot => .error .isDirectory
  | .name directory name slash =>
      match ← tree.peek directory name with
      | none => .error .noEntry
      | some .directory => .error .isDirectory
      | some _ => if slash then .error .notDirectory else return tree.erase (directory.child name)

def removeDirectory (tree : FileTree) (path : String) : Except ErrorNumber FileTree := do
  match ← tree.approach path with
  | .root => .error .busy
  | .dot => .error .invalidArgument
  | .dotdot => .error .notEmpty
  | .name directory name _ =>
      match ← tree.peek directory name with
      | none => .error .noEntry
      | some .directory =>
          if (tree.children (directory.child name)).isEmpty then return tree.erase (directory.child name)
          else .error .notEmpty
      | some _ => .error .notDirectory

def remove (tree : FileTree) (path : String) : Except ErrorNumber FileTree :=
  match tree.unlink path with
  | .ok tree => .ok tree
  | .error code => if code = .isDirectory then tree.removeDirectory path else .error code

/-- The directory that a path leads to, where a link in the last place does not
count as one. -/
def openDirectory (tree : FileTree) (path : String) : Except ErrorNumber Location := do
  match ← tree.approach path with
  | .name directory name false =>
      match ← tree.peek directory name with
      | none => .error .noEntry
      | some .directory => return directory.child name
      | some _ => .error .notDirectory
  | _ =>
      let (location, entry) ← tree.stat path
      if entry.isDirectory then return location else .error .notDirectory

/-- Remove an entry that is no directory, or is an empty one; a missing entry is
as good as removed. -/
def removeLeft (tree : FileTree) (path : String) : Except ErrorNumber Unit × FileTree :=
  match tree.remove path with
  | .ok tree => (.ok (), tree)
  | .error code => if code = .noEntry then (.ok (), tree) else (.error code, tree)

/-- Remove an entry and everything under it.  A link is removed, not followed. -/
def removeAll (tree : FileTree) (path : String) : Except ErrorNumber Unit × FileTree :=
  match tree.openDirectory path with
  | .ok location => (tree.eraseUnder location).removeLeft path
  | .error code =>
      if code = .noEntry then (.ok (), tree)
      else if code = .notDirectory ∨ code = .tooManyLinks then tree.removeLeft path
      else (.error code, tree)

def isMissing (code : ErrorNumber) : Bool :=
  code = .noEntry ∨ code = .notDirectory

def makingLimit : Nat := 1000

/-- Names without those that stand for a directory which is there anyway. -/
def properNames (names : List String) : List String :=
  names.filter fun name => name ≠ "." ∧ name ≠ ".."

/-- How far names lead: the last directory that is there, how many links may be
followed from it, and the names that lead nowhere from there.  The last name
always counts as one of them. -/
def reach (tree : FileTree) :
    Location → Nat → List String → Except ErrorNumber (Location × Nat × List String)
  | here, links, [] => .ok (here, links, [])
  | here, links, [last] => .ok (here, links, [last])
  | here, links, name :: rest =>
      match tree.follow links here [name] with
      | .ok (.vacant _ _) => .ok (here, links, name :: rest)
      | .ok (.found location links) =>
          match tree.entry? location with
          | some .directory => reach tree location links rest
          | _ => blocked .notDirectory rest
      | .error code =>
          if isMissing code then .ok (here, links, name :: rest) else blocked code rest
where
  /-- So many directories are refused before anything else is noticed. -/
  blocked (code : ErrorNumber) (rest : List String) :
      Except ErrorNumber (Location × Nat × List String) :=
    .error (if makingLimit < (properNames rest).length then .nameTooLong else code)

/-- Make directories, each in the one before; one that is there already will
do. -/
def makeEach (tree : FileTree) :
    Location → Nat → List String → Except ErrorNumber Unit × FileTree
  | _, _, [] => (.ok (), tree)
  | here, links, name :: rest =>
      if name = "." then
        tree.makeEach here links rest
      else if name = ".." then
        tree.makeEach here.parent links rest
      else
        match tree.peek here name with
        | .error code => (.error code, tree)
        | .ok none =>
            (tree.insert (here.child name) .directory).makeEach (here.child name) links rest
        | .ok (some _) =>
            match tree.follow links here [name] with
            | .ok (.found location links) =>
                match tree.entry? location with
                | some .directory => tree.makeEach location links rest
                | _ => (.error .alreadyExists, tree)
            | _ => (.error .alreadyExists, tree)

def makeDirectories (tree : FileTree) (path : String) : Except ErrorNumber Unit × FileTree :=
  if path = "" then
    (.error .invalidArgument, tree)
  else
    match tree.stat path with
    | .ok (_, entry) => (if entry.isDirectory then .ok () else .error .notDirectory, tree)
    | .error code =>
        if isMissing code then
          match tree.reach (tree.start path) linkLimit (namesOf path) with
          | .ok (here, links, missing) =>
              if makingLimit < (properNames missing).length then (.error .nameTooLong, tree)
              else tree.makeEach here links missing
          | .error code => (.error code, tree)
        else
          (.error code, tree)

inductive EnsureFailure where
  | failed (code : ErrorNumber)
  /-- Not even the state of the path could be found out. -/
  | unresolved (code : ErrorNumber)
deriving DecidableEq, Repr

/-- Make a directory.  A failure does not matter if the directory is there all
the same. -/
def ensureDirectory (tree : FileTree) (path : String) : Except EnsureFailure Unit × FileTree :=
  match tree.makeDirectories path with
  | (.ok (), tree) => (.ok (), tree)
  | (.error code, tree) =>
      match tree.stat path with
      | .ok (_, entry) => (if entry.isDirectory then .ok () else .error (.failed code), tree)
      | .error cause =>
          (.error (if isMissing cause then .failed code else .unresolved cause), tree)

def existsAt (tree : FileTree) (path : String) : Bool :=
  (tree.stat path).isOk

def isDirectoryAt (tree : FileTree) (path : String) : Bool :=
  match tree.stat path with
  | .ok (_, entry) => entry.isDirectory
  | .error _ => false

def directoryAt (tree : FileTree) (path : String) : Except ErrorNumber Location := do
  let (location, entry) ← tree.stat path
  if entry.isDirectory then return location else .error .notDirectory

def listRegular (tree : FileTree) (path : String) : Except ErrorNumber (List String) := do
  let location ← tree.directoryAt path
  let names := (tree.children location).filterMap fun (name, entry) =>
    if entry.isRegular then some name else none
  return names.mergeSort fun left right => !decide (right < left)

/-- Give everything at or under one location the corresponding place under
another. -/
def move (tree : FileTree) (source target : Location) : FileTree :=
  { tree with
    entries := tree.entries.map fun (location, entry) =>
      if source.encloses location then
        (location.transplant source target, entry)
      else
        (location, entry) }

/-- Rename an entry.  What is at the new path is replaced if it is of the same
kind: any file by a file, an empty directory by a directory. -/
def rename (tree : FileTree) (old new : String) : Except ErrorNumber FileTree := do
  match ← tree.approach old, ← tree.approach new with
  | .name oldDirectory oldName oldSlash, .name newDirectory newName newSlash =>
      let source := oldDirectory.child oldName
      let target := newDirectory.child newName
      match ← tree.peek oldDirectory oldName with
      | none => .error .noEntry
      | some entry =>
          let there? ← tree.peek newDirectory newName
          if source = target then
            return tree
          else if entry.isDirectory then
            if source.encloses target then
              .error .invalidArgument
            else
              match there? with
              | none => return tree.move source target
              | some .directory =>
                  if (tree.children target).isEmpty then return (tree.erase target).move source target
                  else .error .notEmpty
              | some _ => .error .notDirectory
          else if oldSlash ∨ newSlash then
            .error .notDirectory
          else
            match there? with
            | none => return tree.move source target
            | some .directory => .error .isDirectory
            | some _ => return (tree.erase target).move source target
  | _, _ => .error .busy

end MarkerBus.FileTree
