import MarkerBus.Path
import MarkerBus.Storage.Request

namespace MarkerBus.Storage

/-- The names in each directory; directories are known by their trimmed paths. -/
structure Memory where
  directories : List (String × List String) := []
deriving DecidableEq, Repr

namespace Memory

def place (path : String) : String × String :=
  let (directory, name) := Path.split path
  (Path.trim directory, name)

/-- The names kept under a trimmed directory path. -/
def namesAt (memory : Memory) (directory : String) : List String :=
  (memory.directories.lookup directory).getD []

def names (memory : Memory) (path : String) : List String :=
  memory.namesAt (Path.trim path)

def isDirectory (memory : Memory) (path : String) : Bool :=
  (memory.directories.lookup (Path.trim path)).isSome

def insertName (name : String) : List String → List String
  | [] => [name]
  | head :: rest =>
      if name < head then name :: head :: rest
      else if head < name then head :: insertName name rest
      else head :: rest

/-- Change the names of a directory, which is made if there is none. -/
def update (directory : String) (change : List String → List String) :
    List (String × List String) → List (String × List String)
  | [] => [(directory, change [])]
  | (known, names) :: rest =>
      if known = directory then (known, change names) :: rest
      else (known, names) :: update directory change rest

/-- Is a trimmed path the given directory, or inside of it? -/
def within (directory path : String) : Bool :=
  let stem := if directory = "/" then "/" else directory ++ "/"
  path = directory ∨ stem.toList.isPrefixOf path.toList

def create (memory : Memory) (path : String) : Except Failure Creation × Memory :=
  let (directory, name) := place path
  if name = "" then
    (.error (.reported ⟨.createFile, path, .invalidArgument⟩), memory)
  else if memory.isDirectory path then
    (.error (.reported ⟨.createFile, path, .isDirectory⟩), memory)
  else if name ∈ memory.namesAt directory then
    (.ok .present, memory)
  else
    (.ok .created, ⟨update directory (insertName name) memory.directories⟩)

def remove (memory : Memory) (path : String) : Removal × Memory :=
  let (directory, name) := place path
  if name ∈ memory.namesAt directory then
    (.removed, ⟨update directory (·.erase name) memory.directories⟩)
  else
    (.absent, memory)

def probe (memory : Memory) (path : String) : Bool :=
  let (directory, name) := place (Path.trim path)
  memory.isDirectory path ∨ name ∈ memory.namesAt directory

def reset (memory : Memory) (path : String) : Memory :=
  let directory := Path.trim path
  let others := memory.directories.filter fun known => !within directory known.1
  ⟨(directory, []) :: others⟩

def size (memory : Memory) : Nat :=
  memory.directories.foldl (fun total known => total + known.2.length) 0

def serve : Backend Memory
  | .create path, memory =>
      let (result, memory) := memory.create path
      { result, storage := memory }
  | .list path, memory => { result := .ok (memory.names path), storage := memory }
  | .remove path, memory =>
      let (removal, memory) := memory.remove path
      { result := .ok removal, storage := memory }
  | .probe path, memory => { result := .ok (memory.probe path), storage := memory }
  | .reset path, memory => { result := .ok (), storage := memory.reset path }

end Memory

end MarkerBus.Storage
