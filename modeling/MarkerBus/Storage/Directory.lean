import MarkerBus.FileTree.Calls
import MarkerBus.Path
import MarkerBus.Storage.Request

namespace MarkerBus.Storage.Directory

def note (level : Log.Level) (text : String) : List Notice :=
  [.log ⟨level, text⟩]

/-- The failure to make a directory that is needed, told as one of the storage. -/
def ensureFailure (path : String) : FileTree.EnsureFailure → Failure
  | .failed code => .reported ⟨.createDirectory, path, code⟩
  | .unresolved code => .unresolved code

/-- The notices of a creation that succeeded. -/
def settled (tree : FileTree) (path : String) : List Notice :=
  let parent := Path.parent path
  match tree.directoryAt (if parent = "" then "." else parent) with
  | .ok _ => []
  | .error code =>
      note .warning
        ("fsync of " ++ parent ++ " after creating " ++ path ++ " failed: " ++ code.describe)

def create (tree : FileTree) (path : String) : Reply FileTree (.create path) :=
  match tree.createExclusive path with
  | .ok tree => { result := .ok .created, storage := tree, notices := settled tree path }
  | .error code =>
      if code = .noEntry then
        let parent := Path.parent path
        match tree.ensureDirectory parent with
        | (.error failure, tree) => { result := .error (ensureFailure parent failure), storage := tree }
        | (.ok (), tree) =>
            match tree.createExclusive path with
            | .ok tree => { result := .ok .created, storage := tree, notices := settled tree path }
            | .error code => refused tree code
      else
        refused tree code
where
  refused (tree : FileTree) (code : ErrorNumber) : Reply FileTree (.create path) :=
    if code = .alreadyExists then { result := .ok .present, storage := tree }
    else { result := .error (.reported ⟨.createFile, path, code⟩), storage := tree }

def list (tree : FileTree) (path : String) : Except Failure (List String) :=
  if !tree.isDirectoryAt path then
    .ok []
  else
    match tree.listRegular path with
    | .ok names => .ok names
    | .error code =>
        if code = .noEntry then .ok [] else .error (.reported ⟨.listDirectory, path, code⟩)

def remove (tree : FileTree) (path : String) : Except Failure Removal × FileTree :=
  match tree.unlink path with
  | .ok tree => (.ok .removed, tree)
  | .error code =>
      if code = .noEntry then (.ok .absent, tree)
      else (.error (.reported ⟨.deleteFile, path, code⟩), tree)

def reset (tree : FileTree) (path : String) : Reply FileTree (.reset path) :=
  match tree.removeAll path with
  | (.error code, tree) =>
      { result := .error (.reported ⟨.deleteDirectory, path, code⟩), storage := tree }
  | (.ok (), tree) =>
      match tree.ensureDirectory path with
      | (.error failure, tree) => { result := .error (ensureFailure path failure), storage := tree }
      | (.ok (), tree) =>
          let parent := Path.parent path
          let notices :=
            match tree.directoryAt parent with
            | .ok _ => []
            | .error code =>
                if parent = "" then []
                else note .trace ("fsync of " ++ parent ++ " failed: " ++ code.describe)
          { result := .ok (), storage := tree, notices }

def serve : Backend FileTree
  | .create path, tree => create tree path
  | .list path, tree => { result := list tree path, storage := tree }
  | .remove path, tree =>
      let (result, tree) := remove tree path
      { result, storage := tree }
  | .probe path, tree => { result := .ok (tree.existsAt path), storage := tree }
  | .reset path, tree => reset tree path

end MarkerBus.Storage.Directory
