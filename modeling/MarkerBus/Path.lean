import MarkerBus.Text.LastSplit

namespace MarkerBus.Path

def join (directory name : String) : String :=
  if directory = "" ∨ directory.toList.getLast? = some '/' then
    directory ++ name
  else
    directory ++ "/" ++ name

def dropTrailingSlashes (path : List Char) : List Char :=
  (path.reverse.dropWhile (· = '/')).reverse

/-- A path without its trailing slashes.  Of a path that holds nothing else, one
slash stays: it is the root. -/
def trim (path : String) : String :=
  match dropTrailingSlashes path.toList with
  | [] => if path = "" then "" else "/"
  | kept => String.ofList kept

/-- The directory and the name that a path is made of.  A path without a slash
names an entry of the current directory. -/
def split (path : String) : String × String :=
  match Text.splitLast? '/' path.toList with
  | none => (".", path)
  | some ([], name) => ("/", String.ofList name)
  | some (directory, name) => (String.ofList directory, String.ofList name)

/-- The path of the directory that holds the last name of a path; empty where
the path has no directory part.  After a trailing slash the last name is empty. -/
def parent (path : String) : String :=
  match Text.splitLast? '/' path.toList with
  | none => ""
  | some (front, last) =>
      match dropTrailingSlashes front with
      | [] => if last = [] then path else "/"
      | kept => String.ofList kept

end MarkerBus.Path
