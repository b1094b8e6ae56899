/-! Paths of files: their components, and what it takes for two paths to be written differently
and still be equal. -/
namespace SqlComposer.Path

def pieces : List Char → List (List Char)
  | [] => [[]]
  | c :: cs =>
    if c = '/' then [] :: pieces cs
    else
      match pieces cs with
      | [] => [[c]]
      | p :: ps => (c :: p) :: ps

def isAbsolute (path : String) : Bool := path.toList.head? = some '/'

/-- The names in a path, `.` and `..` among them. Repeated slashes count once. -/
def names (path : String) : List String :=
  ((pieces path.toList).map String.ofList).filter (· ≠ "")

/-- The components by which paths are compared: a dot counts only at the start of a relative
path, and the root is a component of its own. -/
def components (path : String) : List String :=
  if isAbsolute path then "/" :: (names path).filter (· ≠ ".")
  else
    match names path with
    | "." :: rest => "." :: rest.filter (· ≠ ".")
    | ns => ns.filter (· ≠ ".")

/-- A path as seen from a base directory. An absolute path stays what it is. -/
def join (base path : String) : String :=
  if isAbsolute path || base = "" then path
  else if base.toList.getLast? = some '/' then base ++ path
  else base ++ "/" ++ path

end SqlComposer.Path
