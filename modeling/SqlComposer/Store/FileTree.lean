import SqlComposer.Store.Path

/-! Files in directories, and how a path leads to one of them. A path is walked name by name from
the top directory, or from the root of all files. Of what lies above the top directory nothing is
known but that it is there. -/
namespace SqlComposer

inductive FileFault where
  | notFound
  | notADirectory
  | isADirectory
  | notText
  | nulInPath
  | nameTooLong
  | notStored
  | other (message : String)
  deriving DecidableEq, Repr

def FileFault.message : FileFault → String
  | .notFound => "No such file or directory (os error 2)"
  | .notADirectory => "Not a directory (os error 20)"
  | .isADirectory => "Is a directory (os error 21)"
  | .notText => "stream did not contain valid UTF-8"
  | .nulInPath => "file name contained an unexpected NUL byte"
  | .nameTooLong => "File name too long (os error 36)"
  | .notStored => "file not found in memory"
  | .other message => message

/-- What stands in a directory; a file need not hold text. -/
inductive Node where
  | directory
  | text (s : String)
  | binary
  deriving DecidableEq, Repr

def Node.isDirectory : Node → Bool
  | .directory => true
  | _ => false

def Node.ofBytes (bytes : ByteArray) : Node :=
  match String.fromUTF8? bytes with
  | some s => .text s
  | none => .binary

/-- Nodes by the names that lead to them from the top directory. `..` is such a name only in front
of all others, where it leads above the top directory; the root's name is a slash. -/
structure FileTree where
  nodes : List (List String × Node) := []
  deriving Inhabited

namespace FileTree

def root : List String := ["/"]

/-- Whether names lead to a directory that is always there: the top directory, one above it, or
the root. -/
def isFixed (names : List String) : Bool := names = root || names.all (· = "..")

def node? (t : FileTree) (names : List String) : Option Node :=
  if isFixed names then some .directory else t.nodes.lookup names

def put (t : FileTree) (names : List String) (node : Node) : FileTree :=
  ⟨(names, node) :: t.nodes⟩

theorem node?_put (t : FileTree) (names other : List String) (node : Node)
    (h : isFixed other = false) :
    (t.put names node).node? other = if other = names then some node else t.node? other := by
  show (if isFixed other then _ else List.lookup other ((names, node) :: t.nodes)) = _
  by_cases hn : other = names
  · subst hn; simp [h]
  · have hb : (other == names) = false := by simpa using hn
    simp [List.lookup_cons, h, hn, hb, node?]

def erase (t : FileTree) (names : List String) : FileTree :=
  ⟨t.nodes.filter (·.1 ≠ names)⟩

/-- The directory above a directory. The root is above itself. -/
def parent (names : List String) : List String :=
  if names = root then root
  else if names.all (· = "..") then names ++ [".."]
  else names.dropLast

def isTooLong (name : String) : Bool := 255 < name.utf8ByteSize

/-- One name further; only directories lead on. -/
def step (t : FileTree) (names : List String) (name : String) :
    Except FileFault (List String) :=
  if !(t.node? names).any Node.isDirectory then .error .notADirectory
  else if name = "." then .ok names
  else if name = ".." then .ok (parent names)
  else if isTooLong name then .error .nameTooLong
  else if (t.node? (names ++ [name])).isSome then .ok (names ++ [name])
  else .error .notFound

def origin (path : String) : List String := if Path.isAbsolute path then root else []

def endsInSlash (path : String) : Bool := path.toList.getLast? = some '/'

/-- Whether there is a way to walk a path at all: it is not empty, it has less than 4096 bytes, and
none of them is NUL. -/
def checkPath (path : String) : Except FileFault Unit :=
  if path.toList.contains '\x00' then .error .nulInPath
  else if path = "" then .error .notFound
  else if 4096 ≤ path.utf8ByteSize then .error .nameTooLong
  else .ok ()

def resolve (t : FileTree) (path : String) : Except FileFault (List String) := do
  checkPath path
  let names := Path.names path
  (if endsInSlash path then names ++ ["."] else names).foldlM t.step (origin path)

def read (t : FileTree) (path : String) : Except FileFault String := do
  match t.node? (← t.resolve path) with
  | some (.text s) => .ok s
  | some .binary => .error .notText
  | some .directory => .error .isADirectory
  | none => .error .notFound

/-- Replaces the text of a file, or makes a new file in a directory that is there. -/
def write (t : FileTree) (path text : String) : Except FileFault FileTree := do
  checkPath path
  let names := Path.names path
  let above ← names.dropLast.foldlM t.step (origin path)
  match names.getLast? with
  | none => .error .isADirectory
  | some name =>
    if !(t.node? above).any Node.isDirectory then .error .notADirectory
    else if endsInSlash path || name = "." || name = ".." then .error .isADirectory
    else if isTooLong name then .error .nameTooLong
    else if (t.node? (above ++ [name])).any Node.isDirectory then .error .isADirectory
    else .ok (t.put (above ++ [name]) (.text text))

def remove (t : FileTree) (path : String) : Option FileTree :=
  match t.resolve path with
  | .ok names => if (t.node? names).any fun n => !n.isDirectory then some (t.erase names) else none
  | .error _ => none

/-- One name further, into a directory that is made if nothing is there. -/
def enter (place : FileTree × List String) (name : String) : FileTree × List String :=
  let (t, names) := place
  if name = "." then (t, names)
  else if name = ".." then (t, parent names)
  else
    let names := names ++ [name]
    (if (t.node? names).isSome then t else t.put names .directory, names)

/-- Puts a node in place, with all directories on the way to it. -/
def create (t : FileTree) (path : String) (node : Node) : FileTree :=
  let names := Path.names path
  let (t, above) := names.dropLast.foldl enter (t, origin path)
  match node, names.getLast? with
  | _, none => t
  | .directory, some name => (enter (t, above) name).1
  | file, some name => t.put (above ++ [name]) file

end FileTree
end SqlComposer
