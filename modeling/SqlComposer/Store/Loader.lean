import SqlComposer.Directive.Basic
import SqlComposer.Log
import SqlComposer.Store.FileTree

/-! Loaders find the texts of referenced scripts: in files below a base directory, in a store of
texts, or by asking elsewhere for a name. -/
namespace SqlComposer

inductive LoadError where
  | file (path : String) (fault : FileFault)
  | noScript (name : String)
  | noLookup (name : String)
  | lookup (name message : String)
  deriving DecidableEq, Repr

def LoadError.message : LoadError → String
  | .file path fault => s!"cannot read {path}: {fault.message}"
  | .noScript name => s!"no script named '{name}'"
  | .noLookup name => s!"no remote lookup configured for script '{name}'"
  | .lookup name message => s!"remote lookup of '{name}' failed: {message}"

/-- Finds a script by where it is said to be; some loaders log what they are about to do. -/
structure Loader where
  load : Source → Except LoadError String
  record? : Source → Option LogRecord := fun _ => none

namespace Loader

/-- Serves texts from a store. Files are found under any way of writing their path; of two
entries for one file or name the later one counts. -/
def ofStore (files scripts : List (String × String)) : Loader where
  load
    | .file path =>
      match files.reverse.find? fun f => Path.components f.1 = Path.components path with
      | some (_, text) => .ok text
      | none => .error (.file path .notStored)
    | .named name =>
      match scripts.reverse.lookup name with
      | some text => .ok text
      | none => .error (.noScript name)

abbrev Lookup := String → Except LoadError String

def noLookup : Lookup := fun name => .error (.noLookup name)

/-- Reads files below a base directory, and asks for names elsewhere. -/
def ofFiles (read : String → Except FileFault String) (base : String) (lookup : Lookup) :
    Loader where
  load
    | .file path => (read (Path.join base path)).mapError (.file (Path.join base path))
    | .named name => lookup name
  record?
    | .file path => some ⟨.trace, "reading nested script", [("path", Path.join base path)]⟩
    | .named name => some ⟨.trace, "fetching nested script", [("name", name)]⟩

end Loader
end SqlComposer
