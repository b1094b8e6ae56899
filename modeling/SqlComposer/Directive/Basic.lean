import SqlComposer.Bindings
import SqlComposer.Environment

/-! Directives: what the block at the top of a script says. For each environment it gives texts
to put in place of keywords, and references to other scripts. -/
namespace SqlComposer

/-- Where a referenced script is found. -/
inductive Source where
  | file (path : String)
  | named (name : String)
  deriving DecidableEq, Repr

/-- A script whose text takes the place of a key. -/
structure Reference where
  key : String
  source : Source
  deriving DecidableEq, Repr

def Reference.display (r : Reference) : String :=
  match r.source with
  | .file path => "sqlmfile(\"" ++ path ++ "\")"
  | .named name => "sqlmref(\"" ++ name ++ "\")"

/-- One line of an environment's section. -/
inductive Entry where
  | keyword (key value : String)
  | reference (r : Reference)
  deriving DecidableEq, Repr

/-- What is said for one environment; references keep the order in which they are declared. -/
structure Block where
  keywords : Bindings := .empty
  references : List Reference := []
  deriving DecidableEq, Inhabited

namespace Block

def isEmpty (b : Block) : Bool := b.keywords.entries.isEmpty && b.references.isEmpty

def add (b : Block) : Entry → Block
  | .keyword key value => { b with keywords := b.keywords.insert key value }
  | .reference r => { b with references := b.references ++ [r] }

def addAll (b : Block) (es : List Entry) : Block := es.foldl add b

/-- The lines of a section that says what the block says, keywords first. -/
def entries (b : Block) : List Entry :=
  b.keywords.entries.map (fun e => .keyword e.1 e.2) ++ b.references.map .reference

end Block

/-- The directives of a script. A name is only ever given by whoever builds directives: blocks
in scripts have no line for it. -/
structure Directives where
  name : String := ""
  description : String := ""
  blocks : PerEnvironment Block := .const {}
  deriving DecidableEq, Inhabited

namespace Directives

def block (d : Directives) (e : Environment) : Block := d.blocks.get e

def setBlock (d : Directives) (e : Environment) (b : Block) : Directives :=
  { d with blocks := d.blocks.set e b }

/-- Adds lines for one environment to those already there. -/
def addEntries (d : Directives) (e : Environment) (es : List Entry) : Directives :=
  { d with blocks := d.blocks.modify e (·.addAll es) }

theorem block_addEntries (d : Directives) (e e' : Environment) (es : List Entry) :
    (d.addEntries e es).block e' = if e' = e then (d.block e').addAll es else d.block e' :=
  PerEnvironment.get_modify d.blocks e e' _

end Directives
end SqlComposer
