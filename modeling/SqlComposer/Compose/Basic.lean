import SqlComposer.Compose.Traced
import SqlComposer.Directive.Script
import SqlComposer.Migration.Basic
import SqlComposer.Store.Loader
import SqlComposer.Template.Engine

/-! Composing a script for an environment: what the caller decides, what can go wrong, and what
is told on the way. -/
namespace SqlComposer

/-- What the caller decides. Overrides count more than all the scripts say. -/
structure Options where
  environment : Environment := .development
  overrides : Bindings := .empty
  migrations : Migrations := .empty
  deriving DecidableEq

/-- Overrides a key; the last text set for it counts. -/
def Options.set (o : Options) (key value : String) : Options :=
  { o with overrides := o.overrides.insert key value }

/-- How many fragments a composition may have, unless the caller decides otherwise. -/
def defaultLimit : Nat := 100

/-- The script that something is about: one that was referred to, or the root. -/
abbrev Origin := Option Reference

def Origin.display (o : Origin) : String := o.elim "root script" Reference.display

inductive ComposeError where
  | parse (origin : Origin) (source : ParseError)
  | tooManyFragments (limit : Nat)
  | load (reference : Reference) (source : LoadError)
  | template (origin : Origin) (fault : TemplateFault)
  deriving DecidableEq

def ComposeError.message : ComposeError → String
  | .parse origin source => s!"invalid directives in {origin.display}: {source.message}"
  | .tooManyFragments limit =>
    s!"more than {limit} fragments, nested references are cyclic or too deep"
  | .load r source => s!"cannot load {r.display} for key '{r.key}': {source.message}"
  | .template origin _ => s!"cannot render {origin.display}:"

/-- How far a composition has come. -/
inductive Stage where
  | unparsed | parsed | resolved | merged | finished
  deriving DecidableEq, Repr

def Stage.text : Stage → String
  | .unparsed => "unparsed"
  | .parsed => "directives parsed"
  | .resolved => "fragments resolved"
  | .merged => "merged"
  | .finished => "finalized"

inductive Event where
  | remark (r : Remark)
  | advanced (source target : Stage) (fragments : Nat)
  | loading (source : Source)
  | resolved (level : Nat) (r : Reference)
  | merged (level : Nat) (key : String)
  | failed (stage : Stage) (e : ComposeError)
  deriving DecidableEq

/-- A step of a composition. -/
abbrev Step := Traced Event ComposeError

end SqlComposer
