import SqlComposer.Compose.Compile
import SqlComposer.Directive.Remark

/-! How a compilation is logged. -/
namespace SqlComposer

/-- A record, or the start of a piece of work that the records behind it belong to. -/
inductive LogEntry where
  | record (r : LogRecord)
  | span (name : String) (level : Level) (fields : List (String × String))
  deriving DecidableEq, Repr

/-- The loader decides how loading is logged. -/
def Event.record? (loader : Loader) : Event → Option LogRecord
  | .remark r => r.record?
  | .advanced source target fragments =>
    some ⟨.debug, "stage",
      [("from", source.text), ("to", target.text), ("fragments", toString fragments)]⟩
  | .loading source => loader.record? source
  | .resolved level r =>
    some ⟨.trace, "resolved fragment",
      [("level", toString level), ("reference", r.display), ("key", r.key)]⟩
  | .merged level key =>
    some ⟨.trace, "merged fragment", [("level", toString level), ("key", key)]⟩
  | .failed stage e =>
    some ⟨.debug, "compile failed", [("stage", stage.text), ("error", e.message)]⟩

/-- The log of a compilation. -/
def compileLog (loader : Loader) (o : Options) (events : List Event) : List LogEntry :=
  .span "compile" .debug [("env", o.environment.name)] ::
    (events.filterMap (Event.record? loader)).map .record

end SqlComposer
