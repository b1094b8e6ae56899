/-! The log: what a run tells of itself beside its result. -/
namespace SqlComposer

inductive Level where
  | error | warn | info | debug | trace
  deriving DecidableEq, Repr

namespace Level

def name : Level → String
  | .error => "ERROR"
  | .warn => "WARN"
  | .info => "INFO"
  | .debug => "DEBUG"
  | .trace => "TRACE"

def all : List Level := [.error, .warn, .info, .debug, .trace]

/-- Finds a level by its name, in letters of any case. -/
def ofName? (word : String) : Option Level := all.find? fun l => l.name = word.toUpper

/-- Whether a log that goes down to some level tells what is said at another one. -/
def shows (limit level : Level) : Bool := level.ctorIdx ≤ limit.ctorIdx

end Level

/-- A message at a level of detail, with named values. -/
structure LogRecord where
  level : Level
  message : String
  fields : List (String × String) := []
  deriving DecidableEq, Repr

/-- A record in one line. -/
def LogRecord.line (r : LogRecord) : String :=
  " ".intercalate (r.level.name :: r.message :: r.fields.map fun f => s!"{f.1}={f.2}")

end SqlComposer
