import SqlComposer.Directive.Script
import SqlComposer.Log
import SqlComposer.Text.Visible

/-! How remarks on directives are logged. -/
namespace SqlComposer

def lineField (t : Token) : String × String := ("line", toString t.start.line)

def foundField (t : Token) : String × String := ("found", Text.visibleOption t.describe)

/-- A description that was read is not logged. -/
def Description.record? : Description → Option LogRecord
  | .missing => some ⟨.debug, "script section has no description", []⟩
  | .notFirst line =>
    some ⟨.debug, "script section does not start with a description", [lineField line]⟩
  | .noColon found =>
    some ⟨.warn, "malformed description line, expected ':'", [lineField found, foundField found]⟩
  | .noText found =>
    some ⟨.warn, "malformed description line, expected a quoted string",
      [lineField found, foundField found]⟩
  | .text _ => none

def Remark.record? : Remark → Option LogRecord
  | .noBlock => some ⟨.trace, "script has no directive block", []⟩
  | .description d => d.record?
  | .unknownSection head =>
    some ⟨.debug, "skipping unknown directive section", [lineField head, ("section", head.text)]⟩

end SqlComposer
