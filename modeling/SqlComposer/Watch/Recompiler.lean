import SqlComposer.Compose.Log
import SqlComposer.Watch.Signals

/-! Recompiling one file into another, once or for each signal. Where a step fails no file is
changed. -/
namespace SqlComposer

/-- What is compiled into what, and how; a loader may look at the files. -/
structure Recompiler where
  engine : Template.Engine
  loader : (String → Except FileFault String) → Loader
  limit : Nat := defaultLimit
  options : Options
  input : String
  output : String

inductive RecompileError where
  | file (path : String) (fault : FileFault)
  | compile (e : ComposeError)
  deriving DecidableEq

def RecompileError.message : RecompileError → String
  | .file path fault => s!"cannot access {path}: {fault.message}"
  | .compile e => e.message

namespace Recompiler

/-- Compiles the input, as far as files can be read. -/
def text (r : Recompiler) (read : String → Except FileFault String) :
    Traced LogEntry RecompileError String := do
  let script ← Traced.lift ((read r.input).mapError (.file r.input))
  let compiled := compileTraced r.engine (r.loader read) r.limit r.options script
  Traced.tellAll (compileLog (r.loader read) r.options compiled.events)
  Traced.lift (compiled.result.mapError .compile)

def recompile (r : Recompiler) (files : FileTree) : Traced LogEntry RecompileError FileTree := do
  let compiled ← r.text files.read
  let files ← Traced.lift ((files.write r.output compiled).mapError (.file r.output))
  Traced.tell (.record ⟨.debug, "recompiled", [("output", r.output)]⟩)
  return files

/-- What came of recompiling for a number of signals. -/
structure Run where
  files : FileTree
  succeeded : Nat := 0
  log : List LogEntry := []

/-- How a failure is logged; it does not keep the next signal from being served. -/
def failure (r : Recompiler) (e : RecompileError) : LogEntry :=
  .record ⟨.error, "recompile failed", [("input", r.input), ("error", e.message)]⟩

def run (r : Recompiler) (files : FileTree) : Nat → Run
  | 0 => { files := files }
  | signals + 1 =>
    let once := (r.recompile files).onError r.failure
    match once.result with
    | .ok files =>
      let rest := run r files signals
      ⟨rest.files, rest.succeeded + 1, once.events ++ rest.log⟩
    | .error _ =>
      let rest := run r files signals
      ⟨rest.files, rest.succeeded, once.events ++ rest.log⟩

end Recompiler
end SqlComposer
