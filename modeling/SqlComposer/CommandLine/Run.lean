import SqlComposer.CommandLine.Options
import SqlComposer.Directive.Printer
import SqlComposer.Watch.Recompiler

/-! The commands. A command reads files and comes to an exit code and two texts; to watch a file
goes on for as long as the file is there. -/
namespace SqlComposer.CommandLine

/-- The libraries that the commands are linked with. -/
structure Libraries where
  engine : Template.Engine
  records : ReadRecords

structure Outcome where
  exit : UInt8
  output : String := ""
  errors : String := ""
  deriving DecidableEq, Repr

inductive Action where
  | finish (o : Outcome)
  | watch (o : Options) (input output : String)

/-- The paths that a command reads, in their order, what it logs, and what it does. -/
structure Command where
  reads : List String := []
  log : List LogEntry := []
  action : Action

def usage : String :=
  String.join <| [
    "Usage: sqlm <command> [args...]",
    "",
    "Commands:",
    "  parse <files...>        Print the directive block of each script",
    "  compile <file>          Compile a script and print it to stdout",
    "  watch <input> <output>  Recompile input into output on every write",
    "",
    "Options (compile, watch):",
    "  --env <dev|prod|local|int>  Target environment (default: dev)",
    "  --set <key=value>           Override a keyword, repeatable",
    "  --migrations <file.json>    Migration records per environment",
    "",
    "Nested sqlmfile paths resolve against the current directory.",
    "Set SQLM_LOG (e.g. SQLM_LOG=debug) to control diagnostics."].map (· ++ "\n")

def misuse (errors : String) : Action := .finish { exit := 2, errors := errors }

def about (path message : String) : String := s!"{path}: {message}\n"

def inspect (read : Read) (path : String) : Outcome :=
  match read path with
  | .error fault => { exit := 1, errors := about path fault.message }
  | .ok script =>
    match Directives.parse script with
    | .error e => { exit := 1, errors := about path e.message }
    | .ok d =>
      let count := (Environment.all.flatMap fun e => (d.block e).references).length
      { exit := 0, output := d.print
        errors := about path s!"valid ({count} nested reference(s))" }

def inspectLog (read : Read) (path : String) : List LogEntry :=
  match read path with
  | .error _ => []
  | .ok script => ((Script.remarks script).filterMap Remark.record?).map .record

/-- Inspects all scripts; one that cannot be read does not keep the others from it. -/
def inspectAll (read : Read) (paths : List String) : Command :=
  if paths.isEmpty then { action := misuse "Error: no files specified\n" }
  else
    let outcomes := paths.map (inspect read)
    { reads := paths
      log := paths.flatMap (inspectLog read)
      action := .finish
        { exit := if outcomes.all (·.exit = 0) then 0 else 1
          output := String.join (outcomes.map (·.output))
          errors := String.join (outcomes.map (·.errors)) } }

def baseDirectory : String := "."

def loader (read : Read) : Loader := .ofFiles read baseDirectory Loader.noLookup

def pathOf? : Event → Option String
  | .loading (.file path) => some (Path.join baseDirectory path)
  | _ => none

def compileScript (lib : Libraries) (read : Read) (o : Options) (path script : String) : Command :=
  let compiled := compileTraced lib.engine (loader read) defaultLimit o script
  { reads := path :: compiled.events.filterMap pathOf?
    log := compileLog (loader read) o compiled.events
    action := .finish <| match compiled.result with
      | .ok text => { exit := 0, output := text }
      | .error e => { exit := 1, errors := about path e.message } }

def compileFile (lib : Libraries) (read : Read) (o : Options) (path : String) : Command :=
  match read path with
  | .error fault =>
    { reads := [path], action := .finish { exit := 1, errors := about path fault.message } }
  | .ok script => compileScript lib read o path script

def compileOne (lib : Libraries) (read : Read) (a : Arguments) : Command :=
  match a.positional with
  | [path] => compileFile lib read a.options path
  | _ => { action := misuse "Error: compile takes exactly one file\n" }

def watchFile (a : Arguments) : Command :=
  match a.positional with
  | [input, output] => { action := .watch a.options input output }
  | _ => { action := misuse "Error: watch takes an input and an output file\n" }

def withOptions (lib : Libraries) (read : Read) (arguments : List String)
    (next : Arguments → Command) : Command :=
  let reading := Arguments.addAll lib.records read {} arguments
  match reading.result with
  | .error fault =>
    { reads := reading.events, action := misuse s!"Error: {fault.message}\n" }
  | .ok a =>
    let command := next a
    { command with reads := reading.events ++ command.reads }

def command (lib : Libraries) (read : Read) : List String → Command
  | [] => { action := misuse usage }
  | "--help" :: _ => { action := misuse usage }
  | "-h" :: _ => { action := misuse usage }
  | "parse" :: files => inspectAll read files
  | "compile" :: arguments => withOptions lib read arguments (compileOne lib read)
  | "watch" :: arguments => withOptions lib read arguments watchFile
  | name :: _ => { action := misuse (s!"Unknown command: {name}\n" ++ usage) }

def recompiler (lib : Libraries) (o : Options) (input output : String) : Recompiler :=
  { engine := lib.engine, loader := loader, options := o, input := input, output := output }

def unwatchable (input : String) : Outcome :=
  { exit := 1, errors := about input "file watcher failed:" }

/-- The start of a watch: files after a first compilation, and how the watch ends if there is no
file to be watched. -/
def startWatch (lib : Libraries) (files : FileTree) (o : Options) (input output : String) :
    FileTree × Option Outcome :=
  let first := (recompiler lib o input output).recompile files
  let (files, errors) := match first.result with
    | .ok changed => (changed, "")
    | .error e => (files, about input e.message)
  match files.resolve input with
  | .ok _ => (files, none)
  | .error _ =>
    let last := unwatchable input
    (files, some { last with errors := errors ++ last.errors })

end SqlComposer.CommandLine
