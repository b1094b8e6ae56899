import SqlComposer.Compose.Merge

/-! Compiling a script: its directives are parsed, its references resolved, the fragments merged
and the root finished, one stage after the other. -/
namespace SqlComposer

/-- Marks the stage that a failure leaves behind. -/
def atStage {α : Type} (s : Stage) (x : Step α) : Step α := x.onError (.failed s)

/-- Compiles a script. No more fragments than the limit take part. -/
def compileTraced (engine : Template.Engine) (loader : Loader) (limit : Nat) (o : Options)
    (script : String) : Step String := do
  let root ← atStage .unparsed (Fragment.read o.environment none script)
  Traced.tell (.advanced .unparsed .parsed 0)
  let nested ← atStage .parsed (resolve loader o.environment limit root)
  let count := nested.length + 1
  Traced.tell (.advanced .parsed .resolved count)
  let published ← atStage .resolved (merge engine 1 nested)
  Traced.tell (.advanced .resolved .merged count)
  let text ← atStage .merged (renderScript engine none (rootContext o root published) script)
  Traced.tell (.advanced .merged .finished count)
  return text

/-- The text that a script becomes. -/
def compile (engine : Template.Engine) (loader : Loader) (limit : Nat) (o : Options)
    (script : String) : Except ComposeError String :=
  (compileTraced engine loader limit o script).result

end SqlComposer
