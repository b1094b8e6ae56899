import SqlComposer.Compose.Fragment

/-! Putting fragments together. The fragment found last is rendered first, so each one is rendered
when the texts of all its references are there. -/
namespace SqlComposer

/-- The text of a fragment, published to the fragment that refers to it. -/
structure Published where
  parent : Nat
  key : String
  text : String
  deriving DecidableEq, Repr

/-- What has been published to a position. A key gets the text that came last for it, which is
that of the reference declared first. -/
def publishedTo (position : Nat) (ps : List Published) : Bindings :=
  .ofList ((ps.filter (·.parent = position)).map fun p => (p.key, p.text))

/-- Renders a script; a failure names it. -/
def renderScript (engine : Template.Engine) (origin : Origin) (context : Bindings)
    (script : String) : Step String :=
  Traced.lift ((Template.render engine context script).mapError (.template origin))

/-- Renders fragments, the first of which stands at a position, from the last to the first. In a
nested fragment references count more than keywords of the same name. -/
def merge (engine : Template.Engine) (position : Nat) : List Nested → Step (List Published)
  | [] => pure []
  | n :: ns => do
    let published ← merge engine (position + 1) ns
    let context := n.block.keywords.overlay (publishedTo position published)
    let text ← renderScript engine (some n.reference) context n.script
    Traced.tell (.merged n.level n.reference.key)
    return published ++ [⟨n.parent, n.reference.key, text⟩]

/-- What the names in the root stand for: texts of references, then keywords, then overrides and
at last flags, each of which counts more than the ones before. -/
def rootContext (o : Options) (root : Fragment) (published : List Published) : Bindings :=
  (((publishedTo 0 published).overlay root.block.keywords).overlay o.overrides).overlay
    (o.migrations.appliedFlags o.environment)

end SqlComposer
