import SqlComposer.Compose.Basic

/-! The scripts that take part in a composition. References are followed in the order in which
they are declared, each down to its own references before the next; a bound on the number of
fragments ends this also where references run in circles. -/
namespace SqlComposer

/-- A script with what it says for the environment. -/
structure Fragment where
  script : String
  block : Block

/-- A fragment found by a reference. The root has position 0 and level 0, and the others are
numbered in the order in which they are found. -/
structure Nested extends Fragment where
  level : Nat
  parent : Nat
  reference : Reference

structure Pending where
  level : Nat
  parent : Nat
  reference : Reference

def Fragment.read (e : Environment) (origin : Origin) (text : String) : Step Fragment := do
  Traced.tellAll ((Script.remarks text).map .remark)
  let directives ← Traced.lift ((Directives.parse text).mapError (.parse origin))
  return ⟨text, directives.block e⟩

def Fragment.pending (f : Fragment) (level position : Nat) : List Pending :=
  f.block.references.map fun r => ⟨level + 1, position, r⟩

/-- Loads and reads what a reference leads to. -/
def Pending.follow (loader : Loader) (e : Environment) (p : Pending) : Step Nested := do
  Traced.tell (.loading p.reference.source)
  let text ← Traced.lift ((loader.load p.reference.source).mapError (.load p.reference))
  let fragment ← Fragment.read e (some p.reference) text
  Traced.tell (.resolved p.level p.reference)
  return { fragment with level := p.level, parent := p.parent, reference := p.reference }

/-- Follows all that is pending. There is room for so many fragments more, and the next one found
gets the given position. -/
def discover (loader : Loader) (e : Environment) (limit : Nat) :
    (room position : Nat) → List Pending → Step (List Nested)
  | _, _, [] => pure []
  | room, position, p :: ps => do
    let found ← p.follow loader e
    match room with
    | 0 => Traced.fail (.tooManyFragments limit)
    | room + 1 =>
      let children := found.toFragment.pending p.level position
      let rest ← discover loader e limit room (position + 1) (children ++ ps)
      return found :: rest

/-- All fragments below the root. The root counts as one. -/
def resolve (loader : Loader) (e : Environment) (limit : Nat) (root : Fragment) :
    Step (List Nested) :=
  match limit with
  | 0 => Traced.fail (.tooManyFragments 0)
  | room + 1 => discover loader e limit room 1 (root.pending 0 0)

end SqlComposer
