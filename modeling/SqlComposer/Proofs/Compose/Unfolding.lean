import SqlComposer.Compose.Fragment

/-! The unfolding of references as a tree, and its agreement with the list of fragments that is
found by following one pending reference after the other. -/
namespace SqlComposer

/-- What a list of references leads to: the fragment of the first one with the unfolding of its
own references below it, and the unfolding of the other references beside it. -/
inductive Unfolding where
  | none
  | node (r : Reference) (f : Fragment) (below beside : Unfolding)

/-- The fragment of a script. -/
def Fragment.ofText (e : Environment) (origin : Origin) (text : String) :
    Except ComposeError Fragment :=
  match Directives.parse text with
  | .error x => .error (.parse origin x)
  | .ok d => .ok ⟨text, d.block e⟩

/-- The fragment that a reference leads to. -/
def Reference.fragment (loader : Loader) (e : Environment) (r : Reference) :
    Except ComposeError Fragment :=
  match loader.load r.source with
  | .error x => .error (.load r x)
  | .ok text => Fragment.ofText e (some r) text

/-- All scripts that the references lead to, at any depth, can be loaded and read, and they make
up the (finite) unfolding. -/
inductive Unfolds (loader : Loader) (e : Environment) : List Reference → Unfolding → Prop
  | none : Unfolds loader e [] .none
  | node {r : Reference} {rs : List Reference} {f : Fragment} {below beside : Unfolding} :
      r.fragment loader e = .ok f → Unfolds loader e f.block.references below →
      Unfolds loader e rs beside → Unfolds loader e (r :: rs) (.node r f below beside)

namespace Unfolding

def size : Unfolding → Nat
  | .none => 0
  | .node _ _ below beside => 1 + below.size + beside.size

/-- The fragments in the order in which they are found, the first one at a position. -/
def nested (level parent : Nat) : Nat → Unfolding → List Nested
  | _, .none => []
  | position, .node r f below beside =>
    { f with level := level, parent := parent, reference := r } ::
      (below.nested (level+1) position (position+1) ++
        beside.nested level parent (position+1+below.size))

@[simp] theorem length_nested (u : Unfolding) (level parent position : Nat) :
    (u.nested level parent position).length = u.size := by
  induction u generalizing level parent position with
  | none => rfl
  | node r f below beside ihb ihs =>
    simp only [nested, List.length_cons, List.length_append, ihb, ihs, size]
    omega

end Unfolding

theorem exists_of_map_eq_ok {ε α β : Type} {x : Except ε α} {f : α → β} {b : β}
    (h : x.map f = .ok b) : ∃ a, x = .ok a ∧ b = f a := by
  cases x with
  | error e => cases h
  | ok a => cases h; exact ⟨a, rfl, rfl⟩

theorem mapError_ok {ε δ α : Type} (f : ε → δ) (a : α) :
    (Except.ok a).mapError f = .ok a := rfl

section Discovery
variable {loader : Loader} {e : Environment} {limit room position level parent : Nat}

theorem result_read (e : Environment) (origin : Origin) (text : String) :
    (Fragment.read e origin text).result = Fragment.ofText e origin text := by
  simp only [Fragment.read, Traced.result_bind, Traced.tellAll, Traced.lift, Fragment.ofText]
  cases Directives.parse text <;> rfl

theorem result_follow (loader : Loader) (e : Environment) (p : Pending) :
    (p.follow loader e).result = (p.reference.fragment loader e).map fun f =>
      { f with level := p.level, parent := p.parent, reference := p.reference } := by
  simp only [Pending.follow, Traced.result_bind, Traced.tell, Traced.lift, result_read,
    Reference.fragment]
  cases loader.load p.reference.source with
  | error x => rfl
  | ok text =>
    change (Fragment.ofText e (some p.reference) text >>= _ : Except _ _) =
      (Fragment.ofText e (some p.reference) text).map _
    cases Fragment.ofText e (some p.reference) text <;> rfl

theorem discover_nil : (discover loader e limit room position []).result = .ok [] := by
  cases room <;> rfl

theorem discover_unread {p : Pending} {x : ComposeError} (ps : List Pending)
    (h : p.reference.fragment loader e = .error x) :
    (discover loader e limit room position (p :: ps)).result = .error x := by
  rw [discover, Traced.result_bind, result_follow, h]
  rfl

theorem discover_full {p : Pending} {f : Fragment} (ps : List Pending)
    (h : p.reference.fragment loader e = .ok f) :
    (discover loader e limit 0 position (p :: ps)).result = .error (.tooManyFragments limit) := by
  rw [discover, Traced.result_bind, result_follow, h]
  rfl

theorem discover_found {p : Pending} {f : Fragment} (ps : List Pending)
    (h : p.reference.fragment loader e = .ok f) :
    (discover loader e limit (room+1) position (p :: ps)).result =
      (discover loader e limit room (position+1) (f.pending p.level position ++ ps)).result.map
        ({ f with level := p.level, parent := p.parent, reference := p.reference } :: ·) := by
  rw [discover, Traced.result_bind, result_follow, h]
  change (discover loader e limit room (position+1) (f.pending p.level position ++ ps) >>=
    fun rest => pure (_ :: rest)).result = _
  rw [Traced.result_bind]
  cases (discover loader e limit room (position+1) (f.pending p.level position ++ ps)).result <;> rfl

/-- The references of an unfolding that fits are followed before all that is pending behind them. -/
theorem discover_unfolding {rs : List Reference} {u : Unfolding} (h : Unfolds loader e rs u)
    (hroom : u.size ≤ room) (ps : List Pending) :
    (discover loader e limit room position (rs.map (Pending.mk level parent) ++ ps)).result =
      (discover loader e limit (room-u.size) (position+u.size) ps).result.map
        (u.nested level parent position ++ ·) := by
  induction h generalizing room position level parent ps with
  | none =>
    change (discover loader e limit room position ps).result = _
    cases h : (discover loader e limit room position ps).result <;>
      simp [Unfolding.size, Unfolding.nested, Except.map, h]
  | @node r rs f below beside hf hbelow hbeside ihb ihs =>
    rw [Unfolding.size] at hroom
    obtain ⟨room, rfl⟩ : ∃ n, room = n+1 := ⟨room-1, by omega⟩
    have hpos : position+1+below.size+beside.size = position+(1+below.size+beside.size) := by omega
    have hleft : room-below.size-beside.size = room+1-(1+below.size+beside.size) := by omega
    rw [List.map_cons, List.cons_append, discover_found _ hf, Fragment.pending,
      ihb (by omega), ihs (by omega), hpos, hleft, Unfolding.size]
    cases (discover loader e limit (room+1-(1+below.size+beside.size))
      (position+(1+below.size+beside.size)) ps).result with
    | error x => rfl
    | ok ns => simp [Except.map, Unfolding.nested]

/-- Whatever is found begins with an unfolding of the references that come first. -/
theorem exists_unfolding_of_discover (rs : List Reference) (ps : List Pending) {ns : List Nested}
    (h : (discover loader e limit room position (rs.map (Pending.mk level parent) ++ ps)).result =
      .ok ns) :
    ∃ u ms, Unfolds loader e rs u ∧ u.size ≤ room ∧
      (discover loader e limit (room-u.size) (position+u.size) ps).result = .ok ms ∧
      ns = u.nested level parent position ++ ms := by
  -- what is below the first reference may leave any part of the room for what stands beside it
  induction room using Nat.strongRecOn generalizing rs ps position level parent ns with
  | ind room ih =>
    cases rs with
    | nil => exact ⟨.none, ns, .none, Nat.zero_le _, h, rfl⟩
    | cons r rs =>
      rw [List.map_cons, List.cons_append] at h
      cases hf : r.fragment loader e with
      | error x => rw [discover_unread _ hf] at h; cases h
      | ok f =>
        cases room with
        | zero => rw [discover_full _ hf] at h; cases h
        | succ room =>
          rw [discover_found _ hf] at h
          obtain ⟨found, hfound, rfl⟩ := exists_of_map_eq_ok h
          obtain ⟨below, ms, hb, hbl, hms, rfl⟩ := ih room (by omega) _ _ hfound
          obtain ⟨beside, ms', hs, hsl, hms', rfl⟩ := ih (room-below.size) (by omega) _ _ hms
          have hpos : position+1+below.size+beside.size = position+(1+below.size+beside.size) := by
            omega
          have hleft : room-below.size-beside.size = room+1-(1+below.size+beside.size) := by omega
          rw [hpos, hleft] at hms'
          refine ⟨.node r f below beside, ms', .node hf hb hs, ?_, hms', ?_⟩
          · rw [Unfolding.size]; omega
          · simp [Unfolding.nested]

/-- The fragments below a root are those of an unfolding within the limit. -/
theorem exists_nested_of_resolve {root : Fragment} {ns : List Nested}
    (h : (resolve loader e limit root).result = .ok ns) :
    ∃ u, Unfolds loader e root.block.references u ∧ u.size+1 ≤ limit ∧ ns = u.nested 1 0 1 := by
  cases limit with
  | zero => cases h
  | succ room =>
    have hd : (discover loader e (room+1) room 1
        (root.block.references.map (Pending.mk 1 0) ++ [])).result = .ok ns := by
      rw [List.append_nil]; exact h
    obtain ⟨u, ms, hu, hroom, hms, rfl⟩ := exists_unfolding_of_discover _ _ hd
    rw [discover_nil] at hms
    cases hms
    exact ⟨u, hu, Nat.succ_le_succ hroom, List.append_nil _⟩

end Discovery
end SqlComposer
