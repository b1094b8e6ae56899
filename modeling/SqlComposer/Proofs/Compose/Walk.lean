import SqlComposer.Proofs.Compose.Unfolding

/-! The walk through an unfolding that may have no end: its nodes are numbered depth first and in
declared order, and the first of them at which something is wrong decides. -/
namespace SqlComposer

/-- What an unfolding depends on. -/
structure Composition where
  loader : Loader
  environment : Environment
  script : String

namespace Composition
variable (c : Composition)

/-- The fragment at a node; the root is the node that no reference leads to. -/
def fragment : Origin → Except ComposeError Fragment
  | none => Fragment.ofText c.environment none c.script
  | some r => r.fragment c.loader c.environment

/-- The nodes directly below a node, in declared order. -/
def children (n : Origin) : List Origin :=
  match c.fragment n with
  | .error _ => []
  | .ok f => f.block.references.map some

/-- Some nodes and those below them, depth first, cut off below a number of levels. -/
def nodesTo : Nat → List Origin → List Origin
  | 0, _ => []
  | levels+1, ns => ns.flatMap fun n => n :: nodesTo levels (c.children n)

/-- The node with a number. The root has number 1, and no node stands deeper than its number. -/
def node? (number : Nat) : Option Origin := (c.nodesTo number [none])[number-1]?

/-- What is wrong with a node: it cannot be loaded or read, or its number is above the limit. -/
def fault? (limit number : Nat) (n : Origin) : Option ComposeError :=
  match c.fragment n with
  | .error x => some x
  | .ok _ => if limit < number then some (.tooManyFragments limit) else none

/-- The first node with a fault has this one. -/
def FirstFault (limit : Nat) (x : ComposeError) : Prop :=
  ∃ number n, c.node? number = some n ∧ c.fault? limit number n = some x ∧
    ∀ m, m < number → ∀ n', c.node? m = some n' → c.fault? limit m n' = none

theorem nodesTo_cons (levels : Nat) (n : Origin) (ns : List Origin) :
    c.nodesTo (levels+1) (n :: ns) =
      n :: (c.nodesTo levels (c.children n) ++ c.nodesTo (levels+1) ns) := rfl

theorem nodesTo_append (levels : Nat) (ns ms : List Origin) :
    c.nodesTo levels (ns ++ ms) = c.nodesTo levels ns ++ c.nodesTo levels ms := by
  cases levels with
  | zero => rfl
  | succ levels => exact List.flatMap_append

/-- Lists that begin alike go on alike when alike lists are put behind them. -/
theorem getElem?_append_congr {α : Type} {xs ys xs' ys' : List α} {i : Nat}
    (hx : ∀ j ≤ i, xs[j]? = xs'[j]?) (hy : ∀ j ≤ i, ys[j]? = ys'[j]?) :
    (xs ++ ys)[i]? = (xs' ++ ys')[i]? := by
  have hlen : ∀ j ≤ i, xs.length ≤ j ↔ xs'.length ≤ j := fun j hj => by
    rw [← List.getElem?_eq_none_iff, ← List.getElem?_eq_none_iff, hx j hj]
  -- up to the place in question the fronts have the same length, or reach beyond it
  by_cases hi : xs.length ≤ i
  · have hi' := (hlen i (Nat.le_refl i)).1 hi
    have h₁ := (hlen _ hi).1 (Nat.le_refl _)
    have h₂ := (hlen _ hi').2 (Nat.le_refl _)
    have hsame : xs'.length = xs.length := by omega
    rw [List.getElem?_append_right hi, List.getElem?_append_right hi', hsame]
    exact hy _ (Nat.sub_le _ _)
  · have hi' : ¬ xs'.length ≤ i := fun h => hi ((hlen i (Nat.le_refl i)).2 h)
    rw [List.getElem?_append_left (by omega), List.getElem?_append_left (by omega)]
    exact hx i (Nat.le_refl i)

/-- A walk that is cut off deeper begins in the same way. -/
theorem getElem?_nodesTo_succ (levels : Nat) (ns : List Origin) {i : Nat} (h : i < levels) :
    (c.nodesTo (levels+1) ns)[i]? = (c.nodesTo levels ns)[i]? := by
  induction levels generalizing ns i with
  | zero => cases h
  | succ levels ih =>
    induction ns generalizing i with
    | nil => rfl
    | cons n ns ihn =>
      rw [nodesTo_cons, nodesTo_cons]
      cases i with
      | zero => rfl
      | succ i =>
        exact getElem?_append_congr (fun j hj => ih _ (by omega)) (fun j hj => ihn (by omega))

/-- The node that a walk through some nodes comes to behind a number of others. -/
def nodeBehind (i : Nat) (ns : List Origin) : Option Origin := (c.nodesTo (i+1) ns)[i]?

theorem nodeBehind_nil (i : Nat) : c.nodeBehind i [] = none := rfl

theorem nodeBehind_zero (n : Origin) (ns : List Origin) : c.nodeBehind 0 (n :: ns) = some n := rfl

/-- Behind its first node the walk goes on with what is below that node. -/
theorem nodeBehind_succ (i : Nat) (n : Origin) (ns : List Origin) :
    c.nodeBehind (i+1) (n :: ns) = c.nodeBehind i (c.children n ++ ns) := by
  rw [nodeBehind, nodeBehind, nodesTo_cons, nodesTo_append]
  exact getElem?_append_congr (fun _ _ => rfl)
    fun j hj => c.getElem?_nodesTo_succ (i+1) ns (by omega)

/-- The first fault of a walk whose nodes are numbered from a number on. -/
def FirstFaultFrom (limit number : Nat) (ns : List Origin) (x : ComposeError) : Prop :=
  ∃ i n, c.nodeBehind i ns = some n ∧ c.fault? limit (number+i) n = some x ∧
    ∀ j, j < i → ∀ n', c.nodeBehind j ns = some n' → c.fault? limit (number+j) n' = none

theorem firstFault_iff (limit : Nat) (x : ComposeError) :
    c.FirstFault limit x ↔ c.FirstFaultFrom limit 1 [none] x := by
  constructor
  · rintro ⟨number, n, hn, hx, hmin⟩
    cases number with
    | zero => cases hn
    | succ i =>
      refine ⟨i, n, hn, by rwa [Nat.add_comm], fun j hj n' hn' => ?_⟩
      rw [Nat.add_comm]
      exact hmin (j+1) (by omega) n' hn'
  · rintro ⟨i, n, hn, hx, hmin⟩
    refine ⟨i+1, n, hn, by rwa [Nat.add_comm], fun m hm n' hn' => ?_⟩
    cases m with
    | zero => cases hn'
    | succ j =>
      rw [Nat.add_comm]
      exact hmin j (by omega) n' hn'

theorem not_firstFaultFrom_nil (limit number : Nat) (x : ComposeError) :
    ¬ c.FirstFaultFrom limit number [] x := by
  rintro ⟨i, n, hn, -⟩
  rw [nodeBehind_nil] at hn
  cases hn

/-- Either the first node has a fault, or the first fault comes behind it. -/
theorem firstFaultFrom_cons_iff (limit number : Nat) (n : Origin) (ns : List Origin)
    (x : ComposeError) :
    c.FirstFaultFrom limit number (n :: ns) x ↔
      c.fault? limit number n = some x ∨
        c.fault? limit number n = none ∧
          c.FirstFaultFrom limit (number+1) (c.children n ++ ns) x := by
  constructor
  · rintro ⟨i, m, hm, hx, hmin⟩
    cases i with
    | zero =>
      rw [nodeBehind_zero] at hm
      cases hm
      exact .inl hx
    | succ i =>
      rw [nodeBehind_succ] at hm
      refine .inr ⟨hmin 0 (by omega) n (c.nodeBehind_zero n ns), i, m, hm, ?_, ?_⟩
      · rwa [Nat.add_right_comm]
      · intro j hj n' hn'
        rw [Nat.add_right_comm]
        exact hmin (j+1) (by omega) n' (by rwa [nodeBehind_succ])
  · rintro (hx | ⟨hnone, i, m, hm, hx, hmin⟩)
    · exact ⟨0, n, c.nodeBehind_zero n ns, hx, fun j hj => absurd hj (Nat.not_lt_zero j)⟩
    · refine ⟨i+1, m, by rwa [nodeBehind_succ], by rwa [Nat.add_right_comm] at hx, ?_⟩
      intro j hj n' hn'
      cases j with
      | zero =>
        rw [nodeBehind_zero] at hn'
        cases hn'
        exact hnone
      | succ j =>
        rw [nodeBehind_succ] at hn'
        have h := hmin j (by omega) n' hn'
        rwa [Nat.add_right_comm] at h

theorem fault?_of_unread {n : Origin} {x : ComposeError} (limit number : Nat)
    (h : c.fragment n = .error x) : c.fault? limit number n = some x := by
  rw [fault?, h]

theorem fault?_of_read {n : Origin} {f : Fragment} (limit number : Nat)
    (h : c.fragment n = .ok f) :
    c.fault? limit number n = if limit < number then some (.tooManyFragments limit) else none := by
  rw [fault?, h]

theorem children_of_read {n : Origin} {f : Fragment} (h : c.fragment n = .ok f) :
    c.children n = f.block.references.map some := by
  rw [children, h]

/-- What is below a fragment is pending in front of all that was. -/
theorem children_append {n : Origin} {f : Fragment} (h : c.fragment n = .ok f)
    (level position : Nat) (ps : List Pending) :
    c.children n ++ ps.map (fun p => some p.reference) =
      (f.pending level position ++ ps).map fun p => some p.reference := by
  rw [c.children_of_read h, Fragment.pending, List.map_append, List.map_map]; rfl

/-- Following what is pending ends in the first fault of the walk through it. -/
theorem discover_eq_error_iff {limit : Nat} (room position : Nat) (hroom : room+position = limit)
    (ps : List Pending) (x : ComposeError) :
    (discover c.loader c.environment limit room position ps).result = .error x ↔
      c.FirstFaultFrom limit (position+1) (ps.map fun p => some p.reference) x := by
  cases ps with
  | nil =>
    rw [discover_nil]
    exact iff_of_false nofun (c.not_firstFaultFrom_nil _ _ _)
  | cons p ps =>
    rw [List.map_cons, firstFaultFrom_cons_iff]
    cases hf : c.fragment (some p.reference) with
    | error y => simp [discover_unread ps hf, c.fault?_of_unread _ _ hf]
    | ok f =>
      cases room with
      | zero => simp [discover_full ps hf, c.fault?_of_read _ _ hf, ← hroom]
      | succ room =>
        have hin : ¬ limit < position+1 := by omega
        rw [discover_found ps hf, c.fault?_of_read _ _ hf, if_neg hin,
          c.children_append hf p.level position,
          ← discover_eq_error_iff room (position+1) (by omega) (f.pending p.level position ++ ps)]
        cases (discover c.loader c.environment limit room (position+1)
          (f.pending p.level position ++ ps)).result <;> simp [Except.map]

/-- Past the root the references are resolved, or the first fault of the whole walk is found. -/
theorem resolve_eq_error_iff {root : Fragment} (h : c.fragment none = .ok root) (limit : Nat)
    (x : ComposeError) :
    (resolve c.loader c.environment limit root).result = .error x ↔ c.FirstFault limit x := by
  rw [firstFault_iff, firstFaultFrom_cons_iff, c.fault?_of_read _ _ h, c.children_of_read h,
    List.append_nil]
  cases limit with
  | zero => simp [resolve, Traced.fail]
  | succ room =>
    rw [if_neg (by omega), resolve, c.discover_eq_error_iff room 1 rfl,
      Fragment.pending, List.map_map]
    simp [Function.comp_def]

end Composition
end SqlComposer
