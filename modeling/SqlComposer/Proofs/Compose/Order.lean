import SqlComposer.Proofs.Compose.Loading
import SqlComposer.Proofs.Compose.Texts
import SqlComposer.Proofs.Compose.Walk

/-! The orders in which fragments are loaded and rendered. Main statement: the loader is asked along
the walk through the unfolding, each fragment once and never more often than the limit allows, and
the fragments that were found are rendered from the last to the first. -/
namespace SqlComposer

/-- A reference that was read, with its level. -/
def Event.resolved? : Event → Option (Nat × Reference)
  | .resolved level r => some (level, r)
  | _ => none

/-- The key of a fragment that was rendered, with its level. -/
def Event.merged? : Event → Option (Nat × String)
  | .merged level key => some (level, key)
  | _ => none

/-- What is said about the work on nested fragments, and on nothing else. -/
structure IsWork {γ : Type} (f : Event → Option γ) : Prop where
  remark : ∀ r, f (.remark r) = none
  advanced : ∀ s t n, f (.advanced s t n) = none
  failed : ∀ s e, f (.failed s e) = none

theorem isWork_source? : IsWork Event.source? := ⟨fun _ => rfl, fun _ _ _ => rfl, fun _ _ => rfl⟩

theorem isWork_resolved? : IsWork Event.resolved? :=
  ⟨fun _ => rfl, fun _ _ _ => rfl, fun _ _ => rfl⟩

theorem isWork_merged? : IsWork Event.merged? := ⟨fun _ => rfl, fun _ _ _ => rfl, fun _ _ => rfl⟩

section
variable {α β γ : Type} {f : Event → Option γ}

theorem IsWork.atStage_bind (hf : IsWork f) (s : Stage) (x : Step α) (g : α → Step β) :
    (atStage s x >>= g).events.filterMap f = x.events.filterMap f ++
      match x.result with
      | .error _ => []
      | .ok a => (g a).events.filterMap f := by
  rw [filterMap_bind, atStage, Traced.events_onError, Traced.result_onError, List.filterMap_append]
  cases x.result with
  | error e => simp [hf.failed]
  | ok a => simp

theorem IsWork.advanced_bind (hf : IsWork f) (s t : Stage) (n : Nat) (g : Unit → Step β) :
    (Traced.tell (.advanced s t n) >>= g).events.filterMap f = (g ()).events.filterMap f := by
  rw [filterMap_bind]
  simp [Traced.tell, hf.advanced]

theorem IsWork.read (hf : IsWork f) (e : Environment) (origin : Origin) (text : String) :
    (Fragment.read e origin text).events.filterMap f = [] := by
  have hremarks : ((Script.remarks text).map Event.remark).filterMap f = [] := by
    simp [hf.remark]
  rw [Fragment.read, filterMap_bind, Traced.tellAll, hremarks, List.nil_append]
  dsimp only
  rw [filterMap_bind]
  simp only [Traced.lift, List.filterMap_nil, List.nil_append]
  cases Directives.parse text <;> rfl

/-- Of a compilation this is the work: what the references lead to, and the merge. -/
theorem IsWork.compile (hf : IsWork f) (engine : Template.Engine) (loader : Loader) (limit : Nat)
    (o : Options) (script : String) : (compileTraced engine loader limit o script).events.filterMap f =
      match Fragment.ofText o.environment none script with
      | .error _ => []
      | .ok root => (resolve loader o.environment limit root).events.filterMap f ++
        match (resolve loader o.environment limit root).result with
        | .error _ => []
        | .ok ns => (merge engine 1 ns).events.filterMap f := by
  have hrender : ∀ origin context text (count : Nat),
      (atStage .merged (renderScript engine origin context text) >>= fun out =>
        Traced.tell (.advanced .merged .finished count) >>= fun _ => pure out).events.filterMap f =
          [] := by
    intro origin context text count
    rw [hf.atStage_bind]
    simp only [renderScript, Traced.lift, List.filterMap_nil, List.nil_append]
    cases Template.render engine context text with
    | error x => rfl
    | ok out => exact hf.advanced_bind .merged .finished count _
  rw [compileTraced, hf.atStage_bind, hf.read, List.nil_append, result_read]
  cases Fragment.ofText o.environment none script with
  | error e => rfl
  | ok root =>
    dsimp only
    rw [hf.advanced_bind, hf.atStage_bind]
    cases (resolve loader o.environment limit root).result with
    | error e => rfl
    | ok ns =>
      dsimp only
      rw [hf.advanced_bind, hf.atStage_bind]
      cases (merge engine 1 ns).result with
      | error e => exact congrArg _ (List.append_nil _)
      | ok ps =>
        dsimp only
        rw [hf.advanced_bind, hrender, List.append_nil]

end

section Discovery
variable {γ : Type} {f : Event → Option γ} {loader : Loader} {e : Environment}

theorem IsWork.follow (hf : IsWork f) (loader : Loader) (e : Environment) (p : Pending) :
    (p.follow loader e).events.filterMap f = (f (.loading p.reference.source)).toList ++
      match p.reference.fragment loader e with
      | .error _ => []
      | .ok _ => (f (.resolved p.level p.reference)).toList := by
  have hsingle : ∀ ev, [ev].filterMap f = (f ev).toList := fun ev => by
    cases h : f ev <;> simp [h]
  rw [Pending.follow, filterMap_bind, Traced.tell, hsingle]
  dsimp only
  rw [filterMap_bind, Reference.fragment]
  simp only [Traced.lift, List.filterMap_nil, List.nil_append]
  cases loader.load p.reference.source with
  | error x => rfl
  | ok text =>
    simp only [mapError_ok]
    rw [filterMap_bind, hf.read, List.nil_append, result_read]
    cases Fragment.ofText e (some p.reference) text with
    | error x => rfl
    | ok fragment =>
      dsimp only
      rw [filterMap_bind, Traced.tell, hsingle]
      exact congrArg _ (List.append_nil _)

/-- What a reference leads to, its own references in front of what is pending behind it. -/
theorem filterMap_discover_cons (f : Event → Option γ) (limit room position : Nat) (p : Pending)
    (ps : List Pending) :
    (discover loader e limit room position (p :: ps)).events.filterMap f =
      (p.follow loader e).events.filterMap f ++
        match p.reference.fragment loader e, room with
        | .ok fragment, room+1 => (discover loader e limit room (position+1)
            (fragment.pending p.level position ++ ps)).events.filterMap f
        | _, _ => [] := by
  rw [discover, filterMap_bind, result_follow]
  cases p.reference.fragment loader e with
  | error x => rfl
  | ok fragment =>
    cases room with
    | zero => rfl
    | succ room =>
      simp only [Except.map]
      rw [filterMap_bind]
      cases (discover loader e limit room _ _).result <;> simp

theorem asked_discover_cons (limit room position : Nat) (p : Pending) (ps : List Pending) :
    asked (discover loader e limit room position (p :: ps)) = p.reference.source ::
      match p.reference.fragment loader e, room with
      | .ok fragment, room+1 => asked (discover loader e limit room (position+1)
          (fragment.pending p.level position ++ ps))
      | _, _ => [] := by
  unfold asked
  rw [filterMap_discover_cons, isWork_source?.follow]
  cases p.reference.fragment loader e <;> rfl

theorem length_asked_discover_le (limit room position : Nat) (ps : List Pending) :
    (asked (discover loader e limit room position ps)).length ≤ room+1 := by
  induction room generalizing position ps with
  | zero =>
    cases ps with
    | nil => exact Nat.zero_le _
    | cons p ps =>
      rw [asked_discover_cons]
      cases p.reference.fragment loader e <;> exact Nat.le_refl _
  | succ room ih =>
    cases ps with
    | nil => exact Nat.zero_le _
    | cons p ps =>
      rw [asked_discover_cons, List.length_cons]
      cases p.reference.fragment loader e with
      | error x => exact Nat.le_add_left ..
      | ok fragment => exact Nat.succ_le_succ (ih _ _)

/-- The loader is asked along the walk through what is pending. -/
theorem Composition.getElem?_asked_discover (c : Composition) {limit i : Nat} {s : Source}
    {room position : Nat} {ps : List Pending}
    (h : (asked (discover c.loader c.environment limit room position ps))[i]? = some s) :
    ∃ r, c.nodeBehind i (ps.map fun p => some p.reference) = some (some r) ∧ r.source = s := by
  induction i generalizing room position ps with
  | zero =>
    cases ps with
    | nil => cases room <;> cases h
    | cons p ps =>
      rw [asked_discover_cons] at h
      cases h
      exact ⟨p.reference, rfl, rfl⟩
  | succ i ih =>
    cases ps with
    | nil => cases room <;> cases h
    | cons p ps =>
      rw [asked_discover_cons, List.getElem?_cons_succ] at h
      cases hf : c.fragment (some p.reference) with
      | error x =>
        have hfragment : p.reference.fragment c.loader c.environment = .error x := hf
        rw [hfragment] at h
        cases h
      | ok fragment =>
        have hfragment : p.reference.fragment c.loader c.environment = .ok fragment := hf
        rw [hfragment] at h
        cases room with
        | zero => cases h
        | succ room =>
          rw [List.map_cons, c.nodeBehind_succ, c.children_append hf p.level position]
          exact ih h

/-- Each fragment found is loaded once and read once, in the order of finding. -/
theorem IsWork.discover_ok (hf : IsWork f) {limit room position : Nat} {ps : List Pending}
    {ns : List Nested} (h : (discover loader e limit room position ps).result = .ok ns) :
    (discover loader e limit room position ps).events.filterMap f = ns.flatMap fun n =>
      (f (.loading n.reference.source)).toList ++ (f (.resolved n.level n.reference)).toList := by
  induction room generalizing position ps ns with
  | zero =>
    cases ps with
    | nil => cases h; rfl
    | cons p ps =>
      cases hp : p.reference.fragment loader e with
      | error x => rw [discover_unread ps hp] at h; cases h
      | ok fragment => rw [discover_full ps hp] at h; cases h
  | succ room ih =>
    cases ps with
    | nil => cases h; rfl
    | cons p ps =>
      cases hp : p.reference.fragment loader e with
      | error x => rw [discover_unread ps hp] at h; cases h
      | ok fragment =>
        rw [discover_found ps hp] at h
        obtain ⟨ms, hms, rfl⟩ := exists_of_map_eq_ok h
        rw [filterMap_discover_cons, hf.follow, hp, List.flatMap_cons]
        exact congrArg _ (ih hms)

theorem length_asked_resolve_le (limit : Nat) (root : Fragment) :
    (asked (resolve loader e limit root)).length ≤ limit := by
  cases limit with
  | zero => exact Nat.le_refl 0
  | succ room => exact length_asked_discover_le _ _ _ _

theorem Composition.getElem?_asked_resolve (c : Composition) {root : Fragment}
    (h : c.fragment none = .ok root) {limit i : Nat} {s : Source}
    (hs : (asked (resolve c.loader c.environment limit root))[i]? = some s) :
    ∃ r, c.node? (i+2) = some (some r) ∧ r.source = s := by
  have hnode : c.node? (i+2) = c.nodeBehind i (c.children none ++ []) := c.nodeBehind_succ i none []
  have hpending : c.children none ++ [] = (root.pending 0 0).map fun p => some p.reference :=
    (c.children_append h 0 0 []).trans (by rw [List.append_nil])
  cases limit with
  | zero => cases hs
  | succ room =>
    rw [hnode, hpending]
    exact c.getElem?_asked_discover hs

theorem IsWork.resolve_ok (hf : IsWork f) {limit : Nat} {root : Fragment} {ns : List Nested}
    (h : (resolve loader e limit root).result = .ok ns) :
    (resolve loader e limit root).events.filterMap f = ns.flatMap fun n =>
      (f (.loading n.reference.source)).toList ++ (f (.resolved n.level n.reference)).toList := by
  cases limit with
  | zero => cases h
  | succ room => exact hf.discover_ok h

end Discovery

namespace Unfolding

/-- The references of an unfolding, depth first and in declared order. -/
def references : Unfolding → List Reference
  | .none => []
  | .node r _ below beside => r :: (below.references ++ beside.references)

theorem references_nested (u : Unfolding) (level parent position : Nat) :
    (u.nested level parent position).map (·.reference) = u.references := by
  induction u generalizing level parent position with
  | none => rfl
  | node r f below beside ihb ihs =>
    rw [nested, List.map_cons, List.map_append, ihb, ihs, references]

/-- A fragment stands at the top of an unfolding, or one level below a fragment found before it. -/
theorem parent_nested {u : Unfolding} {level parent position i : Nat} {n : Nested}
    (h : (u.nested level parent position)[i]? = some n) :
    n.parent = parent ∧ n.level = level ∨
      ∃ j m, j < i ∧ (u.nested level parent position)[j]? = some m ∧ n.parent = position+j ∧
        n.level = m.level+1 := by
  induction u generalizing level parent position i with
  | none => cases h
  | node r f below beside ihb ihs =>
    rw [nested] at h
    cases i with
    | zero =>
      cases h
      exact .inl ⟨rfl, rfl⟩
    | succ i =>
      rw [List.getElem?_cons_succ] at h
      by_cases hi : i < below.size
      · rw [List.getElem?_append_left (by rwa [length_nested])] at h
        right
        obtain ⟨hparent, hlevel⟩ | ⟨j, m, hj, hm, hparent, hlevel⟩ := ihb h
        · exact ⟨0, _, Nat.succ_pos i, rfl, hparent, hlevel⟩
        · refine ⟨j+1, m, Nat.succ_lt_succ hj, ?_, by omega, hlevel⟩
          rw [nested, List.getElem?_cons_succ, List.getElem?_append_left (by rw [length_nested]; omega),
            hm]
      · rw [List.getElem?_append_right (by rw [length_nested]; omega), length_nested] at h
        obtain hat | ⟨j, m, hj, hm, hparent, hlevel⟩ := ihs h
        · exact .inl hat
        · refine .inr ⟨j+below.size+1, m, by omega, ?_, by omega, hlevel⟩
          rw [nested, List.getElem?_cons_succ, List.getElem?_append_right (by rw [length_nested]; omega),
            length_nested, Nat.add_sub_cancel, hm]

theorem mem_nested {u : Unfolding} {level parent position : Nat} {n : Nested}
    (h : n ∈ u.nested level parent position) :
    n.parent = parent ∨ position ≤ n.parent ∧ n.parent < position+u.size := by
  obtain ⟨i, hi⟩ := List.mem_iff_getElem?.1 h
  have hlt := (List.getElem?_eq_some_iff.1 hi).1
  rw [length_nested] at hlt
  obtain ⟨hparent, -⟩ | ⟨j, m, hj, -, hparent, -⟩ := parent_nested hi
  · exact .inl hparent
  · exact .inr (by omega)

end Unfolding

/-- The references of the fragments that belong to the one at a position. -/
def referencesOf (position : Nat) (ns : List Nested) : List Reference :=
  (ns.filter (·.parent = position)).map (·.reference)

theorem referencesOf_append (position : Nat) (ns ms : List Nested) :
    referencesOf position (ns ++ ms) = referencesOf position ns ++ referencesOf position ms := by
  rw [referencesOf, List.filter_append, List.map_append]; rfl

theorem referencesOf_eq_nil {position : Nat} {ns : List Nested}
    (h : ∀ n ∈ ns, n.parent ≠ position) : referencesOf position ns = [] := by
  have hf : ns.filter (·.parent = position) = [] := by simpa [List.filter_eq_nil_iff] using h
  rw [referencesOf, hf]; rfl

theorem referencesOf_cons (position : Nat) (n : Nested) (ns : List Nested) :
    referencesOf position (n :: ns) =
      if n.parent = position then n.reference :: referencesOf position ns
      else referencesOf position ns := by
  unfold referencesOf
  by_cases h : n.parent = position <;> simp [h]

/-- The fragments that belong to one are those of its references, in declared order. -/
theorem referencesOf_nested {loader : Loader} {e : Environment} {rs : List Reference}
    {u : Unfolding} (h : Unfolds loader e rs u) {level parent position : Nat}
    (hparent : parent < position) :
    referencesOf parent (u.nested level parent position) = rs ∧
      ∀ i n, (u.nested level parent position)[i]? = some n →
        referencesOf (position+i) (u.nested level parent position) = n.block.references := by
  induction h generalizing level parent position with
  | none => exact ⟨rfl, fun i n h => by cases h⟩
  | @node r rs f below beside _ hb hs ihb ihs =>
    obtain ⟨hbelow, hbelow'⟩ := @ihb (level+1) _ _ (Nat.lt_succ_self position)
    have hlt : parent < position+1+below.size := by omega
    obtain ⟨hbeside, hbeside'⟩ := @ihs level _ _ hlt
    have hin := @Unfolding.mem_nested below (level+1) position (position+1)
    have hout := @Unfolding.mem_nested beside level parent (position+1+below.size)
    rw [Unfolding.nested]
    constructor
    · rw [referencesOf_cons, if_pos rfl, referencesOf_append, hbeside,
        referencesOf_eq_nil fun n hn => by have := hin hn; omega, List.nil_append]
    · intro i n hn
      have hfirst : parent ≠ position+i := by omega
      rw [referencesOf_cons, if_neg hfirst, referencesOf_append]
      cases i with
      | zero =>
        cases hn
        rw [Nat.add_zero, hbelow, referencesOf_eq_nil fun n hn => by have := hout hn; omega,
          List.append_nil]
      | succ i =>
        rw [List.getElem?_cons_succ] at hn
        by_cases hi : i < below.size
        · rw [List.getElem?_append_left (by rwa [Unfolding.length_nested])] at hn
          rw [← Nat.add_assoc, Nat.add_right_comm, hbelow' i n hn,
            referencesOf_eq_nil fun n hn => by have := hout hn; omega, List.append_nil]
        · rw [List.getElem?_append_right (by rw [Unfolding.length_nested]; omega),
            Unfolding.length_nested] at hn
          have hposition : position+(i+1) = position+1+below.size+(i-below.size) := by omega
          rw [hposition, hbeside' _ n hn,
            referencesOf_eq_nil fun n hn => by have := hin hn; omega, List.nil_append]

section Merge
variable {engine : Template.Engine} {position : Nat} {ns : List Nested} {ps : List Published}

/-- The merge tells only of what it merges. -/
theorem filterMap_merge {γ : Type} {f : Event → Option γ} (h : ∀ l k, f (.merged l k) = none)
    (position : Nat) (ns : List Nested) : (merge engine position ns).events.filterMap f = [] := by
  induction ns generalizing position with
  | nil => rfl
  | cons n ns ih =>
    rw [merge, filterMap_bind, ih, List.nil_append]
    cases (merge engine (position+1) ns).result with
    | error x => rfl
    | ok qs =>
      dsimp only
      rw [filterMap_bind]
      simp only [renderScript, Traced.lift, List.filterMap_nil, List.nil_append]
      cases Template.render engine (n.block.keywords.overlay (publishedTo position qs)) n.script with
      | error x => rfl
      | ok text => simp [mapError_ok, Traced.tell, h]

theorem exists_of_merge_cons {n : Nested} (h : (merge engine position (n :: ns)).result = .ok ps) :
    ∃ qs text, (merge engine (position+1) ns).result = .ok qs ∧
      Template.render engine (n.block.keywords.overlay (publishedTo position qs)) n.script = .ok text ∧
      ps = qs ++ [⟨n.parent, n.reference.key, text⟩] ∧
      (merge engine position (n :: ns)).events =
        (merge engine (position+1) ns).events ++ [.merged n.level n.reference.key] := by
  cases hqs : (merge engine (position+1) ns).result with
  | error x => rw [merge_cons_error hqs] at h; cases h
  | ok qs =>
    rw [merge_cons_ok hqs] at h
    cases htext :
      Template.render engine (n.block.keywords.overlay (publishedTo position qs)) n.script with
    | error x => rw [htext] at h; cases h
    | ok text =>
      rw [htext] at h
      cases h
      refine ⟨qs, text, rfl, htext, rfl, ?_⟩
      simp [merge, hqs, renderScript, Traced.lift, Traced.tell, htext, mapError_ok]

/-- Texts come from fragments that are rendered from the last to the first, once each, and each with
the texts alone that were published before its own. -/
structure RenderedBackwards (engine : Template.Engine) (position : Nat) (ns : List Nested)
    (ps : List Published) : Prop where
  count : ps.length = ns.length
  rendered : ∀ k (n : Nested), ns.reverse[k]? = some n → ∃ text,
    ps[k]? = some ⟨n.parent, n.reference.key, text⟩ ∧
      Template.render engine (n.block.keywords.overlay
        (publishedTo (position+(ns.length-1-k)) (ps.take k))) n.script = .ok text

theorem merge_reverse (h : (merge engine position ns).result = .ok ps) :
    (merge engine position ns).events = ns.reverse.map (fun n => .merged n.level n.reference.key) ∧
      RenderedBackwards engine position ns ps := by
  induction ns generalizing position ps with
  | nil => cases h; exact ⟨rfl, rfl, fun k n hn => by cases hn⟩
  | cons m ns ih =>
    obtain ⟨qs, text, hqs, htext, rfl, hevents⟩ := exists_of_merge_cons h
    obtain ⟨htold, hlength, hrendered⟩ := ih hqs
    refine ⟨?_, by simp [hlength], fun k n hn => ?_⟩
    · rw [hevents, htold, List.reverse_cons, List.map_append]; rfl
    · have hk := (List.getElem?_eq_some_iff.1 hn).1
      rw [List.length_reverse, List.length_cons] at hk
      rw [List.reverse_cons] at hn
      obtain hlt | rfl := Nat.lt_succ_iff_lt_or_eq.1 hk
      · rw [List.getElem?_append_left (by rwa [List.length_reverse])] at hn
        obtain ⟨text', hat, htext'⟩ := hrendered k n hn
        refine ⟨text', by rw [List.getElem?_append_left (by omega), hat], ?_⟩
        have hposition : position+((m :: ns).length-1-k) = position+1+(ns.length-1-k) := by
          rw [List.length_cons]; omega
        rw [hposition, List.take_append_of_le_length (by omega), htext']
      · rw [List.getElem?_append_right (by simp), List.length_reverse, Nat.sub_self] at hn
        cases hn
        refine ⟨text, by rw [← hlength, List.getElem?_concat_length], ?_⟩
        rw [List.length_cons, Nat.add_sub_cancel, Nat.sub_self, Nat.add_zero, ← hlength,
          List.take_left, htext]

end Merge

/-- The level and the block of the fragment at a position. The root is at position 0. -/
def placeAt (root : Fragment) (ns : List Nested) : Nat → Option (Nat × Block)
  | 0 => some (0, root.block)
  | i+1 => ns[i]?.map fun n => (n.level, n.block)

/-- Fragments are laid out as the tree of their references: each one stands behind its parent and
one level below it, and those below a fragment are those of its references, in declared order. -/
structure LaidOut (root : Fragment) (ns : List Nested) : Prop where
  parent : ∀ i n, ns[i]? = some n →
    n.parent < i+1 ∧ ∃ level block, placeAt root ns n.parent = some (level, block) ∧
      n.level = level+1
  children : ∀ position level block, placeAt root ns position = some (level, block) →
    referencesOf position ns = block.references

theorem laidOut_nested {loader : Loader} {e : Environment} {root : Fragment} {u : Unfolding}
    (h : Unfolds loader e root.block.references u) : LaidOut root (u.nested 1 0 1) := by
  obtain ⟨htop, hbelow⟩ := @referencesOf_nested _ _ _ _ h 1 0 1 Nat.zero_lt_one
  constructor
  · intro i n hn
    obtain ⟨hparent, hlevel⟩ | ⟨j, m, hj, hm, hparent, hlevel⟩ := Unfolding.parent_nested hn
    · exact ⟨by omega, 0, root.block, by rw [hparent]; rfl, hlevel⟩
    · refine ⟨by omega, m.level, m.block, ?_, hlevel⟩
      rw [hparent, Nat.add_comm, placeAt, hm]
      rfl
  · intro position level block hat
    cases position with
    | zero => cases hat; exact htop
    | succ i =>
      obtain ⟨n, hn, hplace⟩ := Option.map_eq_some_iff.1 hat
      cases hplace
      rw [Nat.add_comm]
      exact hbelow i n hn

/-- The loader is asked while references are resolved, and at no other time. -/
theorem loads_compile (engine : Template.Engine) (loader : Loader) (limit : Nat) (o : Options)
    (script : String) :
    (compileTraced engine loader limit o script).events.filterMap Event.source? =
      match Fragment.ofText o.environment none script with
      | .error _ => []
      | .ok root => asked (resolve loader o.environment limit root) := by
  refine (isWork_source?.compile engine loader limit o script).trans ?_
  cases Fragment.ofText o.environment none script with
  | error x => rfl
  | ok root =>
    dsimp only
    cases (resolve loader o.environment limit root).result with
    | error x => exact List.append_nil _
    | ok ns => exact (congrArg _ (filterMap_merge (fun _ _ => rfl) 1 ns)).trans (List.append_nil _)

/-- Where all references are resolved, the work is that on each of them, and the merging. -/
theorem IsWork.compile_resolved {γ : Type} {f : Event → Option γ} (hf : IsWork f)
    {engine : Template.Engine} {loader : Loader} {limit : Nat} {o : Options} {script : String}
    {root : Fragment} {ns : List Nested}
    (hroot : Fragment.ofText o.environment none script = .ok root)
    (hns : (resolve loader o.environment limit root).result = .ok ns) :
    (compileTraced engine loader limit o script).events.filterMap f =
      (ns.flatMap fun n => (f (.loading n.reference.source)).toList ++
        (f (.resolved n.level n.reference)).toList) ++ (merge engine 1 ns).events.filterMap f := by
  refine (hf.compile engine loader limit o script).trans ?_
  rw [hroot]
  dsimp only
  rw [hns, hf.resolve_ok hns]

/-- The orders of loading and rendering. The loader is asked along the walk through the unfolding,
cyclic or not, and no more often than the limit says. If all references are resolved, that is once
for each node, which gets its depth as its level and stands behind its parent. If all are merged
too, they are rendered in the opposite order, so each one between its references and its parent. -/
theorem compile_order (engine : Template.Engine) (loader : Loader) (limit : Nat) (o : Options)
    (script : String) :
    let c : Composition := ⟨loader, o.environment, script⟩
    let events := (compileTraced engine loader limit o script).events
    let loads := events.filterMap Event.source?
    loads.length ≤ limit ∧
    (∀ i s, loads[i]? = some s → ∃ r, c.node? (i+2) = some (some r) ∧ r.source = s) ∧
    ∀ root ns, c.fragment none = .ok root →
      (resolve loader o.environment limit root).result = .ok ns →
      (∃ u, Unfolds loader o.environment root.block.references u ∧
        ns.map (·.reference) = u.references ∧ loads = u.references.map (·.source)) ∧
      events.filterMap Event.resolved? = ns.map (fun n => (n.level, n.reference)) ∧
      LaidOut root ns ∧
      ∀ ps, (merge engine 1 ns).result = .ok ps →
        events.filterMap Event.merged? = ns.reverse.map (fun n => (n.level, n.reference.key)) ∧
        RenderedBackwards engine 1 ns ps ∧
        ∀ k l m n, ns.reverse[k]? = some m → ns.reverse[l]? = some n →
          m.parent = 1+(ns.length-1-l) → k < l := by
  intro c events loads
  have hloads : loads = match c.fragment none with
      | .error _ => []
      | .ok root => asked (resolve loader o.environment limit root) :=
    loads_compile engine loader limit o script
  refine ⟨?_, fun i s hs => ?_, fun root ns hroot hns => ?_⟩
  · rw [hloads]
    cases c.fragment none with
    | error x => exact Nat.zero_le _
    | ok root => exact length_asked_resolve_le limit root
  · rw [hloads] at hs
    cases hroot : c.fragment none with
    | error x => rw [hroot] at hs; cases hs
    | ok root =>
      rw [hroot] at hs
      exact c.getElem?_asked_resolve hroot hs
  obtain ⟨u, hu, -, hnested⟩ := exists_nested_of_resolve hns
  have hlaid : LaidOut root ns := hnested ▸ laidOut_nested hu
  have hreferences : ns.map (·.reference) = u.references := hnested ▸ u.references_nested 1 0 1
  refine ⟨⟨u, hu, hreferences, ?_⟩, ?_, hlaid, fun ps hps => ?_⟩
  · rw [← hreferences, List.map_map, List.map_eq_flatMap]
    refine (isWork_source?.compile_resolved hroot hns).trans ?_
    rw [filterMap_merge (fun _ _ => rfl), List.append_nil]
    rfl
  · rw [List.map_eq_flatMap]
    refine (isWork_resolved?.compile_resolved hroot hns).trans ?_
    rw [filterMap_merge (fun _ _ => rfl), List.append_nil]
    rfl
  obtain ⟨htold, hrendered⟩ := merge_reverse hps
  refine ⟨?_, hrendered, fun k l m n hk hl hparent => ?_⟩
  · refine (isWork_merged?.compile_resolved hroot hns).trans ?_
    rw [htold, List.filterMap_map]
    simp [Event.merged?, Function.comp_def]
  · have hlt := (List.getElem?_eq_some_iff.1 hk).1
    rw [List.length_reverse] at hlt
    rw [List.getElem?_reverse hlt] at hk
    obtain ⟨hbehind, -⟩ := hlaid.parent _ _ hk
    omega

end SqlComposer
