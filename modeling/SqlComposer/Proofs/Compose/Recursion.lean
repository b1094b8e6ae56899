import SqlComposer.Compose.Compile
import SqlComposer.Proofs.Compose.Texts

/-! Compiling as recursion on the unfolding of the root's references. Main statement: a script
compiles to a text exactly if its unfolding is finite and within the limit, all texts in it can be
rendered, and that text is what they make of the root. -/
namespace SqlComposer

/-- The bindings of the root. -/
def composedContext (o : Options) (own : Bindings) (texts : List (String × String)) : Bindings :=
  (((Bindings.ofList texts.reverse).overlay own).overlay o.overrides).overlay
    (o.migrations.appliedFlags o.environment)

theorem get?_composedContext (o : Options) (own : Bindings) (texts : List (String × String))
    (name : String) : (composedContext o own texts).get? name = rootMeaning o own texts name := by
  simp only [composedContext, Bindings.get?_overlay, get?_ofList, List.reverse_reverse, rootMeaning]

theorem eq_ok_of_mapError {ε δ α : Type} {x : Except ε α} {f : ε → δ} {a : α}
    (h : x.mapError f = .ok a) : x = .ok a := by
  cases x with
  | error e => cases h
  | ok b => cases h; rfl

section
variable {engine : Template.Engine} {loader : Loader} {limit : Nat} {o : Options} {script : String}
  {d : Directives}

theorem compile_stages (loader : Loader) (limit : Nat) (o : Options) (script : String) :
    compile engine loader limit o script = (do
      let root ← Fragment.ofText o.environment none script
      let nested ← (resolve loader o.environment limit root).result
      let published ← (merge engine 1 nested).result
      (Template.render engine (rootContext o root published) script).mapError (.template none)) := by
  simp only [compile, compileTraced, atStage, Traced.result_bind, Traced.result_onError, result_read,
    Traced.tell, renderScript, Traced.lift, Traced.result_pure]
  cases Fragment.ofText o.environment none script with
  | error x => rfl
  | ok root =>
    cases h : (resolve loader o.environment limit root).result with
    | error x => simp [bind, Except.bind, h]
    | ok nested =>
      cases h' : (merge engine 1 nested).result with
      | error x => simp [bind, Except.bind, h, h']
      | ok published =>
        simp only [bind, Except.bind, h, h']
        cases Template.render engine (rootContext o root published) script <;> rfl

/-- Where all is composed below the root, compiling is rendering the root. -/
theorem compile_of_stages {root : Fragment} {nested : List Nested} {published : List Published}
    (hroot : Fragment.ofText o.environment none script = .ok root)
    (hnested : (resolve loader o.environment limit root).result = .ok nested)
    (hpublished : (merge engine 1 nested).result = .ok published) :
    compile engine loader limit o script =
      (Template.render engine (rootContext o root published) script).mapError (.template none) := by
  rw [compile_stages, hroot]
  change ((resolve loader o.environment limit root).result >>= _) = _
  rw [hnested]
  change ((merge engine 1 nested).result >>= _) = _
  rw [hpublished]
  rfl

theorem compile_unparsed {x : ParseError} (h : Directives.parse script = .error x) :
    compile engine loader limit o script = .error (.parse none x) := by
  rw [compile_stages, Fragment.ofText, h]; rfl

theorem compile_unresolved {x : ComposeError} (h : Directives.parse script = .ok d)
    (hr : (resolve loader o.environment limit ⟨script, d.block o.environment⟩).result = .error x) :
    compile engine loader limit o script = .error x := by
  rw [compile_stages, Fragment.ofText, h]
  change ((resolve loader o.environment limit _).result >>= _) = _
  rw [hr]; rfl

theorem exists_unfolding_of_resolve {e : Environment} {root : Fragment} {ns : List Nested}
    (h : (resolve loader e limit root).result = .ok ns) :
    ∃ u, Unfolds loader e root.block.references u ∧ u.size+1 ≤ limit := by
  obtain ⟨u, hu, hlimit, -⟩ := exists_nested_of_resolve h
  exact ⟨u, hu, hlimit⟩

/-- Past the first two stages the unfolding of the root's references decides. -/
theorem compile_unfolded {u : Unfolding} (h : Directives.parse script = .ok d)
    (hu : Unfolds loader o.environment (d.block o.environment).references u)
    (hlimit : u.size+1 ≤ limit) :
    compile engine loader limit o script =
      match u.texts engine with
      | .error (r, x) => .error (.template (some r) x)
      | .ok ts =>
        (Template.render engine (composedContext o (d.block o.environment).keywords ts) script).mapError
          (.template none) := by
  obtain ⟨room, rfl⟩ : ∃ n, limit = n+1 := ⟨limit-1, by omega⟩
  have hresolve : (resolve loader o.environment (room+1) ⟨script, d.block o.environment⟩).result =
      .ok (u.nested 1 0 1) := by
    have hroom : u.size ≤ room := by omega
    have hd : (discover loader o.environment (room+1) room 1
        ((d.block o.environment).references.map (Pending.mk 1 0) ++ [])).result = _ :=
      discover_unfolding hu hroom []
    rw [List.append_nil, discover_nil] at hd
    simpa [Except.map, resolve, Fragment.pending] using hd
  rw [compile_stages, Fragment.ofText, h]
  change ((resolve loader o.environment _ _).result >>= _) = _
  rw [hresolve]
  change ((merge engine 1 _).result >>= _) = _
  have hnil : (merge engine (1+u.size) []).result = .ok [] := rfl
  cases ht : u.texts engine with
  | error rx =>
    obtain ⟨r, x⟩ := rx
    have hm : (merge engine 1 (u.nested 1 0 1 ++ [])).result = _ :=
      merge_unfolding_error ht Nat.zero_lt_one hnil (by simp)
    rw [List.append_nil] at hm
    rw [hm]; rfl
  | ok ts =>
    obtain ⟨ps, hps, hsent⟩ :
        ∃ ps, (merge engine 1 (u.nested 1 0 1 ++ [])).result = .ok ([] ++ ps) ∧
          Publishes 0 1 u.size ts ps := merge_unfolding ht Nat.zero_lt_one hnil (by simp)
    rw [List.append_nil, List.nil_append] at hps
    rw [hps]
    change (Template.render engine (rootContext o _ ps) script).mapError _ = _
    rw [rootContext, publishedTo_eq, hsent.toParent]
    rfl

end

/-- A script compiles to a text exactly if that is what the recursion over its finite unfolding
gives, and the unfolding with the root is within the limit. -/
theorem compile_eq_ok_iff (engine : Template.Engine) (loader : Loader) (limit : Nat) (o : Options)
    (script out : String) :
    compile engine loader limit o script = .ok out ↔
      ∃ (d : Directives) (u : Unfolding) (ts : List (String × String)),
        Directives.parse script = .ok d ∧
        Unfolds loader o.environment (d.block o.environment).references u ∧ u.size+1 ≤ limit ∧
        u.Texts engine ts ∧
        Renders engine (rootMeaning o (d.block o.environment).keywords ts) script (.ok out) := by
  constructor
  · intro h
    cases hd : Directives.parse script with
    | error x => rw [compile_unparsed hd] at h; cases h
    | ok d =>
      cases hr : (resolve loader o.environment limit ⟨script, d.block o.environment⟩).result with
      | error x => rw [compile_unresolved hd hr] at h; cases h
      | ok ns =>
        obtain ⟨u, hu, hlimit⟩ := exists_unfolding_of_resolve hr
        rw [compile_unfolded hd hu hlimit] at h
        cases ht : u.texts engine with
        | error rx => rw [ht] at h; cases h
        | ok ts =>
          rw [ht] at h
          refine ⟨d, u, ts, rfl, hu, hlimit, (u.texts_eq_ok_iff ts).1 ht, ?_⟩
          rw [renders_iff (get?_composedContext o (d.block o.environment).keywords ts)]
          exact eq_ok_of_mapError h
  · rintro ⟨d, u, ts, hd, hu, hlimit, ht, hr⟩
    rw [renders_iff (get?_composedContext o (d.block o.environment).keywords ts)] at hr
    rw [compile_unfolded hd hu hlimit, (u.texts_eq_ok_iff ts).2 ht]
    change (Template.render engine _ script).mapError _ = _
    rw [hr]; rfl

end SqlComposer
