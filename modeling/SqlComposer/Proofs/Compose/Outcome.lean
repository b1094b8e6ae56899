import SqlComposer.Proofs.Compose.Recursion
import SqlComposer.Proofs.Compose.Walk

/-! Which failure a compilation ends in. Main statement: the first fault of the walk through the
unfolding decides, and without one the failing render that is discovered last; a higher limit only
ever changes the result of a compilation that met its limit. -/
namespace SqlComposer

/-- The failure of rendering a script over an unfolding. Nothing is rendered while a text below is
missing. -/
def renderFailure (engine : Template.Engine) (origin : Origin)
    (context : List (String × String) → Bindings) (script : String) (below : Unfolding) :
    List (Origin × TemplateFault) :=
  match below.texts engine with
  | .error _ => []
  | .ok ts =>
    match Template.render engine (context ts) script with
    | .error x => [(origin, x)]
    | .ok _ => []

/-- The failing renders of an unfolding in the order of discovery. -/
def Unfolding.failures (engine : Template.Engine) : Unfolding → List (Origin × TemplateFault)
  | .none => []
  | .node r f below beside =>
    renderFailure engine (some r) (nestedContext f.block.keywords) f.script below ++
      (below.failures engine ++ beside.failures engine)

/-- The failing renders of a composition in the order of discovery, in which the root is first. -/
def compositionFailures (engine : Template.Engine) (o : Options) (d : Directives) (script : String)
    (u : Unfolding) : List (Origin × TemplateFault) :=
  renderFailure engine none (composedContext o (d.block o.environment).keywords) script u ++
    u.failures engine

/-- Either there are all texts and no failure, or what is reported is the last failure. -/
theorem Unfolding.texts_cases (engine : Template.Engine) (u : Unfolding) :
    (∃ ts, u.texts engine = .ok ts ∧ u.failures engine = []) ∨
      ∃ r x, u.texts engine = .error (r, x) ∧ (u.failures engine).getLast? = some (some r, x) := by
  induction u with
  | none => exact .inl ⟨[], rfl, rfl⟩
  | node r f below beside ihb ihs =>
    rcases ihs with ⟨us, hs, hsnone⟩ | ⟨r', x, hs, hlast⟩
    · rcases ihb with ⟨ts, hb, hbnone⟩ | ⟨r', x, hb, hlast⟩
      · rw [texts_of_ok hs hb, failures, renderFailure, hb, hbnone, hsnone]
        dsimp only
        cases Template.render engine (nestedContext f.block.keywords ts) f.script with
        | error x => exact .inr ⟨r, x, rfl, rfl⟩
        | ok text => exact .inl ⟨_, rfl, rfl⟩
      · refine .inr ⟨r', x, texts_of_below_error hs hb, ?_⟩
        rw [failures, hsnone, List.append_nil, List.getLast?_append, hlast]
        rfl
    · refine .inr ⟨r', x, texts_of_beside_error hs, ?_⟩
      rw [failures, List.getLast?_append, List.getLast?_append, hlast]
      rfl

section
variable {engine : Template.Engine} {loader : Loader} {limit : Nat} {o : Options} {script : String}
  {d : Directives}

theorem fragment_root_of_parsed (h : Directives.parse script = .ok d) :
    (Composition.mk loader o.environment script).fragment none =
      .ok ⟨script, d.block o.environment⟩ := by
  rw [Composition.fragment, Fragment.ofText, h]

theorem firstFault_of_unparsed {x : ParseError} (h : Directives.parse script = .error x)
    (y : ComposeError) :
    (Composition.mk loader o.environment script).FirstFault limit y ↔ y = .parse none x := by
  have hroot : (Composition.mk loader o.environment script).fragment none =
      .error (.parse none x) := by
    rw [Composition.fragment, Fragment.ofText, h]
  rw [Composition.firstFault_iff, Composition.firstFaultFrom_cons_iff,
    Composition.fault?_of_unread _ _ _ hroot]
  simp [eq_comm]

theorem compile_of_firstFault {x : ComposeError}
    (h : (Composition.mk loader o.environment script).FirstFault limit x) :
    compile engine loader limit o script = .error x := by
  cases hd : Directives.parse script with
  | error y => rw [(firstFault_of_unparsed hd x).1 h]; exact compile_unparsed hd
  | ok d =>
    exact compile_unresolved hd
      ((Composition.resolve_eq_error_iff _ (fragment_root_of_parsed hd) limit x).2 h)

/-- Either the first fault of the walk is reported, or the walk goes through a finite unfolding. -/
theorem compile_cases (engine : Template.Engine) (loader : Loader) (limit : Nat) (o : Options)
    (script : String) :
    (∃ x, (Composition.mk loader o.environment script).FirstFault limit x ∧
      compile engine loader limit o script = .error x) ∨
    ∃ d u, Directives.parse script = .ok d ∧
      Unfolds loader o.environment (d.block o.environment).references u ∧ u.size+1 ≤ limit := by
  cases hd : Directives.parse script with
  | error y =>
    exact .inl ⟨.parse none y, (firstFault_of_unparsed hd _).2 rfl, compile_unparsed hd⟩
  | ok d =>
    cases hr : (resolve loader o.environment limit ⟨script, d.block o.environment⟩).result with
    | error x =>
      have hx := (Composition.resolve_eq_error_iff _ (fragment_root_of_parsed hd) limit x).1 hr
      exact .inl ⟨x, hx, compile_of_firstFault hx⟩
    | ok ns =>
      obtain ⟨u, hu, hsize⟩ := exists_unfolding_of_resolve hr
      exact .inr ⟨d, u, rfl, hu, hsize⟩

/-- Past a walk without a fault the last failing render decides. -/
theorem compile_rendered {u : Unfolding} (h : Directives.parse script = .ok d)
    (hu : Unfolds loader o.environment (d.block o.environment).references u)
    (hlimit : u.size+1 ≤ limit) :
    (∃ out, compile engine loader limit o script = .ok out ∧
      compositionFailures engine o d script u = []) ∨
      ∃ origin x, compile engine loader limit o script = .error (.template origin x) ∧
        (compositionFailures engine o d script u).getLast? = some (origin, x) := by
  rw [compile_unfolded h hu hlimit, compositionFailures, renderFailure]
  rcases u.texts_cases engine with ⟨ts, ht, hnone⟩ | ⟨r, x, ht, hlast⟩
  · rw [ht, hnone]
    dsimp only
    cases Template.render engine (composedContext o (d.block o.environment).keywords ts) script with
    | error x => exact .inr ⟨none, x, rfl, rfl⟩
    | ok out => exact .inl ⟨out, rfl, rfl⟩
  · rw [ht]
    exact .inr ⟨some r, x, rfl, hlast⟩

theorem fault_cases {c : Composition} {number : Nat} {n : Origin} {x : ComposeError}
    (h : c.fault? limit number n = some x) :
    (∃ r y, x = .load r y) ∨ (∃ origin y, x = .parse origin y) ∨ x = .tooManyFragments limit := by
  have hparse : ∀ origin text y, Fragment.ofText c.environment origin text = .error y →
      ∃ origin z, y = .parse origin z := by
    intro origin text y hy
    rw [Fragment.ofText] at hy
    split at hy
    · rename_i z _
      cases hy
      exact ⟨origin, z, rfl⟩
    · cases hy
  cases hf : c.fragment n with
  | ok f =>
    rw [c.fault?_of_read _ _ hf] at h
    split at h
    · cases h; exact .inr (.inr rfl)
    · cases h
  | error y =>
    rw [c.fault?_of_unread _ _ hf] at h
    cases h
    cases n with
    | none => exact .inr (.inl (hparse _ _ _ hf))
    | some r =>
      rw [Composition.fragment, Reference.fragment] at hf
      split at hf
      · rename_i y _
        cases hf
        exact .inl ⟨r, y, rfl⟩
      · exact .inr (.inl (hparse _ _ _ hf))

theorem firstFault_cases {c : Composition} {x : ComposeError} (h : c.FirstFault limit x) :
    (∃ r y, x = .load r y) ∨ (∃ origin y, x = .parse origin y) ∨ x = .tooManyFragments limit := by
  obtain ⟨number, n, -, hfault, -⟩ := h
  exact fault_cases hfault

/-- A fault other than passing the limit stays the first one under a higher limit. -/
theorem firstFault_of_le {c : Composition} {N M : Nat} {x : ComposeError} (hNM : N ≤ M)
    (hx : ∀ l, x ≠ .tooManyFragments l) (h : c.FirstFault N x) : c.FirstFault M x := by
  obtain ⟨number, n, hn, hfault, hmin⟩ := h
  refine ⟨number, n, hn, ?_, fun m hm n' hn' => ?_⟩
  · cases hf : c.fragment n with
    | error y => rwa [c.fault?_of_unread _ _ hf] at hfault ⊢
    | ok f =>
      rw [c.fault?_of_read _ _ hf] at hfault
      split at hfault
      · cases hfault; exact absurd rfl (hx N)
      · cases hfault
  · have h := hmin m hm n' hn'
    cases hf : c.fragment n' with
    | error y => rw [c.fault?_of_unread _ _ hf] at h; cases h
    | ok f =>
      rw [c.fault?_of_read _ _ hf] at h ⊢
      split at h
      · cases h
      · rw [if_neg (by omega)]

/-- A compilation that does not pass its limit is the same under a higher one. -/
theorem compile_of_le {N M : Nat} (hNM : N ≤ M)
    (h : ∀ l, compile engine loader N o script ≠ .error (.tooManyFragments l)) :
    compile engine loader M o script = compile engine loader N o script := by
  obtain ⟨x, hx, hN⟩ | ⟨d, u, hd, hu, hsize⟩ := compile_cases engine loader N o script
  · rw [hN]
    exact compile_of_firstFault (firstFault_of_le hNM (fun l hl => h l (hl ▸ hN)) hx)
  · rw [compile_unfolded hd hu hsize, compile_unfolded hd hu (Nat.le_trans hsize hNM)]

theorem limit_of_compile {l : Nat}
    (h : compile engine loader limit o script = .error (.tooManyFragments l)) : l = limit := by
  obtain ⟨x, hx, hx'⟩ | ⟨d, u, hd, hu, hsize⟩ := compile_cases engine loader limit o script
  · rw [h] at hx'
    cases hx'
    obtain ⟨r, y, hy⟩ | ⟨origin, y, hy⟩ | hy := firstFault_cases hx
    · cases hy
    · cases hy
    · cases hy; rfl
  · obtain ⟨out, hout, -⟩ | ⟨origin, x, hx, -⟩ := compile_rendered hd hu hsize
    · rw [h] at hout; cases hout
    · rw [h] at hx; cases hx

end

/-- The outcome of a compilation. A root that cannot be read is named as such. The first fault of
the walk is what is reported, unless there is none; then the unfolding is finite, and the last
failing render is reported, if there is one. So a limit only matters where it is passed. -/
theorem compile_outcome (engine : Template.Engine) (loader : Loader) (o : Options) (script : String) :
    Origin.display none = "root script" ∧
    (∀ r : Reference, Origin.display (some r) = r.display) ∧
    (∀ limit x, Directives.parse script = .error x →
      compile engine loader limit o script = .error (.parse none x)) ∧
    (∀ limit x, (Composition.mk loader o.environment script).FirstFault limit x ↔
      compile engine loader limit o script = .error x ∧ ∀ origin y, x ≠ .template origin y) ∧
    (∀ limit, (∀ x, ¬ (Composition.mk loader o.environment script).FirstFault limit x) →
      ∃ d u, Directives.parse script = .ok d ∧
        Unfolds loader o.environment (d.block o.environment).references u ∧ u.size+1 ≤ limit ∧
        ((∃ out, compile engine loader limit o script = .ok out ∧
            compositionFailures engine o d script u = []) ∨
          ∃ origin x, compile engine loader limit o script = .error (.template origin x) ∧
            (compositionFailures engine o d script u).getLast? = some (origin, x))) ∧
    (∀ N M, N ≤ M → (∀ l, compile engine loader N o script ≠ .error (.tooManyFragments l)) →
      compile engine loader M o script = compile engine loader N o script) ∧
    (∀ N M, N ≤ M → compile engine loader M o script = .error (.tooManyFragments M) →
      compile engine loader N o script = .error (.tooManyFragments N)) := by
  refine ⟨rfl, fun _ => rfl, fun limit x => compile_unparsed, fun limit x => ⟨fun h => ?_, fun h => ?_⟩,
    fun limit h => ?_, fun N M => compile_of_le, fun N M hNM hM => ?_⟩
  · refine ⟨compile_of_firstFault h, fun origin y hy => ?_⟩
    obtain ⟨r, z, hz⟩ | ⟨origin', z, hz⟩ | hz := firstFault_cases h <;> rw [hy] at hz <;> cases hz
  · obtain ⟨y, hy, hcompile⟩ | ⟨d, u, hd, hu, hsize⟩ := compile_cases engine loader limit o script
    · have hxy := hcompile.symm.trans h.1
      cases hxy
      exact hy
    · obtain ⟨out, hout, -⟩ | ⟨origin, y, hy, -⟩ := compile_rendered hd hu hsize
      · rw [h.1] at hout; cases hout
      · rw [h.1] at hy; cases hy; exact absurd rfl (h.2 origin y)
  · obtain ⟨x, hx, -⟩ | ⟨d, u, hd, hu, hsize⟩ := compile_cases engine loader limit o script
    · exact absurd hx (h x)
    · exact ⟨d, u, hd, hu, hsize, compile_rendered hd hu hsize⟩
  · by_cases h : ∃ l, compile engine loader N o script = .error (.tooManyFragments l)
    · obtain ⟨l, hl⟩ := h
      rwa [limit_of_compile hl] at hl
    · have hsame := compile_of_le hNM fun l hl => h ⟨l, hl⟩
      exact absurd ⟨M, hsame ▸ hM⟩ h

end SqlComposer
