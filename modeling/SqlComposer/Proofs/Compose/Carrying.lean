import SqlComposer.Proofs.Compose.Passage
import SqlComposer.Proofs.Template.Naming
import SqlComposer.Proofs.Template.Substitution

/-! What is bound to a name comes through a compilation as it is. Each script is rendered once, and
what was put into it is text from then on, in all the scripts above. -/
namespace SqlComposer
open Template (Engine Shows Slot Plain written filled settings small small_fillsIn small_keepsText)

variable {engine : Engine}

/-- References have one unfolding. -/
theorem Unfolds.unique {loader : Loader} {e : Environment} {rs : List Reference} {u v : Unfolding}
    (h : Unfolds loader e rs u) (h' : Unfolds loader e rs v) : u = v := by
  induction h generalizing v with
  | none =>
    cases h'
    rfl
  | node hf _ _ ihb ihs =>
    cases h' with
    | node hf' hb hs =>
      cases hf.symm.trans hf'
      rw [ihb hb, ihs hs]

/-- A value stands in the text that counts for a key: a fragment below is rendered with it and shows
it, and so does each fragment above with the text that it is in, up to the reference of the key. -/
inductive Unfolding.Carries (engine : Engine) (value : String) : Unfolding → String → Prop
  | bound {r : Reference} {f : Fragment} {below beside : Unfolding} {ts : List (String × String)}
      {name : String} : below.Texts engine ts → nestedMeaning f.block.keywords ts name = some value →
      Shows name f.script → Carries engine value (.node r f below beside) r.key
  | passed {r : Reference} {f : Fragment} {below beside : Unfolding} {name : String} :
      Carries engine value below name → Shows name f.script →
      Carries engine value (.node r f below beside) r.key
  | beside {r : Reference} {f : Fragment} {below beside : Unfolding} {key : String} :
      key ≠ r.key → Carries engine value beside key →
      Carries engine value (.node r f below beside) key

theorem Renders.stands_in (hengine : engine.FillsIn settings) {meaning : String → Option String}
    {name script value out : String} (h : Renders engine meaning script (.ok out))
    (hs : Shows name script)
    (hv : meaning name = some value) : value.toList <:+: out.toList := by
  obtain ⟨context, hcontext, hr⟩ := h
  exact hs.stands_in hengine hr ((hcontext name).trans hv)

theorem nestedMeaning_of_lookup {own : Bindings} {ts : List (String × String)} {name text : String}
    (h : ts.lookup name = some text) : nestedMeaning own ts name = some text := by
  rw [nestedMeaning, h]
  rfl

/-- A name that nothing else binds stands for the text of a reference, also in the root. -/
theorem rootMeaning_of_free {o : Options} {own : Bindings} {name : String}
    (h : rootMeaning o own [] name = none) (ts : List (String × String)) :
    rootMeaning o own ts name = ts.lookup name := by
  simp only [rootMeaning, List.lookup_nil, Option.or_eq_none_iff] at h ⊢
  rw [h.1, h.2.1, h.2.2.1]
  rfl

theorem Unfolding.Texts.unique {u : Unfolding} {ts us : List (String × String)} (h : u.Texts engine ts)
    (h' : u.Texts engine us) : ts = us :=
  Except.ok.inj (((u.texts_eq_ok_iff ts).2 h).symm.trans ((u.texts_eq_ok_iff us).2 h'))

theorem Unfolding.Carries.stands_in (hengine : engine.FillsIn settings) {value key : String}
    {u : Unfolding} {ts : List (String × String)} (h : u.Carries engine value key)
    (ht : u.Texts engine ts) :
    ∃ text, ts.lookup key = some text ∧ value.toList <:+: text.toList := by
  induction h generalizing ts with
  | bound hbelow hvalue hshows =>
    cases ht with
    | node hb hr hs =>
      -- texts are determined, so the name stands for the value in this rendering too
      cases hb.unique hbelow
      exact ⟨_, List.lookup_cons_self, hr.stands_in hengine hshows hvalue⟩
  | passed _ hshows ih =>
    cases ht with
    | node hb hr hs =>
      obtain ⟨text, htext, hin⟩ := ih hb
      have htext := hr.stands_in hengine hshows (nestedMeaning_of_lookup htext)
      exact ⟨_, List.lookup_cons_self, hin.trans htext⟩
  | beside hne _ ih =>
    cases ht with
    | node hb hr hs =>
      obtain ⟨text, htext, hin⟩ := ih hs
      exact ⟨text, by rwa [List.lookup_cons, beq_false_of_ne hne], hin⟩

/-- Rendering is one pass. A template of text and placeholders becomes its text with the values in it,
whatever these look like. So in a compilation a value comes out as it is wherever it is shown, and so
does one that was put into a script below, if the texts that it is in are shown up to the root. -/
theorem values_verbatim (hengine : engine.FillsIn settings) (htext : engine.KeepsText settings) :
    (∀ (context : Bindings) (slots : List Slot) (last : Plain),
      Template.render engine context (written slots last.text) =
        .ok (filled context slots last.text)) ∧
    (∀ (slots : List Slot) (rest : String), ∀ s ∈ slots, Shows s.key (written slots rest)) ∧
    ∀ (loader : Loader) (limit : Nat) (o : Options) (script out : String),
      compile engine loader limit o script = .ok out → ∃ d u ts, Directives.parse script = .ok d ∧
        Unfolds loader o.environment (d.block o.environment).references u ∧ u.Texts engine ts ∧
        let meaning := rootMeaning o (d.block o.environment).keywords
        (∀ slots last, script = written slots (Plain.text last) → ∃ context : Bindings,
          (∀ name, context.get? name = meaning ts name) ∧ out = filled context slots last.text) ∧
        ∀ name, Shows name script →
          (∀ value, meaning ts name = some value → value.toList <:+: out.toList) ∧
          (meaning [] name = none →
            ∀ value, u.Carries engine value name → value.toList <:+: out.toList) := by
  refine ⟨Template.render_template hengine htext, fun _ rest _ hs => Template.shows_written hs rest,
    fun loader limit o script out h => ?_⟩
  have hx : RendersInRoot engine loader limit o script script (.ok out) := compile_eq_iff.1 h
  obtain ⟨d, u, ts, hd, hu, -, ht, hr⟩ := hx
  refine ⟨d, u, ts, hd, hu, ht, fun slots last hscript => ?_, fun name hshows =>
    ⟨fun value => hr.stands_in hengine hshows, fun hfree value hvalue => ?_⟩⟩
  · obtain ⟨context, hcontext, hrender⟩ := hr
    rw [hscript, Template.render_template hengine htext] at hrender
    exact ⟨context, hcontext, (Except.ok.inj hrender).symm⟩
  · obtain ⟨text, htext, hin⟩ := hvalue.stands_in hengine ht
    rw [← rootMeaning_of_free hfree] at htext
    exact hin.trans (hr.stands_in hengine hshows htext)

/-- A keyword of a script below, with marks of all kinds in its value. -/
theorem values_verbatim_marked :
    let value := "<\x7b\x7b y \x7d\x7d \x7b% ' \x7d\x7d"
    let below := "/* [sqlmbegin] [script] [dev] - k: \"" ++ value ++
      "\" [sqlmend] */ \x7b\x7bk\x7d\x7d"
    let loader := Loader.ofStore [] [("p", below)]
    let script := "/* [sqlmbegin] [script] [dev] - part: sqlmref(\"p\") [sqlmend] */ " ++
      "\x7b\x7b part \x7d\x7d"
    small.FillsIn settings ∧ small.KeepsText settings ∧
    ∃ (out : String) (u : Unfolding), compile small loader 2 {} script = .ok out ∧
      u.Carries small value "part" ∧ value.toList <:+: out.toList := by
  intro value below loader script
  let r : Reference := ⟨"part", .named "p"⟩
  let f : Fragment :=
    ⟨below, (({} : Directives).addEntries .development [.keyword "k" value]).block .development⟩
  have hcompile : (compile small loader 2 {} script).toOption.isSome = true := by decide +kernel
  obtain ⟨out, hout⟩ := Option.isSome_iff_exists.1 hcompile
  have hout := eq_ok_of_toOption hout
  obtain ⟨d, u, ts, hd, hu, -, -, hshown⟩ :=
    (values_verbatim small_fillsIn small_keepsText).2.2 loader 2 {} script out hout
  have hparse : Directives.parse script =
      .ok (({} : Directives).addEntries .development [.reference r]) :=
    eq_ok_of_toOption (by decide +kernel)
  cases hd.symm.trans hparse
  have hbelow : Directives.parse below =
      .ok (({} : Directives).addEntries .development [.keyword "k" value]) :=
    eq_ok_of_toOption (by decide +kernel)
  have hfragment : r.fragment loader .development = .ok f := by
    change Fragment.ofText .development (some r) below = _
    rw [Fragment.ofText, hbelow]
  have hunfolds : Unfolds loader .development [r] (.node r f .none .none) :=
    .node hfragment .none .none
  cases hu.unique hunfolds
  have hvalue : nestedMeaning f.block.keywords [] "k" = some value := by decide +kernel
  -- the braces in the block are a placeholder too, in front of that of the keyword
  let described : Slot :=
    ⟨⟨"/* [sqlmbegin] [script] [dev] - k: \"<", by decide +kernel, by decide +kernel⟩, " ", "y", " ",
      by decide +kernel, by simp [Template.isSeparator], by simp [Template.isSeparator], by decide +kernel,
      by decide +kernel⟩
  let bound : Slot :=
    ⟨⟨" \x7b% ' \x7d\x7d\" [sqlmend] */ ", by decide +kernel, by decide +kernel⟩, "", "k", "",
      by decide +kernel, by simp, by simp, by decide +kernel, by decide +kernel⟩
  have hbound : Shows "k" f.script := ⟨[described], bound, "", rfl, by decide +kernel⟩
  have hcarries : (Unfolding.node r f .none .none).Carries small value "part" :=
    .bound .none hvalue hbound
  let referred : Slot :=
    ⟨⟨"/* [sqlmbegin] [script] [dev] - part: sqlmref(\"p\") [sqlmend] */ ", by decide +kernel,
      by decide +kernel⟩, " ", "part", " ", by decide +kernel, by simp [Template.isSeparator],
      by simp [Template.isSeparator], by decide +kernel, by decide +kernel⟩
  have hshows : Shows "part" script := ⟨[], referred, "", rfl, by decide +kernel⟩
  exact ⟨small_fillsIn, small_keepsText, out, _, hout, hcarries,
    (hshown "part" hshows).2 (by decide +kernel) value hcarries⟩

end SqlComposer
