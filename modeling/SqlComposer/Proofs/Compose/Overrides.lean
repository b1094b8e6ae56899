import SqlComposer.Proofs.Compose.Names

/-! What overrides decide. The last value that is set for a key counts more than the keywords and the
references of the root, but not more than the flag of an applied migration. -/
namespace SqlComposer
open Template (Engine isAddressable placeholder small small_fillsIn small_keepsText)

/-- One call in which a caller decides something. -/
inductive Setting where
  | environment (e : Environment)
  | override (key value : String)
  | migrations (m : Migrations)

namespace Setting

/-- The value that is set for a key. -/
def value? (key : String) : Setting → Option String
  | .override k value => if key = k then some value else none
  | _ => none

end Setting

def Options.apply (o : Options) : Setting → Options
  | .environment e => { o with environment := e }
  | .override key value => o.set key value
  | .migrations m => { o with migrations := m }

/-- What a caller has decided after some calls. -/
def Options.ofSettings (ss : List Setting) : Options := ss.foldl Options.apply {}

/-- The last value that was set for a key. -/
def lastSet (key : String) (ss : List Setting) : Option String :=
  (ss.filterMap (Setting.value? key)).getLast?

/-- The flags of all that has been applied for the environment of a compilation. -/
def Options.flags (o : Options) : List String :=
  ((o.migrations.get o.environment).filter (·.applied)).map (·.flag)

theorem Options.get?_overrides_apply (o : Options) (s : Setting) (key : String) :
    (o.apply s).overrides.get? key = (s.value? key).or (o.overrides.get? key) := by
  cases s with
  | environment e => rfl
  | migrations m => rfl
  | override k value =>
    change (o.overrides.insert k value).get? key = (if key = k then some value else none).or _
    rw [Bindings.get?_insert]
    split <;> rfl

theorem Options.get?_overrides_foldl (o : Options) (ss : List Setting) (key : String) :
    (ss.foldl Options.apply o).overrides.get? key = (lastSet key ss).or (o.overrides.get? key) := by
  -- the calls that come later count more, so what was decided before is arbitrary
  induction ss generalizing o with
  | nil => rfl
  | cons s ss ih =>
    rw [List.foldl_cons, ih, get?_overrides_apply, lastSet, lastSet, ← Option.or_assoc]
    congr 1
    cases hv : s.value? key with
    | none => simp [hv]
    | some value => simp [hv, List.getLast?_cons]

theorem Options.get?_ofSettings (ss : List Setting) (key : String) :
    (ofSettings ss).overrides.get? key = lastSet key ss := by
  rw [ofSettings, get?_overrides_foldl]
  exact Option.or_none

theorem Options.get?_appliedFlags (o : Options) (key : String) :
    (o.migrations.appliedFlags o.environment).get? key =
      if key ∈ o.flags then some "true" else none := Migrations.get?_appliedFlags ..

section Root
variable {engine : Engine} {loader : Loader} {limit : Nat} {script : String} {root : Fragment}
  {nested : List Nested} {published : List Published} {settings : List Setting} {key value : String}

/-- What an override comes to does not depend on the root or on anything below it. -/
theorem get?_rootContext_of_lastSet (h : lastSet key settings = some value) (root : Fragment)
    (published : List Published) :
    (rootContext (.ofSettings settings) root published).get? key =
      some (if key ∈ (Options.ofSettings settings).flags then "true" else value) := by
  rw [rootContext, Bindings.get?_overlay, Bindings.get?_overlay, Options.get?_appliedFlags,
    Options.get?_ofSettings, h]
  split <;> rfl

/-- In the root each key that was set stands for the last value set for it, whatever keyword or
reference there has the same name, unless it is the flag of an applied migration: that counts more
than any override. -/
theorem root_overrides (hengine : engine.FillsIn Template.settings)
    (htext : engine.KeepsText Template.settings)
    (hroot : Fragment.ofText (Options.ofSettings settings).environment none script = .ok root)
    (hnested : (resolve loader (Options.ofSettings settings).environment limit root).result =
      .ok nested)
    (hpublished : (merge engine 1 nested).result = .ok published) :
    let o := Options.ofSettings settings
    let context := rootContext o root published
    compile engine loader limit o script =
      (Template.render engine context script).mapError (.template none) ∧
    ∀ key value, lastSet key settings = some value →
      let final := if key ∈ o.flags then "true" else value
      context.get? key = some final ∧
        (isAddressable key = true → Template.render engine context (placeholder key) = .ok final) := by
  intro o context
  refine ⟨compile_of_stages hroot hnested hpublished, fun key value h => ?_⟩
  have hget := get?_rootContext_of_lastSet h root published
  exact ⟨hget, fun ha => Template.render_addressable hengine htext ha hget⟩

/-- A key that is set twice, beside a keyword and a reference of its name and a flag of another. -/
theorem root_overrides_twice :
    let applied := Migrations.empty.record .development ⟨"a.b.c", 3, true⟩
    let settings := [.override "x" "1", .migrations applied, .override "x" "2"]
    let o := Options.ofSettings settings
    let loader := Loader.ofStore [] [("p", "below")]
    let script := "/* [sqlmbegin] [script] [dev] - x: \"own\" - x: sqlmref(\"p\") [sqlmend] */"
    small.FillsIn Template.settings ∧ small.KeepsText Template.settings ∧
    ∃ root nested published, Fragment.ofText o.environment none script = .ok root ∧
      (resolve loader o.environment 2 root).result = .ok nested ∧
      (merge small 1 nested).result = .ok published ∧ published ≠ [] ∧
      lastSet "x" settings = some "2" ∧
      (rootContext o root published).get? "x" = some "2" ∧
      Template.render small (rootContext o root published) (placeholder "x") = .ok "2" := by
  intro applied settings o loader script
  have hstages : ((Fragment.ofText o.environment none script).toOption.bind fun root =>
      (resolve loader o.environment 2 root).result.toOption.bind fun nested =>
        (merge small 1 nested).result.toOption.bind fun published =>
          if published ≠ [] then some (root, nested, published) else none).isSome = true := by
    decide +kernel
  obtain ⟨p, hp⟩ := Option.isSome_iff_exists.1 hstages
  obtain ⟨root, hroot, hp⟩ := Option.bind_eq_some_iff.1 hp
  obtain ⟨nested, hnested, hp⟩ := Option.bind_eq_some_iff.1 hp
  obtain ⟨published, hpublished, hp⟩ := Option.bind_eq_some_iff.1 hp
  have hsome : published ≠ [] := by
    rintro rfl
    cases hp
  have hroot := eq_ok_of_toOption hroot
  have hnested := eq_ok_of_toOption hnested
  have hpublished := eq_ok_of_toOption hpublished
  have hset : lastSet "x" settings = some "2" := by decide +kernel
  have hflag : "x" ∉ o.flags := by decide +kernel
  have hfinal := (root_overrides small_fillsIn small_keepsText hroot hnested hpublished).2 "x" "2" hset
  rw [if_neg hflag] at hfinal
  exact ⟨small_fillsIn, small_keepsText, root, nested, published, hroot, hnested, hpublished, hsome,
    hset, hfinal.1, hfinal.2 (by decide +kernel)⟩

/-- That an override is final: in the root its key stands for the last value that was set for it. -/
def FinalOverrides (engine : Engine) (loader : Loader) (limit : Nat) (settings : List Setting)
    (script : String) : Prop :=
  let o := Options.ofSettings settings
  ∀ root nested published, Fragment.ofText o.environment none script = .ok root →
    (resolve loader o.environment limit root).result = .ok nested →
    (merge engine 1 nested).result = .ok published →
    ∀ key value, lastSet key settings = some value →
      (rootContext o root published).get? key = some value

/-- The flag of an applied migration is put in the place of an override. -/
theorem not_finalOverrides :
    let applied := Migrations.empty.record .development ⟨"a.b.c", 3, true⟩
    let settings := [.override "a_b_c_3" "x", .migrations applied]
    let script := "select \x7b\x7b a_b_c_3 \x7d\x7d"
    lastSet "a_b_c_3" settings = some "x" ∧
    compile small (.ofStore [] []) 100 (.ofSettings settings) script = .ok "select true" ∧
    ¬ FinalOverrides small (.ofStore [] []) 100 settings script := by
  intro applied settings script
  have hset : lastSet "a_b_c_3" settings = some "x" := by decide +kernel
  refine ⟨hset, eq_ok_of_toOption (by decide +kernel), fun h => ?_⟩
  let root : Fragment := ⟨script, ({} : Directives).block .development⟩
  have hparse : Directives.parse script = .ok {} := eq_ok_of_toOption (by decide +kernel)
  have hroot : Fragment.ofText (Options.ofSettings settings).environment none script = .ok root := by
    rw [Fragment.ofText, hparse]
    rfl
  have hfinal := h root [] [] hroot discover_nil rfl "a_b_c_3" "x" hset
  have hflag : (rootContext (.ofSettings settings) root []).get? "a_b_c_3" = some "true" := by
    decide +kernel
  exact absurd (hflag.symm.trans hfinal) (by decide)

end Root
end SqlComposer
