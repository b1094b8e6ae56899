import SqlComposer.Proofs.Compose.Recursion
import SqlComposer.Proofs.Directive.RoundTrip
import SqlComposer.Proofs.Migration.Flags
import SqlComposer.Proofs.Migration.Sanitizing
import SqlComposer.Proofs.Template.Naming
import SqlComposer.Proofs.Template.Substitution

/-! The names that a root is rendered with, and which of them its placeholders can stand for. The
names of keywords, references and flags have alphabets of their own, and not all that these allow can
be addressed. -/
namespace SqlComposer
open Template (Engine isAddressable isName startsName isNamePart placeholder settings small
  small_asksForNames small_fillsIn small_keepsText)

variable {engine : Engine}

theorem not_startsName_of_isDigit {c : Char} (h : c.isDigit = true) : startsName c = false := by
  have hscore : c ≠ '_' := by
    rintro rfl
    cases h
  simp [startsName, not_isAlpha_of_isDigit h, hscore]

namespace Flag
variable {table : String} {order : UInt32} {c : Char} {cs : List Char}

theorem isNamePart_of_mem_collapse {inRun : Bool} (h : c ∈ collapse inRun cs) :
    isNamePart c = true := by
  obtain hplain | rfl := (isTidy_collapse inRun cs).plain c h
  · have halphanum : c.isAlphanum = true := hplain
    simp [isNamePart, halphanum]
  · rfl

theorem isNamePart_of_mem_name (h : c ∈ (name table order).toList) : isNamePart c = true := by
  rw [toList_name, List.mem_append, List.mem_cons] at h
  obtain h | rfl | h := h
  · exact isNamePart_of_mem_collapse h
  · rfl
  · have hdigit : c.isDigit = true := Nat.isDigit_of_mem_toDigits (by decide) (by decide) h
    simp [isNamePart, Char.isAlphanum, hdigit]

/-- A flag starts like the name of its table, and with an underscore if that cannot start it. -/
theorem startsName_head_name (table : String) (order : UInt32)
    (h : c ∈ (name table order).toList.head?) :
    startsName c = true ↔ ∀ d ∈ table.toList.head?, d.isDigit = false := by
  rw [toList_name] at h
  cases ht : table.toList with
  | nil =>
    rw [ht] at h
    cases h
    simp [startsName]
  | cons d ds =>
    rw [ht, collapse] at h
    by_cases hd : isPlain d = true
    · rw [if_pos hd] at h
      cases h
      have hplain : (c.isAlpha || c.isDigit) = true := hd
      cases hdigit : c.isDigit with
      | true => simp [not_startsName_of_isDigit hdigit, hdigit]
      | false =>
        rw [hdigit, Bool.or_false] at hplain
        simp [startsName, hplain, hdigit]
    · rw [if_neg hd] at h
      cases h
      have hplain : (d.isAlpha || d.isDigit) = false := Bool.eq_false_iff.2 hd
      rw [Bool.or_eq_false_iff] at hplain
      simp [startsName, hplain.2]

/-- Every flag is a name that can be addressed, unless its table starts with a digit. -/
theorem isAddressable_name_iff (table : String) (order : UInt32) :
    isAddressable (name table order) = true ↔
      ∀ c ∈ table.toList.head?, c.isDigit = false := by
  have hmem : '_' ∈ (name table order).toList := by rw [toList_name]; simp
  have hfree : name table order ∉ Template.reserved := by
    intro h
    have hnone : ∀ w ∈ Template.reserved, '_' ∉ w.toList := by decide +kernel
    exact hnone _ h hmem
  rw [Template.isAddressable_iff, Template.isName_iff]
  cases hl : (name table order).toList with
  | nil => rw [hl] at hmem; cases hmem
  | cons c cs =>
    have hc := startsName_head_name table order (c := c) (by rw [hl]; rfl)
    rw [← hc]
    constructor
    · rintro ⟨⟨d, ds, hd, hstart, -⟩, -⟩
      cases hd
      exact hstart
    · intro hstart
      have hpart : ∀ x ∈ cs, isNamePart x = true := by
        intro x hx
        have hmem : x ∈ (name table order).toList := by simp [hl, hx]
        exact isNamePart_of_mem_name hmem
      exact ⟨⟨c, cs, rfl, hstart, hpart⟩, hfree⟩

end Flag

theorem isLetter_iff (c : Char) : isLetter c = true ↔ startsName c = true ∨ c = '@' := by
  simp [isLetter, startsName, or_assoc]

theorem isWordPart_iff (c : Char) : isWordPart c = true ↔ isNamePart c = true ∨ c = '@' := by
  have halphanum : c.isAlphanum = (c.isAlpha || c.isDigit) := rfl
  simp only [isWordPart, isLetter, isNamePart, halphanum, Bool.or_eq_true, decide_eq_true_eq]
  grind

/-- The words that may be keys are names that can be addressed, but for those with an `@` and those
that mean something else in a placeholder. -/
theorem isAddressable_iff_of_isWord {key : String} (h : isWord key = true) :
    isAddressable key = true ↔
      '@' ∉ key.toList ∧ key ∉ Template.reserved := by
  obtain ⟨c, cs, hcs, hc, hpart⟩ := (isWord_iff key).1 h
  have hname : isName key = true ↔ '@' ∉ key.toList := by
    rw [Template.isName_iff, hcs]
    constructor
    · rintro ⟨d, ds, hd, hstart, hds⟩ hat
      cases hd
      obtain rfl | hat := List.mem_cons.1 hat
      · cases hstart
      · exact absurd (hds _ hat) (by decide)
    · intro hat
      rw [List.mem_cons, not_or] at hat
      refine ⟨c, cs, rfl, ((isLetter_iff c).1 hc).resolve_right (Ne.symm hat.1), fun x hx => ?_⟩
      refine ((isWordPart_iff x).1 (hpart x (List.mem_cons_of_mem c hx))).resolve_right ?_
      rintro rfl
      exact hat.2 hx
  rw [Template.isAddressable_iff, hname]

/-- The texts of an unfolding stand under the keys of its references. -/
theorem Unfolds.keys_texts {loader : Loader} {e : Environment} {rs : List Reference} {u : Unfolding}
    {ts : List (String × String)} (h : Unfolds loader e rs u) (ht : u.Texts engine ts) :
    ts.map (·.1) = rs.map (·.key) := by
  induction h generalizing ts with
  | none => cases ht; rfl
  | node _ _ _ _ ihs =>
    cases ht with
    | node _ _ hs => rw [List.map_cons, List.map_cons, ihs hs]

/-- A test that is quoted on both sides: what the name stands for is put between the quotes. -/
theorem render_quoted_placeholder (hengine : engine.FillsIn settings)
    (htext : engine.KeepsText settings) {context : Bindings} {name value : String}
    (h : isAddressable name = true) (hv : context.get? name = some value) :
    Template.render engine context ("'" ++ (placeholder name ++ "' = 'true'")) =
      .ok ("'" ++ value ++ "' = 'true'") := by
  have hlast : "'".toList.getLast? = some '\'' := by decide +kernel
  rw [Template.render_placeholder hengine h hv _ (by decide +kernel) (by rw [hlast]; simp),
    Template.render_of_untagged htext (by decide +kernel)]
  rfl

section Root
variable {loader : Loader} {limit : Nat} {o : Options} {script : String} {root : Fragment}
  {nested : List Nested} {published : List Published}

/-- Once everything below a root is composed, its names stand for what they should. -/
theorem exists_texts_of_merge (hnested : (resolve loader o.environment limit root).result = .ok nested)
    (hpublished : (merge engine 1 nested).result = .ok published) :
    ∃ ts, rootContext o root published = composedContext o root.block.keywords ts ∧
      ts.map (·.1) = root.block.references.map (·.key) := by
  obtain ⟨u, hu, -, rfl⟩ := exists_nested_of_resolve hnested
  have hnil : (merge engine (1+u.size) []).result = .ok [] := rfl
  rw [← List.append_nil (u.nested 1 0 1)] at hpublished
  cases ht : u.texts engine with
  | error rx =>
    obtain ⟨r, x⟩ := rx
    rw [merge_unfolding_error ht Nat.zero_lt_one hnil (by simp)] at hpublished
    cases hpublished
  | ok ts =>
    obtain ⟨ps, hps, hsent⟩ :
        ∃ ps, (merge engine 1 (u.nested 1 0 1 ++ [])).result = .ok ([] ++ ps) ∧
          Publishes 0 1 u.size ts ps := merge_unfolding ht Nat.zero_lt_one hnil (by simp)
    rw [hps] at hpublished
    cases hpublished
    refine ⟨ts, ?_, hu.keys_texts ((u.texts_eq_ok_iff ts).1 ht)⟩
    rw [rootContext, publishedTo_eq, List.nil_append, hsent.toParent]
    rfl

theorem get?_appliedFlags {m : Migrations} {e : Environment} {r : MigrationRecord}
    (h : r ∈ (m.get e).filter (·.applied)) : (m.appliedFlags e).get? r.flag = some "true" := by
  rw [Migrations.get?_appliedFlags]
  exact if_pos (List.mem_map_of_mem h)

/-- The keys of a block's lines are those of its keywords and of its references. -/
theorem isSome_of_mem_entries {b : Block} {x : Entry} (h : x ∈ b.entries) :
    (b.keywords.get? x.key).isSome = true ∨ x.key ∈ b.references.map (·.key) := by
  rw [Block.entries, List.mem_append, List.mem_map, List.mem_map] at h
  obtain ⟨e, he, rfl⟩ | ⟨r, hr, rfl⟩ := h
  · left
    rw [Bindings.get?, List.lookup_isSome_iff]
    exact ⟨e, he, beq_self_eq_true _⟩
  · exact .inr (List.mem_map_of_mem hr)

theorem exists_rootMeaning {own : Bindings} {ts : List (String × String)} {key : String}
    (h : ((o.migrations.appliedFlags o.environment).get? key).isSome = true ∨
      (own.get? key).isSome = true ∨ key ∈ ts.map (·.1)) :
    ∃ value, rootMeaning o own ts key = some value := by
  have hlookup : key ∈ ts.map (·.1) → (ts.lookup key).isSome = true := by
    intro hkey
    obtain ⟨e, he, rfl⟩ := List.mem_map.1 hkey
    rw [List.lookup_isSome_iff]
    exact ⟨e, he, beq_self_eq_true _⟩
  rw [← Option.isSome_iff_exists, rootMeaning]
  simp only [Option.isSome_or, Bool.or_eq_true]
  obtain h | h | h := h
  · exact .inl h
  · exact .inr (.inr (.inl h))
  · exact .inr (.inr (.inr (hlookup h)))

/-- The names that a root is rendered with: the keys of its own lines and the flags of what has been
applied. The placeholder of a name that can be addressed gives what the name is bound to; that of any
other name gives the same whatever the name is bound to, if it calls no function. A word that is a key
can be addressed unless there is an `@` in it or it means something else, and a flag unless its table
starts with a digit. -/
theorem root_names (hengine : engine.FillsIn settings) (htext : engine.KeepsText settings)
    (hnames : engine.AsksForNames settings)
    (hroot : Fragment.ofText o.environment none script = .ok root)
    (hnested : (resolve loader o.environment limit root).result = .ok nested)
    (hpublished : (merge engine 1 nested).result = .ok published) :
    let context := rootContext o root published
    let applied := (o.migrations.get o.environment).filter (·.applied)
    compile engine loader limit o script =
      (Template.render engine context script).mapError (.template none) ∧
    (∀ key, ((∃ x ∈ root.block.entries, x.key = key) ∨ ∃ r ∈ applied, r.flag = key) →
      ∃ value, context.get? key = some value ∧
        (isAddressable key = true →
          Template.render engine context (placeholder key) = .ok value) ∧
        (isAddressable key = false → '(' ∉ key.toList →
          ∀ other, Template.render engine (context.insert key other) (placeholder key) =
            Template.render engine context (placeholder key))) ∧
    (∀ key, isWord key = true →
      (isAddressable key = true ↔ '@' ∉ key.toList ∧ key ∉ Template.reserved)) ∧
    (∀ r ∈ applied, context.get? r.flag = some "true" ∧
      (isAddressable r.flag = true ↔ ∀ c ∈ r.sourceTable.toList.head?, c.isDigit = false) ∧
      (isAddressable r.flag = true →
        Template.render engine context ("'" ++ (placeholder r.flag ++ "' = 'true'")) =
          .ok "'true' = 'true'")) := by
  intro context applied
  obtain ⟨ts, hcontext, hkeys⟩ := exists_texts_of_merge hnested hpublished
  have hget : ∀ key, context.get? key = rootMeaning o root.block.keywords ts key := fun key => by
    rw [show context = _ from hcontext, get?_composedContext]
  refine ⟨compile_of_stages hroot hnested hpublished, fun key hkey => ?_,
    fun key => isAddressable_iff_of_isWord, fun r hr => ?_⟩
  · have hbound : ∃ value, rootMeaning o root.block.keywords ts key = some value := by
      refine exists_rootMeaning ?_
      obtain ⟨x, hx, rfl⟩ | ⟨r, hr, rfl⟩ := hkey
      · rw [hkeys]
        exact .inr (isSome_of_mem_entries hx)
      · exact .inl (by rw [get?_appliedFlags hr]; rfl)
    obtain ⟨value, hvalue⟩ := hbound
    refine ⟨value, (hget key).trans hvalue, fun ha => ?_, fun ha hcalls other =>
      hnames Template.valid_settings Template.bracesNames_settings context key other ha hcalls⟩
    exact Template.render_addressable hengine htext ha ((hget key).trans hvalue)
  · have hflag : context.get? r.flag = some "true" := by
      rw [hget, rootMeaning, get?_appliedFlags hr]
      rfl
    refine ⟨hflag, Flag.isAddressable_name_iff _ _, fun ha => ?_⟩
    exact render_quoted_placeholder hengine htext ha hflag

/-- An applied migration is tested beside a keyword and a reference. -/
theorem root_names_guarded :
    let r : MigrationRecord := ⟨"proj.sales", 3, true⟩
    let o : Options := { migrations := Migrations.empty.record .development r }
    let script := "/* [sqlmbegin] [script] [dev] - lim: \"5\" - part: sqlmref(\"p\") [sqlmend] */"
    small.FillsIn settings ∧ small.KeepsText settings ∧ small.AsksForNames settings ∧
    ∃ root nested published, Fragment.ofText o.environment none script = .ok root ∧
      (resolve (.ofStore [] [("p", "select 1")]) o.environment 2 root).result = .ok nested ∧
      (merge small 1 nested).result = .ok published ∧
      Template.render small (rootContext o root published)
        ("'" ++ (placeholder r.flag ++ "' = 'true'")) = .ok "'true' = 'true'" := by
  intro r o script
  have hstages : ((Fragment.ofText o.environment none script).toOption.bind fun root =>
      (resolve (.ofStore [] [("p", "select 1")]) o.environment 2 root).result.toOption.bind
        fun nested => (merge small 1 nested).result.toOption.map fun ps =>
          (root, nested, ps)).isSome = true := by decide +kernel
  obtain ⟨p, hp⟩ := Option.isSome_iff_exists.1 hstages
  obtain ⟨root, hroot, hp⟩ := Option.bind_eq_some_iff.1 hp
  obtain ⟨nested, hnested, hp⟩ := Option.bind_eq_some_iff.1 hp
  obtain ⟨published, hpublished, -⟩ := Option.map_eq_some_iff.1 hp
  have hroot := eq_ok_of_toOption hroot
  have hnested := eq_ok_of_toOption hnested
  have hpublished := eq_ok_of_toOption hpublished
  have hr : r ∈ (o.migrations.get o.environment).filter (·.applied) := by decide
  have hdigit : ∀ c ∈ r.sourceTable.toList.head?, c.isDigit = false := by
    have hhead : r.sourceTable.toList.head? = some 'p' := by decide +kernel
    intro c hc
    rw [hhead] at hc
    cases hc
    decide
  obtain ⟨-, haddressable, hrender⟩ := (root_names small_fillsIn small_keepsText
    small_asksForNames hroot hnested hpublished).2.2.2 r hr
  exact ⟨small_fillsIn, small_keepsText, small_asksForNames, root, nested, published, hroot, hnested,
    hpublished, hrender (haddressable.2 hdigit)⟩

/-- That every name bound in a root can be used: its placeholder gives what it is bound to. -/
def UsableNames (engine : Engine) (loader : Loader) (limit : Nat) (o : Options) (script : String) :
    Prop :=
  ∀ root nested published, Fragment.ofText o.environment none script = .ok root →
    (resolve loader o.environment limit root).result = .ok nested →
    (merge engine 1 nested).result = .ok published →
    ∀ key, ((∃ x ∈ root.block.entries, x.key = key) ∨
        ∃ r ∈ (o.migrations.get o.environment).filter (·.applied), r.flag = key) →
      ∃ value, (rootContext o root published).get? key = some value ∧
        Template.render engine (rootContext o root published) (placeholder key) = .ok value

/-- What a root without references has to give for its names to be usable. -/
theorem UsableNames.render {d : Directives} {key value : String}
    (h : UsableNames engine loader 1 o script) (hd : Directives.parse script = .ok d)
    (hnone : (d.block o.environment).references = [])
    (hkey : (∃ x ∈ (d.block o.environment).entries, x.key = key) ∨
      ∃ r ∈ (o.migrations.get o.environment).filter (·.applied), r.flag = key)
    (hvalue : (rootContext o ⟨script, d.block o.environment⟩ []).get? key = some value) :
    Template.render engine (rootContext o ⟨script, d.block o.environment⟩ []) (placeholder key) =
      .ok value := by
  have hroot : Fragment.ofText o.environment none script = .ok ⟨script, d.block o.environment⟩ := by
    rw [Fragment.ofText, hd]
  have hnested : (resolve loader o.environment 1 ⟨script, d.block o.environment⟩).result =
      .ok [] := by
    rw [resolve, Fragment.pending, hnone]
    exact discover_nil
  obtain ⟨v, hv, hrender⟩ := h _ _ _ hroot hnested rfl key hkey
  rw [hvalue] at hv
  cases hv
  exact hrender

/-- A flag that starts with a digit, a key with an `@` and one that is a constant cannot be used. -/
theorem not_usableNames :
    let r : MigrationRecord := ⟨"2024.sales", 3, true⟩
    let o : Options := { migrations := Migrations.empty.record .development r }
    let keyed (key : String) :=
      "/* [sqlmbegin] [script] [dev] - " ++ key ++ ": \"1\" [sqlmend] */"
    let flagged := "select '\x7b\x7b 2024_sales_3 \x7d\x7d' = 'true'"
    r.flag = "2024_sales_3" ∧
    compile small (.ofStore [] []) 1 o flagged = .error (.template none .malformed) ∧
    ¬ UsableNames small (.ofStore [] []) 1 o flagged ∧
    ¬ UsableNames small (.ofStore [] []) 1 {} (keyed "@x") ∧
    ¬ UsableNames small (.ofStore [] []) 1 {} (keyed "true") := by
  intro r o keyed flagged
  let said (key : String) : Directives :=
    ({} : Directives).addEntries .development [.keyword key "1"]
  have hparse : ∀ key ∈ ["@x", "true"], Directives.parse (keyed key) = .ok (said key) := by
    intro key hkey
    refine eq_ok_of_toOption ?_
    revert key
    decide +kernel
  have hsaid : ∀ key ∈ ["@x", "true"], (rootContext {} ⟨keyed key, (said key).block .development⟩
      []).get? key = some "1" := by decide +kernel
  have hentry : ∀ key, ∃ x ∈ ((said key).block .development).entries, x.key = key := fun key =>
    ⟨.keyword key "1", List.mem_singleton_self _, rfl⟩
  refine ⟨by decide +kernel, eq_error_of_match (by decide +kernel), fun h => ?_, fun h => ?_,
    fun h => ?_⟩
  · have hplain : Directives.parse flagged = .ok {} := eq_ok_of_toOption (by decide +kernel)
    have hvalue : (rootContext o ⟨flagged, ({} : Directives).block .development⟩ []).get? r.flag =
        some "true" := by decide +kernel
    have hfault : Template.render small
        (rootContext o ⟨flagged, ({} : Directives).block .development⟩ [])
        (placeholder r.flag) = .error .malformed := eq_error_of_match (by decide +kernel)
    cases hfault.symm.trans (h.render hplain rfl (.inr ⟨r, by decide, rfl⟩) hvalue)
  · have hrender := h.render (hparse "@x" (by simp)) rfl (.inl (hentry "@x"))
      (hsaid "@x" (by simp))
    have hfault : Template.render small (rootContext {} ⟨keyed "@x", (said "@x").block .development⟩ [])
        (placeholder "@x") = .error .malformed := eq_error_of_match (by decide +kernel)
    cases hfault.symm.trans hrender
  · have hrender := h.render (hparse "true" (by simp)) rfl (.inl (hentry "true"))
      (hsaid "true" (by simp))
    have hconstant : Template.render small
        (rootContext {} ⟨keyed "true", (said "true").block .development⟩
        []) (placeholder "true") = .ok "True" := eq_ok_of_toOption (by decide +kernel)
    exact absurd (Except.ok.inj (hconstant.symm.trans hrender)) (by decide)

end Root
end SqlComposer
