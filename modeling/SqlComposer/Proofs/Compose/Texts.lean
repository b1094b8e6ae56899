import SqlComposer.Compose.Merge
import SqlComposer.Proofs.Compose.Unfolding

/-! The texts of an unfolding by recursion on it, and their agreement with the merge, which goes
through the list of fragments from its end and hands each text to a position. -/
namespace SqlComposer
variable {engine : Template.Engine}

/-- A script comes to a result where names stand for what `meaning` says. -/
def Renders (engine : Template.Engine) (meaning : String → Option String) (script : String)
    (result : Except TemplateFault String) : Prop :=
  ∃ context : Bindings, (∀ name, context.get? name = meaning name) ∧
    Template.render engine context script = result

/-- In a nested script a name stands for the text of the first reference that is declared under
it, or else for the script's own keyword. -/
def nestedMeaning (own : Bindings) (texts : List (String × String)) (name : String) :
    Option String :=
  (texts.lookup name).or (own.get? name)

/-- In the root flags come before overrides, those before its own keywords, and those before the
texts of references. -/
def rootMeaning (o : Options) (own : Bindings) (texts : List (String × String)) (name : String) :
    Option String :=
  ((o.migrations.appliedFlags o.environment).get? name).or
    ((o.overrides.get? name).or ((own.get? name).or (texts.lookup name)))

/-- The texts of the references that an unfolding starts from, under their keys. -/
inductive Unfolding.Texts (engine : Template.Engine) : Unfolding → List (String × String) → Prop
  | none : Texts engine .none []
  | node {r : Reference} {f : Fragment} {below beside : Unfolding}
      {ts us : List (String × String)} {text : String} :
      Texts engine below ts → Renders engine (nestedMeaning f.block.keywords ts) f.script (.ok text) →
      Texts engine beside us → Texts engine (.node r f below beside) ((r.key, text) :: us)

/-- The bindings of a nested script. -/
def nestedContext (own : Bindings) (texts : List (String × String)) : Bindings :=
  own.overlay (.ofList texts.reverse)

theorem get?_ofList (es : List (String × String)) (name : String) :
    (Bindings.ofList es).get? name = es.reverse.lookup name := by
  rw [Bindings.ofList, Bindings.get?_insertAll, Bindings.get?_empty, Option.or_none]

theorem get?_nestedContext (own : Bindings) (texts : List (String × String)) (name : String) :
    (nestedContext own texts).get? name = nestedMeaning own texts name := by
  rw [nestedContext, Bindings.get?_overlay, get?_ofList, List.reverse_reverse, nestedMeaning]

theorem renders_iff {meaning : String → Option String} {context : Bindings}
    (h : ∀ name, context.get? name = meaning name) (script : String)
    (result : Except TemplateFault String) :
    Renders engine meaning script result ↔ Template.render engine context script = result := by
  constructor
  · rintro ⟨c, hc, hr⟩
    rwa [Bindings.ext_get? fun name => (h name).trans (hc name).symm]
  · exact fun hr => ⟨context, h, hr⟩

namespace Unfolding

/-- The texts of an unfolding, or the failure that is found last in the order of discovery. -/
def texts (engine : Template.Engine) :
    Unfolding → Except (Reference × TemplateFault) (List (String × String))
  | .none => .ok []
  | .node r f below beside => do
    let us ← beside.texts engine
    let ts ← below.texts engine
    let text ← (Template.render engine (nestedContext f.block.keywords ts) f.script).mapError (r, ·)
    return (r.key, text) :: us

section
variable {r : Reference} {f : Fragment} {below beside : Unfolding}

theorem texts_of_beside_error {x : Reference × TemplateFault} (h : beside.texts engine = .error x) :
    (node r f below beside).texts engine = .error x := by
  rw [texts, h]; rfl

theorem texts_of_below_error {x : Reference × TemplateFault} {us : List (String × String)}
    (hs : beside.texts engine = .ok us) (h : below.texts engine = .error x) :
    (node r f below beside).texts engine = .error x := by
  rw [texts, hs, h]; rfl

theorem texts_of_ok {us ts : List (String × String)} (hs : beside.texts engine = .ok us)
    (hb : below.texts engine = .ok ts) :
    (node r f below beside).texts engine =
      match Template.render engine (nestedContext f.block.keywords ts) f.script with
      | .error x => .error (r, x)
      | .ok text => .ok ((r.key, text) :: us) := by
  rw [texts, hs, hb]
  change ((Template.render engine _ _).mapError _ >>= _ : Except _ _) = _
  cases Template.render engine (nestedContext f.block.keywords ts) f.script <;> rfl

theorem exists_of_texts_eq_ok {ts : List (String × String)}
    (h : (node r f below beside).texts engine = .ok ts) :
    ∃ us vs text, beside.texts engine = .ok us ∧ below.texts engine = .ok vs ∧
      Template.render engine (nestedContext f.block.keywords vs) f.script = .ok text ∧
      ts = (r.key, text) :: us := by
  cases hs : beside.texts engine with
  | error x => rw [texts_of_beside_error hs] at h; cases h
  | ok us =>
    cases hb : below.texts engine with
    | error x => rw [texts_of_below_error hs hb] at h; cases h
    | ok vs =>
      rw [texts_of_ok hs hb] at h
      split at h
      · cases h
      · rename_i text ht
        cases h
        exact ⟨us, vs, text, rfl, rfl, ht, rfl⟩

end

theorem texts_eq_ok_iff (u : Unfolding) (ts : List (String × String)) :
    u.texts engine = .ok ts ↔ u.Texts engine ts := by
  constructor
  · intro h
    induction u generalizing ts with
    | none => cases h; exact .none
    | node r f below beside ihb ihs =>
      obtain ⟨us, vs, text, hs, hb, ht, rfl⟩ := exists_of_texts_eq_ok h
      exact .node (ihb _ hb) ((renders_iff (get?_nestedContext _ _) _ _).2 ht) (ihs _ hs)
  · intro h
    induction h with
    | none => rfl
    | node hb hr hs ihb ihs =>
      rw [texts_of_ok ihs ihb, (renders_iff (get?_nestedContext _ _) _ _).1 hr]

end Unfolding

/-- The texts published to a position, in the order in which they are. -/
def sentTo (position : Nat) (ps : List Published) : List (String × String) :=
  (ps.filter (·.parent = position)).map fun p => (p.key, p.text)

theorem publishedTo_eq (position : Nat) (ps : List Published) :
    publishedTo position ps = .ofList (sentTo position ps) := rfl

theorem sentTo_append (position : Nat) (ps qs : List Published) :
    sentTo position (ps ++ qs) = sentTo position ps ++ sentTo position qs := by
  rw [sentTo, List.filter_append, List.map_append]; rfl

theorem sentTo_eq_nil {position : Nat} {ps : List Published}
    (h : ∀ p ∈ ps, p.parent ≠ position) : sentTo position ps = [] := by
  have hf : ps.filter (·.parent = position) = [] := by
    simpa [List.filter_eq_nil_iff] using h
  rw [sentTo, hf]; rfl

section Merge
variable {position level parent : Nat}

theorem merge_cons_error {n : Nested} {ns : List Nested} {x : ComposeError}
    (h : (merge engine (position+1) ns).result = .error x) :
    (merge engine position (n :: ns)).result = .error x := by
  rw [merge, Traced.result_bind, h]; rfl

theorem merge_cons_ok {n : Nested} {ns : List Nested} {ps : List Published}
    (h : (merge engine (position+1) ns).result = .ok ps) :
    (merge engine position (n :: ns)).result =
      match Template.render engine (n.block.keywords.overlay (publishedTo position ps)) n.script with
      | .error x => .error (.template (some n.reference) x)
      | .ok text => .ok (ps ++ [⟨n.parent, n.reference.key, text⟩]) := by
  rw [merge, Traced.result_bind, h]
  change ((renderScript engine _ _ _ >>= _ : Step _)).result = _
  rw [Traced.result_bind]
  simp only [renderScript, Traced.lift]
  cases Template.render engine (n.block.keywords.overlay (publishedTo position ps)) n.script <;> rfl

theorem merge_append_error {ns : List Nested} {x : ComposeError} (ms : List Nested)
    (h : (merge engine (position+ms.length) ns).result = .error x) :
    (merge engine position (ms ++ ns)).result = .error x := by
  induction ms generalizing position with
  | nil => exact h
  | cons m ms ih =>
    have hlength : position+1+ms.length = position+(m :: ms).length := by
      rw [List.length_cons]; omega
    refine merge_cons_error (ih ?_)
    rwa [hlength]

/-- What a merged unfolding publishes: the texts of its references to their parent, the first
one last, and the rest to its own positions. -/
structure Publishes (parent position size : Nat) (ts : List (String × String))
    (ps : List Published) : Prop where
  toParent : sentTo parent ps = ts.reverse
  elsewhere : ∀ p ∈ ps, p.parent = parent ∨ position ≤ p.parent ∧ p.parent < position+size

/-- What the references beside a fragment publish is of no concern to that fragment and to those
below it. -/
theorem Publishes.apart {start size count : Nat} {us : List (String × String)}
    {base ps : List Published} (h : Publishes parent start size us ps) (hparent : parent < position)
    (hstart : start = position+1+count)
    (hbase : ∀ p ∈ base, p.parent < position ∨ start+size ≤ p.parent) :
    ∀ p ∈ base ++ ps, p.parent ≠ position ∧ (p.parent < position+1 ∨ position+1+count ≤ p.parent) := by
  intro p hp
  rcases List.mem_append.1 hp with hp | hp
  · have := hbase p hp; omega
  · have := h.elsewhere p hp; omega

theorem merge_node {r : Reference} {f : Fragment} {below beside : Unfolding} {ns : List Nested}
    {bs qs : List Published} {vs : List (String × String)}
    (hqs : (merge engine (position+1) (below.nested (level+1) position (position+1) ++
      (beside.nested level parent (position+1+below.size) ++ ns))).result = .ok (bs ++ qs))
    (hbs : ∀ p ∈ bs, p.parent ≠ position) (hbelow : sentTo position qs = vs.reverse) :
    (merge engine position
      ((Unfolding.node r f below beside).nested level parent position ++ ns)).result =
      match Template.render engine (nestedContext f.block.keywords vs) f.script with
      | .error x => .error (.template (some r) x)
      | .ok text => .ok (bs ++ qs ++ [⟨parent, r.key, text⟩]) := by
  have hcontext : publishedTo position (bs ++ qs) = .ofList vs.reverse := by
    rw [publishedTo_eq, sentTo_append, sentTo_eq_nil hbs, hbelow, List.nil_append]
  rw [Unfolding.nested, List.cons_append, List.append_assoc, merge_cons_ok hqs, hcontext]
  rfl

theorem merge_unfolding {u : Unfolding} {ts : List (String × String)} (h : u.texts engine = .ok ts)
    (hparent : parent < position) {ns : List Nested} {base : List Published}
    (hns : (merge engine (position+u.size) ns).result = .ok base)
    (hbase : ∀ p ∈ base, p.parent < position ∨ position+u.size ≤ p.parent) :
    ∃ ps, (merge engine position (u.nested level parent position ++ ns)).result = .ok (base ++ ps) ∧
      Publishes parent position u.size ts ps := by
  induction u generalizing level parent position ns base ts with
  | none =>
    cases h
    exact ⟨[], by rw [List.append_nil]; exact hns, rfl, by simp⟩
  | node r f below beside ihb ihs =>
    obtain ⟨us, vs, text, hs, hb, ht, rfl⟩ := Unfolding.exists_of_texts_eq_ok h
    -- the merge comes from behind: first beside, then below, and the fragment itself last
    rw [Unfolding.size] at hns hbase ⊢
    have hpos : position+(1+below.size+beside.size) = position+1+below.size+beside.size := by omega
    rw [hpos] at hns hbase
    have hlt : parent < position+1+below.size := by omega
    obtain ⟨ps, hps, hsent⟩ := ihs hs hlt hns fun p hp => by have := hbase p hp; omega
    have hapart := hsent.apart hparent rfl hbase
    obtain ⟨qs, hqs, hbelow⟩ := ihb hb (Nat.lt_succ_self position) hps fun p hp => (hapart p hp).2
    refine ⟨ps ++ qs ++ [⟨parent, r.key, text⟩], ?_, ?_, ?_⟩
    · rw [merge_node hqs (fun p hp => (hapart p hp).1) hbelow.toParent, ht]
      simp only [List.append_assoc]
    · have hnone : sentTo parent qs = [] :=
        sentTo_eq_nil fun p hp => by have := hbelow.elsewhere p hp; omega
      rw [sentTo_append, sentTo_append, hsent.toParent, hnone, List.reverse_cons]
      simp [sentTo]
    · intro p hp
      rcases List.mem_append.1 hp with hp | hp
      · rcases List.mem_append.1 hp with hp | hp
        · have := hsent.elsewhere p hp; omega
        · have := hbelow.elsewhere p hp; omega
      · rw [List.mem_singleton.1 hp]; exact .inl rfl

/-- The merge stops at the failure that stands last in the order of discovery. -/
theorem merge_unfolding_error {u : Unfolding} {r : Reference} {x : TemplateFault}
    (h : u.texts engine = .error (r, x)) (hparent : parent < position) {ns : List Nested}
    {base : List Published} (hns : (merge engine (position+u.size) ns).result = .ok base)
    (hbase : ∀ p ∈ base, p.parent < position ∨ position+u.size ≤ p.parent) :
    (merge engine position (u.nested level parent position ++ ns)).result =
      .error (.template (some r) x) := by
  induction u generalizing level parent position ns base with
  | none => cases h
  | node r' f below beside ihb ihs =>
    rw [Unfolding.size] at hns hbase
    have hpos : position+(1+below.size+beside.size) = position+1+below.size+beside.size := by omega
    rw [hpos] at hns hbase
    have hbase' : ∀ p ∈ base, p.parent < position+1+below.size ∨
        position+1+below.size+beside.size ≤ p.parent :=
      fun p hp => by have := hbase p hp; omega
    have hlt : parent < position+1+below.size := by omega
    cases hs : beside.texts engine with
    | error y =>
      rw [Unfolding.texts_of_beside_error hs] at h
      cases h
      rw [Unfolding.nested, List.cons_append, List.append_assoc]
      refine merge_cons_error (merge_append_error _ ?_)
      rw [Unfolding.length_nested]
      exact ihs hs hlt hns hbase'
    | ok us =>
      obtain ⟨ps, hps, hsent⟩ := merge_unfolding hs hlt hns hbase'
      have hapart := hsent.apart hparent rfl hbase
      have hbelow : ∀ p ∈ base ++ ps, _ := fun p hp => (hapart p hp).2
      cases hb : below.texts engine with
      | error y =>
        rw [Unfolding.texts_of_below_error hs hb] at h
        cases h
        rw [Unfolding.nested, List.cons_append, List.append_assoc]
        exact merge_cons_error (ihb hb (Nat.lt_succ_self position) hps hbelow)
      | ok vs =>
        obtain ⟨qs, hqs, hsent'⟩ := merge_unfolding hb (Nat.lt_succ_self position) hps hbelow
        rw [Unfolding.texts_of_ok hs hb] at h
        rw [merge_node hqs (fun p hp => (hapart p hp).1) hsent'.toParent]
        cases ht : Template.render engine (nestedContext f.block.keywords vs) f.script with
        | error y => rw [ht] at h; cases h; rfl
        | ok text => rw [ht] at h; cases h

end Merge
end SqlComposer
