import SqlComposer.Proofs.Template.Verbatim
import SqlComposer.Proofs.Token.Lexing

/-! Which names the placeholders of the small engine can stand for. A name of another form cannot be
written in one, and a name that always means something else is never looked up; so what is bound to such
a name makes no difference to any template. -/
namespace SqlComposer.Template
variable {c : Char} {cs rest : List Char} {s name text value : String} {context context' : Bindings}

theorem not_mem_reserved_iff (s : String) :
    s ∉ reserved ↔ Constant.ofName? s = none ∧ s ≠ negation := by
  unfold Constant.ofName? reserved negation
  split <;> simp_all

theorem isSeparator_of_startsName (h : startsName c = true) : isSeparator c = false := by
  cases hs : isSeparator c with
  | false => rfl
  | true =>
    simp only [isSeparator, Bool.or_eq_true, decide_eq_true_eq] at hs
    obtain (((rfl | rfl) | rfl) | rfl) | rfl := hs <;> cases h

theorem closing?_of_startsName (h : startsName c = true) (cs : List Char) :
    closing? (c :: cs) = none := by
  unfold closing?
  split <;> simp_all [startsName]

theorem word?_of_startsName (h : startsName c = true) (cs : List Char) :
    word? (c :: cs) = some (.name (.ofList (c :: (Cut.span isNamePart cs).taken)),
      (Cut.span isNamePart cs).rest) := by
  unfold word?
  split
  · simp_all
  · simp_all [startsName]
  · simp_all [startsName]
  · rename_i hc
    cases hc
    have hquote : (decide (c = '\'') || decide (c = '"')) = false := by
      cases hq : (decide (c = '\'') || decide (c = '"')) with
      | false => rfl
      | true =>
        simp only [Bool.or_eq_true, decide_eq_true_eq] at hq
        obtain rfl | rfl := hq <;> cases h
    simp [hquote, h]

theorem isName_of_word? (h : word? cs = some (.name s, rest)) : isName s = true := by
  unfold word? at h
  split at h
  case h_4 c cs _ _ =>
    split at h
    · dsimp only at h
      split at h <;> cases h
    · split at h
      · cases h
        have hpart : ∀ x ∈ (Cut.span isNamePart cs).taken, isNamePart x = true := fun x hx =>
          List.all_eq_true.1 List.all_takeWhile x hx
        exact (isName_iff _).2 ⟨c, _, String.toList_ofList, ‹_›, hpart⟩
      · split at h <;> cases h
  all_goals cases h

theorem words?_of_closing {trim : Bool} (h : closing? (skipSeparators cs) = some (trim, rest)) :
    words? cs = some ([], trim, rest) := by
  rw [words?, h]

theorem words?_of_word {w : Word} (hc : closing? (skipSeparators cs) = none)
    (hw : word? (skipSeparators cs) = some (w, rest)) :
    words? cs = (words? rest).map fun (ws, r) => (w :: ws, r) := by
  rw [words?, hc]
  dsimp only
  split
  · simp_all
  · rename_i h
    rw [hw] at h
    cases h
    rfl

theorem isName_of_mem_words? {ws : List Word} {r : Bool × List Char} (h : words? cs = some (ws, r))
    (hs : .name s ∈ ws) : isName s = true := by
  fun_induction words? cs generalizing ws r with
  | case1 => cases h; cases hs
  | case2 => cases h
  | case3 cs _ w rest hw ih =>
    obtain ⟨⟨vs, q⟩, hq, he⟩ := Option.map_eq_some_iff.1 h
    cases he
    obtain rfl | hs := List.mem_cons.1 hs
    · exact isName_of_word? hw
    · exact ih hq hs

/-- The name in an expression, if there is one, has the form of names, and where it can only negate
there is a minus before it. -/
def Expr.Named (e : Expr) : Prop :=
  ∀ s, e.operand = .name s → isName s = true ∧ (s = negation → 0 < e.negations)

theorem named_of_ofWords? {ws : List Word} {e : Expr} (h : Expr.ofWords? ws = some e)
    (hws : ∀ s, .name s ∈ ws → isName s = true) : e.Named := by
  unfold Expr.ofWords? at h
  dsimp only at h
  obtain ⟨⟨operand, rest⟩, ho, h⟩ := Option.bind_eq_some_iff.1 h
  obtain ⟨attributes, -, h⟩ := Option.bind_eq_some_iff.1 h
  cases h
  rintro s rfl
  unfold operand? at ho
  split at ho
  · obtain ⟨n, -, he⟩ := Option.map_eq_some_iff.1 ho
    cases he
  · rename_i n ws' hrest
    split at ho
    · cases ho
    · rename_i hnot
      cases ho
      have hmem : Word.name s ∈ ws.dropWhile (· = .minus) := by simp [hrest]
      refine ⟨hws s ((List.dropWhile_suffix _).subset hmem), fun hs => ?_⟩
      cases hsigns : ws.takeWhile (· = .minus) with
      | nil => simp [hs, hsigns] at hnot
      | cons => simp
  · cases ho
  · cases ho

theorem named_of_tag? {o : Opening} {e : Expr} {r : Bool × List Char}
    (h : tag? o = some (some e, r)) : e.Named := by
  unfold tag? at h
  split at h
  · cases h
  · obtain ⟨q, -, he⟩ := Option.map_eq_some_iff.1 h
    cases he
  · obtain ⟨⟨ws, q⟩, hws, h⟩ := Option.bind_eq_some_iff.1 h
    obtain ⟨e', he, h⟩ := Option.bind_eq_some_iff.1 h
    cases h
    exact named_of_ofWords? he fun s hs => isName_of_mem_words? hws hs

theorem named_of_segments? {trim : Bool} {ss : List Segment} {e : Expr}
    (h : segments? trim cs = some ss) (he : .placeholder e ∈ ss) : e.Named := by
  fun_induction segments? trim cs generalizing ss with
  | case1 => cases h; simp at he
  | case2 => cases h
  | case3 trim cs lead o hfind text e' trim' rest htag =>
    rename_i ih
    obtain ⟨tail, htail, rfl⟩ := Option.map_eq_some_iff.1 h
    simp only [List.mem_cons, reduceCtorEq, List.mem_append, Option.mem_toList, false_or] at he
    obtain he | he := he
    · obtain ⟨e'', rfl, he⟩ := Option.map_eq_some_iff.1 he
      cases he
      exact named_of_tag? htag
    · exact ih htail he

/-- No text and nothing undefined can be negated. -/
theorem negate_lookup (context : Bindings) (s : String) :
    (lookup context s).negate = .error .noNegative := by
  unfold lookup
  split
  · rfl
  · rfl
  · split <;> rfl

theorem lookup_congr (h : ∀ k, isAddressable k = true → context.get? k = context'.get? k)
    (hname : isName s = true) (hs : s ≠ negation) : lookup context s = lookup context' s := by
  cases hc : Constant.ofName? s with
  | some c => simp [lookup, hc]
  | none =>
    have hfree : s ∉ reserved := (not_mem_reserved_iff s).2 ⟨hc, hs⟩
    simp [lookup, h s ((isAddressable_iff s).2 ⟨hname, hfree⟩)]

theorem Expr.value_congr (h : ∀ k, isAddressable k = true → context.get? k = context'.get? k)
    {e : Expr} (he : e.Named) : e.value context = e.value context' := by
  obtain ⟨negations, operand, attributes⟩ := e
  cases operand with
  | integer n => rfl
  | literal s => rfl
  | name s =>
    obtain ⟨hname, hneg⟩ := he s rfl
    by_cases hs : s = negation
    · obtain ⟨n, hn⟩ := Nat.exists_eq_add_one.2 (hneg hs)
      dsimp only at hn
      subst hn
      simp only [value, Operand.value, Value.negateTimes, negate_lookup]
    · simp only [value, Operand.value, lookup_congr h hname hs]

theorem mapM_render_congr {ss : List Segment}
    (h : ∀ x ∈ ss, x.render context = x.render context') :
    ss.mapM (Segment.render context) = ss.mapM (Segment.render context') := by
  induction ss with
  | nil => rfl
  | cons x ss ih =>
    obtain ⟨hx, h⟩ := List.forall_mem_cons.1 h
    rw [List.mapM_cons, List.mapM_cons, hx, ih h]

/-- Rendering depends on the names alone that can be addressed. -/
theorem render_small_congr
    (h : ∀ k, isAddressable k = true → context.get? k = context'.get? k) (text : String) :
    small.render settings context text = small.render settings context' text := by
  rw [render_small, render_small]
  cases hss : segments? false text.toList with
  | none => rw [ofText, hss]; rfl
  | some ss =>
    rw [ofText, hss]
    change renderSegments context ss = renderSegments context' ss
    have hsegment : ∀ x ∈ ss, x.render context = x.render context' := by
      intro x hx
      cases x with
      | text s => rfl
      | placeholder e =>
        exact congrArg (Except.map _) (Expr.value_congr h (named_of_segments? hss hx))
    rw [renderSegments, renderSegments, mapM_render_congr hsegment]

theorem small_asksForNames : small.AsksForNames settings := by
  intro _ _ context name value hname _
  refine render_small_congr (fun k hk => ?_) _
  rw [Bindings.get?_insert, if_neg]
  rintro rfl
  rw [hname] at hk
  cases hk

theorem isNamePart_of_isSeparator (h : isSeparator c = true) : isNamePart c = false := by
  simp only [isSeparator, Bool.or_eq_true, decide_eq_true_eq] at h
  obtain (((rfl | rfl) | rfl) | rfl) | rfl := h <;> rfl

section Name
variable {front before after : List Char}

/-- A name between separators is the only word of its placeholder. -/
theorem words?_name (h : isName name = true) (hbefore : ∀ x ∈ before, isSeparator x = true)
    (hafter : ∀ x ∈ after, isSeparator x = true) (tail : List Char) :
    words? (before ++ (name.toList ++ (after ++ '\x7d' :: '\x7d' :: tail))) =
      some ([.name name], false, tail) := by
  obtain ⟨c, cs, hcs, hc, hpart⟩ := (isName_iff name).1 h
  have hbehind : ∀ x ∈ (after ++ '\x7d' :: '\x7d' :: tail).head?, isNamePart x = false := by
    intro x hx
    cases after with
    | nil => cases hx; rfl
    | cons d after => cases hx; exact isNamePart_of_isSeparator (hafter _ List.mem_cons_self)
  have hspan := Cut.span_append hpart hbehind
  have hskip : skipSeparators (before ++ (c :: cs ++ (after ++ '\x7d' :: '\x7d' :: tail))) =
      c :: (cs ++ (after ++ '\x7d' :: '\x7d' :: tail)) := by
    rw [skipSeparators, Cut.span_append hbefore (by simpa using isSeparator_of_startsName hc)]
    rfl
  have hend : words? (after ++ '\x7d' :: '\x7d' :: tail) = some ([], false, tail) := by
    refine words?_of_closing ?_
    rw [skipSeparators, Cut.span_append hafter (by simp [isSeparator])]
    rfl
  rw [hcs, words?_of_word (hskip ▸ closing?_of_startsName hc _)
    (hskip ▸ word?_of_startsName hc _), hspan, hend, ← hcs, String.ofList_toList]
  rfl

theorem Opening.ofRest_of_head? {kind : TagKind} (h : ∀ x ∈ cs.head?, x ≠ '-' ∧ x ≠ '+') :
    ofRest kind cs = ⟨kind, false, cs⟩ := by
  unfold ofRest
  split
  · exact absurd rfl (h '-' rfl).1
  · exact absurd rfl (h '+' rfl).2
  · rfl

/-- The first tag behind some text is a placeholder with a name in it. -/
theorem segments?_name (h : isName name = true) (hneg : name ≠ negation)
    (hbefore : ∀ x ∈ before, isSeparator x = true) (hafter : ∀ x ∈ after, isSeparator x = true)
    (hfront : settings.PlainBefore ('\x7b' :: '\x7b' ::
      (before ++ (name.toList ++ (after ++ '\x7d' :: '\x7d' :: rest)))) front) :
    segments? false (front ++ '\x7b' :: '\x7b' ::
        (before ++ (name.toList ++ (after ++ '\x7d' :: '\x7d' :: rest)))) =
      (segments? false rest).map fun ss =>
        .text (String.ofList front) :: .placeholder ⟨0, .name name, []⟩ :: ss := by
  have hwords := words?_name h hbefore hafter rest
  generalize hinner : before ++ (name.toList ++ (after ++ '\x7d' :: '\x7d' :: rest)) = inner at *
  have hhead : ∀ x ∈ inner.head?, x ≠ '-' ∧ x ≠ '+' := by
    obtain ⟨c, cs, hcs, hc, -⟩ := (isName_iff name).1 h
    subst hinner
    intro x hx
    cases before with
    | nil =>
      rw [hcs] at hx
      cases hx
      constructor <;> (rintro rfl; cases hc)
    | cons d before =>
      cases hx
      have hd := hbefore x List.mem_cons_self
      constructor <;> (rintro rfl; cases hd)
  have hfind : Opening.find (behind false (front ++ '\x7b' :: '\x7b' :: inner)) =
      (front, some ⟨.placeholder, false, inner⟩) := by
    refine (Opening.find_append hfront).trans ?_
    rw [Opening.find, Opening.ofRest_of_head? hhead, List.append_nil]
  have htag : tag? ⟨.placeholder, false, inner⟩ =
      some (some ⟨0, .name name, []⟩, false, rest) := by
    simp [tag?, hwords, Expr.ofWords?, operand?, hneg, attributes?]
  rw [segments?_eq, hfind]
  dsimp only
  rw [htag]
  rfl

end Name

theorem print_lookup (context : Bindings) (h : isAddressable name = true)
    (hbound : name ∈ predefined → (context.get? name).isSome) :
    (lookup context name).print = (context.get? name).getD "" := by
  obtain ⟨-, hfree⟩ := (isAddressable_iff name).1 h
  obtain ⟨hc, -⟩ := (not_mem_reserved_iff name).1 hfree
  rw [lookup, hc]
  cases hv : context.get? name with
  | none =>
    have hnone : name ∉ predefined := fun hmem => by simp [hv] at hbound; exact hbound hmem
    rw [if_neg hnone]
    rfl
  | some value => rfl

theorem small_fillsIn : small.FillsIn settings := by
  intro _ _ context front before name after rest tag hfront hbefore hafter ha hbound
  obtain ⟨hname, hfree⟩ := (isAddressable_iff name).1 ha
  obtain ⟨-, hneg⟩ := (not_mem_reserved_iff name).1 hfree
  have htag : (tag ++ rest).toList = '\x7b' :: '\x7b' ::
      (before.toList ++ (name.toList ++ (after.toList ++ '\x7d' :: '\x7d' :: rest.toList))) := by
    simp [tag]
  rw [htag] at hfront
  rw [render_small, render_small, ofText, ofText, String.toList_append, htag,
    segments?_name hname hneg hbefore hafter hfront, String.ofList_toList]
  cases segments? false rest.toList with
  | none => rfl
  | some ss =>
    have hsegment : (Segment.placeholder ⟨0, .name name, []⟩).render context =
        .ok ((context.get? name).getD "") := congrArg Except.ok (print_lookup context ha hbound)
    change renderSegments context _ = (renderSegments context ss).map _
    rw [renderSegments_text, renderSegments_cons hsegment]
    cases renderSegments context ss with
    | error x => rfl
    | ok text => simp [Except.map, String.append_assoc]

end SqlComposer.Template
