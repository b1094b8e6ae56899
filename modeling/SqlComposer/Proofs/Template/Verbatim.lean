import SqlComposer.Proofs.Template.Laws
import SqlComposer.Template.Reader

/-! The small engine leaves text as it is in which no tag opens. That holds of a whole template, and of
the front of one, whatever stands behind it: the tags there cannot reach back into it. -/
namespace SqlComposer.Template
variable {c : Char} {cs front rest : List Char} {context : Bindings}

/-- Tags open where a mark stands, so what stands before it is text. -/
theorem Opening.find_append (h : settings.PlainBefore rest front) :
    find (front ++ rest) = (front ++ (find rest).1, (find rest).2) := by
  induction front with
  | nil => rfl
  | cons c front ih =>
    have hnone : ∀ m ∈ settings.marks, ¬ m.opening.toList <+: c :: (front ++ rest) := fun m hm =>
      h m hm (c :: front) List.suffix_rfl (List.cons_ne_nil _ _)
    have htail : settings.PlainBefore rest front := fun m hm cs hcs =>
      h m hm cs (hcs.trans (List.suffix_cons ..))
    have hfind : find (c :: (front ++ rest)) =
        (c :: (find (front ++ rest)).1, (find (front ++ rest)).2) := by
      rw [find]
      · rintro cs rfl hcs
        exact hnone settings.placeholder (by simp [Settings.marks]) ⟨cs, by rw [hcs]; rfl⟩
      · rintro cs rfl hcs
        exact hnone settings.comment (by simp [Settings.marks]) ⟨cs, by rw [hcs]; rfl⟩
      · rintro cs rfl hcs
        exact hnone settings.block (by simp [Settings.marks]) ⟨cs, by rw [hcs]; rfl⟩
    rw [List.cons_append, hfind, ih htail]
    rfl

theorem Opening.find_of_plain (h : settings.PlainBefore [] cs) : find cs = (cs, none) := by
  have hfind := find_append h
  rw [List.append_nil] at hfind
  rw [hfind, find, List.append_nil]

theorem dropWhile_append {p : Char → Bool} (xs : List Char) {y : Char} (hy : p y = false)
    (ys : List Char) : (xs ++ y :: ys).dropWhile p = xs.dropWhile p ++ y :: ys := by
  induction xs with
  | nil => simp [hy]
  | cons x xs ih =>
    by_cases hx : p x = true
    · simpa [hx] using ih
    · simp [hx]

/-- White space at the end is only taken away as far as a firm front. -/
theorem trimEnd_append (h : EndsSolidly front) (cs : List Char) :
    Text.trimEnd (front ++ cs) = front ++ Text.trimEnd cs := by
  cases hf : front.reverse with
  | nil => rw [List.reverse_eq_nil_iff.1 hf]; rfl
  | cons c xs =>
    have hlast : front.getLast? = some c := by rw [← List.head?_reverse, hf]; rfl
    have hc := h c hlast
    rw [Text.trimEnd, Text.trimStart, List.reverse_append, hf, dropWhile_append _ hc,
      List.reverse_append, ← hf, List.reverse_reverse]
    rfl

/-- What the first tag of a template leaves and decides. -/
theorem segments?_eq (trim : Bool) (cs : List Char) :
    segments? trim cs =
      match (Opening.find (behind trim cs)).2 with
      | none => some [.text (String.ofList (Opening.find (behind trim cs)).1)]
      | some o =>
        let lead := (Opening.find (behind trim cs)).1
        match tag? o with
        | none => none
        | some (e, trim, rest) =>
          (segments? trim rest).map fun ss =>
            .text (String.ofList (if o.trim then Text.trimEnd lead else lead)) ::
              ((e.map Segment.placeholder).toList ++ ss) := by
  rw [segments?]
  split
  · rename_i lead hfind
    rw [hfind]
  · rename_i lead o hfind
    rw [hfind]
    dsimp only
    split <;> simp_all

/-- The segments of a template start with text, and a front in which no tag opens is put before that. -/
theorem segments?_append (h : settings.PlainBefore rest front) (hsolid : EndsSolidly front) :
    segments? false (front ++ rest) = none ∧ segments? false rest = none ∨
      ∃ s ss, segments? false rest = some (.text s :: ss) ∧
        segments? false (front ++ rest) = some (.text (String.ofList front ++ s) :: ss) := by
  have hfind := Opening.find_append h
  have hbehind : ∀ cs, behind false cs = cs := fun _ => rfl
  rw [segments?_eq, segments?_eq false rest, hbehind, hbehind, hfind]
  cases Opening.find rest with
  | mk lead opening =>
    cases opening with
    | none => exact .inr ⟨_, [], rfl, by rw [String.ofList_append]⟩
    | some o =>
      dsimp only
      cases tag? o with
      | none => exact .inl ⟨rfl, rfl⟩
      | some tag =>
        obtain ⟨e, trim, rest⟩ := tag
        dsimp only
        cases segments? trim rest with
        | none => exact .inl ⟨rfl, rfl⟩
        | some ss =>
          refine .inr ⟨_, _, rfl, ?_⟩
          rw [← String.ofList_append, trimEnd_append hsolid, ← apply_ite (front ++ ·)]
          rfl

theorem renderSegments_cons {x : Segment} {s : String} (hx : x.render context = .ok s)
    (ss : List Segment) :
    renderSegments context (x :: ss) = (renderSegments context ss).map (s ++ ·) := by
  rw [renderSegments, renderSegments, List.mapM_cons, hx]
  change (((ss.mapM _) >>= _ : Except _ _)).map _ = _
  cases ss.mapM (Segment.render context) with
  | error x => rfl
  | ok texts => simp [bind, Except.bind, pure, Except.pure, Except.map]

theorem renderSegments_text (context : Bindings) (s : String) (ss : List Segment) :
    renderSegments context (.text s :: ss) = (renderSegments context ss).map (s ++ ·) :=
  renderSegments_cons rfl ss

theorem render_small (context : Bindings) (text : String) :
    small.render settings context text = ofText text >>= renderSegments context := by
  simp only [small, if_true]

theorem small_keepsText : small.KeepsText settings := by
  intro _ _ context text h
  have hfind : Opening.find (behind false text.toList) = (text.toList, none) :=
    Opening.find_of_plain h
  rw [render_small, ofText, segments?_eq, hfind]
  change renderSegments context [.text (String.ofList text.toList)] = _
  rw [renderSegments_text, String.ofList_toList]
  exact congrArg Except.ok (String.append_empty)

theorem small_keepsFronts : small.KeepsFronts settings := by
  intro _ context front rest h hsolid
  rw [render_small, render_small, ofText, ofText, String.toList_append]
  obtain ⟨hnone, hnone'⟩ | ⟨s, ss, hsome, hsome'⟩ := segments?_append h hsolid
  · rw [hnone, hnone']
    rfl
  · rw [hsome, hsome', String.ofList_toList]
    change renderSegments context _ = (renderSegments context _).map _
    rw [renderSegments_text, renderSegments_text]
    cases renderSegments context ss with
    | error x => rfl
    | ok text => simp [Except.map, String.append_assoc]

end SqlComposer.Template
