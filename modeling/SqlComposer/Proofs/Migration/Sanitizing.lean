import Mathlib.Data.List.SplitBy
import SqlComposer.Migration.Basic

/-! What is left of a table's name in a flag. A text falls into runs of characters that are kept and
runs of others, and of each of these one `_` is left; so a text that is put together may be sanitized
in parts first, wherever it is cut. -/
namespace SqlComposer.Flag
variable {c : Char} {cs run : List Char} {runs : List (List Char)}

/-- The runs of a text: pieces of one sort, none of them empty, and no two neighbours of the same. -/
structure IsRuns (runs : List (List Char)) (cs : List Char) : Prop where
  whole : runs.flatten = cs
  ne_nil : ∀ run ∈ runs, run ≠ []
  uniform : ∀ run ∈ runs, ∀ c ∈ run, ∀ d ∈ run, isPlain c = isPlain d
  maximal : runs.IsChain fun run next => ∀ c ∈ run.getLast?, ∀ d ∈ next.head?, isPlain c ≠ isPlain d

/-- What is left of a run. -/
def remnant (run : List Char) : List Char := if run.all isPlain then run else ['_']

/-- A text of letters, digits and single `_`. -/
structure IsTidy (cs : List Char) : Prop where
  plain : ∀ c ∈ cs, isPlain c = true ∨ c = '_'
  single : cs.IsChain fun c d => ¬ (c = '_' ∧ d = '_')

theorem isPlain_iff (c : Char) : isPlain c = true ↔
    ('A' ≤ c ∧ c ≤ 'Z') ∨ ('a' ≤ c ∧ c ≤ 'z') ∨ ('0' ≤ c ∧ c ≤ '9') := by
  change (decide ('A' ≤ c ∧ c ≤ 'Z') || (decide ('a' ≤ c) && decide (c ≤ 'z')) ||
    (decide ('0' ≤ c) && decide (c ≤ '9'))) = true ↔ _
  simp only [Bool.or_eq_true, Bool.and_eq_true, decide_eq_true_eq, or_assoc]

theorem exists_isRuns (cs : List Char) : ∃ runs, IsRuns runs cs := by
  refine ⟨cs.splitBy fun c d => isPlain c == isPlain d, List.flatten_splitBy _ _,
    fun run => List.ne_nil_of_mem_splitBy, fun run hrun => ?_, ?_⟩
  · have hchain : (run.map isPlain).IsChain (· = ·) :=
      (List.isChain_map isPlain).2 ((List.isChain_of_mem_splitBy hrun).imp fun c d => beq_iff_eq.1)
    have hsame := hchain.pairwise.forall_of_forall fun x _ => rfl
    intro c hc d hd
    exact hsame (List.mem_map_of_mem hc) (List.mem_map_of_mem hd)
  · refine (List.isChain_getLast_head_splitBy _ cs).imp fun run next h c hc d hd => ?_
    obtain ⟨hrun, hnext, hdiffer⟩ := h
    rw [List.getLast?_eq_some_getLast hrun] at hc
    rw [List.head?_eq_some_head hnext] at hd
    cases hc
    cases hd
    exact beq_eq_false_iff_ne.1 hdiffer

theorem collapse_cons_plain (hc : isPlain c = true) (inRun : Bool) (cs : List Char) :
    collapse inRun (c :: cs) = c :: collapse false cs := by
  rw [collapse, if_pos hc]

theorem collapse_cons_other (hc : ¬ isPlain c = true) (cs : List Char) :
    collapse false (c :: cs) = '_' :: collapse true cs := by
  rw [collapse, if_neg hc, if_neg Bool.false_ne_true]

theorem collapse_cons_within (hc : ¬ isPlain c = true) (cs : List Char) :
    collapse true (c :: cs) = collapse true cs := by
  rw [collapse, if_neg hc, if_pos rfl]

theorem collapse_plain (h : ∀ c ∈ run, isPlain c = true) (cs : List Char) :
    collapse false (run ++ cs) = run ++ collapse false cs := by
  induction run with
  | nil => rfl
  | cons c run ih =>
    obtain ⟨hc, h⟩ := List.forall_mem_cons.1 h
    rw [List.cons_append, collapse_cons_plain hc, ih h, List.cons_append]

theorem collapse_within (h : ∀ c ∈ run, ¬ isPlain c = true) (cs : List Char) :
    collapse true (run ++ cs) = collapse true cs := by
  induction run with
  | nil => rfl
  | cons c run ih =>
    obtain ⟨hc, h⟩ := List.forall_mem_cons.1 h
    rw [List.cons_append, collapse_cons_within hc, ih h]

/-- Before a character that is kept it does not matter whether a run has come to its end. -/
theorem collapse_of_head (h : ∀ c ∈ cs.head?, isPlain c = true) :
    collapse true cs = collapse false cs := by
  cases cs with
  | nil => rfl
  | cons c cs => rw [collapse_cons_plain (h c rfl), collapse_cons_plain (h c rfl)]

/-- Behind a run of others a character that is kept comes next. -/
theorem isPlain_head_flatten (hne : ∀ run ∈ runs, run ≠ []) (hc : ¬ isPlain c = true)
    (h : ∀ next ∈ runs.head?, ∀ d ∈ next.head?, isPlain c ≠ isPlain d) :
    ∀ d ∈ runs.flatten.head?, isPlain d = true := by
  intro d hd
  cases runs with
  | nil => cases hd
  | cons next runs =>
    obtain ⟨e, next, rfl⟩ := List.exists_cons_of_ne_nil (hne next List.mem_cons_self)
    cases hd
    have hdiffer := h _ rfl d rfl
    rw [eq_false_of_ne_true hc] at hdiffer
    exact eq_true_of_ne_false hdiffer.symm

/-- Each run leaves its remnant. -/
theorem IsRuns.collapse_eq (h : IsRuns runs cs) : collapse false cs = runs.flatMap remnant := by
  obtain ⟨rfl, hne, huniform, hmaximal⟩ := h
  induction runs with
  | nil => rfl
  | cons run runs ih =>
    obtain ⟨hrun, hbehind⟩ := List.forall_mem_cons.1 hne
    obtain ⟨hsame, hsorts⟩ := List.forall_mem_cons.1 huniform
    obtain ⟨hnext, hchain⟩ := List.isChain_cons.1 hmaximal
    obtain ⟨c, others, rfl⟩ := List.exists_cons_of_ne_nil hrun
    have hsort : ∀ d ∈ c :: others, isPlain d = isPlain c := fun d hd =>
      hsame d hd c List.mem_cons_self
    rw [List.flatten_cons, List.flatMap_cons, ← ih hbehind hsorts hchain, remnant]
    by_cases hc : isPlain c = true
    · have hplain : ∀ d ∈ c :: others, isPlain d = true := fun d hd => (hsort d hd).trans hc
      rw [collapse_plain hplain, if_pos (List.all_eq_true.2 hplain)]
    · have hother : ∀ d ∈ c :: others, ¬ isPlain d = true := fun d hd => hsort d hd ▸ hc
      have hhead : ∀ d ∈ runs.flatten.head?, isPlain d = true :=
        isPlain_head_flatten hbehind (hother _ (List.getLast_mem hrun)) fun next h =>
          hnext next h _ (List.getLast?_eq_some_getLast hrun)
      rw [List.cons_append, collapse_cons_other hc,
        collapse_within (List.forall_mem_cons.1 hother).2, collapse_of_head hhead,
        if_neg (by simp [hc])]
      rfl

/-! Tidy texts. -/

theorem head?_collapse_true (cs : List Char) : ∀ d ∈ (collapse true cs).head?, d ≠ '_' := by
  induction cs with
  | nil => simp [collapse]
  | cons c cs ih =>
    rw [collapse]
    split
    · next hc =>
      intro d hd
      cases hd
      rintro rfl
      exact absurd hc (by decide)
    · exact ih

theorem isTidy_collapse (inRun : Bool) (cs : List Char) : IsTidy (collapse inRun cs) := by
  fun_induction collapse inRun cs with
  | case1 => exact ⟨by simp, List.isChain_nil⟩
  | case2 inRun c cs hc ih =>
    refine ⟨List.forall_mem_cons.2 ⟨.inl hc, ih.plain⟩, List.isChain_cons.2 ⟨?_, ih.single⟩⟩
    rintro d - ⟨rfl, -⟩
    exact absurd hc (by decide)
  | case3 c cs hc ih => exact ih
  | case4 inRun c cs hc hrun ih =>
    refine ⟨List.forall_mem_cons.2 ⟨.inr rfl, ih.plain⟩, List.isChain_cons.2 ⟨?_, ih.single⟩⟩
    exact fun d hd h => head?_collapse_true cs d hd h.2

theorem collapse_of_isTidy (h : IsTidy cs) : collapse false cs = cs := by
  induction cs with
  | nil => rfl
  | cons c cs ih =>
    obtain ⟨hc, hplain⟩ := List.forall_mem_cons.1 h.plain
    obtain ⟨hnext, hsingle⟩ := List.isChain_cons.1 h.single
    have ih := ih ⟨hplain, hsingle⟩
    by_cases hkept : isPlain c = true
    · rw [collapse_cons_plain hkept, ih]
    · obtain rfl := hc.resolve_left hkept
      have hhead : ∀ d ∈ cs.head?, isPlain d = true := fun d hd =>
        (hplain d (List.mem_of_mem_head? hd)).resolve_right fun h => hnext d hd ⟨rfl, h⟩
      rw [collapse_cons_other hkept, collapse_of_head hhead, ih]

/-! A text that is cut. -/

/-- The front of a text may be collapsed first, unless that takes it to be within a run and it is not. -/
theorem collapse_collapse_append (inside : Bool) {inRun : Bool} (h : inside = true → inRun = true)
    (front back : List Char) :
    collapse inRun (collapse inside front ++ back) = collapse inRun (front ++ back) := by
  fun_induction collapse inside front generalizing inRun with
  | case1 => rfl
  | case2 inside c cs hc ih =>
    rw [List.cons_append, List.cons_append, collapse_cons_plain hc, collapse_cons_plain hc, ih nofun]
  | case3 c cs hc ih =>
    obtain rfl := h rfl
    rw [List.cons_append, collapse_cons_within hc, ih h]
  | case4 inside c cs hc hinside ih =>
    have hscore : ¬ isPlain '_' = true := by decide
    rw [List.cons_append, List.cons_append, collapse, if_neg hscore, collapse, if_neg hc,
      ih fun _ => rfl]

/-- So may its back, whether or not the front ends within a run. -/
theorem collapse_append_collapse (inRun : Bool) (front back : List Char) :
    collapse inRun (front ++ collapse false back) = collapse inRun (front ++ back) := by
  induction front generalizing inRun with
  | nil =>
    have h := collapse_collapse_append false (nofun : _ → inRun = true) back []
    rwa [List.append_nil, List.append_nil] at h
  | cons c front ih =>
    rw [List.cons_append, List.cons_append, collapse, collapse, ih, ih]

theorem toList_sanitize (text : String) :
    (sanitize text).toList = collapse false text.toList := String.toList_ofList

theorem sanitize_of_isTidy {text : String} (h : IsTidy text.toList) : sanitize text = text := by
  rw [sanitize, collapse_of_isTidy h, String.ofList_toList]

/-- What is left of a text is one `_` for each of its longest runs of characters other than ASCII
letters and digits, and all else as it stands. That is a tidy text, and tidy texts are left as they
are; and of texts put together the same is left as of what is left of them. -/
theorem sanitize_tidies (text behind : String) :
    (∀ c, isPlain c = true ↔
      ('A' ≤ c ∧ c ≤ 'Z') ∨ ('a' ≤ c ∧ c ≤ 'z') ∨ ('0' ≤ c ∧ c ≤ '9')) ∧
    (∃ runs, IsRuns runs text.toList) ∧
    (∀ runs, IsRuns runs text.toList → (sanitize text).toList = runs.flatMap remnant) ∧
    IsTidy (sanitize text).toList ∧
    (sanitize text = text ↔ IsTidy text.toList) ∧
    sanitize (sanitize text) = sanitize text ∧
    sanitize (text ++ behind) = sanitize (sanitize text ++ sanitize behind) := by
  have htidy : ∀ text, IsTidy (sanitize text).toList := fun text => by
    rw [toList_sanitize]
    exact isTidy_collapse false text.toList
  refine ⟨isPlain_iff, exists_isRuns _, fun runs h => ?_, htidy text, ⟨fun h => ?_,
    sanitize_of_isTidy⟩, sanitize_of_isTidy (htidy text), ?_⟩
  · rw [toList_sanitize, h.collapse_eq]
  · exact h ▸ htidy text
  · refine String.toList_inj.1 ?_
    simp only [toList_sanitize, String.toList_append]
    rw [collapse_append_collapse, collapse_collapse_append false nofun]

/-- A run may reach over the cut, and a letter that is not of ASCII belongs to it. -/
example : sanitize ("proj-x." ++ "_édition") = "proj_x_dition" := by decide

end SqlComposer.Flag
