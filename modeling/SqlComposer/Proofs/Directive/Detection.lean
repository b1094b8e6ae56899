import SqlComposer.Proofs.Directive.RoundTrip
import SqlComposer.Proofs.Token.Skipping

/-! Where a directive block is looked for: behind the blanks and comments in front of a script. What
opens a block there is tested twice, first by the characters behind a `/*` and its bracket, then by
the tokens that come of them. The two tests do not ask for the same. -/
namespace SqlComposer

namespace Comment
variable {cs : List Char}

/-- Whether the word in front of a text is the one of directive blocks. -/
def namesBlock (cs : List Char) : Bool := Text.lower (Cut.span isWordPart cs).taken = blockWord

/-- Whether a text starts with a bracket and the whole word of directive blocks. -/
def opensWhole : List Char → Bool
  | '[' :: cs => namesBlock cs
  | _ => false

/-- A whole word starts with its first characters. -/
theorem opensBlock_of_opensWhole (h : opensWhole cs = true) : opensBlock cs = true := by
  unfold opensWhole at h
  split at h
  · rename_i cs
    have hword : Text.lower (Cut.span isWordPart cs).taken = blockWord := of_decide_eq_true h
    have hlength := congrArg List.length hword
    rw [Text.length_lower] at hlength
    have hfront : cs.takeWhile isWordPart = cs.take (cs.takeWhile isWordPart).length :=
      List.prefix_iff_eq_take.1 (List.takeWhile_prefix _)
    have htake : cs.take blockWord.length = (Cut.span isWordPart cs).taken := by
      rw [← hlength]
      exact hfront.symm
    exact decide_eq_true (htake ▸ hword)
  · cases h

theorem isOpener_of_whole (h : isOpener opensWhole cs = true) : isOpener opensBlock cs = true := by
  unfold isOpener at h ⊢
  split at h
  · exact opensBlock_of_opensWhole h
  · cases h

/-- Whether a text starts like an opener, but with a longer word. -/
def isLonger (cs : List Char) : Bool := isOpener opensBlock cs && !isOpener opensWhole cs

theorem isOpener_eq_of_not_longer (h : isLonger cs = false) :
    isOpener opensWhole cs = isOpener opensBlock cs := by
  cases hw : isOpener opensWhole cs with
  | true => rw [isOpener_of_whole hw]
  | false => simpa [isLonger, hw] using h.symm

/-- Both tests skip the same, unless there is a comment that starts with a longer word. -/
theorem skipAll_opensWhole (h : isLonger (skipAll opensBlock cs) = false) :
    skipAll opensWhole cs = skipAll opensBlock cs := by
  fun_induction skipAll opensBlock cs with
  | case1 cs hs =>
    rw [skipAll_of_none]
    rw [skip?_congr (isOpener_eq_of_not_longer h), hs]
  | case2 cs rest hs ih =>
    have hnone := isOpener_of_skip? hs
    have hwhole : isOpener opensWhole cs = false := by
      cases hw : isOpener opensWhole cs with
      | false => rfl
      | true => rw [isOpener_of_whole hw] at hnone; cases hnone
    have hskip : skip? opensWhole cs = some rest := by
      rw [skip?_congr (hwhole.trans hnone.symm), hs]
    rw [skipAll_of_some hskip, ih h]

theorem exists_of_namesBlock (h : namesBlock cs = true) :
    ∃ x y rest, cs = x :: y :: rest ∧ isLetter x = true ∧ isWordPart y = true := by
  have hword : blockWord = 's' :: 'q' :: "lmbegin".toList := by decide
  rw [namesBlock, decide_eq_true_eq, hword] at h
  obtain ⟨x, xs, htaken, hx, h⟩ := List.map_eq_cons_iff.1 h
  obtain ⟨y, ys, rfl, -, -⟩ := List.map_eq_cons_iff.1 h
  have hwhole : x :: y :: ys ++ (Cut.span isWordPart cs).rest = cs := by
    rw [← htaken]
    exact Cut.whole_span isWordPart cs
  refine ⟨x, y, ys ++ (Cut.span isWordPart cs).rest, hwhole.symm, isLetter_of_toLower (hx ▸ rfl), ?_⟩
  have hy : y ∈ cs.takeWhile isWordPart := by
    change y ∈ (Cut.span isWordPart cs).taken
    simp [htaken]
  exact List.all_eq_true.1 List.all_takeWhile y hy

/-- Whether a text starts with a bracket of its own, and behind it, blanks and comments apart, with
the word of directive blocks. -/
def isBare : List Char → Bool
  | '[' :: cs => namesBlock (skipAll opensBlock cs)
  | _ => false

theorem skipAll_of_opensBlock (h : opensBlock ('[' :: cs) = true) : skipAll opensBlock cs = cs := by
  obtain ⟨x, y, rest, rfl, hx, -⟩ := exists_letters_of_opensBlock h
  exact skipAll_of_none (skip?_of_isLetter hx _)

/-- A block that starts with a longer word is none. -/
theorem not_of_isLonger (h : isLonger cs = true) :
    ¬ (isOpener opensWhole cs = true ∨ isBare cs = true) := by
  rw [isLonger, Bool.and_eq_true, Bool.not_eq_true'] at h
  obtain ⟨ho, hwhole⟩ := h
  obtain ⟨blanks, rest, rfl, -⟩ := exists_of_isOpener ho
  rw [hwhole]
  simp [isBare]

end Comment

theorem Keyword.ofWord?_eq_sqlmBegin_iff (cs : List Char) :
    ofWord? (String.ofList cs) = some .sqlmBegin ↔ Text.lower cs = Comment.blockWord := by
  have hlower : Text.lowerString (String.ofList cs) = String.ofList (Text.lower cs) := by
    rw [Text.lowerString, String.toList_ofList]
  constructor
  · intro h
    unfold ofWord? at h
    dsimp only at h
    split at h
    · rename_i k hfind
      cases h
      have hspelling := List.find?_some hfind
      rw [decide_eq_true_eq, hlower] at hspelling
      exact (String.toList_ofList.symm.trans (congrArg String.toList hspelling.symm))
    · split at h
      · cases h
      · cases h
  · intro h
    have hword : Text.lowerString (String.ofList cs) = Keyword.sqlmBegin.spelling := by
      rw [hlower, h]
      exact String.ofList_toList
    rw [ofWord?, hword]
    decide

namespace Cursor
variable {c : Cursor}

theorem kind_scan_eq_sqlmBegin_iff (hs : Comment.skip? Comment.opensBlock c.rest = none) :
    c.scan.1.kind = .keyword .sqlmBegin ↔
      Comment.namesBlock c.rest = true := by
  obtain ⟨ho, hk⟩ | ⟨-, hk, hfronts⟩ := kind_scan_cases hs
  · obtain ⟨blanks, rest, hrest, -⟩ := Comment.exists_of_isOpener ho
    refine iff_of_false (by simp [hk]) fun h => ?_
    obtain ⟨x, y, tail, hx, hletter, -⟩ := Comment.exists_of_namesBlock h
    rw [hrest] at hx
    cases hx
    cases hletter
  · have hword := Keyword.ofWord?_eq_sqlmBegin_iff (Cut.span isWordPart c.rest).taken
    rw [Comment.namesBlock, decide_eq_true_eq, ← hword]
    constructor
    · exact hfronts.keyword _
    · intro h
      obtain ⟨x, y, rest, hrest, hx, hy⟩ :=
        Comment.exists_of_namesBlock (decide_eq_true (hword.1 h))
      have hquote : ∀ z zs, c.rest ≠ z :: '\'' :: zs := by
        intro z zs he
        rw [hrest] at he
        cases he
        cases hy
      have hletter : c.rest.head?.any isLetter = true := by rw [hrest]; exact hx
      rw [hk, Lexeme.ofText, if_pos hletter, Lexeme.wordLike_eq_word hquote, Lexeme.kind_word, h]
      rfl

/-- The first token that matters is the word of directive blocks exactly if that word stands behind
the blanks and comments. -/
theorem head?_significant_iff (c : Cursor) :
    c.significant.head?.map (·.kind) = some (.keyword .sqlmBegin) ↔
      Comment.namesBlock (Comment.skipAll Comment.opensBlock c.rest) = true := by
  obtain ⟨d, hd, hsig⟩ := c.exists_significant_skipAll
  have hs : Comment.skip? Comment.opensBlock d.rest = none := by
    rw [hd]
    exact Comment.skip?_skipAll _ _
  rw [hsig, ← hd, ← kind_scan_eq_sqlmBegin_iff hs,
    head?_significant (kind_scan_ne_comment hs), Option.map_some, Option.some.injEq]

/-- A bracket and what stands behind it. -/
theorem exists_significant_bracket {cs : List Char} (h : Reads c.rest [(.punct '[', "[")] cs) :
    ∃ (t : Token) (d : Cursor), t.kind = .punct '[' ∧ d.rest = cs ∧
      c.significant = t :: d.significant := by
  obtain ⟨d, ts, hd, hts, hsig⟩ := h c rfl
  obtain ⟨t, ts, rfl, ht, hts⟩ := List.map_eq_cons_iff.1 hts
  cases List.map_eq_nil_iff.1 hts
  exact ⟨t, d, congrArg Prod.fst ht, hd, hsig⟩

end Cursor

theorem beginsBlock_cons_iff {t : Token} {ts : List Token} (ht : t.kind = .punct '[') :
    BeginsBlock (t :: ts) ↔ ts.head?.map (·.kind) = some (.keyword .sqlmBegin) := by
  cases ts with
  | nil => simp [BeginsBlock, kinds]
  | cons u us => simp [BeginsBlock, kinds, ht]

theorem not_beginsBlock_of_head? {t : Token} {ts : List Token} (h : ts.head? = some t)
    (ht : t.kind ≠ .punct '[') : ¬ BeginsBlock ts := by
  obtain ⟨us, rfl⟩ := List.head?_eq_some_iff.1 h
  intro hb
  exact ht (List.cons.inj hb).1

/-- Behind the first bracket the tokens begin like a block if the word stands there. -/
theorem Cursor.beginsBlock_of_bracket {c : Cursor} {cs : List Char}
    (h : Reads c.rest [(.punct '[', "[")] cs) :
    BeginsBlock c.significant ↔
      Comment.namesBlock (Comment.skipAll Comment.opensBlock cs) = true := by
  obtain ⟨t, d, ht, rfl, hsig⟩ := exists_significant_bracket h
  rw [hsig, beginsBlock_cons_iff ht, head?_significant_iff]

/-- Where nothing can be skipped, the tokens begin like a block exactly if there is an opener, or a
bracket and the word. -/
theorem Cursor.beginsBlock_significant_iff {c : Cursor}
    (hs : Comment.skip? Comment.opensBlock c.rest = none) : BeginsBlock c.significant ↔
      Comment.isOpener Comment.opensWhole c.rest = true ∨ Comment.isBare c.rest = true := by
  obtain ⟨ho, -⟩ | ⟨ho, -, hfronts⟩ := kind_scan_cases hs
  · obtain ⟨blanks, rest, hrest, hblank, hopens⟩ := Comment.exists_of_isOpener ho
    have hreads : Reads c.rest [(.punct '[', "[")] rest := by
      rw [hrest]
      exact .opener hblank hopens (.punct (by simp) (.done rest))
    have hspan : Cut.span isBlank (blanks ++ '[' :: rest) = ⟨blanks, '[' :: rest⟩ :=
      Cut.span_append hblank (by simp [isBlank])
    have hwhole : Comment.isOpener Comment.opensWhole c.rest = Comment.namesBlock rest := by
      rw [hrest, Comment.isOpener, hspan, Comment.opensWhole]
    have hbare : Comment.isBare c.rest = false := by rw [hrest]; rfl
    rw [beginsBlock_of_bracket hreads, Comment.skipAll_of_opensBlock hopens, hwhole, hbare]
    simp
  · have hwhole : Comment.isOpener Comment.opensWhole c.rest = false := by
      cases hw : Comment.isOpener Comment.opensWhole c.rest with
      | false => rfl
      | true => rw [Comment.isOpener_of_whole hw] at ho; cases ho
    by_cases hbracket : ∃ cs, c.rest = '[' :: cs
    · obtain ⟨cs, hrest⟩ := hbracket
      have hreads : Reads c.rest [(.punct '[', "[")] cs := by
        rw [hrest]
        exact .punct (by simp) (.done cs)
      rw [beginsBlock_of_bracket hreads, hwhole, hrest, Comment.isBare]
      simp
    · have hbare : Comment.isBare c.rest = false := by
        unfold Comment.isBare
        split
        · exact absurd ⟨_, ‹_›⟩ hbracket
        · rfl
      rw [hwhole, hbare]
      refine iff_of_false ?_ (by simp)
      exact not_beginsBlock_of_head? (head?_significant (kind_scan_ne_comment hs)) fun hk =>
        hbracket (hfronts.bracket hk)

/-- Tokens are read as a block: they are accepted exactly if a form of the grammar stands in front,
and then the directives say what it does. -/
structure ReadAsBlock (ts : List Token) (x : Except ParseError Directives) : Prop where
  complete : ∀ front description lines, front <+: ts → Script.Form front description lines →
    ∃ d, x = .ok d ∧ d.Says description lines
  sound : ∀ d, x = .ok d → ∃ front description lines, front <+: ts ∧
    Script.Form front description lines ∧ d.Says description lines

namespace Directives
variable {text : String}

theorem readAsBlock_of_begins (h : BeginsBlock (significant text)) :
    ReadAsBlock (significant text) (parse text) :=
  ⟨fun _ _ _ hfront hform => hform.parse hfront, fun _ hd => exists_form_of_begins h hd⟩

/-- That the block grammar is applied to a piece of a text. -/
def ReadsBlockAt (text : String) (rest : List Char) : Prop :=
  ∃ c : Cursor, c.rest = rest ∧ ReadAsBlock c.significant (parse text)

/-- Detection as it is described: a block is read where an opener stands behind blanks and comments,
and otherwise there are no directives. -/
def Detects (text : String) : Prop :=
  let rest := Comment.skipAll Comment.opensWhole (Cursor.ofText text).rest
  (Comment.isOpener Comment.opensWhole rest = true → ReadsBlockAt text rest) ∧
    (Comment.isOpener Comment.opensWhole rest = false → parse text = .ok {})

/-- Where a directive block is found. Blanks and complete comments are passed over; what is left is
read as a block if it starts with an opener, but also if it starts with a bare bracket and the word.
A comment that begins with a longer word is not passed over, and nothing behind it is found. In all
other cases there are no directives. -/
theorem parse_detects (text : String) :
    let script := (Cursor.ofText text).rest
    let rest := Comment.skipAll Comment.opensWhole script
    let longer := Comment.isLonger (Comment.skipAll Comment.opensBlock script)
    (longer = false ∧ (Comment.isOpener Comment.opensWhole rest = true ∨ Comment.isBare rest = true) →
      ReadsBlockAt text rest) ∧
    (longer = true ∨
      Comment.isOpener Comment.opensWhole rest = false ∧ Comment.isBare rest = false →
      parse text = .ok {}) := by
  intro script rest longer
  obtain ⟨c, hc, hsig⟩ := (Cursor.ofText text).exists_significant_skipAll
  have hs : Comment.skip? Comment.opensBlock c.rest = none := by
    rw [hc]
    exact Comment.skip?_skipAll _ _
  have hsig : significant text = c.significant := hsig
  have hbegins := Cursor.beginsBlock_significant_iff hs
  rw [← hsig] at hbegins
  have hrest : longer = false → rest = c.rest := fun h => by
    rw [hc]
    exact Comment.skipAll_opensWhole h
  constructor
  · rintro ⟨hlonger, hopen⟩
    rw [hrest hlonger] at hopen
    exact ⟨c, (hrest hlonger).symm, hsig ▸ readAsBlock_of_begins (hbegins.2 hopen)⟩
  · intro h
    refine parse_of_not_begins fun hb => ?_
    have hopen := hbegins.1 hb
    cases hlonger : longer with
    | true =>
      rw [hc] at hopen
      exact Comment.not_of_isLonger hlonger hopen
    | false =>
      obtain h | ⟨hnone, hbare⟩ := h
      · rw [hlonger] at h; cases h
      · rw [← hrest hlonger, hnone, hbare] at hopen
        simp at hopen

/-- A bare bracket is taken for a block, and a comment that begins with a longer word hides one. -/
theorem not_detects_bare_and_hidden :
    let b : Block := ⟨⟨[("a", "x")], List.pairwise_singleton ..⟩, []⟩
    let d : Directives := ⟨"", "", (PerEnvironment.const {}).set .development b⟩
    ¬ Detects "[sqlmbegin] [script] [dev] - a: \"x\" [sqlmend]" ∧
      ¬ Detects ("/*[sqlmbeginner*/" ++ d.print) := by
  intro b d
  constructor
  · rintro ⟨-, h⟩
    have hparse := h (by decide +kernel)
    have hsome : (parse "[sqlmbegin] [script] [dev] - a: \"x\" [sqlmend]").toOption = some d := by
      decide +kernel
    rw [hparse] at hsome
    exact absurd (Option.some.inj hsome) (by decide)
  · rintro ⟨h, -⟩
    obtain ⟨c, hc, hread⟩ := h (by decide +kernel)
    have hrest : c.rest = d.print.toList ++ [] := hc.trans (by decide +kernel)
    have hkeys : ∀ e, ∀ x ∈ (d.block e).entries, isWord x.key = true := by
      intro e
      cases e <;> decide
    obtain ⟨r, ts, -, hts, hsig⟩ := d.reads hkeys [] c hrest
    obtain ⟨d', hparse, hsays⟩ := hread.complete ts _ _ ⟨_, hsig.symm⟩ (form_of_words hts)
    have hnone : (parse ("/*[sqlmbeginner*/" ++ d.print)).toOption = some {} := by
      decide +kernel
    rw [hparse] at hnone
    cases hnone
    have hsame := hsays.unique d.says_lines
    exact absurd hsame (by decide)

end Directives

end SqlComposer
