import SqlComposer.Proofs.Token.Reading

/-! Skipping blanks and comments in front of a text. What opens a directive block is no comment, so
skipping depends on a test for that. Where nothing can be skipped, the next token stands in front. -/
namespace SqlComposer

namespace Comment
variable {opens opens' : List Char → Bool} {c : Char} {cs rest : List Char}

/-- What stands behind the blank or the complete comment in front. A block comment in which a block
is opened is none. -/
def skip? (opens : List Char → Bool) : List Char → Option (List Char)
  | '#' :: cs => some (line cs).rest
  | '-' :: '-' :: cs => some (line cs).rest
  | '/' :: '/' :: cs => some (line cs).rest
  | '/' :: '*' :: cs =>
    if opens (Cut.span isBlank cs).rest then none else (block? cs).map (·.rest)
  | c :: cs => if isBlank c then some cs else none
  | [] => none

theorem length_rest_le {cut : Cut} (h : cut.whole = cs) : cut.rest.length ≤ cs.length := by
  rw [← h, Cut.whole, List.length_append]
  exact Nat.le_add_left ..

theorem length_skip?_lt (h : skip? opens cs = some rest) : rest.length < cs.length := by
  have hline : ∀ cs, (line cs).rest.length ≤ cs.length := fun cs => length_rest_le (whole_line cs)
  unfold skip? at h
  split at h
  case h_1 cs | h_2 cs | h_3 cs =>
    cases h
    have := hline cs
    simp only [List.length_cons]
    omega
  case h_4 cs =>
    split at h
    · cases h
    · obtain ⟨cut, hcut, rfl⟩ := Option.map_eq_some_iff.1 h
      have := length_rest_le (whole_of_block? hcut)
      simp only [List.length_cons]
      omega
  case h_5 =>
    split at h
    · cases h; simp
    · cases h
  case h_6 => cases h

/-- What is left behind all blanks and complete comments in front. -/
def skipAll (opens : List Char → Bool) (cs : List Char) : List Char :=
  match _h : skip? opens cs with
  | none => cs
  | some rest => skipAll opens rest
termination_by cs.length
decreasing_by exact length_skip?_lt _h

theorem skipAll_of_none (h : skip? opens cs = none) : skipAll opens cs = cs := by
  rw [skipAll]
  split <;> simp_all

theorem skipAll_of_some (h : skip? opens cs = some rest) : skipAll opens cs = skipAll opens rest := by
  rw [skipAll]
  split <;> simp_all

/-- Nothing more can be skipped behind what was. -/
theorem skip?_skipAll (opens : List Char → Bool) (cs : List Char) :
    skip? opens (skipAll opens cs) = none := by
  fun_induction skipAll opens cs with
  | case1 cs h => exact h
  | case2 cs rest h ih => exact ih

/-- Whether a text starts with a `/*` and blanks behind which a block is opened. -/
def isOpener (opens : List Char → Bool) : List Char → Bool
  | '/' :: '*' :: cs => opens (Cut.span isBlank cs).rest
  | _ => false

theorem skip?_blank (h : isBlank c = true) (cs : List Char) : skip? opens (c :: cs) = some cs := by
  simp only [isBlank, Bool.or_eq_true, decide_eq_true_eq] at h
  obtain ((rfl | rfl) | rfl) | rfl := h <;> rfl

theorem skip?_of_isLetter (h : isLetter c = true) (cs : List Char) :
    skip? opens (c :: cs) = none := by
  obtain ⟨hblank, hslash⟩ := isBlank_of_isLetter h
  unfold skip?
  split <;> simp_all [isLetter]

theorem skip?_congr (h : isOpener opens cs = isOpener opens' cs) :
    skip? opens cs = skip? opens' cs := by
  unfold skip?
  split
  case h_4 cs =>
    have h : opens (Cut.span isBlank cs).rest = opens' (Cut.span isBlank cs).rest := h
    rw [h]
  all_goals rfl

theorem isOpener_of_skip? (h : skip? opens cs = some rest) : isOpener opens cs = false := by
  unfold isOpener
  split
  · rename_i cs
    cases ho : opens (Cut.span isBlank cs).rest with
    | false => rfl
    | true => simp [skip?, ho] at h
  · rfl

/-- An opener has a bracket behind its blanks. -/
theorem exists_of_isOpener (h : isOpener opensBlock cs = true) : ∃ blanks rest,
    cs = '/' :: '*' :: (blanks ++ '[' :: rest) ∧ (∀ c ∈ blanks, isBlank c = true) ∧
      opensBlock ('[' :: rest) = true := by
  unfold isOpener at h
  split at h
  · rename_i cs
    have hwhole := Cut.whole_span isBlank cs
    have hblank : ∀ c ∈ (Cut.span isBlank cs).taken, isBlank c = true := fun c hc =>
      List.all_eq_true.1 List.all_takeWhile c hc
    obtain ⟨rest, hrest⟩ := exists_of_opensBlock h
    rw [Cut.whole, hrest] at hwhole
    exact ⟨_, rest, by rw [hwhole], hblank, hrest ▸ h⟩
  · cases h

theorem gap_of_skip?_eq_none (hs : skip? opensBlock cs = none) (ho : isOpener opensBlock cs = false) :
    gap cs = .nothing cs := by
  cases cs with
  | nil => rfl
  | cons c cs =>
    cases hb : isBlank c with
    | true => rw [skip?_blank hb] at hs; cases hs
    | false =>
      rw [gap_of_not_blank hb]
      unfold opener
      split
      · rename_i cs hcs
        cases hcs
        have ho : opensBlock (Cut.span isBlank cs).rest = false := ho
        simp [ho]
      · rfl

end Comment

/-- The kinds that neither a comment nor a word of directives nor a single character has. -/
def TokenKind.IsInert (k : TokenKind) : Prop :=
  k ≠ .comment ∧ (∀ w, k ≠ .keyword w) ∧ ∀ c, k ≠ .punct c

namespace Lexeme
variable {cs : List Char}

theorem kind_word (cs : List Char) : (word cs).kind =
    (Keyword.ofWord? (String.ofList (Cut.span isWordPart cs).taken)).elim .identifier .keyword :=
  rfl

theorem isInert_number (cs : List Char) : (number cs).kind.IsInert := by
  have hkind := kind_number_cases cs
  simp only [List.mem_cons, List.not_mem_nil, or_false] at hkind
  obtain hkind | hkind | hkind | hkind := hkind <;> simp [hkind, TokenKind.IsInert]

theorem isInert_string (quote : Char) (cs : List Char) : (string quote cs).kind.IsInert := by
  unfold string
  dsimp only
  split <;> simp [TokenKind.IsInert]

theorem isInert_quotedIdentifier (cs : List Char) : (quotedIdentifier cs).kind.IsInert := by
  unfold quotedIdentifier
  dsimp only
  split
  · simp [TokenKind.IsInert]
  · split <;> simp [TokenKind.IsInert]

/-- What the lexeme in front is where nothing can be skipped: no comment, a bracket only where there
is one, and a keyword only where there is a word. -/
structure Fronts (cs : List Char) (k : TokenKind) : Prop where
  comment : k ≠ .comment
  bracket : k = .punct '[' → ∃ rest, cs = '[' :: rest
  keyword : ∀ w, k = .keyword w →
    Keyword.ofWord? (String.ofList (Cut.span isWordPart cs).taken) = some w

theorem fronts_of_isInert {k : TokenKind} (h : k.IsInert) : Fronts cs k :=
  ⟨h.1, fun hk => absurd hk (h.2.2 _), fun w hk => absurd hk (h.2.1 w)⟩

theorem fronts_word (cs : List Char) : Fronts cs (word cs).kind := by
  rw [kind_word]
  cases hw : Keyword.ofWord? (String.ofList (Cut.span isWordPart cs).taken) with
  | none => exact fronts_of_isInert (by simp [TokenKind.IsInert])
  | some w =>
    refine ⟨by simp, by simp, fun v hv => ?_⟩
    cases hv
    exact hw

theorem fronts_wordLike (cs : List Char) : Fronts cs (wordLike cs).kind := by
  obtain hw | hkind := kind_wordLike_cases cs
  · rw [hw]
    exact fronts_word cs
  · simp only [List.mem_cons, List.not_mem_nil, or_false] at hkind
    obtain hkind | hkind | hkind | hkind := hkind <;>
      exact fronts_of_isInert (by simp [hkind, TokenKind.IsInert])

theorem fronts_single (c : Char) (cs : List Char) : Fronts (c :: cs) (single c cs).kind := by
  unfold single raw
  dsimp only
  split
  · refine ⟨by simp, fun hk => ?_, by simp⟩
    cases hk
    exact ⟨cs, rfl⟩
  · exact fronts_of_isInert (by simp [TokenKind.IsInert])

theorem fronts_symbol {opens : List Char → Bool} (hskip : Comment.skip? opens cs = none)
    (hopen : Comment.isOpener opens cs = false) : Fronts cs (symbol cs).kind := by
  unfold symbol
  split
  case h_2 | h_3 | h_4 => simp [Comment.skip?] at hskip
  case h_5 cs =>
    have hopen : opens (Cut.span isBlank cs).rest = false := hopen
    have hblock : Comment.block? cs = none := by simpa [Comment.skip?, hopen] using hskip
    rw [blockComment, hblock]
    exact fronts_of_isInert (by simp [raw, TokenKind.IsInert])
  case h_6 | h_7 => exact fronts_of_isInert (isInert_string _ _)
  case h_8 => exact fronts_of_isInert (isInert_quotedIdentifier _)
  case h_19 => exact fronts_single _ _
  -- all others are operators, arguments and the end of the input
  all_goals exact fronts_of_isInert (by simp [operator, raw, TokenKind.IsInert])

theorem fronts_ofText {opens : List Char → Bool} (hskip : Comment.skip? opens cs = none)
    (hopen : Comment.isOpener opens cs = false) : Fronts cs (ofText cs).kind := by
  unfold ofText
  split
  · exact fronts_wordLike cs
  · split
    · exact fronts_of_isInert (isInert_number cs)
    · exact fronts_symbol hskip hopen

end Lexeme

/-- What is skipped is a blank, or a comment that stands in front. -/
theorem Comment.skip?_cases {cs rest : List Char} (h : skip? opensBlock cs = some rest) :
    (∃ b, isBlank b = true ∧ cs = b :: rest) ∨
      (gap cs = .nothing cs ∧ ∃ cut, Lexeme.ofText cs = .raw .comment cut ∧ cut.rest = rest) := by
  have hopen := isOpener_of_skip? h
  unfold skip? at h
  split at h
  case h_1 | h_2 =>
    cases h
    exact .inr ⟨gap_eq_nothing rfl (by decide), _, rfl, rfl⟩
  case h_3 =>
    cases h
    exact .inr ⟨rfl, _, rfl, rfl⟩
  case h_4 cs =>
    have hopen : opensBlock (Cut.span isBlank cs).rest = false := hopen
    rw [hopen] at h
    obtain ⟨body, hbody, rfl⟩ := Option.map_eq_some_iff.1 h
    have hgap : gap ('/' :: '*' :: cs) = .nothing ('/' :: '*' :: cs) := by
      rw [gap_of_not_blank rfl, opener, hopen]
      rfl
    have hlexeme : Lexeme.ofText ('/' :: '*' :: cs) = .raw .comment ((body.cons '*').cons '/') := by
      change Lexeme.blockComment cs = _
      rw [Lexeme.blockComment, hbody]
    exact .inr ⟨hgap, _, hlexeme, rfl⟩
  case h_5 =>
    split at h
    · cases h
      exact .inl ⟨_, ‹_›, rfl⟩
    · cases h
  case h_6 => cases h

theorem Reads.skip {cs rest : List Char} (h : Comment.skip? Comment.opensBlock cs = some rest) :
    Reads cs [] rest := by
  obtain ⟨b, hb, rfl⟩ | ⟨hgap, cut, hlexeme, rfl⟩ := Comment.skip?_cases h
  · exact .blank hb (.done rest)
  · exact .comment hgap hlexeme (.done cut.rest)

/-- What can be skipped has no tokens that matter. -/
theorem Reads.skipAll (cs : List Char) : Reads cs [] (Comment.skipAll Comment.opensBlock cs) := by
  fun_induction Comment.skipAll Comment.opensBlock cs with
  | case1 cs h => exact .done cs
  | case2 cs rest h ih => exact (Reads.skip h).append ih

namespace Cursor
variable {c : Cursor}

theorem head?_significant (h : c.scan.1.kind ≠ .comment) : c.significant.head? = some c.scan.1 := by
  by_cases hend : c.scan.1.kind = .endOfInput
  · rw [significant, run, if_pos hend]
    simp [h]
  · rw [significant_of_token h hend]
    rfl

theorem exists_significant_skipAll (c : Cursor) : ∃ d : Cursor,
    d.rest = Comment.skipAll Comment.opensBlock c.rest ∧ c.significant = d.significant := by
  obtain ⟨d, ts, hd, hts, hsig⟩ := Reads.skipAll c.rest c rfl
  cases List.map_eq_nil_iff.1 hts
  exact ⟨d, hd, hsig⟩

/-- Where nothing can be skipped, the next token is the bracket of an opener, or what stands there. -/
theorem kind_scan_cases (hs : Comment.skip? Comment.opensBlock c.rest = none) :
    (Comment.isOpener Comment.opensBlock c.rest = true ∧ c.scan.1.kind = .punct '[') ∨
      (Comment.isOpener Comment.opensBlock c.rest = false ∧
        c.scan.1.kind = (Lexeme.ofText c.rest).kind ∧ Lexeme.Fronts c.rest c.scan.1.kind) := by
  rw [kind_scan]
  cases ho : Comment.isOpener Comment.opensBlock c.rest with
  | true =>
    obtain ⟨blanks, rest, hrest, hblank, hopens⟩ := Comment.exists_of_isOpener ho
    rw [hrest, Comment.gap_opener hblank hopens]
    exact .inl ⟨rfl, rfl⟩
  | false =>
    rw [Comment.gap_of_skip?_eq_none hs ho]
    exact .inr ⟨rfl, rfl, Lexeme.fronts_ofText hs ho⟩

theorem kind_scan_ne_comment (hs : Comment.skip? Comment.opensBlock c.rest = none) :
    c.scan.1.kind ≠ .comment := by
  obtain ⟨-, h⟩ | ⟨-, -, h⟩ := kind_scan_cases hs
  · simp [h]
  · exact h.comment

end Cursor
end SqlComposer
