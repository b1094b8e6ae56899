import SqlComposer.Proofs.Token.Locality
import SqlComposer.Proofs.Token.Tiling

/-! Text put in behind a token. The tokens before it stay what they are, none of them depends on more
than the blank that is now behind it; and a gap has no tokens of its own. So all tokens keep their
meaning, in other places. -/
namespace SqlComposer
variable {rest' : List Char}

namespace Comment
variable {bs cs : List Char}

theorem gap_blanks (h : ∀ c ∈ bs, isBlank c = true) (cs : List Char) :
    gap (bs ++ cs) = ⟨bs ++ (gap cs).taken, (gap cs).rest⟩ := by
  induction bs with
  | nil => rfl
  | cons c bs ih =>
    obtain ⟨hc, h⟩ := List.forall_mem_cons.1 h
    rw [List.cons_append, gap_blank hc, ih h]
    rfl

/-- Behind a gap of blanks there is no other gap. -/
theorem gap_rest (h : ∀ c ∈ (gap cs).taken, isBlank c = true) :
    gap (gap cs).rest = .nothing (gap cs).rest := by
  have hagain := gap_blanks h (gap cs).rest
  rw [show (gap cs).taken ++ (gap cs).rest = cs from whole_gap cs] at hagain
  have htaken : (gap (gap cs).rest).taken = [] :=
    List.self_eq_append_right.1 (congrArg Cut.taken hagain)
  have hrest : (gap (gap cs).rest).rest = (gap cs).rest := (congrArg Cut.rest hagain).symm
  calc gap (gap cs).rest = ⟨(gap (gap cs).rest).taken, (gap (gap cs).rest).rest⟩ := rfl
    _ = .nothing (gap cs).rest := by rw [htaken, hrest]; rfl

theorem isBlank_of_mem_gap (h : '/' ∉ (gap cs).taken) : ∀ c ∈ (gap cs).taken, isBlank c = true := by
  obtain hb | ⟨_, _, htaken, -⟩ := isGap_iff.1 (isGap_gap cs)
  · exact hb
  · exact absurd (by simp [htaken]) h

theorem opensBlock_of_gap (h : gap ('/' :: '*' :: cs) = .nothing ('/' :: '*' :: cs)) :
    opensBlock (Cut.span isBlank cs).rest = false := by
  cases ho : opensBlock (Cut.span isBlank cs).rest with
  | false => rfl
  | true =>
    rw [gap_of_not_blank rfl, opener, if_pos ho] at h
    cases h

/-- A token with no gap before it has none when the text behind it is replaced: a comment opens a
block, or does not, by what it says. -/
theorem gap_token (hgap : gap cs = .nothing cs) (hs : (Lexeme.ofText cs).Settled)
    (h : Replaces (Lexeme.ofText cs).cut.rest rest') :
    gap ((Lexeme.ofText cs).cut.taken ++ rest') =
      .nothing ((Lexeme.ofText cs).cut.taken ++ rest') := by
  have hcs : cs ≠ [] := mt (Lexeme.kind_ofText_eq_endOfInput_iff cs).2 hs.endOfInput
  have hne := Lexeme.taken_ofText_ne_nil hcs
  have hwhole : (Lexeme.ofText cs).cut.taken ++ (Lexeme.ofText cs).cut.rest = cs :=
    Lexeme.whole_ofText cs
  by_cases hcomment : ∃ xs, (Lexeme.ofText cs).cut.taken ++ rest' = '/' :: '*' :: xs
  · obtain ⟨xs, hxs⟩ := hcomment
    obtain ⟨ys, hys⟩ := h.second hne hxs rfl
    rw [hwhole] at hys
    subst hys
    cases hbody : block? ys with
    | none =>
      refine absurd ?_ (hs.fault .unterminatedComment)
      change (Lexeme.blockComment ys).kind = _
      rw [Lexeme.blockComment, hbody]
      rfl
    | some body =>
      have hcut : Lexeme.ofText ('/' :: '*' :: ys) = .raw .comment ((body.cons '*').cons '/') := by
        change Lexeme.blockComment ys = _
        rw [Lexeme.blockComment, hbody]
      obtain ⟨text, htext⟩ := exists_end_of_block? hbody
      have hopen := opensBlock_of_gap hgap
      rw [← whole_of_block? hbody, Cut.whole, htext, List.append_assoc] at hopen
      rw [List.cons_append, opensBlock_comment] at hopen
      rw [hcut]
      change gap ('/' :: '*' :: (body.taken ++ rest')) = .nothing ('/' :: '*' :: (body.taken ++ rest'))
      rw [htext, List.append_assoc]
      exact gap_comment hopen _
  · obtain ⟨c, ts, ht⟩ := List.exists_cons_of_ne_nil hne
    have hblank : isBlank c = false := by
      cases hb : isBlank c with
      | false => rfl
      | true =>
        rw [← hwhole, ht, List.cons_append, gap_blank hb] at hgap
        cases congrArg Cut.taken hgap
    have hnone := opener_of_not fun xs hxs => hcomment ⟨xs, hxs⟩
    rw [ht, List.cons_append] at hnone ⊢
    rw [gap_of_not_blank hblank, hnone]

/-- A gap stays the same when the text behind its token is replaced, if it may still stand there. -/
theorem gap_append (hs : (Lexeme.ofText (gap cs).rest).Settled)
    (h : Replaces (Lexeme.ofText (gap cs).rest).cut.rest rest')
    (hgap : IsGap (gap cs).taken ((Lexeme.ofText (gap cs).rest).cut.taken ++ rest')) :
    gap ((gap cs).taken ++ ((Lexeme.ofText (gap cs).rest).cut.taken ++ rest')) =
      ⟨(gap cs).taken, (Lexeme.ofText (gap cs).rest).cut.taken ++ rest'⟩ := by
  generalize htaken : (gap cs).taken = taken at hgap ⊢
  obtain hb | ⟨bs, inner, rfl, hb, hi, ho⟩ := isGap_iff.1 hgap
  · rw [gap_blanks hb, gap_token (gap_rest (htaken ▸ hb)) hs h]
    simp only [Cut.nothing, List.append_nil]
  · rw [List.append_assoc, gap_blanks hb, List.cons_append, List.cons_append, gap_opener hi ho]

/-- The word that opens a block is in the token in front. -/
theorem opensBlock_token (h : opensBlock ('[' :: cs) = true) :
    opensBlock ('[' :: ((gap cs).taken ++ (Lexeme.ofText (gap cs).rest).cut.taken)) = true := by
  have hword : Text.lower (cs.take blockWord.length) = blockWord := of_decide_eq_true h
  have hletter := isLetter_of_opensBlock h
  have hgap : gap cs = .nothing cs ∧ Lexeme.ofText cs = Lexeme.word cs := by
    obtain ⟨x, y, rest, rfl, hx, hy⟩ := exists_letters_of_opensBlock h
    obtain ⟨hblank, hslash⟩ := isBlank_of_isLetter hx
    have hquote : ∀ z zs, x :: y :: rest ≠ z :: '\'' :: zs := by
      intro z zs he
      cases he
      cases hy
    refine ⟨gap_eq_nothing hblank hslash, ?_⟩
    rw [Lexeme.ofText, List.head?_cons, Option.any_some, if_pos hx, Lexeme.wordLike_eq_word hquote]
  have htaken : (Lexeme.word cs).cut.taken =
      cs.take blockWord.length ++ (cs.drop blockWord.length).takeWhile isWordPart := by
    change cs.takeWhile isWordPart = _
    rw [← List.takeWhile_append_of_pos fun z hz => by simp [isWordPart, hletter z hz],
      List.take_append_drop]
  have hfront : opensBlock ('[' :: cs.take blockWord.length) = true := by
    refine decide_eq_true ?_
    rw [List.take_take, Nat.min_self, hword]
  rw [hgap.1, Cut.nothing, hgap.2, htaken]
  exact opensBlock_append hfront _

end Comment

/-- What of a token matters to a reader of directives: its place does not, and the number in the name
of an argument does not. -/
def Token.meaning (t : Token) : TokenKind × Option String :=
  (t.kind, if t.kind = .argument then none else some t.text)

namespace Cursor
variable {c d : Cursor}

/-- The lexeme behind the gap in front. -/
def lexeme (c : Cursor) : Lexeme := Lexeme.ofText (Comment.gap c.rest).rest

/-- What a scan passes over. -/
def passed (c : Cursor) : List Char := (Comment.gap c.rest).taken ++ c.lexeme.cut.taken

/-- The cursor with some other text before it. -/
def before (c : Cursor) (rest : List Char) : Cursor := { c with rest := rest }

theorem passed_append (c : Cursor) : c.passed ++ c.scan.2.rest = c.rest := by
  rw [passed, List.append_assoc]
  exact c.gap_append_token_append_rest

theorem passed_ne_nil (hs : c.lexeme.Settled) : c.passed ≠ [] := by
  have hrest := mt (Lexeme.kind_ofText_eq_endOfInput_iff _).2 hs.endOfInput
  exact List.append_ne_nil_of_right_ne_nil _ (Lexeme.taken_ofText_ne_nil hrest)

theorem scan_replaced (hs : c.lexeme.Settled) (h : Replaces c.scan.2.rest rest')
    (hgap : Comment.IsGap (Comment.gap c.rest).taken (c.lexeme.cut.taken ++ rest')) :
    (c.before (c.passed ++ rest')).scan = (c.scan.1, c.scan.2.before rest') := by
  rw [rest_scan] at h
  have hgap := Comment.gap_append hs h hgap
  have hlexeme := Lexeme.ofText_append hs h
  simp only [scan, before, passed, List.append_assoc, lexeme, hgap, hlexeme, Lexeme.before]
  split <;> rfl

/-- A gap may still stand in front of its token, if a block is still opened behind the bracket that
opened one. -/
theorem isGap_replaced (h : Comment.opensBlock ('[' :: c.scan.2.rest) = true →
      Comment.opensBlock ('[' :: rest') = true) :
    Comment.IsGap (Comment.gap c.rest).taken (c.lexeme.cut.taken ++ rest') := by
  obtain hb | ⟨bs, inner, htaken, hb, hi, ho⟩ := Comment.isGap_iff.1 (Comment.isGap_gap c.rest)
  · exact Comment.isGap_iff.2 (.inl hb)
  · obtain ⟨xs, hxs⟩ := Comment.exists_of_opensBlock ho
    have hbracket := Lexeme.ofText_punct (c := '[') (by simp) xs
    rw [rest_scan, hxs, hbracket] at h
    rw [lexeme, hxs, hbracket]
    exact Comment.isGap_iff.2 (.inr ⟨bs, inner, htaken, hb, hi, h (hxs ▸ ho)⟩)

theorem opensBlock_passed (h : Comment.opensBlock ('[' :: c.rest) = true) (cs : List Char) :
    Comment.opensBlock ('[' :: (c.passed ++ cs)) = true :=
  Comment.opensBlock_append (Comment.opensBlock_token h) cs

theorem significant_of_not_end (h : c.scan.1.kind ≠ .endOfInput) :
    c.significant = [c.scan.1].filter (·.kind ≠ .comment) ++ c.scan.2.significant := by
  by_cases hcomment : c.scan.1.kind = .comment
  · rw [significant_of_comment hcomment, List.filter_cons_of_neg (by simp [hcomment])]
    rfl
  · rw [significant_of_token hcomment h, List.filter_cons_of_pos (by simp [hcomment])]
    rfl

/-- One scan comes to the same token, and behind it to the replacement. -/
theorem exists_significant_scan (hs : c.lexeme.Settled) (h : Replaces c.scan.2.rest rest')
    (hgap : Comment.IsGap (Comment.gap c.rest).taken (c.lexeme.cut.taken ++ rest')) :
    ∃ ts, c.significant = ts ++ c.scan.2.significant ∧
      (c.before (c.passed ++ rest')).significant =
        ts ++ (c.scan.2.before rest').significant := by
  have hend : c.scan.1.kind ≠ .endOfInput := by
    rw [kind_scan]
    exact hs.endOfInput
  have hscan := scan_replaced hs h hgap
  refine ⟨_, significant_of_not_end hend, ?_⟩
  rw [significant_of_not_end (by rw [hscan]; exact hend), hscan]

/-- So do as many scans as there are up to the replacement. It stands behind a token, so the word
that opens a block is not torn; only the gap before that token must still be one. -/
theorem exists_significant_after {n : Nat} (hs : ∀ i ≤ n, (c.after i).lexeme.Settled)
    (hgap : Comment.IsGap (Comment.gap (c.after n).rest).taken
      ((c.after n).lexeme.cut.taken ++ rest'))
    (h : Replaces (c.after (n+1)).rest rest') :
    ∃ front ts, front ≠ [] ∧ c.rest = front ++ (c.after (n+1)).rest ∧
      (Comment.opensBlock ('[' :: c.rest) = true →
        Comment.opensBlock ('[' :: (front ++ rest')) = true) ∧
      c.significant = ts ++ (c.after (n+1)).significant ∧
      (c.before (front ++ rest')).significant =
        ts ++ ((c.after (n+1)).before rest').significant := by
  induction n generalizing c with
  | zero =>
    have hs : c.lexeme.Settled := hs 0 (Nat.le_refl 0)
    obtain ⟨ts, hts, hts'⟩ := exists_significant_scan hs h hgap
    exact ⟨c.passed, ts, passed_ne_nil hs, c.passed_append.symm, (opensBlock_passed · rest'), hts,
      hts'⟩
  | succ n ih =>
    have hfirst : c.lexeme.Settled := hs 0 (Nat.zero_le _)
    obtain ⟨front, us, -, hfront, hopens, hus, hus'⟩ := ih (c := c.scan.2)
      (fun i hi => by rw [after_scan]; exact hs (i+1) (by omega)) (by rwa [after_scan])
      (by rwa [after_scan])
    rw [after_scan] at hfront hus hus'
    have hreplaces : Replaces c.scan.2.rest (front ++ rest') := by
      rw [hfront]
      exact h.append front
    obtain ⟨ts, hts, hts'⟩ := exists_significant_scan hfirst hreplaces (isGap_replaced hopens)
    have hne := List.append_ne_nil_of_left_ne_nil (passed_ne_nil hfirst) front
    refine ⟨c.passed ++ front, ts ++ us, hne, ?_, fun hopen => ?_, ?_, ?_⟩
    · rw [List.append_assoc, ← hfront, passed_append]
    · rw [List.append_assoc]
      exact opensBlock_passed hopen _
    · rw [hts, hus, List.append_assoc]
    · rw [List.append_assoc, hts', hus', List.append_assoc]

theorem meaning_scan (h : c.rest = d.rest) : c.scan.1.meaning = d.scan.1.meaning := by
  have hkind : c.scan.1.kind = d.scan.1.kind := by rw [kind_scan, kind_scan, h]
  by_cases hargument : d.scan.1.kind = .argument
  · simp only [Token.meaning, hkind, if_pos hargument]
  · have hargument' : c.scan.1.kind ≠ .argument := hkind ▸ hargument
    simp only [Token.meaning, hkind, if_neg hargument, text_scan hargument, text_scan hargument', h]

theorem significant_of_end (h : c.scan.1.kind = .endOfInput) : c.significant = [c.scan.1] := by
  rw [significant, run, if_pos h]
  simp [h]

/-- What is read depends on the text alone that is left. -/
theorem meaning_significant (h : c.rest = d.rest) :
    c.significant.map Token.meaning = d.significant.map Token.meaning := by
  fun_induction run c generalizing d with
  | case1 c hend =>
    have hend' : d.scan.1.kind = .endOfInput := by rw [kind_scan, ← h, ← kind_scan, hend]
    rw [significant_of_end hend, significant_of_end hend', List.map_singleton, List.map_singleton,
      meaning_scan h]
  | case2 c hend ih =>
    have hkind : c.scan.1.kind = d.scan.1.kind := by rw [kind_scan, kind_scan, h]
    have hrest := ih (d := d.scan.2) (by rw [rest_scan, rest_scan, h])
    have hend' : d.scan.1.kind ≠ .endOfInput := hkind ▸ hend
    rw [significant_of_not_end hend, significant_of_not_end hend', List.map_append, List.map_append,
      hrest]
    by_cases hcomment : d.scan.1.kind = .comment
    · simp [hkind, hcomment]
    · simp [hkind, hcomment, meaning_scan h]

/-- Where a text is changed behind its first character, it is still read from behind the mark. -/
theorem ofText_replaced {text : String} {front mid rest : List Char}
    (htext : text.toList = front ++ rest) (hrest : (ofText text).rest = mid ++ rest) (hmid : mid ≠ [])
    (rest' : List Char) :
    ofText (String.ofList (front ++ rest')) = (ofText text).before (mid ++ rest') := by
  obtain ⟨c, mid, rfl⟩ := List.exists_cons_of_ne_nil hmid
  unfold ofText at hrest ⊢
  rw [String.toList_ofList]
  split at hrest
  · rename_i cs hcs
    have hfront : front ++ rest = '\ufeff' :: (c :: mid) ++ rest := by
      rw [← htext, hcs, show cs = c :: mid ++ rest from hrest]
      rfl
    cases List.append_cancel_right hfront
    rfl
  · rename_i hcs
    have hfront : front ++ rest = c :: mid ++ rest := htext.symm.trans hrest
    cases List.append_cancel_right hfront
    split
    · rename_i he
      cases he
      exact absurd htext (hcs _)
    · rfl

/-- A gap put in behind a token leaves the meaning of all tokens as it is. -/
theorem meaning_significant_insert {text : String} {n : Nat}
    (hs : ∀ i ≤ n, ((ofText text).after i).lexeme.Settled)
    (hlast : ∀ x ∈ (Comment.gap ((ofText text).after n).rest).taken, isBlank x = true)
    {front rest : List Char} (hrest : ((ofText text).after (n+1)).rest = rest)
    (htext : text.toList = front ++ rest) {b : Char} (hb : isBlank b = true) {gap : List Char}
    (hgap : Leading gap) :
    (ofText (String.ofList (front ++ (b :: gap ++ rest)))).significant.map Token.meaning =
      (ofText text).significant.map Token.meaning := by
  obtain ⟨mid, ts, hmid, hmiddle, -, hts, hts'⟩ :=
    exists_significant_after hs (Comment.isGap_iff.2 (.inl hlast)) (.blank hb _ (gap ++ rest))
  rw [hrest] at hmiddle
  -- the gap has no tokens of its own
  obtain ⟨d, us, hd, hus, hbehind⟩ := (Leading.blank hb hgap).reads (.done rest)
    (((ofText text).after (n+1)).before (b :: gap ++ rest)) rfl
  cases List.map_eq_nil_iff.1 hus
  have hrun := meaning_significant (hd.trans hrest.symm)
  rw [ofText_replaced htext hmiddle hmid, hts, List.map_append, ← hrun]
  calc ((ofText text).before (mid ++ (b :: gap ++ rest))).significant.map Token.meaning
    _ = (ts ++ d.significant).map Token.meaning := congrArg _ (hts'.trans (congrArg _ hbehind))
    _ = ts.map Token.meaning ++ d.significant.map Token.meaning := List.map_append

end Cursor
end SqlComposer
