import Mathlib.Data.List.Basic
import SqlComposer.Proofs.Directive.Complaints
import SqlComposer.Proofs.Directive.Layout

/-! What stands behind a directive block has no influence on it. Each token up to the closing bracket
depends on the text through that bracket at most, so the block is read alike before any text, though
tokens of that text are scanned as well. -/
namespace SqlComposer
variable {front rest rest' bs xs : List Char}

theorem Replaces.of_front (h : xs ≠ []) (rest rest' : List Char) :
    Replaces (xs ++ rest) (xs ++ rest') := by
  obtain ⟨x, xs, rfl⟩ := List.exists_cons_of_ne_nil h
  intro c hc
  exact .inr hc

/-- Fronts of a text that have as many bytes are the same. -/
theorem eq_of_byteSize (h : xs ++ rest = front ++ rest') (hsize : byteSize xs = byteSize front) :
    xs = front := by
  have hnil : ∀ cs, byteSize cs = 0 → cs = [] := by
    intro cs hcs
    have hlength := length_le_byteSize cs
    exact List.length_eq_zero_iff.1 (by omega)
  obtain ⟨more, rfl, -⟩ | ⟨more, rfl, -⟩ := List.append_eq_append_iff.1 h
  · rw [byteSize_append] at hsize
    rw [hnil more (by omega), List.append_nil]
  · rw [byteSize_append] at hsize
    rw [hnil more (by omega), List.append_nil]

namespace Comment

/-- Only blanks stand directly before a closing bracket. -/
theorem isBlank_of_closing (h : IsGap bs (']' :: rest)) : ∀ c ∈ bs, isBlank c = true := by
  obtain hb | ⟨_, _, -, -, -, ho⟩ := isGap_iff.1 h
  · exact hb
  · cases ho

/-- The word of directive blocks does not stand behind blanks, and not before a closing bracket. -/
theorem not_opensBlock_closing (hb : ∀ c ∈ bs, isBlank c = true) (rest : List Char) :
    opensBlock ('[' :: (bs ++ ']' :: rest)) = false := by
  refine Bool.eq_false_iff.2 fun ho => ?_
  obtain ⟨x, y, tail, he, hx, -⟩ := exists_letters_of_opensBlock ho
  cases bs with
  | nil =>
    cases he
    cases hx
  | cons c bs =>
    obtain ⟨rfl, -⟩ := List.cons.inj he
    have hblank := hb c List.mem_cons_self
    rw [(isBlank_of_isLetter hx).1] at hblank
    cases hblank

end Comment

namespace Cursor
variable {c : Cursor} {text : List Char}

/-- A closing bracket behind blanks is the next token, before any text. -/
theorem scan_closing (hb : ∀ x ∈ bs, isBlank x = true) (hrest : c.rest = bs ++ ']' :: rest) :
    c.scan = (⟨.punct ']', "]", c.position.advanceOver bs⟩,
      ⟨rest, c.position.advanceOver (bs ++ [']']), c.arguments⟩) := by
  have hgap : Comment.gap c.rest = ⟨bs, ']' :: rest⟩ := by
    rw [hrest, Comment.gap_blanks hb, Comment.gap_eq_nothing (by decide) (by decide)]
    simp [Cut.nothing]
  have hlexeme : Lexeme.ofText (']' :: rest) = ⟨.punct ']', [']'], ⟨[']'], rest⟩⟩ :=
    Lexeme.ofText_punct (by simp) rest
  rw [Position.advanceOver_append]
  simp only [scan, hgap, hlexeme]
  rfl

theorem significant_closing (hb : ∀ x ∈ bs, isBlank x = true) (hrest : c.rest = bs ++ ']' :: rest) :
    ∃ us, c.significant = ⟨.punct ']', "]", c.position.advanceOver bs⟩ :: us := by
  have hscan := scan_closing hb hrest
  rw [significant_of_token (by rw [hscan]; simp) (by rw [hscan]; simp), hscan]
  exact ⟨_, rfl⟩

/-- A closing bracket that is the next token stands behind blanks, at the place of the token. -/
theorem StandsBehind.exists_blanks {before : List Char} (h : c.StandsBehind before text)
    (hkind : c.scan.1.kind = .punct ']') (htext : text = front ++ ']' :: rest)
    (hplace : c.scan.1.start.offset = byteSize front) :
    ∃ bs, (∀ x ∈ bs, isBlank x = true) ∧ c.rest = bs ++ ']' :: rest ∧ before ++ bs = front := by
  have hwhole := c.gap_append_token_append_rest
  have hgap := Comment.isGap_gap c.rest
  have hlexeme := c.token_append_rest
  rw [kind_scan] at hkind
  rw [Lexeme.taken_of_punct hkind, List.singleton_append] at hwhole hlexeme
  rw [← hlexeme] at hgap
  -- the fronts before the bracket of the token and before the one at its place are as long
  have hsame : before ++ (Comment.gap c.rest).taken ++ ']' :: c.scan.2.rest =
      front ++ ']' :: rest := by
    rw [List.append_assoc, hwhole, ← h.split, htext]
  have hfront : before ++ (Comment.gap c.rest).taken = front := by
    refine eq_of_byteSize hsame ?_
    rw [← hplace, start_scan, Position.offset_advanceOver, h.offset, byteSize_append]
  rw [hfront] at hsame
  obtain ⟨-, hrest⟩ := List.cons.inj (List.append_cancel_left hsame)
  exact ⟨_, Comment.isBlank_of_closing hgap, by rw [← hrest, hwhole], hfront⟩

/-- All tokens before a place are the same before another text, if that starts alike and does not
tear the word that opens a block. -/
theorem exists_significant_before {n : Nat} (hs : ∀ i < n, (c.after i).lexeme.Settled)
    (hopens : Comment.opensBlock ('[' :: (c.after n).rest) = true →
      Comment.opensBlock ('[' :: rest') = true)
    (h : Replaces (c.after n).rest rest') :
    ∃ mid ts, c.rest = mid ++ (c.after n).rest ∧ c.significant = ts ++ (c.after n).significant ∧
      (c.before (mid ++ rest')).significant = ts ++ ((c.after n).before rest').significant := by
  cases n with
  | zero => exact ⟨[], [], rfl, rfl, rfl⟩
  | succ n =>
    obtain ⟨mid, ts, -, hmid, -, hts, hts'⟩ := exists_significant_after
      (fun i hi => hs i (Nat.lt_succ_of_le hi)) (isGap_replaced hopens) h
    exact ⟨mid, ts, hmid, hts, hts'⟩

end Cursor

/-- The tokens through a closing bracket are the same before any text, where those before it are
settled. -/
theorem exists_significant_closing {text : String} {n : Nat} {closing : Token}
    (hs : ∀ i < n, ((Cursor.ofText text).after i).lexeme.Settled)
    (hclosing : ((Cursor.ofText text).after n).scan.1 = closing) (hkind : closing.kind = .punct ']')
    (htext : text.toList = front ++ ']' :: rest) (hplace : closing.start.offset = byteSize front)
    (rest' : List Char) : ∃ ts us us', significant text = ts ++ closing :: us ∧
      significant (String.ofList (front ++ ']' :: rest')) = ts ++ closing :: us' := by
  obtain ⟨mark, -, hfirst⟩ := Cursor.standsBehind_ofText text
  obtain ⟨before, hstand⟩ := Cursor.exists_standsBehind_after hfirst n
  generalize hc : (Cursor.ofText text).after n = c at *
  subst hclosing
  obtain ⟨bs, hb, hrest, rfl⟩ := hstand.exists_blanks hkind htext hplace
  have hreplaces : Replaces c.rest (bs ++ ']' :: rest') := by
    have hne : bs ++ [']'] ≠ [] := by simp
    simpa [hrest] using Replaces.of_front hne rest rest'
  have hopens : Comment.opensBlock ('[' :: c.rest) = false := by
    rw [hrest]
    exact Comment.not_opensBlock_closing hb rest
  rw [← hc] at hreplaces hopens
  obtain ⟨mid, ts, hmid, hts, hts'⟩ :=
    Cursor.exists_significant_before hs (fun h => by rw [hopens] at h; cases h) hreplaces
  rw [hc] at hmid hts hts'
  have htext' : text.toList = before ++ bs ++ [']'] ++ rest := by simp [htext]
  have hmid' : (Cursor.ofText text).rest = mid ++ bs ++ [']'] ++ rest := by simp [hmid, hrest]
  have hofText := Cursor.ofText_replaced htext' hmid' (by simp) rest'
  obtain ⟨us, hus⟩ := Cursor.significant_closing hb hrest
  obtain ⟨us', hus'⟩ := Cursor.significant_closing (c := c.before (bs ++ ']' :: rest')) hb rfl
  rw [congrArg Prod.fst (Cursor.scan_closing hb hrest)]
  refine ⟨ts, us, us', hts.trans (congrArg _ hus), ?_⟩
  calc (Cursor.ofText (String.ofList (before ++ bs ++ ']' :: rest'))).significant
    _ = ((Cursor.ofText text).before (mid ++ (bs ++ ']' :: rest'))).significant := by
      simpa using congrArg Cursor.significant hofText
    _ = ts ++ (c.before (bs ++ ']' :: rest')).significant := hts'
    _ = ts ++ _ :: us' := congrArg _ hus'

/-- What stands behind a directive block has no influence on the directives. A script whose block ends
with some closing bracket is read alike, to the same bracket, with any other text behind it, also if
that is malformed. -/
theorem Directives.parse_isolated {front rest : String} {s : Script} {closing : Token}
    (h : Script.ofText (front ++ "]" ++ rest) = .ok s) (hc : s.closing = some closing)
    (hplace : closing.start.offset = front.utf8ByteSize) (rest' : String) :
    parse (front ++ "]" ++ rest) = .ok s.directives ∧
      Script.ofText (front ++ "]" ++ rest') = .ok s ∧
      parse (front ++ "]" ++ rest') = .ok s.directives := by
  obtain ⟨ts, us, description, lines, hsig, hform, hsays⟩ := Script.exists_form_of_ofText h hc
  have hkind := hform.kind_closing
  have hclosing : closing ∈ significant (front ++ "]" ++ rest) := by simp [hsig]
  obtain ⟨n, hn⟩ := exists_scan_of_mem hclosing
  have hsettled := hform.settled (n := n) hsig (hn ▸ Nat.le_refl _)
  have htext : ∀ rest : String,
      (front ++ "]" ++ rest).toList = front.toList ++ ']' :: rest.toList := by
    intro rest
    simp
  have hsize : closing.start.offset = byteSize front.toList := by rw [hplace, byteSize_toList]
  obtain ⟨vs, ws, ws', hvs, hvs'⟩ := exists_significant_closing
    (fun i hi => hsettled i (Nat.le_of_lt hi)) hn.symm hkind (htext rest) hsize rest'.toList
  rw [← htext rest', String.ofList_toList] at hvs'
  -- a token occurs once, so both lists have the same tokens before it
  have hne := start_ne_of_significant hvs
  have honce : closing ∉ vs ++ ws := fun hmem => hne closing hmem rfl
  rw [List.mem_append, not_or] at honce
  obtain ⟨rfl, -, -⟩ := (List.append_cons_inj_of_notMem honce.1 honce.2).1 (hvs.symm.trans hsig)
  obtain ⟨s', hs', hsays', hclosing'⟩ := hform.ofText ⟨ws', by rw [hvs']; simp⟩
  have hdirectives : s'.directives = s.directives := hsays'.unique hsays
  have hsame : s' = s := by
    obtain ⟨d', c'⟩ := s'
    obtain ⟨d, c⟩ := s
    rw [List.getLast?_concat, ← hc] at hclosing'
    rw [show d' = d from hdirectives, show c' = c from hclosing']
  subst hsame
  exact ⟨by rw [parse, h]; rfl, hs', by rw [parse, hs']; rfl⟩

/-- The same block before SQL, and before an open string that would have closed it otherwise. -/
theorem Directives.parse_isolated_unclosed :
    let front := "/* [sqlmbegin] [script] [dev] - a: \"1\" [sqlmend"
    let rest := " */ select 1"
    let rest' := "]\n[dev] - b: \"2"
    ∃ s closing, Script.ofText (front ++ "]" ++ rest) = .ok s ∧ s.closing = some closing ∧
      closing.start.offset = front.utf8ByteSize ∧
      parse (front ++ "]" ++ rest') = .ok s.directives := by
  intro front rest rest'
  have hread : (((Script.ofText (front ++ "]" ++ rest)).toOption.bind (·.closing)).any fun closing =>
      decide (closing.start.offset = front.utf8ByteSize)) = true := by decide +kernel
  obtain ⟨closing, hc, hplace⟩ := (Option.any_eq_true ..).1 hread
  obtain ⟨s, hs, hc⟩ := Option.bind_eq_some_iff.1 hc
  have h := eq_ok_of_toOption hs
  have hplace := of_decide_eq_true hplace
  exact ⟨s, closing, h, hc, hplace, (parse_isolated h hc hplace rest').2.2⟩

end SqlComposer
