import SqlComposer.Proofs.Token.Lexing
import SqlComposer.Token.Stream

/-! A piece of text read as the tokens that it spells, with the text behind it present: where a
word or a string ends depends on what follows. What came before does not matter. -/
namespace SqlComposer

/-- What a token is, without its place. -/
def Token.spelling (t : Token) : TokenKind × String := (t.kind, t.text)

namespace Cursor

/-- The tokens that a reader of directives comes to from here. -/
def significant (c : Cursor) : List Token := (c.run.map (·.1)).filter (·.kind ≠ .comment)

theorem significant_of_comment {c : Cursor} (h : c.scan.1.kind = .comment) :
    c.significant = c.scan.2.significant := by
  rw [significant, run, if_neg (by simp [h]), List.map_cons,
    List.filter_cons_of_neg (by simp [h]), significant]

theorem significant_of_token {c : Cursor} (h : c.scan.1.kind ≠ .comment)
    (hend : c.scan.1.kind ≠ .endOfInput) :
    c.significant = c.scan.1 :: c.scan.2.significant := by
  rw [significant, run, if_neg hend, List.map_cons,
    List.filter_cons_of_pos (by simp [h]), significant]

theorem significant_congr {c d : Cursor} (h : c.scan = d.scan) : c.significant = d.significant := by
  rw [significant, significant, run, h, ← run]

theorem scan_append {x a : List Char}
    (h : Comment.gap (x ++ a) = ⟨x ++ (Comment.gap a).taken, (Comment.gap a).rest⟩) (p : Position)
    (n : Nat) : scan ⟨x ++ a, p, n⟩ = scan ⟨a, p.advanceOver x, n⟩ := by
  simp only [scan, h, Position.advanceOver_append]

theorem text_scan {c : Cursor} (h : c.scan.1.kind ≠ .argument) :
    c.scan.1.text = String.ofList (Lexeme.ofText (Comment.gap c.rest).rest).text := by
  rw [kind_scan] at h
  simp only [scan, if_neg h]

end Cursor

/-- The text `a` starts with the tokens `ws`, and `b` stands behind them. -/
def Reads (a : List Char) (ws : List (TokenKind × String)) (b : List Char) : Prop :=
  ∀ c : Cursor, c.rest = a → ∃ (d : Cursor) (ts : List Token),
    d.rest = b ∧ ts.map Token.spelling = ws ∧ c.significant = ts ++ d.significant

namespace Reads
variable {a b cs : List Char} {ws vs : List (TokenKind × String)} {c : Char}

theorem done (a : List Char) : Reads a [] a := fun c hc => ⟨c, [], hc, rfl, rfl⟩

theorem append (h : Reads a ws b) (h' : Reads b vs cs) : Reads a (ws ++ vs) cs := by
  intro c hc
  obtain ⟨d, ts, hd, rfl, hts⟩ := h c hc
  obtain ⟨e, us, he, rfl, hus⟩ := h' d hd
  exact ⟨e, ts ++ us, he, List.map_append, by rw [hts, hus, List.append_assoc]⟩

theorem gap (x : List Char)
    (h : Comment.gap (x ++ a) = ⟨x ++ (Comment.gap a).taken, (Comment.gap a).rest⟩)
    (ha : Reads a ws b) : Reads (x ++ a) ws b := by
  intro ⟨_, p, n⟩ hc
  subst hc
  rw [Cursor.significant_congr (Cursor.scan_append h p n)]
  exact ha _ rfl

theorem blank (hc : isBlank c = true) (h : Reads a ws b) : Reads (c :: a) ws b :=
  gap [c] (Comment.gap_blank hc) h

theorem opener {blanks : List Char} (hb : ∀ c ∈ blanks, isBlank c = true)
    (ho : Comment.opensBlock ('[' :: a) = true) (h : Reads ('[' :: a) ws b) :
    Reads ('/' :: '*' :: (blanks ++ '[' :: a)) ws b := by
  refine gap ('/' :: '*' :: blanks) ?_ h
  have hnone : Comment.gap ('[' :: a) = .nothing ('[' :: a) := Comment.gap_eq_nothing rfl (by decide)
  rw [hnone, List.cons_append, List.cons_append, Comment.gap_opener hb ho]
  simp only [Cut.nothing, List.append_nil]

theorem comment {cut : Cut} (hgap : Comment.gap a = .nothing a)
    (hl : Lexeme.ofText a = .raw .comment cut) (h : Reads cut.rest ws b) : Reads a ws b := by
  rintro c rfl
  have hkind : c.scan.1.kind = .comment := by rw [Cursor.kind_scan, hgap, Cut.nothing, hl]; rfl
  have hrest : c.scan.2.rest = cut.rest := by rw [Cursor.rest_scan, hgap, Cut.nothing, hl]; rfl
  rw [Cursor.significant_of_comment hkind]
  exact h _ hrest

theorem lexeme {k : TokenKind} {text taken : List Char} (hgap : Comment.gap a = .nothing a)
    (hl : Lexeme.ofText a = ⟨k, text, ⟨taken, cs⟩⟩) (hk : k ∉ [.endOfInput, .comment, .argument])
    (h : Reads cs ws b) : Reads a ((k, String.ofList text) :: ws) b := by
  simp only [List.mem_cons, List.not_mem_nil, or_false, not_or] at hk
  obtain ⟨hend, hcomment, hargument⟩ := hk
  rintro c rfl
  have hkind : c.scan.1.kind = k := by rw [Cursor.kind_scan, hgap, Cut.nothing, hl]
  have hrest : c.scan.2.rest = cs := by rw [Cursor.rest_scan, hgap, Cut.nothing, hl]
  have htext : c.scan.1.text = String.ofList text := by
    rw [Cursor.text_scan (hkind ▸ hargument), hgap, Cut.nothing, hl]
  obtain ⟨d, ts, hd, rfl, hts⟩ := h _ hrest
  refine ⟨d, c.scan.1 :: ts, hd, ?_, ?_⟩
  · rw [List.map_cons, Token.spelling, hkind, htext]
  · rw [Cursor.significant_of_token (hkind ▸ hcomment) (hkind ▸ hend), hts, List.cons_append]

theorem punct (hc : c ∈ ['[', ']', ':', '(', ')']) (h : Reads a ws b) :
    Reads (c :: a) ((.punct c, String.singleton c) :: ws) b := by
  have hgap : Comment.gap (c :: a) = .nothing (c :: a) := by
    simp only [List.mem_cons, List.not_mem_nil, or_false] at hc
    obtain rfl | rfl | rfl | rfl | rfl := hc <;> exact Comment.gap_eq_nothing rfl (by decide)
  exact lexeme hgap (Lexeme.ofText_punct hc a) (by simp) h

theorem dash (h : Reads (' ' :: a) ws b) :
    Reads ('-' :: ' ' :: a) ((.punct '-', "-") :: ws) b :=
  lexeme (Comment.gap_eq_nothing rfl (by decide)) (Lexeme.ofText_dash a) (by simp) h

theorem word {w : String} (hw : isWord w = true) (hc : isWordPart c = false) (hq : c ≠ '\'')
    (h : Reads (c :: a) ws b) : Reads (w.toList ++ c :: a) ((wordKind w, w) :: ws) b := by
  obtain ⟨x, xs, hxs, hx, -⟩ := (isWord_iff w).1 hw
  obtain ⟨hblank, hslash⟩ := isBlank_of_isLetter hx
  have hgap : Comment.gap (w.toList ++ c :: a) = .nothing (w.toList ++ c :: a) := by
    rw [hxs]; exact Comment.gap_eq_nothing hblank hslash
  have hkind : wordKind w ∉ [.endOfInput, .comment, .argument] := by
    unfold wordKind
    cases Keyword.ofWord? w <;> simp
  have hread := lexeme hgap (Lexeme.ofText_word hw hc hq a) hkind h
  rwa [String.ofList_toList] at hread

theorem keyword (k : Keyword) (hc : isWordPart c = false) (hq : c ≠ '\'') (h : Reads (c :: a) ws b) :
    Reads (k.spelling.toList ++ c :: a) ((.keyword k, k.spelling) :: ws) b := by
  have hread := word (isWord_spelling k) hc hq h
  rwa [wordKind_spelling] at hread

theorem string (text : String) (hc : c ≠ '"') (h : Reads (c :: a) ws b) :
    Reads ('"' :: (text.toList.flatMap escape ++ '"' :: c :: a)) ((.string, text) :: ws) b := by
  have hread := lexeme (Comment.gap_eq_nothing rfl (by decide))
    (Lexeme.ofText_string text.toList hc a) (by simp) h
  rwa [String.ofList_toList] at hread

theorem flatMap {α : Type} {f : α → List Char} {g : α → List (TokenKind × String)} {as : List α}
    (h : ∀ x ∈ as, ∀ a, Reads (f x ++ a) (g x) a) (a : List Char) :
    Reads (as.flatMap f ++ a) (as.flatMap g) a := by
  induction as with
  | nil => exact done a
  | cons x as ih =>
    obtain ⟨hx, h⟩ := List.forall_mem_cons.1 h
    rw [List.flatMap_cons, List.flatMap_cons, List.append_assoc]
    exact (hx _).append (ih h)

end Reads

/-- What may stand in front of a block: blanks and comments, none of which opens a block. -/
inductive Leading : List Char → Prop
  | nil : Leading []
  | blank {c : Char} {cs : List Char} : isBlank c = true → Leading cs → Leading (c :: cs)
  | line {lead text cs : List Char} : lead ∈ [['#'], ['-', '-'], ['/', '/']] → '\n' ∉ text →
      Leading cs → Leading (lead ++ (text ++ '\n' :: cs))
  | block {text cs : List Char} : ¬ ['*', '/'] <:+: text →
      Comment.opensBlock (Cut.span isBlank text).rest = false → Leading cs →
      Leading ('/' :: '*' :: (text ++ '*' :: '/' :: cs))

theorem Leading.reads {pre a b : List Char} {ws : List (TokenKind × String)} (hpre : Leading pre)
    (h : Reads a ws b) : Reads (pre ++ a) ws b := by
  induction hpre with
  | nil => exact h
  | blank hc _ ih => exact .blank hc ih
  | @line lead text cs hlead htext _ ih =>
    have hgap : Comment.gap (lead ++ (text ++ '\n' :: (cs ++ a))) =
        .nothing (lead ++ (text ++ '\n' :: (cs ++ a))) := by
      simp only [List.mem_cons, List.not_mem_nil, or_false] at hlead
      obtain rfl | rfl | rfl := hlead <;> rfl
    have hread := Reads.comment hgap (Lexeme.ofText_line hlead htext (cs ++ a)) ih
    simpa only [List.append_assoc, List.cons_append] using hread
  | @block text cs htext hopen _ ih =>
    have hread := Reads.comment (Comment.gap_comment hopen ('/' :: (cs ++ a)))
      (Lexeme.ofText_block htext (cs ++ a)) ih
    simpa only [List.append_assoc, List.cons_append] using hread

end SqlComposer
