import SqlComposer.Directive.Printer
import SqlComposer.Token.Lexeme

/-! Comments, strings, words and single characters at the front of a text, whatever stands behind
them. -/
namespace SqlComposer

namespace Cut

theorem span_append {p : Char → Bool} {xs ys : List Char} (hxs : ∀ x ∈ xs, p x = true)
    (hys : ∀ y ∈ ys.head?, p y = false) : span p (xs ++ ys) = ⟨xs, ys⟩ := by
  have hnone : ys.takeWhile p = [] ∧ ys.dropWhile p = ys := by
    cases ys with
    | nil => exact ⟨rfl, rfl⟩
    | cons y ys => simp [hys y rfl]
  rw [span, List.takeWhile_append_of_pos hxs, List.dropWhile_append_of_pos hxs, hnone.1, hnone.2,
    List.append_nil]

end Cut

namespace Comment
variable {c : Char} {cs : List Char}

theorem gap_blank (h : isBlank c = true) : gap (c :: cs) = (gap cs).cons c := by
  simp [gap, Cut.span, Cut.andThen, Cut.cons, h]

theorem gap_of_not_blank (h : isBlank c = false) : gap (c :: cs) = opener (c :: cs) := by
  simp [gap, Cut.span, Cut.andThen, h]

theorem opener_of_not (h : ∀ xs, cs ≠ '/' :: '*' :: xs) : opener cs = .nothing cs := by
  unfold opener
  split
  · exact absurd rfl (h _)
  · rfl

theorem gap_eq_nothing (hb : isBlank c = false) (hs : c ≠ '/') :
    gap (c :: cs) = .nothing (c :: cs) := by
  rw [gap_of_not_blank hb, opener_of_not]
  intro xs he
  exact hs (List.cons.inj he).1

theorem line_append {text : List Char} (h : '\n' ∉ text) (rest : List Char) :
    line (text ++ '\n' :: rest) = ⟨text ++ ['\n'], rest⟩ := by
  induction text with
  | nil => rfl
  | cons c text ih =>
    rw [List.mem_cons, not_or] at h
    rw [List.cons_append, line, ih h.2]
    · rfl
    · exact fun he => h.1 he.symm

theorem block?_append {text : List Char} (h : ¬ ['*', '/'] <:+: text) (rest : List Char) :
    block? (text ++ '*' :: '/' :: rest) = some ⟨text ++ ['*', '/'], rest⟩ := by
  induction text with
  | nil => rfl
  | cons c text ih =>
    rw [List.infix_cons_iff, not_or] at h
    rw [List.cons_append, block?, ih h.2]
    · rfl
    · rintro cs rfl he
      cases text with
      | nil => cases he
      | cons d text =>
        obtain ⟨rfl, -⟩ := List.cons.inj he
        exact h.1 ⟨text, rfl⟩

theorem exists_of_opensBlock (h : opensBlock cs = true) : ∃ xs, cs = '[' :: xs := by
  unfold opensBlock at h
  split at h
  · exact ⟨_, rfl⟩
  · cases h

/-- The star that closes a comment is no part of the word that opens a block. -/
theorem opensBlock_of_append {rest : List Char} (h : opensBlock (cs ++ '*' :: rest) = true) :
    opensBlock cs = true := by
  obtain ⟨xs, hxs⟩ := exists_of_opensBlock h
  cases cs with
  | nil => cases hxs
  | cons c cs =>
    cases hxs
    have hw : Text.lower ((cs ++ '*' :: rest).take blockWord.length) = blockWord :=
      of_decide_eq_true h
    by_cases hl : blockWord.length ≤ cs.length
    · rw [List.take_append_of_le_length hl] at hw
      exact decide_eq_true hw
    · have hmem : '*' ∈ (cs ++ '*' :: rest).take blockWord.length := by
        obtain ⟨n, hn⟩ : ∃ n, blockWord.length - cs.length = n+1 :=
          ⟨blockWord.length - cs.length - 1, by omega⟩
        simp [List.take_append, hn]
      have hstar : ('*').toLower ∈ blockWord := hw ▸ List.mem_map_of_mem hmem
      exact absurd hstar (by decide)

theorem opensBlock_append (h : opensBlock cs = true) (xs : List Char) :
    opensBlock (cs ++ xs) = true := by
  obtain ⟨cs, rfl⟩ := exists_of_opensBlock h
  have hword : Text.lower (cs.take blockWord.length) = blockWord := of_decide_eq_true h
  have hlength : blockWord.length ≤ cs.length := by
    have hlength := congrArg List.length hword
    rw [Text.length_lower, List.length_take] at hlength
    omega
  refine decide_eq_true ?_
  change Text.lower ((cs ++ xs).take blockWord.length) = blockWord
  rw [List.take_append_of_le_length hlength, hword]

/-- Whether a comment opens a block is decided before its first star. -/
theorem opensBlock_comment (text rest : List Char) :
    opensBlock (Cut.span isBlank (text ++ '*' :: rest)).rest =
      opensBlock (Cut.span isBlank text).rest := by
  have hrest : (Cut.span isBlank (text ++ '*' :: rest)).rest =
      (Cut.span isBlank text).rest ++ '*' :: rest := by
    have hstar : ('*' :: rest).dropWhile isBlank = '*' :: rest := rfl
    simp only [Cut.span, List.dropWhile_append, hstar]
    split
    · rename_i he
      rw [List.isEmpty_iff.1 he, List.nil_append]
    · rfl
  rw [hrest, Bool.eq_iff_iff]
  exact ⟨opensBlock_of_append, fun h => opensBlock_append h _⟩

/-- A comment that does not open a block stays a comment, whatever stands behind it. -/
theorem gap_comment {text : List Char} (h : opensBlock (Cut.span isBlank text).rest = false)
    (rest : List Char) : gap ('/' :: '*' :: (text ++ '*' :: rest)) =
      .nothing ('/' :: '*' :: (text ++ '*' :: rest)) := by
  rw [gap_of_not_blank rfl, opener, opensBlock_comment, h]
  rfl

theorem gap_opener {blanks : List Char} (hb : ∀ c ∈ blanks, isBlank c = true)
    (h : opensBlock cs = true) :
    gap ('/' :: '*' :: (blanks ++ cs)) = ⟨'/' :: '*' :: blanks, cs⟩ := by
  have hspan : Cut.span isBlank (blanks ++ cs) = ⟨blanks, cs⟩ := by
    obtain ⟨cs, rfl⟩ := exists_of_opensBlock h
    exact Cut.span_append hb (by simp [isBlank])
  rw [gap_of_not_blank rfl, opener, hspan, h]
  rfl

end Comment
namespace Quoted
variable {quote c : Char} {cs : List Char}

theorem string_backslash : string quote ('\\' :: c :: cs) =
    (string quote cs).cons (unescape c) ['\\', c] := by
  rw [string]

theorem string_plain (hq : c ≠ quote) (hb : c ≠ '\\') (cs : List Char) :
    string quote (c :: cs) = (string quote cs).cons c [c] := by
  cases cs with
  | nil => simp [string, hq]
  | cons d cs =>
    rw [string, if_neg hq]
    exact hb

theorem string_closed (h : c ≠ '"') (cs : List Char) :
    string '"' ('"' :: c :: cs) = ⟨[], ⟨['"'], c :: cs⟩, true⟩ := by
  simp [string, h]

/-- A character is written as it is, or behind a backslash that gives it back. -/
theorem escape_cases (c : Char) :
    escape c = [c] ∧ c ≠ '"' ∧ c ≠ '\\' ∨ ∃ d, escape c = ['\\', d] ∧ unescape d = c := by
  unfold escape
  split
  · exact .inr ⟨'"', rfl, rfl⟩
  · exact .inr ⟨'\\', rfl, rfl⟩
  · exact .inr ⟨'n', rfl, rfl⟩
  · exact .inr ⟨'r', rfl, rfl⟩
  · exact .inr ⟨'t', rfl, rfl⟩
  · exact .inl ⟨rfl, ‹_›, ‹_›⟩

/-- What is written between quotation marks is read back, up to the closing one. -/
theorem string_escape (text : List Char) (h : c ≠ '"') (cs : List Char) :
    string '"' (text.flatMap escape ++ '"' :: c :: cs) =
      ⟨text, ⟨text.flatMap escape ++ ['"'], c :: cs⟩, true⟩ := by
  induction text with
  | nil => exact string_closed h cs
  | cons x text ih =>
    rw [List.flatMap_cons, List.append_assoc]
    obtain ⟨he, hq, hb⟩ | ⟨d, he, hd⟩ := escape_cases x
    · rw [he, List.singleton_append, string_plain hq hb, ih]
      rfl
    · rw [he, List.cons_append, List.singleton_append, string_backslash, ih, hd]
      rfl

end Quoted

/-- Words as they may name an entry. -/
def isWord (w : String) : Bool := w.toList.head?.any isLetter && w.toList.all isWordPart

/-- What a word is read as. -/
def wordKind (w : String) : TokenKind := (Keyword.ofWord? w).elim .identifier .keyword

theorem isWord_iff (w : String) : isWord w = true ↔
    ∃ c cs, w.toList = c :: cs ∧ isLetter c = true ∧ ∀ x ∈ c :: cs, isWordPart x = true := by
  unfold isWord
  cases w.toList with
  | nil => simp
  | cons x xs =>
    constructor
    · intro h
      obtain ⟨hx, hxs⟩ := Bool.and_eq_true_iff.1 h
      exact ⟨x, xs, rfl, hx, List.all_eq_true.1 hxs⟩
    · rintro ⟨c, cs, he, hc, hcs⟩
      cases he
      exact Bool.and_eq_true_iff.2 ⟨hc, List.all_eq_true.2 hcs⟩

theorem isWord_spelling (k : Keyword) : isWord k.spelling = true := by
  have hsql : ∀ w ∈ sqlWords, isWord w = true := by decide
  have hdirective : ∀ k ∈ Keyword.directive, isWord k.spelling = true := by decide
  cases k with
  | sql w => exact hsql w.val w.property
  | environment e => exact hdirective _ (by cases e <;> decide)
  | _ => exact hdirective _ (by decide)

theorem wordKind_spelling (k : Keyword) : wordKind k.spelling = .keyword k := by
  rw [wordKind, Keyword.ofWord?_spelling]; rfl

theorem toNat_of_isAlpha {c : Char} (h : c.isAlpha = true) :
    65 ≤ c.toNat ∧ c.toNat ≤ 90 ∨ 97 ≤ c.toNat ∧ c.toNat ≤ 122 := by
  have h : (decide ('A'.val ≤ c.val ∧ c.val ≤ 'Z'.val) ||
    (decide ('a'.val ≤ c.val) && decide (c.val ≤ 'z'.val))) = true := h
  simp only [Bool.or_eq_true, Bool.and_eq_true, decide_eq_true_eq, UInt32.le_iff_toNat_le] at h
  exact h

theorem not_isAlpha_of_isDigit {c : Char} (h : c.isDigit = true) : c.isAlpha = false := by
  rw [Char.isDigit_iff_toNat] at h
  refine Bool.eq_false_iff.2 fun halpha => ?_
  have hcases := toNat_of_isAlpha halpha
  have : '9'.toNat = 57 := rfl
  omega

theorem not_isLetter_of_isDigit {c : Char} (h : c.isDigit = true) : isLetter c = false := by
  have hmark : c ≠ '_' ∧ c ≠ '@' := by
    constructor <;> rintro rfl <;> cases h
  simp [isLetter, not_isAlpha_of_isDigit h, hmark]

theorem isBlank_of_isLetter {c : Char} (h : isLetter c = true) : isBlank c = false ∧ c ≠ '/' := by
  constructor
  · cases hb : isBlank c with
    | false => rfl
    | true =>
      simp only [isBlank, Bool.or_eq_true, decide_eq_true_eq] at hb
      obtain ((rfl | rfl) | rfl) | rfl := hb <;> cases h
  · rintro rfl
    cases h

theorem isLetter_of_toLower {c : Char} (h : isLetter c.toLower = true) : isLetter c = true := by
  unfold Char.toLower at h
  split at h
  · rename_i hc
    have hupper : c.isUpper = true := decide_eq_true hc
    have halpha : c.isAlpha = true := by
      change (c.isUpper || c.isLower) = true
      rw [hupper]
      rfl
    simp [isLetter, halpha]
  · exact h

namespace Comment
variable {cs : List Char}

theorem isLetter_of_opensBlock (h : opensBlock ('[' :: cs) = true) :
    ∀ c ∈ cs.take blockWord.length, isLetter c = true := by
  intro c hc
  have hword : Text.lower (cs.take blockWord.length) = blockWord := of_decide_eq_true h
  have hmem : c.toLower ∈ blockWord := hword ▸ List.mem_map_of_mem hc
  have hletters : blockWord.all isLetter = true := by decide
  exact isLetter_of_toLower (List.all_eq_true.1 hletters _ hmem)

theorem exists_letters_of_opensBlock (h : opensBlock ('[' :: cs) = true) :
    ∃ x y rest, cs = x :: y :: rest ∧ isLetter x = true ∧ isLetter y = true := by
  have hword : Text.lower (cs.take blockWord.length) = blockWord := of_decide_eq_true h
  have hletter := isLetter_of_opensBlock h
  have hlength : blockWord.length = 9 := by decide
  match cs with
  | [] | [_] => exact absurd (congrArg List.length hword) (by simp [Text.length_lower, hlength])
  | x :: y :: rest =>
    exact ⟨x, y, rest, rfl, hletter x (by simp [hlength]), hletter y (by simp [hlength])⟩

end Comment

namespace Lexeme
variable {c : Char} {cs : List Char}

theorem wordLike_eq_word (h : ∀ x rest, cs ≠ x :: '\'' :: rest) : wordLike cs = word cs := by
  unfold wordLike
  split
  · exact absurd rfl (h _ _)
  · rfl

theorem kind_quotedDigits (radix : Radix) (kind : TokenKind) (fault : LexFault) (lead : Char)
    (cs : List Char) : (quotedDigits radix kind fault lead cs).kind = kind ∨
      (quotedDigits radix kind fault lead cs).kind = .fault fault := by
  unfold quotedDigits
  dsimp only
  split
  · dsimp only
    split
    · exact .inl rfl
    · exact .inr rfl
  · exact .inr rfl

/-- What is read where a letter is: a word, or digits between quotes. -/
theorem kind_wordLike_cases (cs : List Char) : wordLike cs = word cs ∨
    (wordLike cs).kind ∈
      [.hexString, .fault .malformedHex, .bitString, .fault .malformedBit] := by
  have hquoted : ∀ radix kind fault lead cs, (quotedDigits radix kind fault lead cs).kind ∈
      [kind, .fault fault] := by
    intro radix kind fault lead cs
    simpa using kind_quotedDigits radix kind fault lead cs
  unfold wordLike
  split
  · split
    · exact .inr (List.mem_append_left _ (hquoted _ _ _ _ _))
    · split
      · exact .inr (List.mem_append_right [_, _] (hquoted _ _ _ _ _))
      · exact .inl rfl
  · exact .inl rfl

theorem kind_number_cases (cs : List Char) :
    (number cs).kind ∈ [.integer, .float, .hexNumber, .fault .malformedNumber] := by
  have hplain : ∀ cs, (Numeral.literal.plain cs).1 ∈ [.integer, .float, .hexNumber] := by
    intro cs
    unfold Numeral.literal.plain
    dsimp only
    split <;> simp
  have hliteral : (Numeral.literal cs).1 ∈ [.integer, .float, .hexNumber] := by
    unfold Numeral.literal
    split
    · split
      · simp
      · exact hplain _
    · exact hplain _
  unfold number raw
  dsimp only
  split
  · simp
  · exact List.mem_append_left [_] hliteral

/-- The characters that are no punctuation and start a symbol all the same. -/
def symbolStarts : List Char := ['#', '\'', '"', '`', '?']

theorem symbol_cases (cs : List Char) :
    (symbol cs).kind ∈ [.endOfInput, .comment, .fault .unterminatedComment, .string,
      .fault .unterminatedString, .identifier, .fault .unterminatedIdentifier,
      .fault .emptyIdentifier, .argument] ∨
    (∃ o, (symbol cs).kind = .operator o) ∨
    ∃ c xs, cs = c :: xs ∧ c ∉ symbolStarts ∧ symbol cs = single c xs := by
  generalize hl : symbol cs = l
  unfold symbol at hl
  split at hl
  case h_5 =>
    subst hl
    unfold blockComment
    split <;> simp [raw]
  case h_6 | h_7 =>
    subst hl
    unfold string
    dsimp only
    split <;> simp
  case h_8 =>
    subst hl
    unfold quotedIdentifier
    dsimp only
    split
    · simp
    · split <;> simp
  case h_19 c cs _ _ _ _ _ _ _ _ _ _ _ _ _ _ _ _ _ =>
    subst hl
    refine .inr (.inr ⟨c, cs, rfl, ?_, rfl⟩)
    simp_all [symbolStarts]
  all_goals
    subst hl
    simp [raw, operator, lineComment]

theorem ofText_word {w : String} (hw : isWord w = true) (hc : isWordPart c = false)
    (hq : c ≠ '\'') (cs : List Char) :
    ofText (w.toList ++ c :: cs) = ⟨wordKind w, w.toList, ⟨w.toList, c :: cs⟩⟩ := by
  obtain ⟨x, xs, hxs, hx, hpart⟩ := (isWord_iff w).1 hw
  have hspan : Cut.span isWordPart (w.toList ++ c :: cs) = ⟨w.toList, c :: cs⟩ :=
    Cut.span_append (hxs ▸ hpart) (by simpa using hc)
  -- so a word `x` or `b` is not taken for the start of a literal
  have hquote : ∀ y rest, w.toList ++ c :: cs ≠ y :: '\'' :: rest := by
    rw [hxs]
    intro y rest he
    cases xs with
    | nil => exact hq (List.cons.inj (List.cons.inj he).2).1
    | cons z xs =>
      obtain ⟨rfl, -⟩ := List.cons.inj (List.cons.inj he).2
      exact absurd (hpart '\'' (by simp)) (by decide)
  have hhead : (w.toList ++ c :: cs).head?.any isLetter = true := by rw [hxs]; simpa using hx
  rw [ofText, if_pos hhead, wordLike_eq_word hquote, word, hspan, raw, String.ofList_toList]
  rfl

theorem ofText_punct (h : c ∈ ['[', ']', ':', '(', ')']) (cs : List Char) :
    ofText (c :: cs) = ⟨.punct c, [c], ⟨[c], cs⟩⟩ := by
  simp only [List.mem_cons, List.not_mem_nil, or_false] at h
  obtain rfl | rfl | rfl | rfl | rfl := h <;> rfl

theorem ofText_dash (cs : List Char) :
    ofText ('-' :: ' ' :: cs) = ⟨.punct '-', ['-'], ⟨['-'], ' ' :: cs⟩⟩ := rfl

theorem ofText_string (text : List Char) (h : c ≠ '"') (cs : List Char) :
    ofText ('"' :: (text.flatMap escape ++ '"' :: c :: cs)) =
      ⟨.string, text, ⟨'"' :: (text.flatMap escape ++ ['"']), c :: cs⟩⟩ := by
  change string '"' (text.flatMap escape ++ '"' :: c :: cs) = _
  rw [string, Quoted.string_escape text h]
  rfl

theorem ofText_line {lead : List Char} (h : lead ∈ [['#'], ['-', '-'], ['/', '/']])
    {text : List Char} (ht : '\n' ∉ text) (rest : List Char) :
    ofText (lead ++ (text ++ '\n' :: rest)) =
      raw .comment ⟨lead ++ (text ++ ['\n']), rest⟩ := by
  have hl : ofText (lead ++ (text ++ '\n' :: rest)) = lineComment lead (text ++ '\n' :: rest) := by
    simp only [List.mem_cons, List.not_mem_nil, or_false] at h
    obtain rfl | rfl | rfl := h <;> rfl
  rw [hl, lineComment, Comment.line_append ht]

theorem ofText_block {text : List Char} (h : ¬ ['*', '/'] <:+: text) (rest : List Char) :
    ofText ('/' :: '*' :: (text ++ '*' :: '/' :: rest)) =
      raw .comment ⟨'/' :: '*' :: (text ++ ['*', '/']), rest⟩ := by
  change blockComment (text ++ '*' :: '/' :: rest) = _
  rw [blockComment, Comment.block?_append h]
  rfl

end Lexeme
end SqlComposer
