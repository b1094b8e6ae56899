import SqlComposer.Proofs.Token.Seeing

/-! A scanner never reads outside of its bytes. Whatever stands before it, a scan is the scan of a byte
cursor, so the tokens of a text are found in its bytes, and they tile the text. -/
namespace SqlComposer
namespace Scanner
variable {s : Scanner} {c : Char} {cs xs : List Char}

/-! Quoted text and comments. -/

/-- The token of a quoted text, of which `value` has been read already. -/
def giveBody (s : Scanner) (start : Position) (kind : TokenKind) (value : List Char)
    (body : Quoted.Body) : Checked (Token × Scanner) :=
  pure (.ofBytes kind (unlatin (value ++ body.text)) start, s.past body.cut.taken)

theorem giveBody_cons (s : Scanner) (start : Position) (kind : TokenKind) (value written : List Char)
    (c : Char) (body : Quoted.Body) :
    (s.past written).giveBody start kind (value ++ [c]) body =
      s.giveBody start kind value (body.cons c written) := by
  simp only [giveBody, Quoted.Body.cons, past_past, List.append_assoc, List.singleton_append]

theorem giveBody_nil (s : Scanner) (start : Position) (kind : TokenKind) (value taken : List Char)
    (rest : List Char) (closed : Bool) :
    s.giveBody start kind value ⟨[], ⟨taken, rest⟩, closed⟩ =
      pure (.ofBytes kind (unlatin value) start, s.past taken) := by
  rw [giveBody, List.append_nil]

namespace Sees
variable (start : Position) (value : List Char)

theorem scanString_cons (h : s.Sees (c :: cs)) (quote : Char) :
    s.scanString start quote value =
      if c = '\\' then
        match cs.head? with
        | none => pure (.ofBytes (.fault .unterminatedString) (unlatin value) start, s.past [c])
        | some e => (s.past [c, e]).scanString start quote (value ++ [Quoted.unescape e])
      else if c = quote then
        if cs.head? = some quote then
          (s.past [c, quote]).scanString start quote (value ++ [quote])
        else pure (.ofBytes .string (unlatin value) start, s.past [c])
      else (s.past [c]).scanString start quote (value ++ [c]) := by
  have hnext : (s.past [c]).Sees cs := h.next
  conv => lhs; unfold Scanner.scanString
  rw [h.peek]
  dsimp only [List.head?_cons]
  rw [Checked.pbind_eq h.advance, hnext.peek]
  cases cs with
  | nil => rfl
  | cons d cs =>
    simp only [List.head?_cons, Checked.pbind_eq hnext.advance, past_past, List.singleton_append]
    refine ite_congr rfl (fun _ => rfl) fun _ => ite_congr rfl (fun _ => ?_) fun _ => rfl
    exact ite_congr rfl (fun hd => Option.some_inj.1 hd ▸ rfl) fun _ => rfl

theorem scanString_nil (h : s.Sees []) (quote : Char) :
    s.scanString start quote value =
      s.giveBody start (.fault .unterminatedString) value (.unclosed []) := by
  unfold Scanner.scanString
  rw [h.peek, Quoted.Body.unclosed, giveBody_nil]
  rfl

theorem scanString (h : s.Sees cs) (quote : Char) :
    s.scanString start quote value = s.giveBody start
      (if (Quoted.string quote cs).closed then .string else .fault .unterminatedString) value
      (Quoted.string quote cs) := by
  -- by induction on the reader of texts, whatever has been read in front
  fun_induction Quoted.string quote cs generalizing s value with
  | case1 => exact h.scanString_nil ..
  | case2 =>
    rw [h.scanString_cons, if_pos rfl, Quoted.Body.unclosed, giveBody_nil]
    rfl
  | case3 c cs ih =>
    rw [h.scanString_cons, if_pos rfl]
    exact (ih _ h.next_next).trans (giveBody_cons ..)
  | case4 hquote =>
    rw [h.scanString_cons, if_neg hquote, if_pos rfl, giveBody_nil]
    rfl
  | case5 c hc hquote =>
    rw [h.scanString_cons, if_neg hc, if_neg hquote]
    exact (scanString_nil _ _ h.next _).trans (giveBody_cons ..)
  | case6 cs hquote ih =>
    rw [h.scanString_cons, if_neg hquote, if_pos rfl, if_pos List.head?_cons]
    exact (ih _ h.next_next).trans (giveBody_cons ..)
  | case7 d cs hd hquote =>
    rw [h.scanString_cons, if_neg hquote, if_pos rfl, if_neg (by simpa using hd), giveBody_nil]
    rfl
  | case8 c d cs hc hquote ih =>
    rw [h.scanString_cons, if_neg hc, if_neg hquote]
    exact (ih _ h.next).trans (giveBody_cons ..)

theorem scanBacktick_cons (h : s.Sees (c :: cs)) :
    s.scanBacktick start value =
      if c = '`' then
        if cs.head? = some '`' then (s.past ['`', '`']).scanBacktick start (value ++ ['`'])
        else
          let kind := if value.isEmpty then .fault .emptyIdentifier else .identifier
          pure (.ofBytes kind (unlatin value) start, s.past [c])
      else (s.past [c]).scanBacktick start (value ++ [c]) := by
  have hnext : (s.past [c]).Sees cs := h.next
  conv => lhs; unfold Scanner.scanBacktick
  rw [h.peek]
  dsimp only [List.head?_cons]
  rw [Checked.pbind_eq h.advance, hnext.peek]
  refine ite_congr rfl (fun hc => ite_congr rfl (fun hcs => ?_) fun _ => rfl) fun _ => rfl
  obtain ⟨ds, rfl⟩ := List.head?_eq_some_iff.1 hcs
  rw [Checked.pbind_eq hnext.advance, past_past, hc]
  rfl

end Sees

/-- The kind of an identifier of which `value` has been read already. -/
def identifierKind (value : List Char) (body : Quoted.Body) : TokenKind :=
  if !body.closed then .fault .unterminatedIdentifier
  else if (value ++ body.text).isEmpty then .fault .emptyIdentifier
  else .identifier

theorem identifierKind_cons (value written : List Char) (c : Char) (body : Quoted.Body) :
    identifierKind (value ++ [c]) body = identifierKind value (body.cons c written) := by
  simp only [identifierKind, Quoted.Body.cons, List.append_assoc, List.singleton_append]
  rfl

namespace Sees
variable (start : Position) (value : List Char)

theorem scanBacktick (h : s.Sees cs) :
    s.scanBacktick start value = s.giveBody start (identifierKind value (Quoted.identifier cs)) value
      (Quoted.identifier cs) := by
  fun_induction Quoted.identifier cs generalizing s value with
  | case1 =>
    unfold Scanner.scanBacktick
    rw [h.peek, Quoted.Body.unclosed, giveBody_nil]
    rfl
  | case2 =>
    rw [h.scanBacktick_cons, if_pos rfl, if_neg (by simp), giveBody_nil, identifierKind,
      List.append_nil]
    rfl
  | case3 cs ih =>
    rw [h.scanBacktick_cons, if_pos rfl, if_pos List.head?_cons,
      ih _ h.next_next, identifierKind_cons _ ['`', '`']]
    exact giveBody_cons ..
  | case4 c cs hc =>
    rw [h.scanBacktick_cons, if_pos rfl, if_neg (by simpa using hc), giveBody_nil, identifierKind,
      List.append_nil]
    rfl
  | case5 c cs hnil hdouble hsingle ih =>
    have hc : c ≠ '`' := fun hc => by
      cases cs with
      | nil => exact hnil hc rfl
      | cons d cs => exact hsingle d cs hc rfl
    rw [h.scanBacktick_cons, if_neg hc, ih _ h.next, identifierKind_cons _ [c]]
    exact giveBody_cons ..

theorem scanLineComment (taken : List Char) (h : s.Sees (taken ++ cs)) :
    (s.past taken).scanLineComment s.position = pure (s.give (.lineComment taken cs)) := by
  induction cs generalizing taken with
  | nil =>
    unfold Scanner.scanLineComment
    rw [h.past.peek]
    dsimp only [List.head?_nil]
    rw [h.raw, Lexeme.lineComment, Comment.line, Cut.nothing, List.append_nil]
  | cons c cs ih =>
    unfold Scanner.scanLineComment
    rw [h.past.peek]
    dsimp only [List.head?_cons]
    rw [Checked.pbind_eq h.past.advance, past_past]
    have hnext : s.Sees ((taken ++ [c]) ++ cs) := by rwa [List.append_assoc]
    by_cases hc : c = '\n'
    · subst hc
      rw [if_pos rfl, hnext.raw]
      rfl
    · rw [if_neg hc, ih _ hnext, Lexeme.lineComment, Lexeme.lineComment, Comment.line, Cut.cons,
        List.append_assoc]
      · rfl
      · exact hc

end Sees

/-- A comment of which `taken` has been read already, through its `*/`. -/
def commentBehind (taken cs : List Char) : Lexeme :=
  match Comment.block? cs with
  | some body => .raw .comment ⟨taken ++ body.taken, body.rest⟩
  | none => .raw (.fault .unterminatedComment) ⟨taken ++ cs, []⟩

theorem commentBehind_cons (h : ∀ ys, c = '*' → cs ≠ '/' :: ys) (taken : List Char) :
    commentBehind taken (c :: cs) = commentBehind (taken ++ [c]) cs := by
  rw [commentBehind, commentBehind, Comment.block?_cons h]
  cases Comment.block? cs <;> simp [Cut.cons]

theorem commentBehind_append (h : ∀ c ∈ xs, isBlank c = true) (taken cs : List Char) :
    commentBehind taken (xs ++ cs) = commentBehind (taken ++ xs) cs := by
  induction xs generalizing taken with
  | nil => simp
  | cons x xs ih =>
    obtain ⟨hx, hxs⟩ := List.forall_mem_cons.1 h
    have hstar : x ≠ '*' := by
      rintro rfl
      cases hx
    rw [List.cons_append, commentBehind_cons fun _ he => absurd he hstar, ih hxs,
      List.append_assoc, List.singleton_append]

theorem blockComment_eq (cs : List Char) : Lexeme.blockComment cs = commentBehind ['/', '*'] cs := by
  rw [Lexeme.blockComment, commentBehind]
  cases Comment.block? cs <;> rfl

namespace Sees

theorem scanThroughClosing {taken : List Char} (h : s.Sees (taken ++ cs)) :
    (s.past taken).scanThroughClosing s.position = pure (s.give (commentBehind taken cs)) := by
  induction cs generalizing taken with
  | nil =>
    unfold Scanner.scanThroughClosing
    rw [h.past.peek]
    dsimp only [List.head?_nil]
    rw [h.raw, commentBehind, Comment.block?, List.append_nil]
  | cons c cs ih =>
    have hnext : s.Sees ((taken ++ [c]) ++ cs) := by rwa [List.append_assoc]
    unfold Scanner.scanThroughClosing
    rw [h.past.peek, h.past.peekAt]
    dsimp only [List.head?_cons]
    by_cases hclosing : c = '*' ∧ cs.head? = some '/'
    · obtain ⟨rfl, hslash⟩ := hclosing
      obtain ⟨ds, rfl⟩ := List.head?_eq_some_iff.1 hslash
      have hclosed : s.Sees ((taken ++ ['*', '/']) ++ ds) := by rwa [List.append_assoc]
      rw [if_pos ⟨rfl, rfl⟩, h.past.advance_advance, past_past, hclosed.raw]
      rfl
    · rw [if_neg (by rwa [List.getElem?_cons_succ, ← List.head?_eq_getElem?]),
        Checked.pbind_eq h.past.advance, past_past, ih hnext, commentBehind_cons]
      rintro ys rfl rfl
      exact hclosing ⟨rfl, rfl⟩

theorem wordFollows (h : s.Sees (c :: cs)) :
    s.wordFollows = decide (Text.lower (cs.take Comment.blockWord.length) = Comment.blockWord) := by
  have hnext : (s.past [c]).Sees cs := h.next
  have hstart : s.position.offset + 1 = (s.past [c]).position.offset := (offset_past s [c]).symm
  have hsplit : (s.past [c]).Sees (cs.take Comment.blockWord.length ++
      cs.drop Comment.blockWord.length) := by rwa [List.take_append_drop]
  unfold Scanner.wordFollows
  dsimp only
  rw [hstart]
  by_cases hlength : Comment.blockWord.length ≤ cs.length
  · have hslice := hsplit.slice_ahead
    rw [List.length_take_of_le hlength] at hslice
    change s.slice _ _ = _ at hslice
    rw [hslice]
    change decide (Text.lower (latin (unlatin _)) = _) = _
    rw [hsplit.latin_unlatin_left]
  · have houtside : ¬ (s.past [c]).position.offset + Comment.blockWord.length ≤ s.input.length := by
      have hinside : s.input.length = _ := hnext.length
      omega
    rw [Scanner.slice, if_neg (mt And.right houtside)]
    refine (decide_eq_false fun hword => hlength ?_).symm
    rw [← hword, Text.length_lower, List.length_take]
    omega

theorem opensBlock (h : s.Sees cs) :
    (s.peek = some '[' ∧ s.wordFollows = true) ↔ Comment.opensBlock cs = true := by
  rw [h.peek]
  cases cs with
  | nil => simp [Comment.opensBlock]
  | cons c cs =>
    rw [h.wordFollows]
    by_cases hc : c = '['
    · subst hc
      simp [Comment.opensBlock]
    · simp [Comment.opensBlock, hc]

theorem scanBlockComment (h : s.Sees ('/' :: '*' :: cs)) :
    (s.past ['/', '*']).scanBlockComment s.position =
      pure (if Comment.opensBlock (Cut.span isBlank cs).rest then
        (s.past ('/' :: '*' :: (Cut.span isBlank cs).taken)).give
          (.raw (.punct '[') ⟨['['], (Cut.span isBlank cs).rest.tail⟩)
      else s.give (.blockComment cs)) := by
  have hopened : (s.past ['/', '*']).Sees cs := h.next_next
  have hblank := hopened.behind (Cut.whole_span isBlank cs)
  rw [past_past] at hblank
  rw [Scanner.scanBlockComment, hopened.passWhile, pure_bind, past_past]
  by_cases hblock : Comment.opensBlock (Cut.span isBlank cs).rest = true
  · obtain ⟨hbracket, -⟩ := hblank.opensBlock.2 hblock
    rw [hblank.peek] at hbracket
    obtain ⟨ds, hds⟩ := List.head?_eq_some_iff.1 hbracket
    rw [if_pos (hblank.opensBlock.2 hblock), if_pos hblock, hds]
    rw [hds] at hblank
    rw [hblank.advance, pure_bind]
    exact hblank.raw_single _
  · rw [if_neg (mt hblank.opensBlock.1 hblock), if_neg hblock, blockComment_eq]
    have hwhole : cs = (Cut.span isBlank cs).taken ++ (Cut.span isBlank cs).rest :=
      (Cut.whole_span isBlank cs).symm
    have hblanks : ∀ c ∈ (Cut.span isBlank cs).taken, isBlank c = true := fun c =>
      Comment.isBlank_of_mem_span
    have hcomment := commentBehind_append hblanks ['/', '*'] (Cut.span isBlank cs).rest
    have hsplit : s.Sees ((['/', '*'] ++ (Cut.span isBlank cs).taken) ++
        (Cut.span isBlank cs).rest) := by rwa [List.append_assoc, ← hwhole]
    rw [← hwhole] at hcomment
    rw [hcomment]
    exact hsplit.scanThroughClosing

end Sees

/-! Tokens. -/

/-- The token of a lexeme in the bytes before the scanner, and the scanner behind it. -/
def found (s : Scanner) (l : ByteLexeme) : Token × Scanner :=
  let behind := s.position.advanceBytes l.taken
  if l.kind = .argument then
    let n := s.arguments + 1
    (⟨.argument, Cursor.argumentName n, s.position⟩, ⟨s.input, behind, n⟩)
  else (⟨l.kind, String.ofList l.text, s.position⟩, ⟨s.input, behind, s.arguments⟩)

end Scanner

namespace TokenKind

/-- The token says no more than the bytes that were collected for it. -/
structure IsOrdinary (kind : TokenKind) : Prop where
  numbered : kind ≠ .argument
  unexpected : ∀ c, kind ≠ .fault (.unexpectedCharacter c)

namespace IsOrdinary

theorem comment : IsOrdinary .comment := ⟨by simp, by simp⟩

theorem punct (c : Char) : IsOrdinary (.punct c) := ⟨by simp, by simp⟩

theorem operator (o : Operator) : IsOrdinary (.operator o) := ⟨by simp, by simp⟩

end IsOrdinary
end TokenKind

namespace Lexeme

/-- The longer spellings, by their first two characters. -/
def longer : List (Char × Char) :=
  [('/', '/'), ('-', '-'), ('/', '*'), ('&', '&'), ('|', '|'), ('!', '='), ('<', '>'), ('<', '<'),
    ('<', '='), ('>', '='), ('>', '>')]

/-- The punctuation that starts nothing longer. -/
def alone : List Char :=
  ['=', ',', ';', '(', ')', '+', '*', '%', '^', '~', '[', ']', ':', '{', '}', '.']

/-- A punctuation character is a token by itself, unless it starts a longer one. -/
theorem symbol_alone {c : Char} {cs : List Char} (hc : c ∈ punctuation)
    (h : ∀ d, (c, d) ∈ longer → cs.head? ≠ some d) : symbol (c :: cs) = raw (.punct c) ⟨[c], cs⟩ := by
  have hs : c ∉ symbolStarts := by
    have hall : punctuation.all (· ∉ symbolStarts) = true := by decide
    exact of_decide_eq_true (List.all_eq_true.1 hall c hc)
  have hsingle : symbol (c :: cs) = single c cs := by
    rw [symbol]
    all_goals
      intros
      subst_vars
      first
        | exact hs (by decide)
        | exact h _ (by decide) rfl
  rw [hsingle, single, if_pos hc]

theorem isOrdinary_wordLike (cs : List Char) : (wordLike cs).kind.IsOrdinary := by
  obtain hword | hkind := kind_wordLike_cases cs
  · rw [hword, kind_word]
    cases Keyword.ofWord? (String.ofList (Cut.span isWordPart cs).taken) <;>
      exact ⟨by simp, by simp⟩
  · simp only [List.mem_cons, List.not_mem_nil, or_false] at hkind
    obtain hkind | hkind | hkind | hkind := hkind <;>
      exact ⟨by simp [hkind], by simp [hkind]⟩

theorem isOrdinary_number (cs : List Char) : (number cs).kind.IsOrdinary := by
  have hkind := kind_number_cases cs
  simp only [List.mem_cons, List.not_mem_nil, or_false] at hkind
  obtain hkind | hkind | hkind | hkind := hkind <;>
      exact ⟨by simp [hkind], by simp [hkind]⟩

theorem isOrdinary_string (quote : Char) (cs : List Char) : (string quote cs).kind.IsOrdinary := by
  unfold string
  dsimp only
  split <;> exact ⟨by simp, by simp⟩

theorem isOrdinary_quotedIdentifier (cs : List Char) : (quotedIdentifier cs).kind.IsOrdinary := by
  unfold quotedIdentifier
  dsimp only
  split
  · exact ⟨by simp, by simp⟩
  · split <;> exact ⟨by simp, by simp⟩

theorem isOrdinary_blockComment (cs : List Char) : (blockComment cs).kind.IsOrdinary := by
  unfold blockComment
  split <;> exact ⟨by simp [raw], by simp [raw]⟩

end Lexeme

namespace Scanner
variable {s : Scanner} {c : Char} {cs : List Char}

theorem Sees.found (h : s.Sees cs) {l : Lexeme} (hl : Lexeme.ofText cs = l) (hordinary : l.kind.IsOrdinary) :
    s.found (.ofBytes (unlatin cs)) = s.give l := by
  have hbytes : ByteLexeme.ofBytes (unlatin cs) = ⟨l.kind, Utf8.decode (unlatin l.text),
      unlatin l.text, unlatin l.cut.taken, unlatin l.cut.rest⟩ := by
    unfold ByteLexeme.ofBytes
    rw [h.latin_unlatin, hl]
    dsimp only
    split
    · exact absurd ‹_› (hordinary.unexpected _)
    · rfl
  rw [Scanner.found, hbytes, if_neg hordinary.numbered]
  rfl

namespace Sees

/-- The bytes that are decoded for a character lie within the input, however near its end. -/
theorem slice_character (h : s.Sees cs) :
    s.slice s.position.offset (min (s.position.offset + 4) s.input.length) =
      pure ((unlatin cs).take 4) := by
  have hsplit : s.Sees (cs.take 4 ++ cs.drop 4) := by rwa [List.take_append_drop]
  have hahead := hsplit.slice_ahead
  rw [List.length_take] at hahead
  rw [h.length, Nat.add_min_add_left, hahead, unlatin, List.map_take]
  rfl

theorem sub_length (h : s.Sees cs) :
    Checked.sub s.input.length s.position.offset = pure cs.length := by
  rw [Checked.sub, h.length, if_pos (Nat.le_add_right ..), Nat.add_sub_cancel_left]
  rfl

theorem unexpected (h : s.Sees (c :: cs))
    (hc : (Lexeme.ofText (c :: cs)).kind = .fault (.unexpectedCharacter c)) :
    (s.past [c]).unexpected s.position = pure (s.found (.ofBytes (unlatin (c :: cs)))) := by
  have hnext : (s.past [c]).Sees cs := h.next
  generalize hx : (Utf8.decode ((unlatin (c :: cs)).take 4)).headD Utf8.replacement = x
  obtain ⟨n, hn⟩ : ∃ n, min x.utf8Size (c :: cs).length = n + 1 := by
    have hpos := x.utf8Size_pos
    refine ⟨_, (Nat.succ_pred_eq_of_pos ?_).symm⟩
    rw [List.length_cons]
    omega
  have hle : n ≤ cs.length := by
    rw [List.length_cons] at hn
    omega
  have hbytes : ByteLexeme.ofBytes (unlatin (c :: cs)) = ⟨.fault (.unexpectedCharacter x), [x],
      (unlatin (c :: cs)).take (n + 1), (unlatin (c :: cs)).take (n + 1),
      (unlatin (c :: cs)).drop (n + 1)⟩ := by
    unfold ByteLexeme.ofBytes
    rw [h.latin_unlatin]
    dsimp only
    rw [hc]
    dsimp only
    rw [hx, length_unlatin, hn]
  have hpast : (s.past [c]).past (cs.take n) = s.past ((c :: cs).take (n + 1)) := past_past ..
  unfold Scanner.unexpected
  change (s.slice s.position.offset (min (s.position.offset + 4) s.input.length) >>= _) = _
  rw [h.slice_character, pure_bind, hx]
  change (Checked.sub s.input.length s.position.offset >>= _) = _
  rw [h.sub_length, pure_bind, hn]
  change ((s.past [c]).advanceTimes n >>= _) = _
  rw [hnext.advanceTimes hle, pure_bind, hpast, Scanner.found, hbytes, if_neg (by simp), Scanner.past,
    unlatin, unlatin, List.map_take]

/-- A lexeme that is no word and no number, with the steps that find it. -/
theorem found_symbol (h : s.Sees (c :: cs)) (hsymbol : Lexeme.ofText (c :: cs) = .symbol (c :: cs))
    {l : Lexeme} (hl : Lexeme.symbol (c :: cs) = l) (hordinary : l.kind.IsOrdinary)
    {x : Checked (Token × Scanner)} (hx : x = pure (s.give l)) :
    x = pure (s.found (.ofBytes (unlatin (c :: cs)))) := by
  rw [hx, h.found (hsymbol.trans hl) hordinary]

theorem advance_raw {d : Char} (h : s.Sees (c :: d :: cs)) (kind : TokenKind) :
    ((s.past [c]).advance >>= fun t => t.raw s.position kind) =
      pure (s.give (.raw kind ⟨[c, d], cs⟩)) := by
  rw [h.next.advance, pure_bind, past_past]
  exact h.raw_pair kind

theorem operatorOr_symbol {second : Char} {o : Operator} (h : s.Sees (c :: cs))
    (hsymbol : Lexeme.ofText (c :: cs) = .symbol (c :: cs)) (hc : c ∈ Lexeme.punctuation)
    (honly : ∀ d, (c, d) ∈ Lexeme.longer → d = second)
    (hpair : ∀ ds, Lexeme.symbol (c :: second :: ds) = .raw (.operator o) ⟨[c, second], ds⟩) :
    (s.past [c]).operatorOr s.position second o (.punct c) =
      pure (s.found (.ofBytes (unlatin (c :: cs)))) := by
  have hread := h.operatorOr [c] second o (.punct c)
  split at hread
  · obtain ⟨ds, rfl⟩ := List.head?_eq_some_iff.1 ‹_›
    exact h.found_symbol hsymbol (hpair ds) (.operator o) hread
  · rename_i hsecond
    have halone := Lexeme.symbol_alone hc fun d hd => honly d hd ▸ hsecond
    exact h.found_symbol hsymbol halone (.punct c) hread

theorem scanSymbol_argument (h : s.Sees ('?' :: cs)) :
    (s.past ['?']).scanSymbol s.position '?' = pure (s.found (.ofBytes (unlatin ('?' :: cs)))) := by
  have hbytes : ByteLexeme.ofBytes (unlatin ('?' :: cs)) =
      ⟨.argument, Utf8.decode (unlatin ['?']), unlatin ['?'], unlatin ['?'], unlatin cs⟩ := by
    unfold ByteLexeme.ofBytes
    rw [h.latin_unlatin]
    rfl
  rw [Scanner.found, hbytes]
  rfl

theorem scanSymbol_comment (h : s.Sees (c :: c :: cs)) (hc : c = '/' ∨ c = '-') :
    ((s.past [c]).advance >>= fun t => t.scanLineComment s.position) =
      pure (s.found (.ofBytes (unlatin (c :: c :: cs)))) := by
  have hnext : (s.past [c]).Sees (c :: cs) := h.next
  have hread := h.scanLineComment [c, c]
  rw [hnext.advance, pure_bind, past_past]
  obtain rfl | rfl := hc
  all_goals exact h.found_symbol rfl rfl .comment hread

theorem opensBlock_of_opener
    (hopener : Comment.opener ('/' :: '*' :: cs) = .nothing ('/' :: '*' :: cs)) :
    ¬ Comment.opensBlock (Cut.span isBlank cs).rest = true := by
  intro hblock
  rw [Comment.opener, if_pos hblock] at hopener
  exact absurd (congrArg Cut.taken hopener) (List.cons_ne_nil _ _)

theorem scanSymbol_slash (h : s.Sees ('/' :: cs))
    (hopener : Comment.opener ('/' :: cs) = .nothing ('/' :: cs)) :
    (s.past ['/']).scanSymbol s.position '/' = pure (s.found (.ofBytes (unlatin ('/' :: cs)))) := by
  have hnext : (s.past ['/']).Sees cs := h.next
  change (if (s.past ['/']).peek = some '/' then _ else if (s.past ['/']).peek = some '*' then _
    else _) = _
  rw [hnext.peek]
  by_cases hslash : cs.head? = some '/'
  · obtain ⟨ds, rfl⟩ := List.head?_eq_some_iff.1 hslash
    exact h.scanSymbol_comment (.inl rfl)
  rw [if_neg hslash]
  by_cases hstar : cs.head? = some '*'
  · obtain ⟨ds, rfl⟩ := List.head?_eq_some_iff.1 hstar
    have hread := h.scanBlockComment
    rw [if_neg (opensBlock_of_opener hopener)] at hread
    rw [if_pos hstar, hnext.advance, pure_bind, past_past]
    exact h.found_symbol rfl rfl (Lexeme.isOrdinary_blockComment ds) hread
  · have halone : Lexeme.symbol ('/' :: cs) = _ := Lexeme.symbol_alone (by decide)
      (by simp [Lexeme.longer, hslash, hstar])
    rw [if_neg hstar]
    exact h.found_symbol rfl halone (.punct _) (h.raw_single _)

theorem scanSymbol_dash (h : s.Sees ('-' :: cs)) :
    (s.past ['-']).scanSymbol s.position '-' = pure (s.found (.ofBytes (unlatin ('-' :: cs)))) := by
  have hnext : (s.past ['-']).Sees cs := h.next
  change (if (s.past ['-']).peek = some '-' then _ else _) = _
  rw [hnext.peek]
  by_cases hdash : cs.head? = some '-'
  · obtain ⟨ds, rfl⟩ := List.head?_eq_some_iff.1 hdash
    exact h.scanSymbol_comment (.inr rfl)
  · have halone : Lexeme.symbol ('-' :: cs) = _ := Lexeme.symbol_alone (by decide)
      (by simp [Lexeme.longer, hdash])
    rw [if_neg hdash]
    exact h.found_symbol rfl halone (.punct _) (h.raw_single _)

theorem scanSymbol_less (h : s.Sees ('<' :: cs)) :
    (s.past ['<']).scanSymbol s.position '<' = pure (s.found (.ofBytes (unlatin ('<' :: cs)))) := by
  have hnext : (s.past ['<']).Sees cs := h.next
  change (if (s.past ['<']).peek = some '>' then _ else if (s.past ['<']).peek = some '<' then _
    else if (s.past ['<']).peek = some '=' then _ else _) = _
  rw [hnext.peek]
  by_cases hgreater : cs.head? = some '>'
  · obtain ⟨ds, rfl⟩ := List.head?_eq_some_iff.1 hgreater
    exact h.found_symbol rfl rfl (.operator _) (h.advance_raw _)
  rw [if_neg hgreater]
  by_cases hless : cs.head? = some '<'
  · obtain ⟨ds, rfl⟩ := List.head?_eq_some_iff.1 hless
    exact h.found_symbol rfl rfl (.operator _) (h.advance_raw _)
  rw [if_neg hless]
  by_cases hequal : cs.head? = some '='
  · obtain ⟨ds, rfl⟩ := List.head?_eq_some_iff.1 hequal
    have hread := h.operatorOr ['<', '='] '>' .nullSafeEqual (.operator .lessEqual)
    rw [if_pos hequal, hnext.advance, pure_bind, past_past]
    split at hread
    · obtain ⟨es, rfl⟩ := List.head?_eq_some_iff.1 ‹_›
      exact h.found_symbol rfl rfl (.operator _) hread
    · have hshort : Lexeme.symbol ('<' :: '=' :: ds) =
          .raw (.operator .lessEqual) ⟨['<', '='], ds⟩ := by
        rw [Lexeme.symbol]
        · rfl
        · rintro es rfl
          contradiction
      exact h.found_symbol rfl hshort (.operator _) hread
  · have halone : Lexeme.symbol ('<' :: cs) = _ := Lexeme.symbol_alone (by decide)
      (by simp [Lexeme.longer, hgreater, hless, hequal])
    rw [if_neg hequal]
    exact h.found_symbol rfl halone (.punct _) (h.raw_single _)

theorem scanSymbol_greater (h : s.Sees ('>' :: cs)) :
    (s.past ['>']).scanSymbol s.position '>' = pure (s.found (.ofBytes (unlatin ('>' :: cs)))) := by
  have hnext : (s.past ['>']).Sees cs := h.next
  change (if (s.past ['>']).peek = some '=' then _ else if (s.past ['>']).peek = some '>' then _
    else _) = _
  rw [hnext.peek]
  by_cases hequal : cs.head? = some '='
  · obtain ⟨ds, rfl⟩ := List.head?_eq_some_iff.1 hequal
    exact h.found_symbol rfl rfl (.operator _) (h.advance_raw _)
  rw [if_neg hequal]
  by_cases hgreater : cs.head? = some '>'
  · obtain ⟨ds, rfl⟩ := List.head?_eq_some_iff.1 hgreater
    exact h.found_symbol rfl rfl (.operator _) (h.advance_raw _)
  · have halone : Lexeme.symbol ('>' :: cs) = _ := Lexeme.symbol_alone (by decide)
      (by simp [Lexeme.longer, hgreater, hequal])
    rw [if_neg hgreater]
    exact h.found_symbol rfl halone (.punct _) (h.raw_single _)

theorem scanSymbol_alone (h : s.Sees (c :: cs)) (hc : c ∈ Lexeme.alone)
    (hsymbol : Lexeme.ofText (c :: cs) = .symbol (c :: cs)) :
    (s.past [c]).scanSymbol s.position c = pure (s.found (.ofBytes (unlatin (c :: cs)))) := by
  have hread := h.raw_single (.punct c)
  have halone : Lexeme.symbol (c :: cs) = .raw (.punct c) ⟨[c], cs⟩ := by
    have hall : Lexeme.alone ⊆ Lexeme.punctuation := by decide
    have hlonger : ∀ p ∈ Lexeme.longer, p.1 ∉ Lexeme.alone := by decide
    exact Lexeme.symbol_alone (hall hc) fun d hd => absurd hc (hlonger _ hd)
  have hscan : (s.past [c]).scanSymbol s.position c = (s.past [c]).raw s.position (.punct c) := by
    simp only [Lexeme.alone, List.mem_cons, List.not_mem_nil, or_false] at hc
    obtain rfl | rfl | rfl | rfl | rfl | rfl | rfl | rfl | rfl | rfl | rfl | rfl | rfl | rfl | rfl |
      rfl := hc <;> rfl
  exact h.found_symbol hsymbol halone (.punct c) (hscan.trans hread)

theorem scanSymbol_other (h : s.Sees (c :: cs)) (hc : c ∉ Lexeme.punctuation ++ Lexeme.symbolStarts)
    (hsymbol : Lexeme.ofText (c :: cs) = .symbol (c :: cs)) :
    (s.past [c]).scanSymbol s.position c = pure (s.found (.ofBytes (unlatin (c :: cs)))) := by
  have hscan : (s.past [c]).scanSymbol s.position c = (s.past [c]).unexpected s.position := by
    unfold Scanner.scanSymbol
    split
    case h_29 => rfl
    all_goals exact absurd (by decide) hc
  rw [List.mem_append, not_or] at hc
  rw [hscan]
  refine h.unexpected ?_
  rw [hsymbol, Lexeme.symbol_eq_single hc.1 hc.2, Lexeme.single, if_neg hc.1]
  rfl

theorem scanSymbol (h : s.Sees (c :: cs)) (hsymbol : Lexeme.ofText (c :: cs) = .symbol (c :: cs))
    (hopener : Comment.opener (c :: cs) = .nothing (c :: cs)) :
    (s.past [c]).scanSymbol s.position c = pure (s.found (.ofBytes (unlatin (c :: cs)))) := by
  have hnext : (s.past [c]).Sees cs := h.next
  by_cases halone : c ∈ Lexeme.alone
  · exact h.scanSymbol_alone halone hsymbol
  by_cases hleading : c ∈ ['&', '|', '!', '?', '/', '#', '-', '<', '>', '\'', '"', '`']
  · simp only [List.mem_cons, List.not_mem_nil, or_false] at hleading
    obtain rfl | rfl | rfl | rfl | rfl | rfl | rfl | rfl | rfl | rfl | rfl | rfl := hleading
    · exact h.operatorOr_symbol hsymbol (by decide) (by simp [Lexeme.longer]) fun _ => rfl
    · exact h.operatorOr_symbol hsymbol (by decide) (by simp [Lexeme.longer]) fun _ => rfl
    · exact h.operatorOr_symbol hsymbol (by decide) (by simp [Lexeme.longer]) fun _ => rfl
    · exact h.scanSymbol_argument
    · exact h.scanSymbol_slash hopener
    · exact h.found_symbol hsymbol rfl .comment (h.scanLineComment ['#'])
    · exact h.scanSymbol_dash
    · exact h.scanSymbol_less
    · exact h.scanSymbol_greater
    · exact h.found_symbol hsymbol rfl (Lexeme.isOrdinary_string ..) (hnext.scanString ..)
    · exact h.found_symbol hsymbol rfl (Lexeme.isOrdinary_string ..) (hnext.scanString ..)
    · exact h.found_symbol (l := .quotedIdentifier cs) hsymbol rfl
        (Lexeme.isOrdinary_quotedIdentifier cs) (hnext.scanBacktick ..)
  · refine h.scanSymbol_other (fun hc => ?_) hsymbol
    have hall : Lexeme.punctuation ++ Lexeme.symbolStarts ⊆ Lexeme.alone ++
        ['&', '|', '!', '?', '/', '#', '-', '<', '>', '\'', '"', '`'] := by decide
    exact (List.mem_append.1 (hall hc)).elim halone hleading

/-- In front of a directive block the first bracket is found. -/
theorem scanSymbol_opener (h : s.Sees ('/' :: '*' :: cs))
    (hblock : Comment.opensBlock (Cut.span isBlank cs).rest = true) :
    (s.past ['/']).scanSymbol s.position '/' =
      pure ((s.past ('/' :: '*' :: (Cut.span isBlank cs).taken)).found
        (.ofBytes (unlatin (Cut.span isBlank cs).rest))) := by
  have hstar : (s.past ['/']).Sees ('*' :: cs) := h.next
  have hread := h.scanBlockComment
  have hwhole : (((Cut.span isBlank cs).cons '*').cons '/').whole = '/' :: '*' :: cs := by simp
  have hbehind : (s.past ('/' :: '*' :: (Cut.span isBlank cs).taken)).Sees
      (Cut.span isBlank cs).rest :=
    h.behind hwhole
  obtain ⟨ds, hds⟩ : ∃ ds, (Cut.span isBlank cs).rest = '[' :: ds := by
    have hbracket := (hbehind.opensBlock.2 hblock).1
    rw [hbehind.peek] at hbracket
    exact List.head?_eq_some_iff.1 hbracket
  change (if (s.past ['/']).peek = some '/' then _ else if (s.past ['/']).peek = some '*' then _
    else _) = _
  rw [if_pos hblock] at hread
  rw [hds] at hread hbehind ⊢
  rw [hstar.peek, if_neg (by simp), if_pos List.head?_cons, hstar.advance, pure_bind, past_past]
  exact hbehind.found_symbol rfl rfl (.punct _) hread

theorem opener_of_ne (hc : c ≠ '/') (cs : List Char) :
    Comment.opener (c :: cs) = .nothing (c :: cs) := by
  unfold Comment.opener
  split
  · rename_i heq
    cases heq
    exact absurd rfl hc
  · rfl

theorem startsHere_cons (c : Char) (cs : List Char) : Numeral.startsHere (c :: cs) = true ↔
    c.isDigit = true ∨ (c = '.' ∧ ((c :: cs)[1]?).any Char.isDigit = true) := by
  by_cases hc : c = '.'
  · subst hc
    cases cs <;> simp [Numeral.startsHere]
  · have hdigit : Numeral.startsHere (c :: cs) = c.isDigit := by
      unfold Numeral.startsHere
      split
      · rename_i heq
        cases heq
        exact absurd rfl hc
      · rename_i heq
        cases heq
        rfl
      · contradiction
    simp [hdigit, hc]

theorem opener_cons (cs : List Char) : (∃ ds, cs = '/' :: '*' :: ds ∧
    Comment.opensBlock (Cut.span isBlank ds).rest = true) ∨ Comment.opener cs = .nothing cs := by
  unfold Comment.opener
  split
  · rename_i ds
    dsimp only
    split
    · exact .inl ⟨ds, rfl, ‹_›⟩
    · exact .inr rfl
  · exact .inr rfl

theorem scanToken (h : s.Sees cs) :
    s.scanToken = pure ((s.past (Comment.opener cs).taken).found
      (.ofBytes (unlatin (Comment.opener cs).rest))) := by
  rw [Scanner.scanToken, h.peek]
  cases cs with
  | nil => rfl
  | cons c cs =>
    dsimp only [List.head?_cons]
    rw [h.peekAt]
    by_cases hletter : isLetter c = true
    · have hc : c ≠ '/' := by
        rintro rfl
        cases hletter
      have hword : Lexeme.ofText (c :: cs) = .wordLike (c :: cs) := if_pos hletter
      rw [if_pos hletter, opener_of_ne hc, h.scanWord]
      exact congrArg pure (h.found hword (Lexeme.isOrdinary_wordLike _)).symm
    have hnoword : ¬ ((c :: cs).head?.any isLetter = true) := hletter
    rw [if_neg hletter]
    by_cases hstart : Numeral.startsHere (c :: cs) = true
    · have hc : c ≠ '/' := by
        rintro rfl
        cases hstart
      have hnumber : Lexeme.ofText (c :: cs) = .number (c :: cs) := by
        rw [Lexeme.ofText, if_neg hnoword, if_pos hstart]
      rw [if_pos ((startsHere_cons c cs).1 hstart), opener_of_ne hc, h.scanNumber]
      exact congrArg pure (h.found hnumber (Lexeme.isOrdinary_number _)).symm
    have hsymbol : Lexeme.ofText (c :: cs) = .symbol (c :: cs) := by
      rw [Lexeme.ofText, if_neg hnoword, if_neg hstart]
    rw [if_neg (mt (startsHere_cons c cs).2 hstart), h.advance, pure_bind]
    obtain ⟨ds, hds, hblock⟩ | hopener := opener_cons (c :: cs)
    · cases hds
      rw [Comment.opener, if_pos hblock]
      exact h.scanSymbol_opener hblock
    · rw [hopener]
      exact h.scanSymbol hsymbol hopener

theorem scan (h : s.Sees cs) :
    s.scan = pure ((s.past (Comment.gap cs).taken).found
      (.ofBytes (unlatin (Comment.gap cs).rest))) := by
  have hbehind := h.behind (Cut.whole_span isBlank cs)
  rw [Scanner.scan, h.passWhile, pure_bind, hbehind.scanToken, past_past]
  rfl

end Sees

/-- What is left of the bytes. -/
def cursor (s : Scanner) : ByteCursor :=
  ⟨s.input.drop s.position.offset, s.position, s.arguments⟩

/-- A scanner that stands within its bytes, whatever they are, reads none outside of them. -/
theorem scan_eq (s : Scanner) (h : s.position.offset ≤ s.input.length) :
    s.scan = .ok (s.cursor.scan.1,
      ⟨s.input, s.cursor.scan.2.position, s.cursor.scan.2.arguments⟩) := by
  have hsees : s.Sees (latin (s.input.drop s.position.offset)) := ⟨h, rfl⟩
  rw [hsees.scan, ByteCursor.scan, found]
  change pure (if s.cursor.lexeme.kind = .argument then _ else _) = _
  split <;> rfl

/-- A scanner of the bytes of a text, where a cursor stands in the text. -/
def ofCursor (text : String) (c : Cursor) : Scanner := ⟨bytes text, c.position, c.arguments⟩

theorem cursor_ofCursor {text : String} {c : Cursor} {front : List Char}
    (h : c.StandsBehind front text.toList) : (ofCursor text c).cursor = c.encoded := by
  have hrest : (bytes text).drop c.position.offset = encode c.rest := by
    rw [bytes_eq, h.split, encode_append, h.offset, ← length_encode, List.drop_left]
  rw [cursor, ofCursor, hrest]
  rfl

theorem scan_ofCursor {text : String} {c : Cursor} {front : List Char}
    (h : c.StandsBehind front text.toList) :
    (ofCursor text c).scan = .ok (c.scan.1, ofCursor text c.scan.2) := by
  have hinside : c.position.offset ≤ (bytes text).length := by
    rw [bytes_eq, length_encode]
    exact h.offset_le
  rw [scan_eq _ hinside, cursor_ofCursor h, Cursor.scan_encoded]
  rfl

theorem ofText_eq (text : String) : ofText text = ofCursor text (Cursor.ofText text) := by
  obtain ⟨cs, -, hstart, hfirst⟩ | ⟨-, hstart, hfirst⟩ := Cursor.ofText_cases text
  · rw [ofText, hstart, hfirst]
    rfl
  · rw [ofText, hstart, hfirst]
    rfl

end Scanner

/-- Repeated scans tile a text: each token covers a piece of it, behind the one before it, and
between them are gaps alone. The end comes after no more tokens than there are bytes, when nothing
but blanks is left, and then nothing changes any more. Tokenizing gives those tokens, or the first
fault among them. The scanner of the bytes finds these tokens where the cursor finds them, and no
index and no slice that it reads lies outside of the bytes. -/
theorem scan_tiles (text : String) :
    let cursor : Nat → Cursor := (Cursor.ofText text).after
    let token : Nat → Token := fun n => (cursor n).scan.1
    let scanner : Nat → Scanner := fun n =>
      ⟨bytes text, (cursor n).position, (cursor n).arguments⟩
    (Scanner.ofText text = scanner 0 ∧ ∀ n, (scanner n).scan = .ok (token n, scanner (n+1))) ∧
    (∃ mark, (mark = [] ∨ mark = ['\ufeff']) ∧ (cursor 0).StandsBehind mark text.toList) ∧
    (∀ n, ∃ front gap taken, (cursor n).StandsBehind front text.toList ∧
      Comment.IsGap gap (taken ++ (cursor (n+1)).rest) ∧
      (token n).start.offset = byteSize (front ++ gap) ∧
      ((token n).kind = .endOfInput ↔ taken = []) ∧
      (cursor (n+1)).StandsBehind (front ++ gap ++ taken) text.toList) ∧
    (∀ n, (cursor n).position.offset ≤ (token n).start.offset ∧
      ((token n).kind ≠ .endOfInput →
        (token n).start.offset < (cursor (n+1)).position.offset) ∧
      (cursor (n+1)).position.offset ≤ text.utf8ByteSize) ∧
    (∀ n, (token n).kind = .endOfInput ↔ ∀ c ∈ (cursor n).rest, c ∈ blanks) ∧
    ∃ count ≤ text.utf8ByteSize,
      (∀ n, (token n).kind = .endOfInput ↔ count ≤ n) ∧
      (cursor (count+1)).position.offset = text.utf8ByteSize ∧
      (∀ n, count < n → cursor n = cursor (count+1)) ∧
      ((∀ n < count, ∀ f, (token n).kind ≠ .fault f) →
        tokenize text = .ok ((List.range count).map token)) ∧
      (∀ n < count, ∀ f, (token n).kind = .fault f →
        (∀ m < n, ∀ g, (token m).kind ≠ .fault g) →
        tokenize text = .error ⟨f, (token n).start⟩) := by
  intro cursor token scanner
  obtain ⟨mark, hmark, hfirst⟩ := Cursor.standsBehind_ofText text
  have hstand := Cursor.exists_standsBehind_after hfirst
  obtain ⟨count, hle, hrun, hbefore, hend⟩ := (Cursor.ofText text).exists_count
  refine ⟨⟨Scanner.ofText_eq text, fun n => ?_⟩, ⟨mark, hmark, hfirst⟩, fun n => ?_, fun n => ?_,
    fun n => (Cursor.kind_scan_eq_endOfInput_iff _).trans (forall_isBlank_iff _), count, ?_,
    Cursor.kind_after_iff hbefore hend, ?_, ?_, ?_, ?_⟩
  · obtain ⟨front, h⟩ := hstand n
    exact Scanner.scan_ofCursor h
  · obtain ⟨front, h⟩ := hstand n
    obtain ⟨gap, taken, hgap, hstart, hkind, h'⟩ := h.scan
    exact ⟨front, gap, taken, h, hgap, hstart, hkind, h'⟩
  · obtain ⟨front, h⟩ := hstand n
    obtain ⟨behind, h'⟩ := hstand (n+1)
    have hlast := h'.offset_le
    rw [byteSize_toList] at hlast
    exact ⟨h.start_mem.1, h.start_mem.2, hlast⟩
  · have hbytes := length_le_byteSize (Cursor.ofText text).rest
    have hsplit := congrArg byteSize hfirst.split
    rw [byteSize_toList, byteSize_append] at hsplit
    omega
  · obtain ⟨front, h⟩ := hstand (count+1)
    have hnil : (cursor (count+1)).rest = [] := Cursor.rest_scan_of_endOfInput hend
    rw [h.offset, ← byteSize_toList, h.split, hnil, List.append_nil]
  · intro n hn
    obtain ⟨k, rfl⟩ := Nat.exists_eq_add_of_lt hn
    rw [Nat.add_right_comm]
    exact Cursor.after_of_endOfInput hend k
  · intro hclean
    rw [tokenize_eq hrun]
    refine mapM_checked fun t ht => ?_
    obtain ⟨n, hn, rfl⟩ := List.mem_map.1 ht
    exact hclean n (List.mem_range.1 hn)
  · intro n hn f hf hclean
    obtain ⟨k, rfl⟩ := Nat.exists_eq_add_of_lt hn
    rw [tokenize_eq hrun, Nat.add_assoc, List.range_add, List.range_succ_eq_map, List.map_append]
    refine mapM_checked_fault (fun t ht => ?_) hf _
    obtain ⟨m, hm, rfl⟩ := List.mem_map.1 ht
    exact hclean m (List.mem_range.1 hm)

end SqlComposer
