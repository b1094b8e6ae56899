import SqlComposer.Proofs.Token.Bytewise
import SqlComposer.Token.Scanner

/-! What a scanner sees. Wherever it stands within its bytes it has some of them before it, each step
moves it over a front of these, and a slice from the start of a token to where it stands is what it has
moved over since. So its words and numbers are those at the front of the bytes. -/
namespace SqlComposer

theorem Position.offset_advanceBytes (p : Position) (bs : List UInt8) :
    (p.advanceBytes bs).offset = p.offset + bs.length := by
  induction bs generalizing p with
  | nil => rfl
  | cons b bs ih =>
    change ((p.advanceByte b).advanceBytes bs).offset = _
    rw [ih, Scanner.offset_advanceByte, List.length_cons]
    omega

theorem Checked.pbind_eq {α β : Type} {x : Checked α} {a : α} (h : x = pure a)
    (f : (a : α) → x = .ok a → Checked β) : x.pbind f = f a h := by
  subst h
  rfl

theorem length_unlatin (cs : List Char) : (unlatin cs).length = cs.length := List.length_map _

theorem unlatin_append (xs ys : List Char) : unlatin (xs ++ ys) = unlatin xs ++ unlatin ys :=
  List.map_append

namespace Scanner

/-- The bytes before the scanner, as characters. -/
structure Sees (s : Scanner) (cs : List Char) : Prop where
  inside : s.position.offset ≤ s.input.length
  rest : latin (s.input.drop s.position.offset) = cs

/-- The scanner behind what it passes over. -/
def past (s : Scanner) (taken : List Char) : Scanner :=
  { s with position := s.position.advanceBytes (unlatin taken) }

variable {s : Scanner} {c : Char} {cs xs ys : List Char}

@[simp] theorem past_nil (s : Scanner) : s.past [] = s := rfl

theorem past_past (s : Scanner) (xs ys : List Char) : (s.past xs).past ys = s.past (xs ++ ys) := by
  simp only [past, unlatin_append, Position.advanceBytes, List.foldl_append]

theorem offset_past (s : Scanner) (xs : List Char) :
    (s.past xs).position.offset = s.position.offset + xs.length := by
  rw [past, Position.offset_advanceBytes, length_unlatin]

namespace Sees

theorem drop (h : s.Sees cs) : s.input.drop s.position.offset = unlatin cs := by
  rw [← h.rest, unlatin_latin]

theorem latin_unlatin (h : s.Sees cs) : latin (unlatin cs) = cs := by
  rw [← h.drop, h.rest]

theorem latin_unlatin_left (h : s.Sees (xs ++ ys)) : latin (unlatin xs) = xs := by
  have hall := h.latin_unlatin
  rw [unlatin_append, latin, List.map_append] at hall
  exact (List.append_inj hall (by simp [unlatin])).1

theorem length (h : s.Sees cs) : s.input.length = s.position.offset + cs.length := by
  have hlength := congrArg List.length h.rest
  have hinside := h.inside
  rw [latin, List.length_map, List.length_drop] at hlength
  omega

theorem past (h : s.Sees (xs ++ ys)) : (s.past xs).Sees ys := by
  have hlength := h.length
  rw [List.length_append] at hlength
  refine ⟨?_, ?_⟩
  · rw [offset_past]
    change _ ≤ s.input.length
    omega
  · have hrest := congrArg (List.drop xs.length) h.rest
    rw [List.drop_left, latin, ← List.map_drop, List.drop_drop] at hrest
    rw [offset_past]
    exact hrest

theorem next (h : s.Sees (c :: cs)) : (s.past [c]).Sees cs := h.past

theorem next_next {d : Char} (h : s.Sees (c :: d :: cs)) : (s.past [c, d]).Sees cs :=
  h.past

theorem behind {cut : Cut} (h : s.Sees cs) (hcut : cut.whole = cs) :
    (s.past cut.taken).Sees cut.rest := by
  subst hcut
  exact h.past

theorem peekAt (h : s.Sees cs) (n : Nat) : s.peekAt n = cs[n]? := by
  rw [← h.rest, latin, List.getElem?_map, List.getElem?_drop]
  rfl

theorem peek (h : s.Sees cs) : s.peek = cs.head? := by
  rw [Scanner.peek, h.peekAt, List.head?_eq_getElem?]

theorem byte (h : s.Sees (c :: cs)) :
    ∃ b, s.byte s.position.offset = .ok b ∧ Char.ofUInt8 b = c ∧ c.toUInt8 = b := by
  obtain ⟨b, hb, hc⟩ := Option.map_eq_some_iff.1 (h.peekAt 0)
  refine ⟨b, ?_, hc, ?_⟩
  · rw [Scanner.byte, show s.input[s.position.offset]? = some b from hb]
  · rw [← hc]
    exact UInt8.toUInt8_toUInt32 b

theorem advance (h : s.Sees (c :: cs)) : s.advance = pure (s.past [c]) := by
  obtain ⟨b, hb, -, hc⟩ := h.byte
  have hlength := h.length
  rw [List.length_cons] at hlength
  rw [Scanner.advance, if_pos (by omega), hb, Scanner.past, unlatin, List.map_singleton, hc]
  rfl

theorem advance_advance {d : Char} (h : s.Sees (c :: d :: cs)) {β : Type} (f : Scanner → Checked β) :
    (s.advance >>= fun t => t.advance >>= f) = f (s.past [c, d]) := by
  have hnext : (s.past [c]).Sees (d :: cs) := h.next
  rw [h.advance, pure_bind, hnext.advance, pure_bind, past_past]
  rfl

/-- What the scanner sees can be sliced out. -/
theorem slice_ahead (h : s.Sees (xs ++ ys)) :
    s.slice s.position.offset (s.position.offset + xs.length) = pure (unlatin xs) := by
  have hlength := h.length
  have hdrop := h.drop
  rw [List.length_append] at hlength
  rw [unlatin_append] at hdrop
  rw [Scanner.slice, if_pos ⟨Nat.le_add_right .., by omega⟩, List.drop_take, Nat.add_sub_cancel_left,
    hdrop, ← length_unlatin, List.take_left]
  rfl

theorem slice (h : s.Sees (xs ++ ys)) :
    (s.past xs).slice s.position.offset (s.past xs).position.offset = pure (unlatin xs) := by
  rw [offset_past]
  exact h.slice_ahead

theorem passWhile (h : s.Sees cs) (p : Char → Bool) :
    s.passWhile p = pure (s.past (Cut.span p cs).taken) := by
  induction cs generalizing s with
  | nil =>
    unfold Scanner.passWhile
    rw [h.peek]
    rfl
  | cons c cs ih =>
    unfold Scanner.passWhile
    rw [h.peek]
    dsimp only [List.head?_cons]
    by_cases hp : p c
    · have hnext : (s.past [c]).Sees cs := h.next
      rw [if_pos hp, Checked.pbind_eq h.advance, ih hnext, past_past]
      simp [Cut.span, hp]
    · rw [if_neg hp]
      simp [Cut.span, hp]

theorem advanceTimes (h : s.Sees cs) {n : Nat} (hn : n ≤ cs.length) :
    s.advanceTimes n = pure (s.past (cs.take n)) := by
  induction n generalizing s cs with
  | zero => rfl
  | succ n ih =>
    cases cs with
    | nil => cases hn
    | cons c cs =>
      have hnext : (s.past [c]).Sees cs := h.next
      rw [Scanner.advanceTimes, h.advance, pure_bind, ih hnext (Nat.le_of_succ_le_succ hn), past_past]
      rfl

end Sees

/-- The token of a lexeme that starts where the scanner stands, and the scanner behind it. -/
def give (s : Scanner) (l : Lexeme) : Token × Scanner :=
  (.ofBytes l.kind (unlatin l.text) s.position, s.past l.cut.taken)

namespace Sees

theorem raw {taken rest : List Char} (h : s.Sees (taken ++ rest)) (kind : TokenKind) :
    (s.past taken).raw s.position kind = pure (s.give (.raw kind ⟨taken, rest⟩)) := by
  rw [Scanner.raw, h.slice]
  rfl

theorem raw_single (h : s.Sees (c :: cs)) (kind : TokenKind) :
    (s.past [c]).raw s.position kind = pure (s.give (.raw kind ⟨[c], cs⟩)) :=
  raw h kind

theorem raw_pair {d : Char} (h : s.Sees (c :: d :: cs)) (kind : TokenKind) :
    (s.past [c, d]).raw s.position kind = pure (s.give (.raw kind ⟨[c, d], cs⟩)) :=
  raw h kind

theorem operatorOr (taken : List Char) (h : s.Sees (taken ++ cs)) (last : Char) (o : Operator)
    (otherwise : TokenKind) :
    (s.past taken).operatorOr s.position last o otherwise = pure (s.give
      (if cs.head? = some last then .raw (.operator o) ⟨taken ++ [last], cs.tail⟩
        else .raw otherwise ⟨taken, cs⟩)) := by
  have hnext := h.past
  rw [Scanner.operatorOr, hnext.peek]
  by_cases hlast : cs.head? = some last
  · obtain ⟨ds, rfl⟩ := List.head?_eq_some_iff.1 hlast
    have hlong : s.Sees ((taken ++ [last]) ++ ds) := by rwa [List.append_assoc]
    rw [if_pos hlast, if_pos hlast, hnext.advance, pure_bind, past_past, hlong.raw]
    rfl
  · rw [if_neg hlast, if_neg hlast, h.raw]

end Sees

/-! Words and numbers. -/

theorem decode_unlatin (h : ∀ c ∈ cs, isAscii c = true) : Utf8.decode (unlatin cs) = cs := by
  rw [← spread_eq_self h, unlatin_spread, Utf8.decode_encode, spread_eq_self h]

namespace Sees

theorem scanQuotedDigits {lead : Char} (h : s.Sees (lead :: '\'' :: cs)) (radix : Radix)
    (kind : TokenKind) (fault : LexFault) :
    (s.past [lead, '\'']).scanQuotedDigits s.position radix kind fault =
      pure (s.give (.quotedDigits radix kind fault lead cs)) := by
  have hopened : (s.past [lead, '\'']).Sees cs := h.next_next
  rcases hdigits : Numeral.digits radix cs with ⟨taken, rest⟩
  obtain rfl : taken ++ rest = cs := by
    rw [← Numeral.whole_digits radix cs, hdigits]
    rfl
  have hbehind := hopened.past
  rw [Scanner.scanQuotedDigits, hopened.passWhile]
  change (pure ((s.past [lead, '\'']).past (Numeral.digits radix _).taken) >>= _) = _
  rw [hdigits, pure_bind, hopened.slice, pure_bind, hbehind.peek, Lexeme.quotedDigits, hdigits]
  dsimp only
  by_cases hclosed : rest.head? = some '\''
  · obtain ⟨rest, rfl⟩ := List.head?_eq_some_iff.1 hclosed
    have hkind : (if radix = .hexadecimal ∧ taken.length % 2 ≠ 0 then TokenKind.fault fault
        else kind) = if (radix ≠ .hexadecimal || taken.length % 2 = 0 : Bool) then kind else .fault fault := by
      by_cases hradix : radix = .hexadecimal <;> by_cases heven : taken.length % 2 = 0 <;>
        simp [hradix, heven]
    rw [if_pos hclosed, hbehind.advance, length_unlatin, hkind, past_past, past_past]
    rfl
  · rw [if_neg hclosed, past_past]
    cases rest with
    | nil => rfl
    | cons c rest =>
      have hc : c ≠ '\'' := fun hc => hclosed (congrArg some hc)
      split
      · rename_i heq
        cases heq
        exact absurd rfl hc
      · rfl

theorem scanPlainWord (h : s.Sees cs) :
    s.scanPlainWord s.position = pure (s.give (.word cs)) := by
  have hascii : ∀ c ∈ (Cut.span isWordPart cs).taken, isAscii c = true := fun c hc =>
    asciiOnly_isWordPart c (List.all_eq_true.1 List.all_takeWhile c hc)
  have hsplit : s.Sees ((Cut.span isWordPart cs).taken ++ (Cut.span isWordPart cs).rest) := by
    rwa [← Cut.whole, Cut.whole_span]
  rw [Scanner.scanPlainWord, h.passWhile, pure_bind, hsplit.slice, pure_bind, decode_unlatin hascii, give,
    Token.ofBytes, Lexeme.word, Lexeme.raw, decode_unlatin hascii]

theorem scanWord (h : s.Sees (c :: cs)) :
    s.scanWord s.position = pure (s.give (.wordLike (c :: cs))) := by
  obtain ⟨b, hb, hc, -⟩ := h.byte
  rw [Scanner.scanWord, hb]
  change (pure b >>= _) = _
  rw [pure_bind, hc, h.peekAt]
  by_cases hquote : cs.head? = some '\''
  · obtain ⟨ds, rfl⟩ := List.head?_eq_some_iff.1 hquote
    have hsecond : (c :: '\'' :: ds)[1]? = some '\'' := rfl
    simp only [h.advance_advance, hsecond, true_and, Lexeme.wordLike, Bool.or_eq_true,
      decide_eq_true_eq]
    split
    · exact h.scanQuotedDigits ..
    · split
      · exact h.scanQuotedDigits ..
      · exact h.scanPlainWord
  · have hsecond : (c :: cs)[1]? ≠ some '\'' := by
      rwa [List.getElem?_cons_succ, ← List.head?_eq_getElem?]
    have hword : Lexeme.wordLike (c :: cs) = .word (c :: cs) := by
      unfold Lexeme.wordLike
      split
      · rename_i heq
        cases heq
        exact absurd rfl hquote
      · rfl
    dsimp only
    rw [if_neg (mt And.left hsecond), if_neg (mt And.left hsecond), h.scanPlainWord, hword]

theorem finishNumber {taken rest : List Char} (h : s.Sees (taken ++ rest)) (kind : TokenKind) :
    (s.past taken).finishNumber s.position kind = pure (s.give
      (.raw (if rest.head?.any isLetter then .fault .malformedNumber else kind) ⟨taken, rest⟩)) := by
  have hbehind := h.past
  rw [Scanner.finishNumber, hbehind.peek, h.raw]

theorem passSign (h : s.Sees cs) : s.passSign = pure (s.past (Numeral.sign cs).taken) := by
  rw [Scanner.passSign, h.peek]
  cases cs with
  | nil => rfl
  | cons c cs =>
    simp only [List.head?_cons, Option.some_inj, Numeral.sign, Cut.optional, Bool.or_eq_true,
      decide_eq_true_eq]
    split
    · exact h.advance
    · rfl

/-- What is taken behind a mantissa makes the number a float. -/
theorem scanExponent {taken rest : List Char} (h : s.Sees (taken ++ rest)) (kind : TokenKind) :
    let cut := (Cut.mk taken rest).andThen Numeral.exponent
    (s.past taken).scanExponent s.position kind = pure (s.give (.raw
      (if cut.rest.head?.any isLetter then .fault .malformedNumber
        else if (Numeral.exponent rest).taken = [] then kind else .float) cut)) := by
  intro cut
  have hbehind := h.past
  rw [Scanner.scanExponent, hbehind.peek]
  cases rest with
  | nil =>
    rw [if_neg (by simp), h.finishNumber]
    simp [cut, Cut.andThen, Numeral.exponent, Cut.nothing]
  | cons e rest =>
    by_cases he : e = 'e' ∨ e = 'E'
    · have hexponent : Numeral.exponent (e :: rest) =
          ((Numeral.sign rest).andThen (Numeral.digits .decimal)).cons e := by
        simp [Numeral.exponent, he]
      have hmark : ((s.past taken).past [e]).Sees rest := hbehind.next
      have hsign : (((s.past taken).past [e]).past (Numeral.sign rest).taken).Sees
          (Numeral.sign rest).rest := hmark.behind (Cut.whole_optional _ _)
      have hcut : cut.taken ++ cut.rest = taken ++ e :: rest :=
        Cut.whole_andThen _ _ Numeral.whole_exponent
      have hpast : (((s.past taken).past [e]).past (Numeral.sign rest).taken).past
          (Numeral.digits .decimal (Numeral.sign rest).rest).taken = s.past cut.taken := by
        simp [past_past, cut, Cut.andThen, hexponent, Cut.cons]
      rw [if_pos (by simpa using he), hbehind.advance, pure_bind, hmark.passSign, pure_bind,
        hsign.passWhile, pure_bind]
      change (Scanner.past _ (Numeral.digits .decimal (Numeral.sign rest).rest).taken).finishNumber
        _ _ = _
      rw [hpast, finishNumber (hcut ▸ h), hexponent]
      rfl
    · have hexponent : Numeral.exponent (e :: rest) = .nothing (e :: rest) := by
        simp [Numeral.exponent, he]
      have hcut : cut = ⟨taken, e :: rest⟩ := by
        simp [cut, Cut.andThen, hexponent, Cut.nothing]
      rw [if_neg (by simpa using he), h.finishNumber, hcut, hexponent]
      rfl

theorem all_isDigit_exponent (cs : List Char) :
    (Numeral.exponent cs).taken.all Char.isDigit = true ↔ (Numeral.exponent cs).taken = [] := by
  constructor
  · intro hall
    cases cs with
    | nil => rfl
    | cons e cs =>
      by_cases he : e = 'e' ∨ e = 'E'
      · have hdigit : e.isDigit = true := by
          simp only [Numeral.exponent, Bool.or_eq_true, decide_eq_true_eq, he, if_true, Cut.cons,
            List.all_cons, Bool.and_eq_true] at hall
          exact hall.1
        obtain rfl | rfl := he <;> cases hdigit
      · simp [Numeral.exponent, he, Cut.nothing]
  · intro hnil
    rw [hnil]
    rfl

/-- A number that is not written to base 16, of which the exponent is still to be read. -/
theorem scanExponent_plain (h : s.Sees cs) (hplain : Numeral.literal cs = Numeral.literal.plain cs)
    {cut : Cut} (hcut : (Numeral.digits .decimal cs).andThen Numeral.fraction = cut) :
    (s.past cut.taken).scanExponent s.position
        (if cut.taken.all Char.isDigit then .integer else .float) =
      pure (s.give (.number cs)) := by
  have hwhole : cs = cut.taken ++ cut.rest := by
    subst hcut
    exact ((Cut.whole_andThen _ _ Numeral.whole_fraction).trans (Numeral.whole_digits _ _)).symm
  have hkind : (if (Numeral.exponent cut.rest).taken = [] then
      if cut.taken.all Char.isDigit then TokenKind.integer else .float else .float) =
      if (cut.taken ++ (Numeral.exponent cut.rest).taken).all Char.isDigit then .integer
        else .float := by
    rw [List.all_append]
    simp only [Bool.and_eq_true, all_isDigit_exponent]
    split <;> simp_all
  rw [scanExponent (hwhole ▸ h), Lexeme.number, hplain, Numeral.literal.plain, Numeral.decimal, hcut,
    hkind]
  rfl

/-- A point and the digits behind it. -/
theorem passFraction (taken : List Char) (h : s.Sees (taken ++ '.' :: cs)) :
    ((s.past taken).advance >>= fun t => t.passWhile (Radix.isDigit .decimal)) =
      pure (s.past (taken ++ (Numeral.fraction ('.' :: cs)).taken)) := by
  have hpoint : (s.past taken).Sees ('.' :: cs) := h.past
  have hdigits : ((s.past taken).past ['.']).Sees cs := hpoint.next
  rw [hpoint.advance, pure_bind, hdigits.passWhile, past_past, past_past]
  simp [Numeral.fraction, Numeral.digits, Cut.cons]

/-- A number that is written to base 16. -/
theorem scanNumber_hexadecimal {x : Char} (h : s.Sees ('0' :: x :: cs)) (hx : x = 'x' ∨ x = 'X') :
    (s.advance >>= fun t => t.advance >>= fun u => u.passWhile (Radix.isDigit .hexadecimal) >>=
      fun v => v.finishNumber s.position .hexNumber) =
      pure (s.give (.number ('0' :: x :: cs))) := by
  have hmarked : (s.past ['0', x]).Sees cs := h.next_next
  have hwhole : '0' :: x :: cs = ('0' :: x :: (Numeral.digits .hexadecimal cs).taken) ++
      (Numeral.digits .hexadecimal cs).rest :=
    congrArg (fun ds => '0' :: x :: ds) (Numeral.whole_digits .hexadecimal cs).symm
  rw [h.advance_advance, hmarked.passWhile, pure_bind, past_past, Lexeme.number,
    Numeral.literal_hexadecimal (by simpa [Numeral.isHexMark] using hx)]
  exact (hwhole ▸ h).finishNumber .hexNumber

theorem scanNumber (h : s.Sees cs) : s.scanNumber s.position = pure (s.give (.number cs)) := by
  rw [Scanner.scanNumber, h.peek, h.peekAt]
  by_cases hpoint : cs.head? = some '.'
  · obtain ⟨ds, rfl⟩ := List.head?_eq_some_iff.1 hpoint
    have hpass := h.passFraction []
    rw [past_nil, List.nil_append] at hpass
    rw [if_pos hpoint, ← bind_assoc, hpass, pure_bind]
    exact h.scanExponent_plain rfl rfl
  by_cases hhex : cs.head? = some '0' ∧ (cs[1]? = some 'x' ∨ cs[1]? = some 'X')
  · rw [if_neg hpoint, if_pos hhex]
    obtain ⟨x, ds, rfl⟩ : ∃ x ds, cs = '0' :: x :: ds := by
      obtain ⟨es, rfl⟩ := List.head?_eq_some_iff.1 hhex.1
      cases es with
      | nil => cases hhex.2 <;> contradiction
      | cons x ds => exact ⟨x, ds, rfl⟩
    exact h.scanNumber_hexadecimal (by simpa using hhex.2)
  have hplain : Numeral.literal cs = Numeral.literal.plain cs := by
    refine Numeral.literal_eq_plain fun x ys he => Bool.eq_false_iff.2 fun hx => hhex ?_
    subst he
    exact ⟨rfl, by simpa [Numeral.isHexMark] using hx⟩
  have hbehind := h.behind (Numeral.whole_digits .decimal cs)
  rw [if_neg hpoint, if_neg hhex, h.passWhile, pure_bind]
  change (if (s.past (Numeral.digits .decimal cs).taken).peek = some '.' then _ else _) = _
  rw [hbehind.peek]
  by_cases hrest : (Numeral.digits .decimal cs).rest.head? = some '.'
  · obtain ⟨ds, hds⟩ := List.head?_eq_some_iff.1 hrest
    have hwhole : cs = (Numeral.digits .decimal cs).taken ++ '.' :: ds :=
      hds ▸ (Numeral.whole_digits .decimal cs).symm
    have hfloat : ((Numeral.digits .decimal cs).taken ++
        (Numeral.fraction ('.' :: ds)).taken).all Char.isDigit = false := by
      simp [Numeral.fraction, Cut.cons]
    have hexponent := h.scanExponent_plain hplain rfl
    rw [Cut.andThen, hds] at hexponent
    dsimp only at hexponent
    rw [hfloat] at hexponent
    rw [if_pos hrest, ← bind_assoc]
    exact (congrArg (· >>= _) (passFraction _ (hwhole ▸ h))).trans hexponent
  · have hcut : (Numeral.digits .decimal cs).andThen Numeral.fraction =
        Numeral.digits .decimal cs := by
      have hnone : Numeral.fraction (Numeral.digits .decimal cs).rest =
          .nothing (Numeral.digits .decimal cs).rest :=
        Numeral.leads_fraction.none _ fun c hc => decide_eq_false fun he => hrest (he ▸ hc)
      rw [Cut.andThen, hnone, Cut.nothing, List.append_nil]
    have hdigits : (Numeral.digits .decimal cs).taken.all Char.isDigit = true := List.all_takeWhile
    have hexponent := h.scanExponent_plain hplain hcut
    rw [hdigits] at hexponent
    rw [if_neg hrest]
    exact hexponent

end Sees

end Scanner
end SqlComposer
