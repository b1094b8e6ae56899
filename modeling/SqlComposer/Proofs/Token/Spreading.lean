import SqlComposer.Proofs.Token.Lines
import SqlComposer.Proofs.Token.Quotation

/-! Bytes in the place of characters. Looked at as characters, the bytes of a text are the text where
that is ASCII, and characters outside ASCII where it is not. Readers tell no characters apart but
those of ASCII, so they cut the bytes where they cut the text. -/
namespace SqlComposer

theorem unlatin_latin (bs : List UInt8) : unlatin (latin bs) = bs := by
  rw [unlatin, latin, List.map_map]
  refine (List.map_congr_left fun b _ => ?_).trans (List.map_id bs)
  exact UInt8.toUInt8_toUInt32 b

/-- A text with its bytes in the place of its characters. -/
def spread (cs : List Char) : List Char := latin (encode cs)

theorem unlatin_spread (cs : List Char) : unlatin (spread cs) = encode cs := unlatin_latin _

theorem spread_append (xs ys : List Char) : spread (xs ++ ys) = spread xs ++ spread ys := by
  rw [spread, encode_append, latin, List.map_append]
  rfl

variable {c : Char} {cs xs : List Char} {p : Char → Bool}

theorem spread_cons_of_isAscii (h : isAscii c = true) (cs : List Char) :
    spread (c :: cs) = c :: spread cs := by
  have hval : c.val.toNat ≤ 127 := UInt32.le_iff_toNat_le.1 (of_decide_eq_true h)
  have hback : Char.ofUInt8 c.toUInt8 = c := by
    refine Char.ext (UInt32.toNat_inj.1 ?_)
    change c.val.toUInt8.toUInt32.toNat = c.val.toNat
    rw [UInt8.toNat_toUInt32, UInt32.toNat_toUInt8]
    omega
  change latin (String.utf8EncodeChar c ++ encode cs) = _
  rw [utf8EncodeChar_of_isAscii h, List.singleton_append, latin, List.map_cons, hback]
  rfl

/-- Any other character becomes one or more that are no ASCII either. -/
theorem exists_spread_cons (h : isAscii c = false) :
    ∃ d ds, (∀ cs, spread (c :: cs) = d :: (ds ++ spread cs)) ∧ isAscii d = false ∧
      ∀ x ∈ ds, isAscii x = false := by
  have hwide : ∀ x ∈ latin (String.utf8EncodeChar c), isAscii x = false := by
    intro x hx
    obtain ⟨b, hb, rfl⟩ := List.mem_map.1 hx
    have hhigh := high_of_mem_utf8EncodeChar h hb
    refine decide_eq_false fun hle => ?_
    have hlow : b.toUInt32.toNat ≤ 127 := UInt32.le_iff_toNat_le.1 hle
    rw [UInt8.toNat_toUInt32] at hlow
    omega
  have hne : latin (String.utf8EncodeChar c) ≠ [] := by
    refine List.ne_nil_of_length_pos ?_
    rw [latin, List.length_map, String.length_utf8EncodeChar]
    exact c.utf8Size_pos
  obtain ⟨d, ds, hds⟩ := List.exists_cons_of_ne_nil hne
  refine ⟨d, ds, fun cs => ?_, List.forall_mem_cons.1 (hds ▸ hwide)⟩
  change latin (String.utf8EncodeChar c ++ encode cs) = _
  rw [latin, List.map_append, ← latin, hds]
  rfl

theorem ne_of_isAscii {a : Char} (ha : isAscii a = true) (hc : isAscii c = false) : c ≠ a := by
  rintro rfl
  rw [ha] at hc
  cases hc

theorem spread_eq_self (h : ∀ c ∈ cs, isAscii c = true) : spread cs = cs := by
  induction cs with
  | nil => rfl
  | cons c cs ih =>
    rw [List.forall_mem_cons] at h
    rw [spread_cons_of_isAscii h.1, ih h.2]

/-- A test that only ASCII characters pass. -/
def AsciiOnly (p : Char → Bool) : Prop := ∀ c, p c = true → isAscii c = true

theorem AsciiOnly.eq_false (hp : AsciiOnly p) (h : isAscii c = false) : p c = false := by
  refine Bool.eq_false_iff.2 fun hc => ?_
  rw [hp c hc] at h
  cases h

theorem any_head?_spread (hp : AsciiOnly p) (cs : List Char) :
    (spread cs).head?.any p = cs.head?.any p := by
  cases cs with
  | nil => rfl
  | cons c cs =>
    cases h : isAscii c with
    | true => rw [spread_cons_of_isAscii h]; rfl
    | false =>
      obtain ⟨d, ds, hds, hd, -⟩ := exists_spread_cons h
      rw [hds]
      change p d = p c
      rw [hp.eq_false h, hp.eq_false hd]

theorem head?_spread (hp : AsciiOnly p) (h : ∀ c ∈ cs.head?, p c = false) :
    ∀ c ∈ (spread cs).head?, p c = false := by
  have hany : ∀ o : Option Char, (∀ c ∈ o, p c = false) ↔ o.any p = false := by
    intro o
    cases o <;> simp
  rw [hany] at h ⊢
  rw [any_head?_spread hp, h]

theorem all_spread (hp : AsciiOnly p) (cs : List Char) : (spread cs).all p = cs.all p := by
  induction cs with
  | nil => rfl
  | cons c cs ih =>
    cases h : isAscii c with
    | true => rw [spread_cons_of_isAscii h, List.all_cons, ih, List.all_cons]
    | false =>
      obtain ⟨d, ds, hds, hd, -⟩ := exists_spread_cons h
      rw [hds, List.all_cons, List.all_cons, hp.eq_false hd, hp.eq_false h]
      rfl

/-- An ASCII character is found in front of the bytes only where it is in front of the text. -/
theorem exists_of_spread_eq (hc : isAscii c = true) (h : spread cs = c :: xs) :
    ∃ ys, cs = c :: ys ∧ spread ys = xs := by
  cases cs with
  | nil => cases h
  | cons x ys =>
    cases hx : isAscii x with
    | true =>
      rw [spread_cons_of_isAscii hx] at h
      obtain ⟨rfl, rfl⟩ := List.cons.inj h
      exact ⟨ys, rfl, rfl⟩
    | false =>
      obtain ⟨d, ds, hds, hd, -⟩ := exists_spread_cons hx
      rw [hds] at h
      exact absurd (List.cons.inj h).1 (ne_of_isAscii hc hd)

theorem asciiOnly_of_toNat (h : ∀ c, p c = true → c.toNat ≤ 127) : AsciiOnly p :=
  fun c hc => decide_eq_true (UInt32.le_iff_toNat_le.2 (h c hc))

theorem AsciiOnly.or {q : Char → Bool} (hp : AsciiOnly p) (hq : AsciiOnly q) :
    AsciiOnly fun c => p c || q c := by
  intro c hc
  obtain hc | hc := Bool.or_eq_true_iff.1 hc
  · exact hp c hc
  · exact hq c hc

theorem asciiOnly_eq (h : isAscii c = true) : AsciiOnly fun d => decide (d = c) := by
  intro d hd
  rwa [of_decide_eq_true hd]

theorem asciiOnly_isDigit : AsciiOnly Char.isDigit := asciiOnly_of_toNat fun c hc => by
  rw [Char.isDigit_iff_toNat] at hc
  have : '9'.toNat = 57 := rfl
  omega

theorem asciiOnly_isBlank : AsciiOnly isBlank :=
  .or (.or (.or (asciiOnly_eq rfl) (asciiOnly_eq rfl)) (asciiOnly_eq rfl)) (asciiOnly_eq rfl)

theorem asciiOnly_isLetter : AsciiOnly isLetter := by
  refine .or (.or (asciiOnly_of_toNat fun c hc => ?_) (asciiOnly_eq rfl)) (asciiOnly_eq rfl)
  have hcases := toNat_of_isAlpha hc
  omega

theorem asciiOnly_isWordPart : AsciiOnly isWordPart := .or asciiOnly_isLetter asciiOnly_isDigit

theorem Radix.asciiOnly_isDigit (r : Radix) : AsciiOnly r.isDigit := by
  have hrange : ∀ low high : Char, high.toNat ≤ 127 →
      AsciiOnly fun c => decide (low ≤ c) && decide (c ≤ high) := by
    intro low high hhigh
    refine asciiOnly_of_toNat fun c hc => ?_
    have hle : c.toNat ≤ high.toNat := of_decide_eq_true (Bool.and_eq_true_iff.1 hc).2
    omega
  cases r with
  | binary => exact .or (asciiOnly_eq rfl) (asciiOnly_eq rfl)
  | decimal => exact SqlComposer.asciiOnly_isDigit
  | hexadecimal =>
    exact .or (.or SqlComposer.asciiOnly_isDigit (hrange _ _ (by decide))) (hrange _ _ (by decide))

namespace Cut

/-- A cut through the bytes of a text. -/
def spread (c : Cut) : Cut := ⟨SqlComposer.spread c.taken, SqlComposer.spread c.rest⟩

theorem spread_cons (h : isAscii c = true) (cut : Cut) : (cut.cons c).spread = cut.spread.cons c := by
  rw [spread, cons, spread_cons_of_isAscii h]
  rfl

/-- A reader cuts the bytes where it cuts the text. -/
def Spreads (read : List Char → Cut) : Prop :=
  ∀ cs, read (SqlComposer.spread cs) = (read cs).spread

theorem spreads_nothing : Spreads nothing := fun _ => rfl

theorem spreads_span (hp : AsciiOnly p) : Spreads (span p) := by
  intro cs
  have htaken : ∀ x ∈ (span p cs).taken, p x = true := fun x hx =>
    List.all_eq_true.1 List.all_takeWhile x hx
  have hself : SqlComposer.spread (span p cs).taken = (span p cs).taken :=
    spread_eq_self fun x hx => hp x (htaken x hx)
  have hrest := head?_spread hp (head?_rest_span (p := p) cs)
  have hwhole : (span p cs).taken ++ (span p cs).rest = cs := whole_span p cs
  calc span p (SqlComposer.spread cs)
      = span p ((span p cs).taken ++ SqlComposer.spread (span p cs).rest) := by
        rw [← hself, ← spread_append, hwhole]
    _ = (span p cs).spread := by rw [span_append htaken hrest, spread, hself]

theorem spreads_andThen {f g : List Char → Cut} (hf : Spreads f) (hg : Spreads g) :
    Spreads fun cs => (f cs).andThen g := by
  intro cs
  have hnext : g (SqlComposer.spread (f cs).rest) = (g (f cs).rest).spread := hg _
  change (f (SqlComposer.spread cs)).andThen g = _
  rw [hf cs, andThen, spread]
  dsimp only
  rw [hnext, spread, andThen, spread, spread_append]

theorem Leads.spreads {read next : List Char → Cut} (h : Leads p next read) (hnext : Spreads next)
    (hp : AsciiOnly p) : Spreads read := by
  intro cs
  by_cases hcs : ∀ c ∈ cs.head?, p c = false
  · rw [h.none cs hcs, h.none _ (head?_spread hp hcs)]
    rfl
  · cases cs with
    | nil => exact absurd (by simp) hcs
    | cons c cs =>
      have hc : p c = true := by simpa using hcs
      rw [h.lead c cs hc, spread_cons_of_isAscii (hp c hc), h.lead c _ hc, hnext cs,
        spread_cons (hp c hc)]

end Cut

namespace Numeral

theorem spreads_digits (r : Radix) : Cut.Spreads (digits r) := Cut.spreads_span r.asciiOnly_isDigit

theorem spreads_sign : Cut.Spreads sign :=
  (Cut.leads_optional _).spreads Cut.spreads_nothing (.or (asciiOnly_eq rfl) (asciiOnly_eq rfl))

theorem spreads_exponent : Cut.Spreads exponent :=
  leads_exponent.spreads (Cut.spreads_andThen spreads_sign (spreads_digits .decimal))
    (.or (asciiOnly_eq rfl) (asciiOnly_eq rfl))

theorem spreads_fraction : Cut.Spreads fraction :=
  leads_fraction.spreads (spreads_digits .decimal) (asciiOnly_eq rfl)

theorem spreads_decimal : Cut.Spreads decimal :=
  Cut.spreads_andThen (Cut.spreads_andThen (spreads_digits _) spreads_fraction) spreads_exponent

theorem asciiOnly_isHexMark : AsciiOnly isHexMark := .or (asciiOnly_eq rfl) (asciiOnly_eq rfl)

theorem startsHere_spread (cs : List Char) : startsHere (spread cs) = startsHere cs := by
  have hhead : ∀ cs, startsHere ('.' :: cs) = cs.head?.any Char.isDigit := by
    intro cs
    cases cs <;> rfl
  have hother : ∀ cs, cs.head? ≠ some '.' → startsHere cs = cs.head?.any Char.isDigit := by
    intro cs hcs
    cases cs with
    | nil => rfl
    | cons c cs => exact startsHere_cons (by simpa using hcs) cs
  by_cases hpoint : cs.head? = some '.'
  · obtain ⟨ys, rfl⟩ := List.head?_eq_some_iff.1 hpoint
    rw [spread_cons_of_isAscii rfl, hhead, hhead, any_head?_spread asciiOnly_isDigit]
  · rw [hother cs hpoint, hother, any_head?_spread asciiOnly_isDigit]
    intro hspread
    obtain ⟨ys, hys⟩ := List.head?_eq_some_iff.1 hspread
    obtain ⟨zs, rfl, -⟩ := exists_of_spread_eq rfl hys
    exact hpoint rfl

theorem literal_spread (cs : List Char) :
    literal (spread cs) = ((literal cs).1, (literal cs).2.spread) := by
  obtain ⟨x, ys, rfl, hx⟩ | hno := hexMark_cases cs
  · have hascii := asciiOnly_isHexMark x hx
    rw [spread_cons_of_isAscii rfl, spread_cons_of_isAscii hascii, literal_hexadecimal hx,
      literal_hexadecimal hx, spreads_digits .hexadecimal ys, ← Cut.spread_cons hascii,
      ← Cut.spread_cons rfl]
  · rw [literal_eq_plain hno, literal_eq_plain, literal.plain, literal.plain, spreads_decimal]
    · change (if (spread (decimal cs).taken).all Char.isDigit then _ else _, _) = _
      rw [all_spread asciiOnly_isDigit]
    · intro x ys he
      refine Bool.eq_false_iff.2 fun hx => ?_
      obtain ⟨zs, rfl, hzs⟩ := exists_of_spread_eq rfl he
      obtain ⟨ws, rfl, -⟩ := exists_of_spread_eq (asciiOnly_isHexMark x hx) hzs
      exact Bool.eq_false_iff.1 (hno x ws rfl) hx

end Numeral

/-- A reader that puts some characters in front of what it reads behind them. -/
theorem read_append {Result : Type} {read : List Char → Result} {push : Char → Result → Result}
    (h : ∀ x ∈ xs, ∀ ys, read (x :: ys) = push x (read ys)) (ys : List Char) :
    read (xs ++ ys) = xs.foldr push (read ys) := by
  induction xs with
  | nil => rfl
  | cons x xs ih =>
    rw [List.forall_mem_cons] at h
    rw [List.cons_append, h.1, ih h.2, List.foldr_cons]

theorem spread_cons (c : Char) (cs : List Char) : spread (c :: cs) = spread [c] ++ spread cs :=
  spread_append [c] cs

theorem spread_singleton (h : isAscii c = true) : spread [c] = [c] := spread_cons_of_isAscii h []

theorem ne_of_mem_spread {a : Char} (ha : isAscii a = true) (hc : c ≠ a) :
    ∀ x ∈ spread [c], x ≠ a := by
  intro x hx
  cases h : isAscii c with
  | true =>
    rw [spread_singleton h, List.mem_singleton] at hx
    exact hx ▸ hc
  | false =>
    obtain ⟨d, ds, hds, hd, hwide⟩ := exists_spread_cons h
    rw [hds, show spread [] = [] from rfl, List.append_nil] at hx
    have hall : ∀ y ∈ d :: ds, isAscii y = false := List.forall_mem_cons.2 ⟨hd, hwide⟩
    exact ne_of_isAscii ha (hall x hx)

namespace Cut

theorem foldr_cons (xs : List Char) (cut : Cut) :
    xs.foldr (fun x cut => cut.cons x) cut = ⟨xs ++ cut.taken, cut.rest⟩ := by
  induction xs with
  | nil => rfl
  | cons x xs ih => rw [List.foldr_cons, ih]; rfl

theorem spread_cons_eq (c : Char) (cut : Cut) : (cut.cons c).spread =
    (SqlComposer.spread [c]).foldr (fun x cut => cut.cons x) cut.spread := by
  rw [foldr_cons, spread, spread, cons, SqlComposer.spread_cons]

end Cut

namespace Comment

theorem take_spread (n : Nat) (cs : List Char)
    (h : (∀ c ∈ cs.take n, isAscii c = true) ∨ ∀ c ∈ (spread cs).take n, isAscii c = true) :
    (spread cs).take n = cs.take n := by
  induction n generalizing cs with
  | zero => rfl
  | succ n ih =>
    cases cs with
    | nil => rfl
    | cons c cs =>
      cases hc : isAscii c with
      | true =>
        rw [spread_cons_of_isAscii hc, List.take_succ_cons, List.take_succ_cons] at h ⊢
        rw [List.forall_mem_cons, List.forall_mem_cons] at h
        rw [ih cs (h.imp And.right And.right)]
      | false =>
        exfalso
        obtain ⟨d, ds, hds, hd, -⟩ := exists_spread_cons hc
        rw [hds, List.take_succ_cons, List.take_succ_cons] at h
        obtain h | h := h
        · exact ne_of_isAscii (h c List.mem_cons_self) hc rfl
        · exact ne_of_isAscii (h d List.mem_cons_self) hd rfl

theorem opensBlock_spread (cs : List Char) : opensBlock (spread cs) = opensBlock cs := by
  by_cases hbracket : ∃ ys, cs = '[' :: ys
  · obtain ⟨ys, rfl⟩ := hbracket
    rw [spread_cons_of_isAscii rfl, Bool.eq_iff_iff]
    -- the word is ASCII, so it is enough to find it on one of the two sides
    have hword : (∀ c ∈ ys.take blockWord.length, isLetter c = true) ∨
        (∀ c ∈ (spread ys).take blockWord.length, isLetter c = true) →
        opensBlock ('[' :: spread ys) = opensBlock ('[' :: ys) := by
      intro h
      have hascii := h.imp (fun h c hc => asciiOnly_isLetter c (h c hc)) fun h c hc =>
        asciiOnly_isLetter c (h c hc)
      change decide (Text.lower ((spread ys).take blockWord.length) = blockWord) = _
      rw [take_spread _ _ hascii]
      rfl
    constructor
    · intro h
      rw [← hword (.inr (isLetter_of_opensBlock h))]
      exact h
    · intro h
      rw [hword (.inl (isLetter_of_opensBlock h))]
      exact h
  · have hnone : opensBlock cs = false :=
      Bool.eq_false_iff.2 fun h => hbracket (exists_of_opensBlock h)
    rw [hnone]
    refine Bool.eq_false_iff.2 fun h => ?_
    obtain ⟨xs, hxs⟩ := exists_of_opensBlock h
    obtain ⟨ys, hys, -⟩ := exists_of_spread_eq rfl hxs
    exact hbracket ⟨ys, hys⟩

theorem spreads_opener : Cut.Spreads opener := by
  intro cs
  by_cases hstart : ∃ ys, cs = '/' :: '*' :: ys
  · obtain ⟨ys, rfl⟩ := hstart
    have hspan : Cut.span isBlank (spread ys) = (Cut.span isBlank ys).spread :=
      Cut.spreads_span asciiOnly_isBlank ys
    rw [spread_cons_of_isAscii rfl, spread_cons_of_isAscii rfl, opener, hspan, opener]
    change (if opensBlock (spread (Cut.span isBlank ys).rest) then _ else _) = _
    rw [opensBlock_spread]
    split
    · rw [Cut.spread_cons rfl, Cut.spread_cons rfl]
    · rw [Cut.nothing, Cut.nothing, Cut.spread, spread_cons_of_isAscii rfl, spread_cons_of_isAscii rfl]
      rfl
  · rw [opener_of_not fun xs h => hstart ⟨xs, h⟩, opener_of_not]
    · rfl
    · intro xs h
      obtain ⟨ys, rfl, hys⟩ := exists_of_spread_eq rfl h
      obtain ⟨zs, rfl, -⟩ := exists_of_spread_eq rfl hys
      exact hstart ⟨zs, rfl⟩

theorem spreads_gap : Cut.Spreads gap :=
  Cut.spreads_andThen (Cut.spreads_span asciiOnly_isBlank) spreads_opener

theorem spreads_line : Cut.Spreads line := by
  intro cs
  induction cs with
  | nil => rfl
  | cons c cs ih =>
    by_cases hc : c = '\n'
    · subst hc
      rw [spread_cons_of_isAscii rfl]
      rfl
    · have hplain : ∀ x, x ≠ '\n' → ∀ ys, line (x :: ys) = (line ys).cons x := by
        intro x hx ys
        rw [line]
        exact hx
      rw [spread_cons, read_append fun x hx => hplain x (ne_of_mem_spread rfl hc x hx), ih, hplain c hc,
        Cut.spread_cons_eq]

theorem block?_cons (h : ∀ ys, c = '*' → cs ≠ '/' :: ys) :
    block? (c :: cs) = (block? cs).map (Cut.cons c) := by
  rw [block?]
  exact h

theorem map_foldr_cons (xs : List Char) (cut : Option Cut) :
    xs.foldr (fun x cut => cut.map (Cut.cons x)) cut =
      cut.map fun cut => xs.foldr (fun x cut => cut.cons x) cut := by
  induction xs with
  | nil => simp
  | cons x xs ih =>
    rw [List.foldr_cons, ih, Option.map_map]
    rfl

theorem block?_spread (cs : List Char) : block? (spread cs) = (block? cs).map Cut.spread := by
  induction cs with
  | nil => rfl
  | cons c cs ih =>
    by_cases hc : c = '*'
    · subst hc
      rw [spread_cons_of_isAscii rfl]
      by_cases hend : ∃ ys, cs = '/' :: ys
      · obtain ⟨ys, rfl⟩ := hend
        rw [spread_cons_of_isAscii rfl]
        rfl
      · rw [block?_cons fun ys _ h => hend ⟨ys, h⟩, block?_cons, ih, Option.map_map, Option.map_map]
        · rfl
        · intro ys _ h
          obtain ⟨zs, rfl, -⟩ := exists_of_spread_eq rfl h
          exact hend ⟨zs, rfl⟩
    · have hplain : ∀ x, x ≠ '*' → ∀ ys, block? (x :: ys) = (block? ys).map (Cut.cons x) :=
        fun x hx ys => block?_cons fun zs h => absurd h hx
      rw [spread_cons, read_append fun x hx => hplain x (ne_of_mem_spread rfl hc x hx), ih,
        hplain c hc, map_foldr_cons, Option.map_map, Option.map_map]
      congr 1
      exact funext fun cut => (Cut.spread_cons_eq c cut).symm

end Comment

namespace Quoted

/-- Quoted text read from the bytes. -/
def Body.spread (b : Body) : Body := ⟨SqlComposer.spread b.text, b.cut.spread, b.closed⟩

theorem Body.foldr_cons (xs : List Char) (b : Body) :
    xs.foldr (fun x b => b.cons x [x]) b =
      ⟨xs ++ b.text, ⟨xs ++ b.cut.taken, b.cut.rest⟩, b.closed⟩ := by
  induction xs with
  | nil => rfl
  | cons x xs ih => rw [List.foldr_cons, ih]; rfl

theorem Body.spread_cons (c : Char) (written : List Char) (b : Body) :
    (b.cons c written).spread = ⟨SqlComposer.spread [c] ++ b.spread.text,
      ⟨SqlComposer.spread written ++ b.spread.cut.taken, b.spread.cut.rest⟩, b.closed⟩ := by
  rw [spread, cons, Cut.spread]
  dsimp only
  rw [SqlComposer.spread_cons, spread_append]
  rfl

/-- An escape stands for an ASCII character, unless the character stands for itself. -/
theorem unescape_cases (c : Char) :
    isAscii c = true ∧ isAscii (unescape c) = true ∨ isAscii c = false ∧ unescape c = c := by
  unfold unescape
  split
  case h_7 => cases h : isAscii c <;> simp
  all_goals exact .inl ⟨rfl, rfl⟩

theorem string_spread {quote : Char} (hascii : isAscii quote = true) (hq : quote ≠ '\\')
    (cs : List Char) : string quote (spread cs) = (string quote cs).spread := by
  have hplain : ∀ x, x ≠ quote ∧ x ≠ '\\' → ∀ ys,
      string quote (x :: ys) = (string quote ys).cons x [x] := fun x hx ys => string_plain hx.1 hx.2 ys
  have hcons : ∀ c cs, c ≠ quote → c ≠ '\\' → string quote (spread cs) = (string quote cs).spread →
      string quote (spread (c :: cs)) = ((string quote cs).cons c [c]).spread := by
    intro c cs hc hb ih
    rw [spread_cons, read_append fun x hx => hplain x
      ⟨ne_of_mem_spread hascii hc x hx, ne_of_mem_spread rfl hb x hx⟩, ih, Body.foldr_cons,
      Body.spread_cons]
    rfl
  have hend : ∀ cs, (∀ c ∈ cs.head?, c ≠ quote) →
      string quote (spread (quote :: cs)) = Body.spread ⟨[], ⟨[quote], cs⟩, true⟩ := by
    intro cs hcs
    have hhead : ∀ c ∈ (spread cs).head?, decide (c = quote) = false :=
      head?_spread (asciiOnly_eq hascii) fun c hc => decide_eq_false (hcs c hc)
    rw [spread_cons_of_isAscii hascii, string_end hq fun c hc => of_decide_eq_false (hhead c hc),
      Body.spread, Cut.spread]
    dsimp only
    rw [spread_singleton hascii]
    rfl
  fun_induction string quote cs with
  | case1 => rfl
  | case2 => rfl
  | case3 c cs ih =>
    rw [spread_cons_of_isAscii rfl, Body.spread_cons,
      show SqlComposer.spread ['\\', c] = '\\' :: SqlComposer.spread [c] from
        spread_cons_of_isAscii rfl [c]]
    obtain ⟨hc, hunescape⟩ | ⟨hc, hunescape⟩ := unescape_cases c
    · rw [spread_cons_of_isAscii hc, string_backslash, ih, spread_singleton hunescape,
        spread_singleton hc]
      rfl
    -- behind the backslash stands the first byte, and the others of the character are plain
    · obtain ⟨d, ds, hds, hd, hwide⟩ := exists_spread_cons hc
      obtain ⟨hno, -⟩ | ⟨-, hself⟩ := unescape_cases d
      · exact absurd rfl (ne_of_isAscii hno hd)
      · rw [hds, string_backslash, read_append fun x hx => hplain x
          ⟨ne_of_isAscii hascii (hwide x hx), ne_of_isAscii rfl (hwide x hx)⟩, ih, hself,
          Body.foldr_cons, hunescape, hds, show SqlComposer.spread [] = [] from rfl, List.append_nil]
        rfl
  | case4 => exact hend [] (by simp)
  | case5 c hb hc => exact hcons c [] hc hb rfl
  | case6 cs hb ih =>
    rw [spread_cons_of_isAscii hascii, spread_cons_of_isAscii hascii, string, if_pos rfl, if_pos rfl,
      ih, Body.spread_cons, spread_singleton hascii, spread_cons_of_isAscii hascii,
      spread_singleton hascii]
    · rfl
    · exact hb
  | case7 d cs hd => exact hend _ (by simpa using hd)
  | case8 c d cs hb hc ih => exact hcons _ _ hc hb ih

theorem identifier_spread (cs : List Char) : identifier (spread cs) = (identifier cs).spread := by
  have hplain : ∀ x, x ≠ '`' → ∀ ys, identifier (x :: ys) = (identifier ys).cons x [x] :=
    fun x hx ys => identifier_cons (.plain hx) ys
  fun_induction identifier cs with
  | case1 => rfl
  | case2 => rfl
  | case3 cs ih =>
    rw [spread_cons_of_isAscii rfl, spread_cons_of_isAscii rfl, identifier, ih, Body.spread_cons]
    rfl
  | case4 c cs hc =>
    have hstop : ∀ x ∈ (c :: cs).head?, decide (x = '`') = false := by simpa using hc
    have hhead := head?_spread (asciiOnly_eq rfl) hstop
    rw [spread_cons_of_isAscii rfl, identifier_end fun c hc => of_decide_eq_false (hhead c hc)]
    rfl
  | case5 c cs h₁ h₂ h₃ ih =>
    have hc : c ≠ '`' := by
      rintro rfl
      cases cs with
      | nil => exact h₁ rfl rfl
      | cons d cs => exact h₃ d cs rfl rfl
    rw [spread_cons, read_append fun x hx => hplain x (ne_of_mem_spread rfl hc x hx), ih,
      Body.foldr_cons, Body.spread_cons]
    rfl

end Quoted

theorem isEmpty_spread (cs : List Char) : (spread cs).isEmpty = cs.isEmpty := by
  cases cs with
  | nil => rfl
  | cons c cs =>
    cases h : isAscii c with
    | true => rw [spread_cons_of_isAscii h]; rfl
    | false =>
      obtain ⟨d, ds, hds, -⟩ := exists_spread_cons h
      rw [hds]
      rfl

namespace Lexeme

/-- A lexeme read from the bytes. -/
def spread (l : Lexeme) : Lexeme := ⟨l.kind, SqlComposer.spread l.text, l.cut.spread⟩

theorem word_spread (cs : List Char) : word (SqlComposer.spread cs) = (word cs).spread := by
  have hspan := Cut.spreads_span asciiOnly_isWordPart cs
  have htaken : SqlComposer.spread (Cut.span isWordPart cs).taken = (Cut.span isWordPart cs).taken :=
    spread_eq_self fun c hc => asciiOnly_isWordPart c (List.all_eq_true.1 List.all_takeWhile c hc)
  rw [word, hspan, word, raw, raw, Cut.spread, spread]
  dsimp only
  rw [htaken, Cut.spread, htaken]

section QuotedDigits
variable {radix : Radix} {kind : TokenKind} {fault : LexFault} {lead : Char}

theorem quotedDigits_spread (hlead : isAscii lead = true) (cs : List Char) :
    quotedDigits radix kind fault lead (SqlComposer.spread cs) =
      (quotedDigits radix kind fault lead cs).spread := by
  have hdigits := Numeral.spreads_digits radix cs
  by_cases hclosed : ∃ xs, (Numeral.digits radix cs).rest = '\'' :: xs
  · obtain ⟨xs, hxs⟩ := hclosed
    have htaken : ∀ c ∈ (Numeral.digits radix cs).taken, isAscii c = true := fun c hc =>
      radix.asciiOnly_isDigit c (List.all_eq_true.1 List.all_takeWhile c hc)
    have hself := spread_eq_self htaken
    have hcut : Numeral.digits radix cs = ⟨(Numeral.digits radix cs).taken, '\'' :: xs⟩ := by
      rw [← hxs]
    have hagain : Numeral.digits radix (SqlComposer.spread cs) =
        ⟨(Numeral.digits radix cs).taken, '\'' :: SqlComposer.spread xs⟩ := by
      rw [hdigits, Cut.spread, hself, hxs, spread_cons_of_isAscii rfl]
    rw [quotedDigits_of_closed hcut, quotedDigits_of_closed hagain, spread, Cut.spread]
    dsimp only
    rw [spread_cons_of_isAscii hlead, spread_cons_of_isAscii rfl, spread_append, hself]
    rfl
  · rw [quotedDigits_of_unclosed fun xs hxs => hclosed ⟨xs, hxs⟩, quotedDigits_of_unclosed, hdigits,
      spread, Cut.spread_cons hlead, Cut.spread_cons rfl]
    · rfl
    · intro xs hxs
      rw [hdigits] at hxs
      obtain ⟨ys, hys, -⟩ := exists_of_spread_eq rfl hxs
      exact hclosed ⟨ys, hys⟩

end QuotedDigits

theorem asciiOnly_startsDigits : AsciiOnly startsDigits :=
  .or (.or (.or (asciiOnly_eq rfl) (asciiOnly_eq rfl)) (asciiOnly_eq rfl)) (asciiOnly_eq rfl)

theorem wordLike_spread (cs : List Char) :
    wordLike (SqlComposer.spread cs) = (wordLike cs).spread := by
  by_cases hdigits : ∃ x ys, cs = x :: '\'' :: ys ∧ startsDigits x = true
  · obtain ⟨x, ys, rfl, hx⟩ := hdigits
    obtain ⟨radix, kind, fault, hlike⟩ := wordLike_of_startsDigits hx
    have hascii := asciiOnly_startsDigits x hx
    rw [spread_cons_of_isAscii hascii, spread_cons_of_isAscii rfl, hlike, hlike,
      quotedDigits_spread hascii]
  · rw [wordLike_of_not_digits fun x ys he => Bool.eq_false_iff.2 fun hx => hdigits ⟨x, ys, he, hx⟩,
      wordLike_of_not_digits, word_spread]
    intro x ys he
    refine Bool.eq_false_iff.2 fun hx => ?_
    obtain ⟨zs, rfl, hzs⟩ := exists_of_spread_eq (asciiOnly_startsDigits x hx) he
    obtain ⟨ws, rfl, -⟩ := exists_of_spread_eq rfl hzs
    exact hdigits ⟨x, ws, rfl, hx⟩

theorem number_spread (cs : List Char) : number (SqlComposer.spread cs) = (number cs).spread := by
  rw [number, Numeral.literal_spread, number]
  dsimp only
  rw [Cut.spread, any_head?_spread asciiOnly_isLetter]
  rfl

theorem string_spread {quote : Char} (hascii : isAscii quote = true) (hq : quote ≠ '\\')
    (cs : List Char) : string quote (SqlComposer.spread cs) = (string quote cs).spread := by
  rw [string, Quoted.string_spread hascii hq, string, spread, Cut.spread_cons hascii]
  rfl

theorem quotedIdentifier_spread (cs : List Char) :
    quotedIdentifier (SqlComposer.spread cs) = (quotedIdentifier cs).spread := by
  rw [quotedIdentifier, Quoted.identifier_spread, quotedIdentifier, spread, Cut.spread_cons rfl,
    Quoted.Body.spread]
  dsimp only
  rw [isEmpty_spread]

theorem lineComment_spread {lead : List Char} (hlead : lead.all isAscii = true)
    (cs : List Char) : lineComment lead (SqlComposer.spread cs) = (lineComment lead cs).spread := by
  rw [lineComment, Comment.spreads_line, lineComment, raw, raw, spread, Cut.spread, Cut.spread]
  dsimp only
  rw [spread_append, spread_eq_self (List.all_eq_true.1 hlead)]

theorem spread_raw (kind : TokenKind) (cut : Cut) : (raw kind cut).spread = raw kind cut.spread :=
  rfl

theorem blockComment_spread (cs : List Char) :
    blockComment (SqlComposer.spread cs) = (blockComment cs).spread := by
  rw [blockComment, Comment.block?_spread, blockComment]
  cases Comment.block? cs with
  | none => rw [spread_raw, Cut.spread, spread_cons_of_isAscii rfl, spread_cons_of_isAscii rfl]; rfl
  | some body =>
    rw [Option.map_some]
    dsimp only
    rw [spread_raw, Cut.spread_cons rfl, Cut.spread_cons rfl]

theorem single_spread (h : isAscii c = true) (cs : List Char) :
    single c (SqlComposer.spread cs) = (single c cs).spread := by
  rw [single, single, spread_raw, Cut.spread, spread_singleton h]

theorem symbol_spread (h : ∀ c, (symbol cs).kind ≠ .fault (.unexpectedCharacter c)) :
    symbol (SqlComposer.spread cs) = (symbol cs).spread := by
  have hback : ∀ d ys xs, isAscii d = true → SqlComposer.spread ys = d :: xs → ∃ zs, ys = d :: zs :=
    fun d ys xs hd he => (exists_of_spread_eq hd he).imp fun _ => And.left
  generalize hl : symbol cs = l at *
  unfold symbol at hl
  split at hl
  case h_1 =>
    subst hl
    rfl
  case h_2 | h_3 | h_4 =>
    subst hl
    exact lineComment_spread rfl _
  case h_5 =>
    subst hl
    exact blockComment_spread _
  case h_6 | h_7 =>
    subst hl
    exact string_spread rfl (by decide) _
  case h_8 =>
    subst hl
    exact quotedIdentifier_spread _
  case h_16 cs hnot =>
    subst hl
    change symbol ('<' :: '=' :: SqlComposer.spread cs) = _
    rw [symbol]
    · rfl
    · intro xs he
      obtain ⟨ys, hys⟩ := hback _ _ _ rfl he
      exact hnot ys hys
  case h_19 =>
    subst hl
    rename_i c cs _ _ _ _ _ _ _ _ _ _ _ _ _ _ _ _ _
    have hpunct : c ∈ punctuation := by
      refine Decidable.byContradiction fun hp => h c ?_
      rw [single, if_neg hp]
      rfl
    have hascii : isAscii c = true := by
      have hall : punctuation.all isAscii = true := by decide
      exact List.all_eq_true.1 hall c hpunct
    rw [spread_cons_of_isAscii hascii, ← single_spread hascii, symbol]
    -- a longer symbol in front of the bytes would stand in front of the text
    all_goals first
      | assumption
      | intro xs hc hrest
        obtain ⟨ys, hys⟩ := hback _ _ _ rfl hrest
        simp_all
  all_goals
    subst hl
    rfl

/-- A lexeme is found in the bytes as it is in the text, unless it is a character that starts none. -/
theorem ofText_spread (h : ∀ c, (ofText cs).kind ≠ .fault (.unexpectedCharacter c)) :
    ofText (SqlComposer.spread cs) = (ofText cs).spread := by
  unfold ofText at h ⊢
  rw [any_head?_spread asciiOnly_isLetter, Numeral.startsHere_spread]
  split
  · exact wordLike_spread cs
  · split
    · exact number_spread cs
    · rw [if_neg ‹_›, if_neg ‹_›] at h
      exact symbol_spread h

theorem symbol_eq_single (hp : c ∉ punctuation) (hs : c ∉ symbolStarts) (cs : List Char) :
    symbol (c :: cs) = single c cs := by
  rw [symbol]
  all_goals
    intros
    subst_vars
    first
      | exact hp (by decide)
      | exact hs (by decide)

theorem exists_of_unexpected (h : (ofText cs).kind = .fault (.unexpectedCharacter c)) :
    ∃ xs, cs = c :: xs ∧ c ∉ punctuation ∧ c ∉ symbolStarts ∧
      cs.head?.any isLetter = false ∧ Numeral.startsHere cs = false := by
  unfold ofText at h
  split at h
  · exfalso
    obtain hword | hkind := kind_wordLike_cases cs
    · rw [hword, kind_word] at h
      cases hw : Keyword.ofWord? (String.ofList (Cut.span isWordPart cs).taken) <;> simp [hw] at h
    · simp [h] at hkind
  · rename_i hletter
    split at h
    · have hkind := kind_number_cases cs
      simp [h] at hkind
    · rename_i hstart
      obtain hkind | ⟨o, hkind⟩ | ⟨d, xs, rfl, hs, hsingle⟩ := symbol_cases cs
      · simp [h] at hkind
      · rw [h] at hkind
        cases hkind
      · rw [hsingle, single, raw] at h
        dsimp only at h
        split at h
        · cases h
        · cases h
          exact ⟨xs, rfl, ‹_›, hs, Bool.eq_false_iff.2 hletter, Bool.eq_false_iff.2 hstart⟩

/-- A character that starts no lexeme is found as it is. -/
theorem ofText_of_unexpected (h : (ofText cs).kind = .fault (.unexpectedCharacter c)) :
    ∃ xs, cs = c :: xs ∧ ofText cs = ⟨.fault (.unexpectedCharacter c), [c], ⟨[c], xs⟩⟩ := by
  obtain ⟨xs, rfl, hp, hs, hletter, hstart⟩ := exists_of_unexpected h
  refine ⟨xs, rfl, ?_⟩
  rw [ofText, hletter, hstart, if_neg Bool.false_ne_true, if_neg Bool.false_ne_true,
    symbol_eq_single hp hs, single, if_neg hp]
  rfl

/-- Where a character starts no lexeme, its first byte starts none. -/
theorem kind_ofText_spread_of_unexpected (h : (ofText cs).kind = .fault (.unexpectedCharacter c)) :
    ∃ d, (ofText (SqlComposer.spread cs)).kind = .fault (.unexpectedCharacter d) := by
  obtain ⟨xs, rfl, hp, hs, hletter, hstart⟩ := exists_of_unexpected h
  rw [ofText, any_head?_spread asciiOnly_isLetter, Numeral.startsHere_spread, hletter, hstart,
    if_neg Bool.false_ne_true, if_neg Bool.false_ne_true]
  have hfound : ∀ d ys, d ∉ punctuation → d ∉ symbolStarts →
      (symbol (d :: ys)).kind = .fault (.unexpectedCharacter d) := by
    intro d ys hp hs
    rw [symbol_eq_single hp hs, single, if_neg hp]
    rfl
  cases hc : isAscii c with
  | true =>
    rw [spread_cons_of_isAscii hc]
    exact ⟨c, hfound c _ hp hs⟩
  | false =>
    obtain ⟨d, ds, hds, hd, -⟩ := exists_spread_cons hc
    have hall : (punctuation ++ symbolStarts).all isAscii = true := by decide
    have hascii := List.all_eq_true.1 hall
    rw [hds]
    exact ⟨d, hfound d _
      (fun hm => ne_of_isAscii (hascii d (List.mem_append_left _ hm)) hd rfl)
      fun hm => ne_of_isAscii (hascii d (List.mem_append_right _ hm)) hd rfl⟩

end Lexeme
end SqlComposer
