import SqlComposer.Proofs.Token.Skipping

/-! What a token depends on behind it: the one character that comes next, and a blank there is as good
as any that ends the token. So a token stays what it is when a blank is put behind it. -/
namespace SqlComposer
variable {rest rest' xs ys : List Char} {c d : Char}

/-- What may stand behind a token in the place of `rest`: it starts like `rest`, or with a blank. -/
def Replaces (rest rest' : List Char) : Prop :=
  ∀ c ∈ rest'.head?, isBlank c = true ∨ rest.head? = some c

namespace Replaces

theorem blank (hc : isBlank c = true) (rest xs : List Char) : Replaces rest (c :: xs) := by
  intro d hd
  cases hd
  exact .inl hc

/-- Behind more text the replacement starts like the original. -/
theorem append (h : Replaces rest rest') (xs : List Char) : Replaces (xs ++ rest) (xs ++ rest') := by
  cases xs with
  | nil => exact h
  | cons x xs =>
    intro c hc
    exact .inr hc

/-- A test that no blank passes fails for the replacement as it does for the original. -/
theorem head_false (h : Replaces rest rest') {p : Char → Bool}
    (hblank : ∀ c, isBlank c = true → p c = false) (hrest : ∀ c ∈ rest.head?, p c = false) :
    ∀ c ∈ rest'.head?, p c = false := by
  intro c hc
  obtain hb | he := h c hc
  · exact hblank c hb
  · exact hrest c he

theorem of_cons (h : Replaces rest (c :: xs)) (hc : isBlank c = false) : ∃ ys, rest = c :: ys := by
  obtain hb | he := h c rfl
  · rw [hc] at hb
    cases hb
  · exact List.head?_eq_some_iff.1 he

theorem head_ne (h : Replaces rest rest') (hc : isBlank c = false) (hrest : ∀ d ∈ rest.head?, d ≠ c) :
    ∀ d ∈ rest'.head?, d ≠ c := by
  rintro d hd rfl
  obtain hb | he := h d hd
  · rw [hc] at hb
    cases hb
  · exact hrest d he rfl

/-- What comes second in a text that starts with something, where it is no blank. -/
theorem second (h : Replaces rest rest') (hxs : xs ≠ []) (he : xs ++ rest' = c :: d :: ys)
    (hd : isBlank d = false) : ∃ zs, xs ++ rest = c :: d :: zs := by
  cases xs with
  | nil => exact absurd rfl hxs
  | cons x xs =>
    obtain ⟨rfl, htail⟩ := List.cons.inj he
    have happend := h.append xs
    rw [show xs ++ rest' = d :: ys from htail] at happend
    obtain ⟨zs, hzs⟩ := happend.of_cons hd
    exact ⟨zs, by rw [List.cons_append, hzs]⟩

end Replaces

theorem isBlank_cases {p : Char → Bool}
    (hp : p ' ' = false ∧ p '\n' = false ∧ p '\r' = false ∧ p '\t' = false) :
    ∀ c, isBlank c = true → p c = false := by
  intro c hc
  simp only [isBlank, Bool.or_eq_true, decide_eq_true_eq] at hc
  obtain ((rfl | rfl) | rfl) | rfl := hc
  · exact hp.1
  · exact hp.2.1
  · exact hp.2.2.1
  · exact hp.2.2.2

namespace Cut

/-- A reader takes the same when what it left is replaced. -/
def Local (read : List Char → Cut) : Prop :=
  ∀ cs rest', Replaces (read cs).rest rest' →
    read ((read cs).taken ++ rest') = ⟨(read cs).taken, rest'⟩

theorem head?_rest_span {p : Char → Bool} (cs : List Char) :
    ∀ c ∈ (span p cs).rest.head?, p c = false := by
  intro c hc
  have hhead := List.head?_dropWhile_not p cs
  change c ∈ (cs.dropWhile p).head? at hc
  rw [Option.mem_def.1 hc] at hhead
  simpa using hhead

theorem local_span {p : Char → Bool} (hp : ∀ c, isBlank c = true → p c = false) :
    Local (span p) := by
  intro cs rest' h
  have htaken : ∀ x ∈ (span p cs).taken, p x = true := fun x hx =>
    List.all_eq_true.1 List.all_takeWhile x hx
  exact span_append htaken (h.head_false hp (head?_rest_span cs))

/-- A reader goes on like `next` behind a first character of some kind, and takes nothing else. -/
structure Leads (p : Char → Bool) (next read : List Char → Cut) : Prop where
  lead : ∀ c cs, p c = true → read (c :: cs) = (next cs).cons c
  none : ∀ cs, (∀ c ∈ cs.head?, p c = false) → read cs = .nothing cs

theorem leads_optional (p : Char → Bool) : Leads p nothing (optional p) where
  lead c cs hc := by simp [optional, hc, nothing, cons]
  none cs hcs := by
    cases cs with
    | nil => rfl
    | cons c cs => simp [optional, hcs c rfl]

theorem Leads.local {p : Char → Bool} {read next : List Char → Cut} (h : Leads p next read)
    (hnext : Local next) (hp : ∀ c, isBlank c = true → p c = false) : Local read := by
  intro cs rest' hrest
  by_cases hcs : ∀ c ∈ cs.head?, p c = false
  · rw [h.none cs hcs] at hrest ⊢
    exact h.none rest' (hrest.head_false hp hcs)
  · cases cs with
    | nil => exact absurd (by simp) hcs
    | cons c cs =>
      have hc : p c = true := by simpa using hcs
      rw [h.lead c cs hc] at hrest ⊢
      change read (c :: ((next cs).taken ++ rest')) = _
      rw [h.lead c _ hc, hnext cs rest' hrest]
      rfl

theorem local_nothing : Local nothing := fun _ _ _ => rfl

theorem local_andThen {f g : List Char → Cut} (hf : Local f) (hg : Local g)
    (hwhole : ∀ cs, (g cs).whole = cs) : Local fun cs => (f cs).andThen g := by
  intro cs rest' h
  have hnext := h.append (g (f cs).rest).taken
  rw [show (g (f cs).rest).taken ++ ((f cs).andThen g).rest = (f cs).rest from hwhole _] at hnext
  have hcut := hf cs _ hnext
  change (f ((f cs).taken ++ (g (f cs).rest).taken ++ rest')).andThen g = _
  rw [List.append_assoc, hcut, andThen, hg _ rest' h]
  rfl

end Cut

namespace Numeral

theorem local_digits (r : Radix) : Cut.Local (digits r) :=
  Cut.local_span (isBlank_cases (by cases r <;> decide))

theorem local_sign : Cut.Local sign :=
  (Cut.leads_optional _).local Cut.local_nothing (isBlank_cases (by decide))

theorem leads_exponent : Cut.Leads (fun c => decide (c = 'e') || decide (c = 'E'))
    (fun cs => (sign cs).andThen (digits .decimal)) exponent where
  lead c cs hc := by simp only [exponent, hc, if_true]
  none cs hcs := by
    cases cs with
    | nil => rfl
    | cons c cs => simp only [exponent, hcs c rfl, Bool.false_eq_true, if_false]

theorem local_exponent : Cut.Local exponent :=
  leads_exponent.local (Cut.local_andThen local_sign (local_digits .decimal) (whole_digits _))
    (isBlank_cases (by decide))

theorem leads_fraction : Cut.Leads (fun c => decide (c = '.')) (digits .decimal) fraction where
  lead c cs hc := by
    obtain rfl := of_decide_eq_true hc
    rfl
  none cs hcs := by
    unfold fraction
    split
    · exact absurd (hcs '.' rfl) (by decide)
    · rfl

theorem local_fraction : Cut.Local fraction :=
  leads_fraction.local (local_digits .decimal) (isBlank_cases (by decide))

theorem local_decimal : Cut.Local decimal :=
  Cut.local_andThen (Cut.local_andThen (local_digits _) local_fraction whole_fraction)
    local_exponent whole_exponent

/-- The second character of a number that is written to base 16. -/
def isHexMark (c : Char) : Bool := c = 'x' || c = 'X'

theorem literal_eq_plain {cs : List Char} (h : ∀ x ys, cs = '0' :: x :: ys → isHexMark x = false) :
    literal cs = literal.plain cs := by
  unfold literal
  split
  · rename_i x ys
    exact if_neg (Bool.eq_false_iff.1 (h x ys rfl))
  · rfl

theorem literal_hexadecimal {x : Char} (h : isHexMark x = true) (cs : List Char) :
    literal ('0' :: x :: cs) = (.hexNumber, ((digits .hexadecimal cs).cons x).cons '0') :=
  if_pos h

theorem hexMark_cases (cs : List Char) : (∃ x ys, cs = '0' :: x :: ys ∧ isHexMark x = true) ∨
    ∀ x ys, cs = '0' :: x :: ys → isHexMark x = false := by
  by_cases hhex : ∃ x ys, cs = '0' :: x :: ys ∧ isHexMark x = true
  · exact .inl hhex
  · exact .inr fun x ys he => Bool.eq_false_iff.2 fun hx => hhex ⟨x, ys, he, hx⟩

theorem literal_append {cs rest' : List Char} (hstart : startsHere cs = true)
    (h : Replaces (literal cs).2.rest rest') : literal ((literal cs).2.taken ++ rest') =
      ((literal cs).1, ⟨(literal cs).2.taken, rest'⟩) := by
  obtain ⟨x, ys, rfl, hx⟩ | hno := hexMark_cases cs
  · rw [literal_hexadecimal hx] at h ⊢
    change literal ('0' :: x :: ((digits .hexadecimal ys).taken ++ rest')) = _
    rw [literal_hexadecimal hx, local_digits _ ys rest' h]
    rfl
  · have hne := taken_decimal_ne_nil hstart
    rw [literal_eq_plain hno] at h ⊢
    change Replaces (decimal cs).rest rest' at h
    change literal ((decimal cs).taken ++ rest') = _
    -- a mark behind the first digit would stand there in the original too
    rw [literal_eq_plain, literal.plain, local_decimal cs rest' h]
    · rfl
    · intro x ys he
      refine Bool.eq_false_iff.2 fun hx => ?_
      have hblank : isBlank x = false := by
        simp only [isHexMark, Bool.or_eq_true, decide_eq_true_eq] at hx
        obtain rfl | rfl := hx <;> rfl
      obtain ⟨zs, hzs⟩ := h.second hne he hblank
      have hwhole := whole_decimal cs
      rw [Cut.whole, hzs] at hwhole
      exact Bool.eq_false_iff.1 (hno x zs hwhole.symm) hx

theorem startsHere_cons (h : c ≠ '.') (cs : List Char) : startsHere (c :: cs) = c.isDigit := by
  unfold startsHere
  split
  · rename_i he
    exact absurd (List.cons.inj he).1 h
  · rename_i he
    cases he
    rfl
  · rename_i he
    cases he

/-- A number that starts with a point goes on with its first digit. -/
theorem exists_of_point (cs : List Char) (h : c.isDigit = true) :
    ∃ ts, (literal ('.' :: c :: cs)).2.taken = '.' :: c :: ts := by
  refine ⟨cs.takeWhile Radix.decimal.isDigit ++
    (exponent (cs.dropWhile Radix.decimal.isDigit)).taken, ?_⟩
  simp [literal, literal.plain, decimal, Cut.andThen, digits, Cut.span, Radix.isDigit, fraction,
    Cut.cons, h]

/-- Where a number starts, one starts also when the text behind its literal is replaced. -/
theorem startsHere_append {cs : List Char} (h : startsHere cs = true) (rest' : List Char) :
    startsHere ((literal cs).2.taken ++ rest') = true := by
  have hne := taken_literal_ne_nil h
  have hwhole := whole_literal cs
  obtain ⟨c, ts, ht⟩ := List.exists_cons_of_ne_nil hne
  rw [Cut.whole, ht] at hwhole
  by_cases hpoint : c = '.'
  · subst hpoint
    cases ts with
    | nil =>
      rw [← hwhole] at h
      cases hrest : (literal cs).2.rest with
      | nil => rw [hrest] at h; cases h
      | cons d ds =>
        rw [hrest] at h hwhole
        obtain ⟨ts, hts⟩ := exists_of_point ds h
        rw [← show _ = cs from hwhole, List.singleton_append] at ht
        rw [hts] at ht
        cases ht
    | cons d ts =>
      rw [ht]
      rwa [← hwhole] at h
  · rw [ht, List.cons_append, startsHere_cons hpoint]
    rwa [← hwhole, List.cons_append, startsHere_cons hpoint] at h

/-- No number starts with the replacement that did not start with the original. -/
theorem startsHere_of_replaced (h : Replaces rest rest') (hxs : xs ≠ [])
    (hstart : startsHere (xs ++ rest') = true) : startsHere (xs ++ rest) = true := by
  obtain ⟨x, ts, rfl⟩ := List.exists_cons_of_ne_nil hxs
  by_cases hpoint : x = '.'
  · subst hpoint
    cases hrest : ts ++ rest' with
    | nil =>
      rw [List.cons_append, hrest] at hstart
      cases hstart
    | cons d ds =>
      rw [List.cons_append, hrest] at hstart
      have hdigit : d.isDigit = true := hstart
      have hblank : isBlank d = false := by
        cases hb : isBlank d with
        | false => rfl
        | true =>
          have hno : d.isDigit = false := isBlank_cases (by decide) d hb
          rw [hno] at hdigit
          cases hdigit
      obtain ⟨zs, hzs⟩ := h.second hxs (by rw [List.cons_append, hrest]) hblank
      rw [hzs]
      exact hdigit
  · rw [List.cons_append, startsHere_cons hpoint] at hstart ⊢
    exact hstart

end Numeral

namespace Quoted
variable {quote : Char} {cs : List Char}

theorem string_end (hquote : quote ≠ '\\') (h : ∀ c ∈ cs.head?, c ≠ quote) :
    string quote (quote :: cs) = ⟨[], ⟨[quote], cs⟩, true⟩ := by
  cases cs with
  | nil => rw [string, if_pos rfl]; exact hquote
  | cons d cs => rw [string, if_pos rfl, if_neg (h d rfl)]; exact hquote

/-- A string that is closed stays as it is, whatever replaces the text behind it. -/
theorem string_append (hquote : isBlank quote = false) (hclosed : (string quote cs).closed = true)
    (h : Replaces (string quote cs).cut.rest rest') :
    string quote ((string quote cs).cut.taken ++ rest') =
      ⟨(string quote cs).text, ⟨(string quote cs).cut.taken, rest'⟩, true⟩ := by
  fun_induction string quote cs with
  | case1 | case2 | case5 => cases hclosed
  | case3 c cs ih =>
    change string quote ('\\' :: c :: ((string quote cs).cut.taken ++ rest')) = _
    rw [string_backslash, ih hclosed h]
    rfl
  | case4 hq => exact string_end hq (h.head_ne hquote (by simp))
  | case6 cs hq ih =>
    change string quote (quote :: quote :: ((string quote cs).cut.taken ++ rest')) = _
    rw [string, if_pos rfl, if_pos rfl, ih hclosed h]
    · rfl
    · exact hq
  | case7 d cs hd hq => exact string_end hq (h.head_ne hquote (by simpa using hd))
  | case8 c d cs hb hc ih =>
    change string quote (c :: ((string quote (d :: cs)).cut.taken ++ rest')) = _
    rw [string_plain hc hb, ih hclosed h]
    rfl

theorem identifier_end (h : ∀ c ∈ cs.head?, c ≠ '`') :
    identifier ('`' :: cs) = ⟨[], ⟨['`'], cs⟩, true⟩ := by
  cases cs with
  | nil => rfl
  | cons c cs =>
    rw [identifier]
    exact h c rfl

theorem identifier_append (hclosed : (identifier cs).closed = true)
    (h : Replaces (identifier cs).cut.rest rest') :
    identifier ((identifier cs).cut.taken ++ rest') =
      ⟨(identifier cs).text, ⟨(identifier cs).cut.taken, rest'⟩, true⟩ := by
  fun_induction identifier cs with
  | case1 => cases hclosed
  | case2 => exact identifier_end (h.head_ne (by decide) (by simp))
  | case3 cs ih =>
    change identifier ('`' :: '`' :: ((identifier cs).cut.taken ++ rest')) = _
    rw [identifier, ih hclosed h]
    rfl
  | case4 c cs hc => exact identifier_end (h.head_ne (by decide) (by simpa using hc))
  | case5 c cs h₁ h₂ h₃ ih =>
    have hc : c ≠ '`' := by
      rintro rfl
      cases cs with
      | nil => exact h₁ rfl rfl
      | cons d cs => exact h₃ d cs rfl rfl
    change identifier (c :: ((identifier cs).cut.taken ++ rest')) = _
    rw [identifier, ih hclosed h]
    · rfl
    all_goals
      intros
      exact absurd ‹c = '`'› hc

end Quoted

namespace Comment
variable {cs : List Char}

/-- A comment that ends with its line does not reach further. -/
theorem line_replaced (h : (line cs).rest ≠ []) (rest' : List Char) :
    line ((line cs).taken ++ rest') = ⟨(line cs).taken, rest'⟩ := by
  fun_induction line cs with
  | case1 => exact absurd rfl h
  | case2 => rfl
  | case3 c cs hc ih =>
    change line (c :: ((line cs).taken ++ rest')) = _
    rw [line, ih h]
    · rfl
    · exact hc

theorem exists_end_of_block? {body : Cut} (h : block? cs = some body) :
    ∃ text, body.taken = text ++ ['*', '/'] := by
  fun_induction block? cs generalizing body with
  | case1 => cases h; exact ⟨[], rfl⟩
  | case2 c cs hc ih =>
    obtain ⟨inner, hinner, rfl⟩ := Option.map_eq_some_iff.1 h
    obtain ⟨text, htext⟩ := ih hinner
    exact ⟨c :: text, congrArg (c :: ·) htext⟩
  | case3 => cases h

theorem block?_replaced {body : Cut} (h : block? cs = some body) (rest' : List Char) :
    block? (body.taken ++ rest') = some ⟨body.taken, rest'⟩ := by
  fun_induction block? cs generalizing body with
  | case1 cs => cases h; rfl
  | case2 c cs hc ih =>
    obtain ⟨inner, hinner, rfl⟩ := Option.map_eq_some_iff.1 h
    change block? (c :: (inner.taken ++ rest')) = _
    rw [block?, ih hinner]
    · rfl
    -- a slash behind this star would have closed the comment
    · rintro ds rfl he
      obtain ⟨text, htext⟩ := exists_end_of_block? hinner
      obtain ⟨x, xs, hx⟩ := List.exists_cons_of_ne_nil (show inner.taken ≠ [] by simp [htext])
      have hwhole := whole_of_block? hinner
      rw [hx] at he
      obtain ⟨rfl, -⟩ := List.cons.inj he
      rw [Cut.whole, hx] at hwhole
      exact hc _ rfl hwhole.symm
  | case3 => cases h

end Comment

namespace Lexeme
variable {cs : List Char}

/-- The lexeme with some other text behind it. -/
def before (l : Lexeme) (rest : List Char) : Lexeme := { l with cut := ⟨l.cut.taken, rest⟩ }

theorem word_append (h : Replaces (word cs).cut.rest rest') :
    word ((word cs).cut.taken ++ rest') = (word cs).before rest' := by
  have hspan := Cut.local_span (isBlank_cases (p := isWordPart) (by decide)) cs rest' h
  change word ((Cut.span isWordPart cs).taken ++ rest') = _
  rw [word, hspan]
  rfl

section QuotedDigits
variable {radix : Radix} {kind : TokenKind} {fault : LexFault} {lead : Char}

theorem quotedDigits_of_closed {ds : List Char}
    (h : Numeral.digits radix cs = ⟨ds, '\'' :: rest⟩) :
    quotedDigits radix kind fault lead cs =
      ⟨if radix ≠ .hexadecimal || ds.length % 2 = 0 then kind else .fault fault, ds,
        ⟨lead :: '\'' :: (ds ++ ['\'']), rest⟩⟩ := by
  rw [quotedDigits, h]
  rfl

theorem quotedDigits_of_unclosed (h : ∀ xs, (Numeral.digits radix cs).rest ≠ '\'' :: xs) :
    quotedDigits radix kind fault lead cs = ⟨.fault fault, (Numeral.digits radix cs).taken,
      ((Numeral.digits radix cs).cons '\'').cons lead⟩ := by
  unfold quotedDigits
  dsimp only
  split
  · exact absurd ‹_› (h _)
  · rfl

/-- Quoted digits end with their quote, so nothing behind it matters. -/
theorem quotedDigits_append (h : ∀ f, (quotedDigits radix kind fault lead cs).kind ≠ .fault f)
    (rest' : List Char) :
    ∃ ds, (quotedDigits radix kind fault lead cs).cut.taken = lead :: '\'' :: ds ∧
      quotedDigits radix kind fault lead (ds ++ rest') =
        (quotedDigits radix kind fault lead cs).before rest' := by
  by_cases hclosed : ∃ xs, (Numeral.digits radix cs).rest = '\'' :: xs
  · obtain ⟨xs, hxs⟩ := hclosed
    have hdigits : Numeral.digits radix cs = ⟨(Numeral.digits radix cs).taken, '\'' :: xs⟩ := by
      rw [← hxs]
    have hagain : Numeral.digits radix ((Numeral.digits radix cs).taken ++ '\'' :: rest') =
        ⟨(Numeral.digits radix cs).taken, '\'' :: rest'⟩ := by
      refine Cut.span_append (fun x hx => List.all_eq_true.1 List.all_takeWhile x hx) ?_
      cases radix <;> simp [Radix.isDigit]
    refine ⟨(Numeral.digits radix cs).taken ++ ['\''], ?_, ?_⟩
    · rw [quotedDigits_of_closed hdigits]
    · rw [List.append_assoc, List.singleton_append, quotedDigits_of_closed hdigits,
        quotedDigits_of_closed hagain]
      rfl
  · have hopen : quotedDigits radix kind fault lead cs = ⟨.fault fault, _, _⟩ :=
      quotedDigits_of_unclosed fun xs hxs => hclosed ⟨xs, hxs⟩
    exact absurd (congrArg Lexeme.kind hopen) (h fault)

end QuotedDigits

/-- The letters that digits between quotes start with. -/
def startsDigits (c : Char) : Bool := c = 'x' || c = 'X' || c = 'b' || c = 'B'

theorem wordLike_of_startsDigits (h : startsDigits c = true) : ∃ radix kind fault, ∀ cs,
    wordLike (c :: '\'' :: cs) = quotedDigits radix kind fault c cs := by
  simp only [startsDigits, Bool.or_eq_true, decide_eq_true_eq] at h
  obtain ((rfl | rfl) | rfl) | rfl := h <;> exact ⟨_, _, _, fun _ => rfl⟩

theorem wordLike_of_not_digits
    (h : ∀ x ys, cs = x :: '\'' :: ys → startsDigits x = false) : wordLike cs = word cs := by
  unfold wordLike
  split
  · rename_i x ys
    have hx := h x ys rfl
    simp only [startsDigits, Bool.or_eq_false_iff, decide_eq_false_iff_not] at hx
    simp [hx]
  · rfl

theorem wordLike_append (hfault : ∀ f, (wordLike cs).kind ≠ .fault f)
    (hne : (wordLike cs).cut.taken ≠ []) (h : Replaces (wordLike cs).cut.rest rest') :
    wordLike ((wordLike cs).cut.taken ++ rest') = (wordLike cs).before rest' := by
  by_cases hdigits : ∃ x ys, cs = x :: '\'' :: ys ∧ startsDigits x = true
  · obtain ⟨x, ys, rfl, hx⟩ := hdigits
    obtain ⟨radix, kind, fault, hlike⟩ := wordLike_of_startsDigits hx
    rw [hlike] at hfault ⊢
    obtain ⟨ds, hds, happend⟩ := quotedDigits_append hfault rest'
    rw [hds, List.cons_append, List.cons_append, hlike, happend]
  · have hword : wordLike cs = word cs := wordLike_of_not_digits fun x ys he =>
      Bool.eq_false_iff.2 fun hx => hdigits ⟨x, ys, he, hx⟩
    rw [hword] at hne h ⊢
    rw [wordLike_of_not_digits, word_append h]
    -- a quote behind the first letter would stand there in the original too
    · intro x ys he
      refine Bool.eq_false_iff.2 fun hx => ?_
      obtain ⟨zs, hzs⟩ := h.second hne he rfl
      have hwhole := whole_word cs
      rw [Cut.whole, hzs] at hwhole
      exact hdigits ⟨x, zs, hwhole.symm, hx⟩

theorem number_eq (h : ∀ c ∈ (Numeral.literal cs).2.rest.head?, isLetter c = false) :
    number cs = raw (Numeral.literal cs).1 (Numeral.literal cs).2 := by
  have hnone : (Numeral.literal cs).2.rest.head?.any isLetter = false := by
    cases hhead : (Numeral.literal cs).2.rest.head? with
    | none => rfl
    | some c => exact h c hhead
  simp only [number, hnone, Bool.false_eq_true, if_false]

theorem number_append (hstart : Numeral.startsHere cs = true)
    (hfault : ∀ f, (number cs).kind ≠ .fault f) (h : Replaces (number cs).cut.rest rest') :
    number ((number cs).cut.taken ++ rest') = (number cs).before rest' := by
  have hletter : ∀ c ∈ (Numeral.literal cs).2.rest.head?, isLetter c = false := by
    intro c hc
    refine Bool.eq_false_iff.2 fun hletter => hfault .malformedNumber ?_
    simp [number, raw, Option.mem_def.1 hc, hletter]
  have hblank : ∀ c, isBlank c = true → isLetter c = false := isBlank_cases (by decide)
  rw [number_eq hletter] at h ⊢
  have happend := Numeral.literal_append hstart h
  change number ((Numeral.literal cs).2.taken ++ rest') = _
  rw [number_eq, happend]
  · rfl
  · rw [happend]
    exact h.head_false hblank hletter

theorem string_append {quote : Char} (hquote : isBlank quote = false)
    (hfault : ∀ f, (string quote cs).kind ≠ .fault f) (h : Replaces (string quote cs).cut.rest rest') :
    ∃ ds, (string quote cs).cut.taken = quote :: ds ∧
      string quote (ds ++ rest') = (string quote cs).before rest' := by
  have hclosed : (Quoted.string quote cs).closed = true := by
    cases hopen : (Quoted.string quote cs).closed with
    | true => rfl
    | false => exact absurd (by simp [string, hopen]) (hfault .unterminatedString)
  refine ⟨(Quoted.string quote cs).cut.taken, rfl, ?_⟩
  rw [string, Quoted.string_append hquote hclosed h]
  simp [string, before, hclosed, Cut.cons]

theorem quotedIdentifier_append (hfault : ∀ f, (quotedIdentifier cs).kind ≠ .fault f)
    (h : Replaces (quotedIdentifier cs).cut.rest rest') :
    ∃ ds, (quotedIdentifier cs).cut.taken = '`' :: ds ∧
      quotedIdentifier (ds ++ rest') = (quotedIdentifier cs).before rest' := by
  have hclosed : (Quoted.identifier cs).closed = true := by
    cases hopen : (Quoted.identifier cs).closed with
    | true => rfl
    | false => exact absurd (by simp [quotedIdentifier, hopen]) (hfault .unterminatedIdentifier)
  refine ⟨(Quoted.identifier cs).cut.taken, rfl, ?_⟩
  rw [quotedIdentifier, Quoted.identifier_append hclosed h]
  simp [quotedIdentifier, before, hclosed, Cut.cons]

theorem lineComment_append {lead : List Char} (h : (lineComment lead cs).cut.rest ≠ [])
    (rest' : List Char) : ∃ ds, (lineComment lead cs).cut.taken = lead ++ ds ∧
      lineComment lead (ds ++ rest') = (lineComment lead cs).before rest' := by
  refine ⟨(Comment.line cs).taken, rfl, ?_⟩
  rw [lineComment, Comment.line_replaced h rest']
  rfl

theorem blockComment_append (hfault : ∀ f, (blockComment cs).kind ≠ .fault f) (rest' : List Char) :
    ∃ ds, (blockComment cs).cut.taken = '/' :: '*' :: ds ∧
      blockComment (ds ++ rest') = (blockComment cs).before rest' := by
  cases hbody : Comment.block? cs with
  | none => exact absurd (by simp [blockComment, hbody, raw]) (hfault .unterminatedComment)
  | some body =>
    have hcut : blockComment cs = raw .comment ((body.cons '*').cons '/') := by
      rw [blockComment, hbody]
    refine ⟨body.taken, by rw [hcut]; rfl, ?_⟩
    rw [hcut, blockComment, Comment.block?_replaced hbody]
    rfl

/-- What a lexeme has to be to keep what it is: no fault, not the end, and no comment that only ends
with the text. -/
structure Settled (l : Lexeme) : Prop where
  fault : ∀ f, l.kind ≠ .fault f
  endOfInput : l.kind ≠ .endOfInput
  comment : l.kind = .comment → l.cut.rest ≠ []

theorem symbol_append (hs : (symbol cs).Settled) (h : Replaces (symbol cs).cut.rest rest') :
    symbol ((symbol cs).cut.taken ++ rest') = (symbol cs).before rest' := by
  generalize hl : symbol cs = l at *
  unfold symbol at hl
  split at hl
  case h_1 =>
    subst hl
    exact absurd rfl hs.endOfInput
  case h_2 | h_3 | h_4 =>
    subst hl
    obtain ⟨ds, hds, happend⟩ := lineComment_append (hs.comment rfl) rest'
    rw [hds, ← happend]
    rfl
  case h_5 =>
    subst hl
    obtain ⟨ds, hds, happend⟩ := blockComment_append hs.fault rest'
    rw [hds, ← happend]
    rfl
  case h_6 | h_7 =>
    subst hl
    obtain ⟨ds, hds, happend⟩ := string_append (by decide) hs.fault h
    rw [hds, ← happend]
    rfl
  case h_8 =>
    subst hl
    obtain ⟨ds, hds, happend⟩ := quotedIdentifier_append hs.fault h
    rw [hds, ← happend]
    rfl
  case h_16 cs hnot =>
    subst hl
    change symbol ('<' :: '=' :: rest') = _
    rw [symbol]
    · rfl
    · intro xs he
      subst he
      obtain ⟨ys, rfl⟩ := h.of_cons (by decide)
      exact hnot ys rfl
  case h_19 =>
    subst hl
    rename_i c cs _ _ _ _ _ _ _ _ _ _ _ _ _ _ _ _ _
    have hback : ∀ d xs, isBlank d = false → rest' = d :: xs → ∃ ys, cs = d :: ys := by
      rintro d xs hd rfl
      exact h.of_cons hd
    change symbol (c :: rest') = _
    rw [symbol]
    · rfl
    -- a longer symbol in front of the replacement would stand in front of the original
    all_goals first
      | assumption
      | intro xs hc hrest
        obtain ⟨ys, hys⟩ := hback _ _ (by decide) hrest
        simp_all
  all_goals
    subst hl
    rfl

/-- A settled lexeme stays what it is when the text behind it is replaced. -/
theorem ofText_append (hs : (ofText cs).Settled) (h : Replaces (ofText cs).cut.rest rest') :
    ofText ((ofText cs).cut.taken ++ rest') = (ofText cs).before rest' := by
  have hcs : cs ≠ [] := mt (kind_ofText_eq_endOfInput_iff cs).2 hs.endOfInput
  have hne := taken_ofText_ne_nil hcs
  have hwhole := whole_ofText cs
  obtain ⟨c, ts, ht⟩ := List.exists_cons_of_ne_nil hne
  have hhead : ((ofText cs).cut.taken ++ rest').head? = cs.head? := by
    rw [Cut.whole, ht] at hwhole
    rw [ht, ← hwhole]
    rfl
  generalize hl : ofText cs = l at *
  rw [ofText, hhead]
  unfold ofText at hl
  split
  · rw [if_pos ‹_›] at hl
    subst hl
    exact wordLike_append hs.fault hne h
  · rw [if_neg ‹_›] at hl
    by_cases hstart : Numeral.startsHere cs = true
    · rw [if_pos hstart] at hl
      subst hl
      have hagain : Numeral.startsHere ((number cs).cut.taken ++ rest') = true :=
        Numeral.startsHere_append hstart rest'
      rw [if_pos hagain]
      exact number_append hstart hs.fault h
    · rw [if_neg hstart] at hl
      have hagain : ¬ Numeral.startsHere (l.cut.taken ++ rest') = true := by
        intro hagain
        have hback := Numeral.startsHere_of_replaced h hne hagain
        rw [show l.cut.taken ++ l.cut.rest = cs from hwhole] at hback
        exact hstart hback
      rw [if_neg hagain]
      subst hl
      exact symbol_append hs h

end Lexeme

end SqlComposer
