import SqlComposer.Proofs.Token.Quotation

/-! Which literals numbers are. The grammar has one parameter, how many digits an exponent and a
number to base 16 need at least: scans go by the grammar that needs none, and what they find there is
the longest literal. It is one that has its digits unless it breaks off behind a mark that promises
some. -/
namespace SqlComposer
namespace Numeral
variable {least : Nat} {kind : TokenKind} {cs ds ms xs tail : List Char}

/-- Digits to a base, at least so many. -/
structure Digits (least : Nat) (r : Radix) (ds : List Char) : Prop where
  least_le : least ≤ ds.length
  digit : ∀ c ∈ ds, r.isDigit c = true

/-- Digits with a point behind, among or before them. -/
inductive Pointed : List Char → Prop
  | behind {ds es : List Char} : Digits 1 .decimal ds → Digits 0 .decimal es →
      Pointed (ds ++ '.' :: es)
  | before {es : List Char} : Digits 1 .decimal es → Pointed ('.' :: es)

def Mantissa (ms : List Char) : Prop := Digits 1 .decimal ms ∨ Pointed ms

inductive Exponent (least : Nat) : List Char → Prop
  | mk {e : Char} {sign ds : List Char} : e ∈ ['e', 'E'] → sign ∈ [[], ['+'], ['-']] →
      Digits least .decimal ds → Exponent least (e :: (sign ++ ds))

/-- The literals of each kind; behind the mark of an exponent and the one of base 16 there are at
least so many digits. -/
inductive Literal (least : Nat) : TokenKind → List Char → Prop
  | integer {ds : List Char} : Digits 1 .decimal ds → Literal least .integer ds
  | pointed {ms : List Char} : Pointed ms → Literal least .float ms
  | scaled {ms xs : List Char} : Mantissa ms → Exponent least xs → Literal least .float (ms ++ xs)
  | hexadecimal {x : Char} {ds : List Char} : x ∈ ['x', 'X'] → Digits least .hexadecimal ds →
      Literal least .hexNumber ('0' :: x :: ds)

/-- A literal that breaks off where its digits would have to come. -/
inductive Dangling : List Char → Prop
  | exponent {ms : List Char} {e : Char} {sign : List Char} : Mantissa ms → e ∈ ['e', 'E'] →
      sign ∈ [[], ['+'], ['-']] → Dangling (ms ++ e :: sign)
  | hexadecimal {x : Char} : x ∈ ['x', 'X'] → Dangling ['0', x]

/-- The longest literal in front of a text. -/
structure IsLongest (least : Nat) (cs : List Char) (kind : TokenKind) (p : List Char) : Prop where
  literal : Literal least kind p
  front : p <+: cs
  longest : ∀ k q, Literal least k q → q <+: cs → q.length ≤ p.length

/-! What the readers take of a literal. -/

theorem digits_append {r : Radix} (hds : ∀ c ∈ ds, r.isDigit c = true)
    (htail : ∀ c ∈ tail.head?, r.isDigit c = false) : digits r (ds ++ tail) = ⟨ds, tail⟩ :=
  Cut.span_append hds htail

theorem digits_eq {r : Radix} (hds : ∀ c ∈ ds, r.isDigit c = true) : digits r ds = ⟨ds, []⟩ := by
  rw [← digits_append hds (show ∀ c ∈ [].head?, r.isDigit c = false by simp), List.append_nil]

theorem exists_of_digits (h : Digits 1 .decimal ds) :
    ∃ d es, ds = d :: es ∧ d.isDigit = true := by
  obtain ⟨hlength, hdigit⟩ := h
  cases ds with
  | nil => cases hlength
  | cons d es => exact ⟨d, es, rfl, hdigit d (by simp)⟩

/-- What ends a mantissa. -/
def endsMantissa (c : Char) : Bool := !c.isDigit && c ≠ '.'

/-- The mantissa in front of what ends it. -/
theorem mantissa_append (h : Mantissa ms) (htail : ∀ c ∈ tail.head?, endsMantissa c = true) :
    (digits .decimal (ms ++ tail)).andThen fraction = ⟨ms, tail⟩ := by
  have hdigit : ∀ c ∈ tail.head?, Radix.decimal.isDigit c = false := fun c hc => by
    have := htail c hc
    simp only [endsMantissa, Bool.and_eq_true, Bool.not_eq_true'] at this
    exact this.1
  have hpoint : ∀ ds es, (∀ c ∈ ds, Radix.decimal.isDigit c = true) →
      (∀ c ∈ es, Radix.decimal.isDigit c = true) →
      (digits .decimal (ds ++ '.' :: (es ++ tail))).andThen fraction = ⟨ds ++ '.' :: es, tail⟩ := by
    intro ds es hds hes
    rw [digits_append hds (by simp [Radix.isDigit])]
    simp only [Cut.andThen, fraction, digits_append hes hdigit, Cut.cons]
  rcases h with hds | hpointed
  · have hnone : fraction tail = .nothing tail := by
      unfold fraction
      split
      · exact absurd (htail '.' rfl) (by decide)
      · rfl
    rw [digits_append hds.digit hdigit, Cut.andThen]
    simp only [hnone, Cut.nothing, List.append_nil]
  · cases hpointed with
    | behind hds hes =>
      rw [List.append_assoc, List.cons_append]
      exact hpoint _ _ hds.digit hes.digit
    | before hes => exact hpoint [] _ (by simp) hes.digit

theorem exponent_eq (h : Exponent least xs) : exponent xs = ⟨xs, []⟩ := by
  obtain @⟨e, s, ds, he, hs, hds⟩ := h
  have hsign : sign (s ++ ds) = ⟨s, ds⟩ := by
    simp only [List.mem_cons, List.not_mem_nil, or_false] at hs
    obtain rfl | rfl | rfl := hs
    · cases ds with
      | nil => rfl
      | cons d ds =>
        have hd : d.isDigit = true := hds.digit d (by simp)
        have hne : (decide (d = '+') || decide (d = '-')) = false := by
          simp only [Bool.or_eq_false_iff, decide_eq_false_iff_not]
          constructor <;> rintro rfl <;> cases hd
        simp [sign, Cut.optional, hne, Cut.nothing]
    · rfl
    · rfl
  have hmark : (decide (e = 'e') || decide (e = 'E')) = true := by simpa using he
  simp only [exponent, hmark, if_true, hsign, Cut.andThen, digits_eq hds.digit, Cut.cons]

/-! Numbers to base 10 are a mantissa with an exponent or none, and whole if they are all digits. -/

theorem Digits.all (h : Digits least .decimal ds) : ds.all Char.isDigit = true :=
  List.all_eq_true.2 h.digit

theorem Pointed.all (h : Pointed ms) : ms.all Char.isDigit = false := by
  cases h with
  | behind => simp [Char.isDigit]
  | before => rfl

theorem Exponent.all (h : Exponent least xs) : xs.all Char.isDigit = false := by
  obtain ⟨he, -, -⟩ := h
  simp only [List.mem_cons, List.not_mem_nil, or_false] at he
  obtain rfl | rfl := he <;> rfl

theorem literal_decimal (hms : Mantissa ms) (hxs : xs = [] ∨ Exponent least xs) :
    Literal least (if (ms ++ xs).all Char.isDigit then .integer else .float) (ms ++ xs) := by
  rcases hxs with rfl | hxs
  · rw [List.append_nil]
    rcases hms with hds | hpointed
    · rw [if_pos hds.all]
      exact .integer hds
    · rw [if_neg (by simp [hpointed.all])]
      exact .pointed hpointed
  · rw [List.all_append, hxs.all, Bool.and_false]
    exact .scaled hms hxs

theorem Literal.cases_decimal {p : List Char} (h : Literal least kind p) :
    (∃ x ds, x ∈ ['x', 'X'] ∧ Digits least .hexadecimal ds ∧ kind = .hexNumber ∧
      p = '0' :: x :: ds) ∨
    ∃ ms xs, Mantissa ms ∧ (xs = [] ∨ Exponent least xs) ∧ p = ms ++ xs ∧
      kind = if p.all Char.isDigit then .integer else .float := by
  cases h with
  | integer hds =>
    exact .inr ⟨_, [], .inl hds, .inl rfl, (List.append_nil _).symm, by rw [if_pos hds.all]⟩
  | pointed hms =>
    exact .inr ⟨_, [], .inr hms, .inl rfl, (List.append_nil _).symm, by simp [hms.all]⟩
  | scaled hms hxs =>
    exact .inr ⟨_, _, hms, .inr hxs, rfl, by rw [List.all_append, hxs.all, Bool.and_false]; rfl⟩
  | hexadecimal hx hds => exact .inl ⟨_, _, hx, hds, rfl, rfl⟩

/-- No mark of base 16 is in a number to base 10. -/
theorem isHexMark_of_mem (hms : Mantissa ms) (hxs : xs = [] ∨ Exponent least xs) {c : Char}
    (hc : c ∈ ms ++ xs) : isHexMark c = false := by
  have hdigit : ∀ d : Char, d.isDigit = true → isHexMark d = false := by
    intro d hd
    simp only [isHexMark, Bool.or_eq_false_iff, decide_eq_false_iff_not]
    constructor <;> rintro rfl <;> cases hd
  have hdigits : ∀ {n ds}, Digits n .decimal ds → ∀ d ∈ ds, isHexMark d = false :=
    fun hds d hd => hdigit d (hds.digit d hd)
  rcases List.mem_append.1 hc with hc | hc
  · rcases hms with hds | hpointed
    · exact hdigits hds c hc
    · cases hpointed with
      | behind hds hes =>
        rw [List.mem_append, List.mem_cons] at hc
        obtain hc | rfl | hc := hc
        · exact hdigits hds c hc
        · rfl
        · exact hdigits hes c hc
      | before hes =>
        obtain rfl | hc := List.mem_cons.1 hc
        · rfl
        · exact hdigits hes c hc
  · rcases hxs with rfl | ⟨he, hs, hds⟩
    · cases hc
    · rw [List.mem_cons, List.mem_append] at hc
      obtain rfl | hc | hc := hc
      · simp only [List.mem_cons, List.not_mem_nil, or_false] at he
        obtain rfl | rfl := he <;> rfl
      · simp only [List.mem_cons, List.not_mem_nil, or_false] at hs
        obtain rfl | rfl | rfl := hs
        · cases hc
        all_goals
          rw [List.mem_singleton.1 hc]
          rfl
      · exact hdigits hds c hc

theorem endsMantissa_head (hxs : xs = [] ∨ Exponent least xs) :
    ∀ c ∈ xs.head?, endsMantissa c = true := by
  obtain rfl | ⟨he, -, -⟩ := hxs
  · simp
  · simp only [List.mem_cons, List.not_mem_nil, or_false] at he
    obtain rfl | rfl := he <;> simp [endsMantissa, Char.isDigit]

theorem decimal_eq (hms : Mantissa ms) (hxs : xs = [] ∨ Exponent least xs) :
    decimal (ms ++ xs) = ⟨ms ++ xs, []⟩ := by
  rcases hxs with rfl | hxs
  · rw [decimal, mantissa_append hms (by simp)]
    rfl
  · rw [decimal, mantissa_append hms (endsMantissa_head (.inr hxs)), Cut.andThen, exponent_eq hxs]

/-- A literal is read as a whole, and as what it is. -/
theorem Literal.literal_eq {p : List Char} (h : Literal least kind p) :
    Numeral.literal p = (kind, ⟨p, []⟩) := by
  obtain ⟨x, ds, hx, hds, rfl, rfl⟩ | ⟨ms, xs, hms, hxs, rfl, rfl⟩ := h.cases_decimal
  · rw [literal_hexadecimal (by simpa [isHexMark] using hx), digits_eq hds.digit]
    rfl
  · rw [literal_eq_plain, literal.plain, decimal_eq hms hxs]
    intro x ys he
    exact isHexMark_of_mem hms hxs (by rw [he]; simp)

theorem Literal.unique {k : TokenKind} {p : List Char} (h : Literal least kind p) {n : Nat}
    (h' : Literal n k p) : kind = k :=
  congrArg Prod.fst (h.literal_eq.symm.trans h'.literal_eq)

/-! What is read is a literal. -/

theorem digits_taken (r : Radix) (cs : List Char) : Digits 0 r (digits r cs).taken :=
  ⟨Nat.zero_le _, List.all_eq_true.1 List.all_takeWhile⟩

theorem exponent_taken (cs : List Char) :
    (exponent cs).taken = [] ∨ Exponent 0 (exponent cs).taken := by
  cases cs with
  | nil => exact .inl rfl
  | cons e cs =>
    by_cases he : (decide (e = 'e') || decide (e = 'E')) = true
    · refine .inr ?_
      rw [exponent, if_pos he]
      refine .mk (by simpa using he) ?_ (digits_taken .decimal _)
      cases cs with
      | nil => simp [sign, Cut.optional, Cut.nothing]
      | cons s cs =>
        rw [sign, Cut.optional]
        split
        · rename_i hs
          simpa using hs
        · simp [Cut.nothing]
    · exact .inl (by simp [exponent, he, Cut.nothing])

theorem digits_cons {r : Radix} {c : Char} (hc : r.isDigit c = true) (cs : List Char) :
    digits r (c :: cs) = (digits r cs).cons c := by
  simp [digits, Cut.span, Cut.cons, hc]

theorem digits_taken_cons {r : Radix} {c : Char} (hc : r.isDigit c = true) (cs : List Char) :
    Digits 1 r (digits r (c :: cs)).taken := by
  refine ⟨?_, (digits_taken r _).digit⟩
  rw [digits_cons hc]
  exact Nat.succ_le_succ (Nat.zero_le _)

theorem mantissa_taken (h : startsHere cs = true) :
    Mantissa ((digits .decimal cs).andThen fraction).taken := by
  unfold startsHere at h
  split at h
  · rename_i c cs
    have hnone : digits .decimal ('.' :: c :: cs) = .nothing ('.' :: c :: cs) := by
      simp [digits, Cut.span, Radix.isDigit, Cut.nothing]
    have hc : Radix.decimal.isDigit c = true := h
    have hds := digits_taken_cons hc cs
    rw [hnone]
    exact .inr (.before hds)
  · rename_i c cs _
    have hc : Radix.decimal.isDigit c = true := h
    have hds := digits_taken_cons hc cs
    generalize digits .decimal (c :: cs) = cut at hds
    unfold Cut.andThen fraction
    dsimp only
    split
    · exact .inr (.behind hds (digits_taken .decimal _))
    · rw [Cut.nothing, List.append_nil]
      exact .inl hds
  · cases h

/-- Where a number starts, what is read is a literal of its kind. -/
theorem literal_taken (h : startsHere cs = true) :
    Literal 0 (literal cs).1 (literal cs).2.taken := by
  obtain ⟨x, ys, rfl, hx⟩ | hno := hexMark_cases cs
  · rw [literal_hexadecimal hx]
    exact .hexadecimal (by simpa [isHexMark] using hx) (digits_taken .hexadecimal ys)
  · rw [literal_eq_plain hno]
    exact literal_decimal (mantissa_taken h) (exponent_taken _)

theorem Mantissa.startsHere (h : Mantissa ms) (xs : List Char) :
    Numeral.startsHere (ms ++ xs) = true := by
  have hdigit : ∀ {d : Char} (ds : List Char), d.isDigit = true →
      Numeral.startsHere (d :: ds) = true := by
    intro d ds hd
    rw [startsHere_cons (by rintro rfl; cases hd), hd]
  rcases h with hds | hpointed
  · obtain ⟨d, es, rfl, hd⟩ := exists_of_digits hds
    exact hdigit _ hd
  · cases hpointed with
    | behind hds =>
      obtain ⟨d, es, rfl, hd⟩ := exists_of_digits hds
      exact hdigit _ hd
    | before hes =>
      obtain ⟨d, es, rfl, hd⟩ := exists_of_digits hes
      exact hd

theorem Literal.startsHere {p : List Char} (h : Literal least kind p) (xs : List Char) :
    Numeral.startsHere (p ++ xs) = true := by
  obtain ⟨x, ds, -, -, -, rfl⟩ | ⟨ms, ys, hms, -, rfl, -⟩ := h.cases_decimal
  · rfl
  · rw [List.append_assoc]
    exact hms.startsHere _

/-- What is read is the longest literal: a longer one would be read as a whole. -/
theorem isLongest_literal (h : startsHere cs = true) :
    IsLongest 0 cs (literal cs).1 (literal cs).2.taken := by
  have hwhole : (literal cs).2.taken ++ (literal cs).2.rest = cs := whole_literal cs
  have hfront : (literal cs).2.taken <+: cs := ⟨_, hwhole⟩
  refine ⟨literal_taken h, hfront, fun k q hq hqfront => ?_⟩
  obtain hle | ⟨u, hu⟩ := List.prefix_or_prefix_of_prefix hqfront hfront
  · exact hle.length_le
  · obtain ⟨more, hmore⟩ := hqfront
    have hrest : (literal cs).2.rest = u ++ more := by
      rw [← hwhole, ← hu, List.append_assoc] at hmore
      exact (List.append_cancel_left hmore).symm
    have hreplaces : Replaces (literal cs).2.rest u := by
      intro c hc
      rw [hrest, List.head?_append, Option.mem_def.1 hc]
      exact .inr rfl
    have hagain := literal_append h hreplaces
    rw [hu, hq.literal_eq] at hagain
    exact Nat.le_of_eq (congrArg (fun r => r.2.taken.length) hagain)

theorem IsLongest.unique {p q : List Char} {k : TokenKind} (h : IsLongest least cs kind p)
    (h' : IsLongest least cs k q) : k = kind ∧ q = p := by
  have hlength : q.length = p.length :=
    Nat.le_antisymm (h.longest k q h'.literal h'.front) (h'.longest kind p h.literal h.front)
  have hprefix := List.prefix_of_prefix_length_le h'.front h.front (Nat.le_of_eq hlength)
  obtain rfl := hprefix.eq_of_length hlength
  exact ⟨h'.literal.unique h.literal, rfl⟩

/-! Digits that are missing. -/

theorem Literal.cases_dangling {p : List Char} (h : Literal 0 kind p) :
    Literal 1 kind p ∨ Dangling p := by
  have hdigits : ∀ {r ds}, Digits 0 r ds → Digits 1 r ds ∨ ds = [] := by
    intro r ds hds
    cases ds with
    | nil => exact .inr rfl
    | cons d ds => exact .inl ⟨Nat.succ_le_succ (Nat.zero_le _), hds.digit⟩
  cases h with
  | integer hds => exact .inl (.integer hds)
  | pointed hms => exact .inl (.pointed hms)
  | scaled hms hxs =>
    obtain ⟨he, hs, hds⟩ := hxs
    obtain hds | rfl := hdigits hds
    · exact .inl (.scaled hms ⟨he, hs, hds⟩)
    · rw [List.append_nil]
      exact .inr (.exponent hms he hs)
  | hexadecimal hx hds =>
    obtain hds | rfl := hdigits hds
    · exact .inl (.hexadecimal hx hds)
    · exact .inr (.hexadecimal hx)

theorem Exponent.of_sign {e : Char} {sign : List Char} (he : e ∈ ['e', 'E'])
    (hs : sign ∈ [[], ['+'], ['-']]) : Exponent 0 (e :: sign) := by
  have hxs : Exponent 0 (e :: (sign ++ [])) := .mk he hs ⟨Nat.le_refl 0, fun c hc => by cases hc⟩
  rwa [List.append_nil] at hxs

theorem Exponent.ne_sign {e : Char} {sign : List Char} (h : Exponent 1 (e :: sign)) :
    sign ∉ [[], ['+'], ['-']] := by
  intro hs
  generalize hx : e :: sign = x at h
  obtain @⟨_, s, ds, he, hs', ⟨hlength, hdigit⟩⟩ := h
  obtain ⟨rfl, rfl⟩ := List.cons.inj hx
  cases ds with
  | nil => cases hlength
  | cons d ds =>
    have hd : d.isDigit = true := hdigit d (by simp)
    simp only [List.mem_cons, List.not_mem_nil, or_false] at hs hs'
    obtain rfl | rfl | rfl := hs' <;> simp at hs
    obtain ⟨rfl, -⟩ | ⟨rfl, -⟩ := hs <;> cases hd

/-- A literal that has all its digits does not break off. -/
theorem Dangling.not_literal {p : List Char} (h : Dangling p) : ¬ Literal 1 kind p := by
  intro hp
  cases h with
  | exponent hms he hs =>
    have hxs := Exponent.of_sign he hs
    obtain ⟨x, ds, -, -, rfl, -⟩ | ⟨ms', xs', hms', hxs', hsplit, -⟩ := hp.cases_decimal
    · cases hp.unique (.scaled hms hxs)
    · have hcut := mantissa_append hms' (endsMantissa_head hxs')
      rw [← hsplit, mantissa_append hms (endsMantissa_head (.inr hxs))] at hcut
      obtain rfl : _ = xs' := congrArg Cut.rest hcut
      obtain hnil | hxs' := hxs'
      · cases hnil
      · exact hxs'.ne_sign hs
  | hexadecimal hx =>
    obtain ⟨_, ds, -, hds, -, hsplit⟩ | ⟨ms, xs, hms, hxs, hsplit, -⟩ := hp.cases_decimal
    · cases hsplit
      cases hds.least_le
    · have hmark := isHexMark_of_mem hms hxs (hsplit ▸ List.mem_cons_of_mem _ List.mem_cons_self)
      simp only [List.mem_cons, List.not_mem_nil, or_false] at hx
      obtain rfl | rfl := hx <;> cases hmark

theorem Literal.weaken {p : List Char} (h : Literal 1 kind p) : Literal 0 kind p := by
  cases h with
  | integer hds => exact .integer hds
  | pointed hms => exact .pointed hms
  | scaled hms hxs =>
    obtain ⟨he, hs, hds⟩ := hxs
    exact .scaled hms ⟨he, hs, ⟨Nat.zero_le _, hds.digit⟩⟩
  | hexadecimal hx hds => exact .hexadecimal hx ⟨Nat.zero_le _, hds.digit⟩

/-- The longest literal is also the longest of those in which no digits are missing, if it is one. -/
theorem IsLongest.strict {p : List Char} (h : IsLongest 0 cs kind p) (hp : Literal 1 kind p) :
    IsLongest 1 cs kind p :=
  ⟨hp, h.front, fun k q hq hfront => h.longest k q hq.weaken hfront⟩

end Numeral

def numberKinds : List TokenKind := [.integer, .float, .hexNumber]

namespace Lexeme
variable {cs : List Char}

theorem ofText_eq_number (h : Numeral.startsHere cs = true) : ofText cs = number cs := by
  have hletter : cs.head?.any isLetter = false := by
    unfold Numeral.startsHere at h
    split at h
    · rfl
    · exact not_isLetter_of_isDigit h
    · rfl
  rw [ofText, hletter, if_neg Bool.false_ne_true, if_pos h]

theorem kind_wordLike_not_number (cs : List Char) :
    (wordLike cs).kind ∉ .fault .malformedNumber :: numberKinds := by
  obtain hword | hkind := kind_wordLike_cases cs
  · rw [hword, kind_word]
    cases Keyword.ofWord? (String.ofList (Cut.span isWordPart cs).taken) <;> simp [numberKinds]
  · simp only [List.mem_cons, List.not_mem_nil, or_false] at hkind
    obtain hkind | hkind | hkind | hkind := hkind <;> simp [hkind, numberKinds]

theorem kind_symbol_not_number (cs : List Char) :
    (symbol cs).kind ∉ .fault .malformedNumber :: numberKinds := by
  intro h
  simp only [numberKinds, List.mem_cons, List.not_mem_nil, or_false] at h
  obtain hkind | ⟨o, hkind⟩ | ⟨c, xs, rfl, -, hsingle⟩ := symbol_cases cs
  · obtain h | h | h | h := h <;> simp [h] at hkind
  · obtain h | h | h | h := h <;> simp [h] at hkind
  · rw [hsingle, single, raw] at h
    dsimp only at h
    split at h <;> simp at h

theorem startsHere_of_kind (h : (ofText cs).kind ∈ .fault .malformedNumber :: numberKinds) :
    Numeral.startsHere cs = true := by
  unfold ofText at h
  split at h
  · exact absurd h (kind_wordLike_not_number cs)
  · split at h
    · assumption
    · exact absurd h (kind_symbol_not_number cs)

end Lexeme

open Numeral

theorem Numeral.Literal.kind_mem {n : Nat} {kind : TokenKind} {p : List Char} (h : Literal n kind p) :
    kind ∈ numberKinds := by
  cases h <;> simp [numberKinds]

namespace Cursor
variable {c : Cursor} {kind : TokenKind} {p rest : List Char}

/-- Numbers are read as they are to be written: a number token is the longest literal in which no
digits are missing, and a letter right behind that literal makes it a fault. -/
structure ReadsNumbers (c : Cursor) : Prop where
  token : c.scan.1.kind ∈ numberKinds →
    IsLongest 1 (Comment.gap c.rest).rest c.scan.1.kind c.scan.1.text.toList
  letter : ∀ kind p rest, IsLongest 1 (Comment.gap c.rest).rest kind p →
    (Comment.gap c.rest).rest = p ++ rest → rest.head?.any isLetter = true →
    c.scan.1.kind = .fault .malformedNumber

/-- A scan takes the longest literal in front of it, whether or not digits are missing there. -/
theorem finds_number (h : IsLongest 0 (Comment.gap c.rest).rest kind p)
    (hrest : (Comment.gap c.rest).rest = p ++ rest) :
    c.Finds (if rest.head?.any isLetter then .fault .malformedNumber else kind) p p rest := by
  have hstart : startsHere (Comment.gap c.rest).rest = true := hrest ▸ h.literal.startsHere rest
  have hwhole := whole_literal (Comment.gap c.rest).rest
  have hnumber := Lexeme.ofText_eq_number hstart
  obtain ⟨rfl, rfl⟩ := (isLongest_literal hstart).unique h
  obtain rfl : (literal (Comment.gap c.rest).rest).2.rest = rest := by
    rw [Cut.whole] at hwhole
    exact List.append_cancel_left (hwhole.trans hrest)
  refine finds_of_lexeme ?_ ?_
  · have hkind : (literal (Comment.gap c.rest).rest).1 ≠ .argument := by
      intro he
      cases he ▸ h.literal
    split
    · simp
    · exact hkind
  · rw [hnumber]
    rfl

theorem exists_isLongest (h : c.scan.1.kind ∈ .fault .malformedNumber :: numberKinds) :
    ∃ kind p, IsLongest 0 (Comment.gap c.rest).rest kind p := by
  rw [kind_scan] at h
  exact ⟨_, _, isLongest_literal (Lexeme.startsHere_of_kind h)⟩

end Cursor

/-- A number token is the longest literal where it stands, and with a letter right behind it that
literal is a fault; nothing else is a number. Here an exponent and a number to base 16 need no digits.
So numbers are read as they are to be written just where the longest literal does not break off
where digits would have to come, or a letter stands behind it. -/
theorem scan_number (c : Cursor) :
    (∀ kind p rest, IsLongest 0 (Comment.gap c.rest).rest kind p →
      (Comment.gap c.rest).rest = p ++ rest →
      c.Finds (if rest.head?.any isLetter then .fault .malformedNumber else kind) p p rest) ∧
    (c.scan.1.kind ∈ .fault .malformedNumber :: numberKinds →
      ∃ kind p, IsLongest 0 (Comment.gap c.rest).rest kind p) ∧
    (c.ReadsNumbers ↔ ∀ kind p rest, IsLongest 0 (Comment.gap c.rest).rest kind p →
      (Comment.gap c.rest).rest = p ++ rest → Dangling p → rest.head?.any isLetter = true) := by
  refine ⟨fun kind p rest => Cursor.finds_number, Cursor.exists_isLongest, fun h => ?_, fun h => ?_⟩
  · intro kind p rest hp hrest hdangling
    have hfinds := Cursor.finds_number hp hrest
    cases hletter : rest.head?.any isLetter with
    | true => rfl
    | false =>
      rw [hletter, if_neg Bool.false_ne_true] at hfinds
      have htoken := h.token (hfinds.kind ▸ hp.literal.kind_mem)
      rw [hfinds.text, String.toList_ofList] at htoken
      exact absurd htoken.literal hdangling.not_literal
  · have hcases : ∀ {kind p rest}, IsLongest 0 (Comment.gap c.rest).rest kind p →
        (Comment.gap c.rest).rest = p ++ rest →
        IsLongest 1 (Comment.gap c.rest).rest kind p ∨ rest.head?.any isLetter = true := by
      intro kind p rest hp hrest
      exact hp.literal.cases_dangling.imp hp.strict (h kind p rest hp hrest)
    constructor
    · intro hkind
      obtain ⟨kind, p, hp⟩ := Cursor.exists_isLongest (List.mem_cons_of_mem _ hkind)
      obtain ⟨rest, hrest⟩ := hp.front
      have hfinds := Cursor.finds_number hp hrest.symm
      cases hletter : rest.head?.any isLetter with
      | true =>
        rw [hfinds.kind, hletter, if_pos rfl] at hkind
        simp [numberKinds] at hkind
      | false =>
        rw [hletter, if_neg Bool.false_ne_true] at hfinds
        rw [hfinds.kind, hfinds.text, String.toList_ofList]
        exact (hcases hp hrest.symm).resolve_right (by simp [hletter])
    · intro kind p rest hp hrest hletter
      have hlongest := isLongest_literal (hrest ▸ hp.literal.startsHere rest)
      obtain ⟨behind, hbehind⟩ := hlongest.front
      have hfinds := Cursor.finds_number hlongest hbehind.symm
      have hmark : behind.head?.any isLetter = true := by
        obtain hstrict | hmark := hcases hlongest hbehind.symm
        · obtain ⟨-, hsame⟩ := hstrict.unique hp
          rw [← hsame, hrest] at hbehind
          rwa [List.append_cancel_left hbehind]
        · exact hmark
      rw [hfinds.kind, if_pos hmark]

/-- Neither a mark of base 16 nor one of an exponent with its sign is a number, and both are read as
one. -/
theorem not_readsNumbers_unfinished :
    ¬ (Cursor.ofText "0x").ReadsNumbers ∧ ¬ (Cursor.ofText "1e+").ReadsNumbers := by
  have hhex : Dangling ['0', 'x'] := .hexadecimal (by simp)
  have hexponent : Dangling (['1'] ++ ['e', '+']) :=
    .exponent (.inl ⟨Nat.le_refl 1, List.forall_mem_singleton.2 rfl⟩) (by simp) (by simp)
  constructor
  · intro h
    exact hhex.not_literal (h.token (by decide +kernel)).literal
  · intro h
    exact hexponent.not_literal (h.token (by decide +kernel)).literal

end SqlComposer
