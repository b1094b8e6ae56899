import SqlComposer.Proofs.Directive.Sections

/-! The reader of blocks against the grammar. It accepts a block exactly if a form of the grammar
stands at the front of the text, and then it gives the directives that say what the block does. -/
namespace SqlComposer
variable {ts us : List Token} {p : Position}

namespace Directives
variable {d : Directives} {description : String} {lines : List (Environment × Entry)}

theorem addEntries_cons (d : Directives) (e : Environment) (x : Entry) (es : List Entry) :
    d.addEntries e (x :: es) = (d.addEntries e [x]).addEntries e es := by
  cases e <;> rfl

theorem says_start (description : String) :
    ({ description := description } : Directives).Says description [] := by
  refine ⟨rfl, rfl, fun e key => ?_, fun e => ?_⟩ <;> cases e <;> rfl

theorem Says.add (h : d.Says description lines) (e : Environment) (x : Entry) :
    (d.addEntries e [x]).Says description (lines ++ [(e, x)]) := by
  refine ⟨h.name, h.description, fun e' key => ?_, fun e' => ?_⟩
  · rw [block_addEntries, List.filterMap_append, List.reverse_append]
    by_cases he : e' = e
    · subst he
      cases x with
      | keyword k value =>
        rw [if_pos rfl]
        change ((d.block e').keywords.insert k value).get? key = _
        rw [Bindings.get?_insert, h.keywords]
        by_cases hk : key = k
        · simp [Entry.literalFor?, hk]
        · have hb : (key == k) = false := by simpa using hk
          simp [Entry.literalFor?, List.lookup_cons, hk, hb]
      | reference r =>
        rw [if_pos rfl]
        exact h.keywords e' key
    · have hx : Entry.literalFor? e' (e, x) = none := by
        cases x with
        | keyword => exact if_neg (Ne.symm he)
        | reference => rfl
      rw [if_neg he, h.keywords, List.filterMap_cons_none hx]
      rfl
  · rw [block_addEntries, List.filterMap_append]
    by_cases he : e' = e
    · subst he
      rw [if_pos rfl, ← h.references]
      cases x <;> simp [Block.addAll, Block.add, Entry.referenceFor?]
    · have hx : Entry.referenceFor? e' (e, x) = none := by
        cases x with
        | keyword => rfl
        | reference => exact if_neg (Ne.symm he)
      rw [if_neg he, h.references, List.filterMap_cons_none hx, List.filterMap_nil, List.append_nil]

theorem Says.addEntries (h : d.Says description lines) (e : Environment) (es : List Entry) :
    (d.addEntries e es).Says description (lines ++ es.map (e, ·)) := by
  induction es generalizing d lines with
  | nil =>
    have hd : d.addEntries e [] = d := by cases e <;> rfl
    rw [hd, List.map_nil, List.append_nil]
    exact h
  | cons x es ih =>
    rw [addEntries_cons, List.map_cons, List.append_cons]
    exact ih (h.add e x)

theorem Says.foldl_apply (h : d.Says description lines) (sections : List Section) :
    (sections.foldl Section.apply d).Says description
      (lines ++ (sections.map Section.said).flatten) := by
  induction sections generalizing d lines with
  | nil => rw [List.map_nil, List.flatten_nil, List.append_nil]; exact h
  | cons s sections ih =>
    rw [List.map_cons, List.flatten_cons, ← List.append_assoc]
    cases s with
    | environment e es => exact ih (h.addEntries e es)
    | unknown t => rw [Section.said, List.append_nil]; exact ih h

end Directives

/-- The three tokens in front of a description. -/
def Introduces (dash word colon : Token) : Prop :=
  kinds [dash, word, colon] = [.punct '-', .keyword .description, .punct ':']

theorem introduces_iff (dash word colon : Token) :
    Introduces dash word colon ↔
      dash.kind = .punct '-' ∧ word.kind = .keyword .description ∧ colon.kind = .punct ':' := by
  simp [Introduces, kinds]

theorem describedBy_of_introduces {dash word colon : Token} (h : Introduces dash word colon)
    (ts : List Token) :
    describedBy (dash :: word :: colon :: ts) =
      " ".intercalate ((ts.takeWhile (·.kind = .string)).map (·.text)) := if_pos h

theorem describedBy_eq_empty
    (h : ∀ dash word colon rest, ts = dash :: word :: colon :: rest → ¬ Introduces dash word colon) :
    describedBy ts = "" := by
  unfold describedBy
  split
  · exact if_neg (h _ _ _ _ rfl)
  · rfl

theorem describedBy_append (hus : ∀ t ∈ us.head?, t.kind = .punct '[') :
    describedBy (ts ++ us) = describedBy ts := by
  cases us with
  | nil => rw [List.append_nil]
  | cons t us =>
    have ht : t.kind = .punct '[' := hus t rfl
    match ts with
    | dash :: word :: colon :: ts =>
      by_cases h : Introduces dash word colon
      · have hstop : (t :: us).takeWhile (·.kind = .string) = [] := by
          rw [List.takeWhile_cons_of_neg]; simp [ht]
        rw [describedBy_of_introduces h]
        simp only [List.cons_append]
        rw [describedBy_of_introduces h, List.takeWhile_append]
        split
        · rename_i hall
          rw [hstop, List.append_nil, (List.takeWhile_prefix _).eq_of_length hall]
        · rfl
      · rw [describedBy_eq_empty, describedBy_eq_empty] <;>
        · intro _ _ _ _ he
          cases he
          exact h
    | [] | [_] | [_, _] =>
      rw [describedBy_eq_empty, describedBy_eq_empty]
      · intro _ _ _ _ he
        cases he
      · intro _ _ _ _ he
        cases he
        simp [introduces_iff, ht]

namespace TokenStream

theorem exists_of_current {k : TokenKind} (h : (TokenStream.mk ts p).current.kind = k)
    (hk : k ≠ .endOfInput) : ∃ t us, ts = t :: us ∧ t.kind = k := by
  cases ts with
  | nil => exact absurd h.symm hk
  | cons t us => exact ⟨t, us, rfl, h⟩

end TokenStream

namespace Description
open TokenStream

/-- What is read is the description that stands there, and all of it may be passed over. -/
theorem exists_of_read (ts : List Token) (p : Position) :
    ∃ d front back, ts = front ++ back ∧ read ⟨ts, p⟩ = (d, ⟨back, p⟩) ∧ d.value = describedBy ts ∧
      ∀ t ∈ front, t.kind.IsSkip := by
  by_cases hd : (TokenStream.mk ts p).current.kind = .punct '-'
  · obtain ⟨dash, ts, rfl, hd'⟩ := exists_of_current hd (by simp)
    by_cases hw : (TokenStream.mk ts p).current.kind = .keyword .description
    · obtain ⟨word, ts, rfl, hw'⟩ := exists_of_current hw (by simp)
      by_cases hc : (TokenStream.mk ts p).current.kind = .punct ':'
      · obtain ⟨colon, ts, rfl, hc'⟩ := exists_of_current hc (by simp)
        have hi := describedBy_of_introduces ((introduces_iff dash word colon).2 ⟨hd', hw', hc'⟩) ts
        by_cases hs : (TokenStream.mk ts p).current.kind = .string
        · have hread : read ⟨dash :: word :: colon :: ts, p⟩ =
              (.text (describedBy (dash :: word :: colon :: ts)),
                ⟨ts.dropWhile (·.kind = .string), p⟩) := by
            simp [read, peek, takeStrings, hd', hw', hc', hs, hi]
          have hstring : ∀ t ∈ ts.takeWhile (·.kind = .string), t.kind = .string := fun t ht =>
            of_decide_eq_true (List.all_eq_true.1 List.all_takeWhile t ht)
          refine ⟨_, dash :: word :: colon :: ts.takeWhile (·.kind = .string), _, ?_, hread, rfl, ?_⟩
          · simp only [List.cons_append, List.takeWhile_append_dropWhile]
          · simp +contextual [TokenKind.IsSkip, hd', hw', hc', hstring]
        · refine ⟨.noText (TokenStream.mk ts p).current, [dash, word, colon], ts, rfl,
            by simp [read, peek, hd', hw', hc', hs], ?_, by simp [TokenKind.IsSkip, hd', hw', hc']⟩
          have hnone : ts.takeWhile (·.kind = .string) = [] := by
            cases ts with
            | nil => rfl
            | cons t ts => exact List.takeWhile_cons_of_neg (by simpa using hs)
          rw [hi, hnone]
          rfl
      · refine ⟨.noColon (TokenStream.mk ts p).current, [dash, word], ts, rfl,
          by simp [read, peek, hd', hw', hc], ?_, by simp [TokenKind.IsSkip, hd', hw']⟩
        refine (describedBy_eq_empty fun dash word colon rest he hi => ?_).symm
        cases he
        exact hc ((introduces_iff _ _ _).1 hi).2.2
    · refine ⟨.notFirst dash, [], _, rfl, by simp [read, peek, hd', hw], ?_, by simp⟩
      refine (describedBy_eq_empty fun dash word colon rest he hi => ?_).symm
      cases he
      exact hw ((introduces_iff _ _ _).1 hi).2.1
  · refine ⟨.missing, [], ts, rfl, by simp [read, hd], ?_, by simp⟩
    refine (describedBy_eq_empty fun dash word colon rest he hi => ?_).symm
    cases he
    exact hd ((introduces_iff _ _ _).1 hi).1

end Description

namespace Script
open TokenStream

theorem readHeader_append {header : List Token}
    (h : kinds header =
      [.punct '[', .keyword .sqlmBegin, .punct ']', .punct '[', .keyword .script, .punct ']'])
    (us : List Token) (p : Position) : readHeader ⟨header ++ us, p⟩ = .ok ⟨us, p⟩ := by
  obtain ⟨t₁, header, rfl, h₁, h⟩ := List.map_eq_cons_iff.1 h
  obtain ⟨t₂, header, rfl, h₂, h⟩ := List.map_eq_cons_iff.1 h
  obtain ⟨t₃, header, rfl, h₃, h⟩ := List.map_eq_cons_iff.1 h
  obtain ⟨t₄, header, rfl, h₄, h⟩ := List.map_eq_cons_iff.1 h
  obtain ⟨t₅, header, rfl, h₅, h⟩ := List.map_eq_cons_iff.1 h
  obtain ⟨t₆, header, rfl, h₆, h⟩ := List.map_eq_cons_iff.1 h
  cases List.map_eq_nil_iff.1 h
  rw [readHeader]
  simp only [List.cons_append]
  rw [expect_bind (by rw [h₁]; rfl), expect_bind (by rw [h₂]; rfl), expect_bind (by rw [h₃]; rfl),
    expect_bind (by rw [h₄]; rfl), expect_bind (by rw [h₅]; rfl), expect_cons (by rw [h₆]; rfl)]
  rfl

theorem exists_of_readHeader {r : TokenStream} (h : readHeader ⟨ts, p⟩ = .ok r) :
    ∃ header us, ts = header ++ us ∧ r = ⟨us, p⟩ ∧ kinds header =
      [.punct '[', .keyword .sqlmBegin, .punct ']', .punct '[', .keyword .script, .punct ']'] := by
  obtain ⟨t₁, ts, rfl, k₁, h⟩ := exists_of_expect_bind h
  obtain ⟨t₂, ts, rfl, k₂, h⟩ := exists_of_expect_bind h
  obtain ⟨t₃, ts, rfl, k₃, h⟩ := exists_of_expect_bind h
  obtain ⟨t₄, ts, rfl, k₄, h⟩ := exists_of_expect_bind h
  obtain ⟨t₅, ts, rfl, k₅, h⟩ := exists_of_expect_bind h
  obtain ⟨t₆, us, rfl, k₆, rfl⟩ := exists_of_expect h
  simp only [Expected.accepts, decide_eq_true_eq] at k₁ k₂ k₃ k₄ k₅ k₆
  exact ⟨[t₁, t₂, t₃, t₄, t₅, t₆], us, rfl, rfl, by simp [kinds, *]⟩

theorem opensBlock_iff (ts : List Token) (p : Position) :
    opensBlock ⟨ts, p⟩ = true ↔ BeginsBlock ts := by
  rw [opensBlock, Bool.and_eq_true, decide_eq_true_eq, decide_eq_true_eq]
  match ts with
  | [] | [_] => simp [BeginsBlock, kinds, peek, Token.atEnd]
  | _ :: _ :: _ => simp [BeginsBlock, kinds, peek]

/-- A block that stands in front is read up to its last token, whatever stands behind it. -/
theorem Form.readStream {description : String} {lines : List (Environment × Entry)}
    (h : Script.Form ts description lines) (us : List Token) (p : Position) :
    ∃ s, (readStream ⟨ts ++ us, p⟩).2 = .ok s ∧ s.directives.Says description lines ∧
      s.closing = ts.getLast? := by
  obtain @⟨header, skips, body, footer, parts, hheader, hskips, hbody, hfooter⟩ := h
  have hopen : opensBlock ⟨header ++ skips ++ body ++ footer ++ us, p⟩ = true := by
    obtain ⟨t₁, header, rfl, h₁, h⟩ := List.map_eq_cons_iff.1 hheader
    obtain ⟨t₂, header, rfl, h₂, -⟩ := List.map_eq_cons_iff.1 h
    simp [opensBlock, peek, h₁, h₂]
  obtain ⟨t, rest, hrest, ht⟩ := Section.exists_bracket hbody hfooter us
  obtain ⟨sections, closing, hsections, hsaid, hlast⟩ := Section.readAll_of_many hbody hfooter us p
  obtain ⟨d, front, back, hsplit, hread, hvalue, hfront⟩ :=
    Description.exists_of_read (skips ++ (body ++ (footer ++ us))) p
  -- how far the description was read makes no difference to where the section ends
  have hskip : (TokenStream.mk back p).skipSection = .ok ⟨body ++ (footer ++ us), p⟩ := by
    rw [← skipSection_append hfront, ← hsplit, skipSection_append hskips, hrest,
      skipSection_bracket ht]
  rw [describedBy_append (by rw [hrest]; simpa using ht)] at hvalue
  have hassoc : header ++ skips ++ body ++ footer ++ us =
      header ++ (skips ++ (body ++ (footer ++ us))) := by simp only [List.append_assoc]
  rw [hassoc] at hopen ⊢
  refine ⟨⟨sections.foldl Section.apply { description := d.value }, some closing.current⟩, ?_, ?_, ?_⟩
  · simp [Script.readStream, hopen, readHeader_append hheader, hread, hskip, hsections, Except.map]
  · rw [hvalue, ← hsaid, ← List.nil_append (List.flatten _)]
    exact (Directives.says_start _).foldl_apply sections
  · rw [List.getLast?_append, hlast]
    rfl

theorem exists_of_readStream {s : Script} (hend : ∀ t ∈ ts, t.kind ≠ .endOfInput)
    (hopen : opensBlock ⟨ts, p⟩ = true) (h : (readStream ⟨ts, p⟩).2 = .ok s) :
    ∃ front us description lines, ts = front ++ us ∧ Script.Form front description lines ∧
      s.directives.Says description lines := by
  rw [readStream, hopen] at h
  cases hh : readHeader ⟨ts, p⟩ with
  | error e => rw [hh] at h; cases h
  | ok r =>
    obtain ⟨header, ts, rfl, rfl, hheader⟩ := exists_of_readHeader hh
    have hend : ∀ t ∈ ts, t.kind ≠ .endOfInput := fun t ht => hend t (List.mem_append_right _ ht)
    obtain ⟨d, front, back, hsplit, hread, hvalue, hfront⟩ := Description.exists_of_read ts p
    simp only [Bool.not_true, Bool.false_eq_true, if_false, hh, hread] at h
    cases hk : (TokenStream.mk back p).skipSection with
    | error e => rw [hk] at h; cases h
    | ok r =>
      simp only [hk] at h
      rw [← skipSection_append hfront, ← hsplit] at hk
      obtain ⟨skips, rest, rfl, rfl, hskips, hhead⟩ := exists_of_skipSection hend hk
      cases hr : Section.readAll ⟨rest, p⟩ with
      | mk sections finish =>
        rw [hr] at h
        cases finish with
        | error e => cases h
        | ok closing =>
          cases h
          have hend : ∀ t ∈ rest, t.kind ≠ .endOfInput := fun t ht =>
            hend t (List.mem_append_right _ ht)
          obtain ⟨body, footer, us, rfl, hbody, hfooter⟩ := Section.exists_of_readAll hend hr
          refine ⟨header ++ skips ++ body ++ footer, us, _, _, by simp only [List.append_assoc],
            .mk hheader hskips hbody hfooter, ?_⟩
          rw [describedBy_append hhead] at hvalue
          rw [← hvalue, ← List.nil_append (List.flatten _)]
          exact (Directives.says_start _).foldl_apply sections

end Script

theorem TokenStream.exists_ofText (text : String) :
    ∃ ts p last, ofText text = ⟨ts, p⟩ ∧ significant text = ts ++ [last] ∧
      last.kind = .endOfInput ∧ ∀ t ∈ ts, t.kind ≠ .endOfInput := by
  obtain ⟨ts, p, hrun, hts⟩ := (Cursor.ofText text).exists_run
  refine ⟨ts.filter (·.kind ≠ .comment), p, .atEnd p, ?_, ?_, rfl, fun t ht =>
    hts t (List.mem_filter.1 ht).1⟩
  · simp [ofText, Token.ofText, hrun, Token.atEnd]
  · simp [significant, Token.ofText, hrun, List.filter_append, Token.atEnd]

namespace Script

theorem Form.exists_getLast {description : String} {lines : List (Environment × Entry)}
    (h : Script.Form ts description lines) : ∃ front t, ts = front ++ [t] ∧ t.kind = .punct ']' := by
  obtain @⟨header, skips, body, footer, parts, -, -, -, hfooter⟩ := h
  obtain ⟨left, footer, rfl, -, h⟩ := List.map_eq_cons_iff.1 hfooter
  obtain ⟨word, footer, rfl, -, h⟩ := List.map_eq_cons_iff.1 h
  obtain ⟨right, footer, rfl, hr, h⟩ := List.map_eq_cons_iff.1 h
  cases List.map_eq_nil_iff.1 h
  exact ⟨header ++ skips ++ body ++ [left, word], right, by simp, hr⟩

theorem Form.kind_closing {description : String} {lines : List (Environment × Entry)}
    {closing : Token} (h : Script.Form (ts ++ [closing]) description lines) :
    closing.kind = .punct ']' := by
  obtain ⟨front, t, he, ht⟩ := h.exists_getLast
  obtain ⟨-, rfl⟩ := List.append_inj' he rfl |>.imp_right List.singleton_inj.1
  exact ht

/-- A text whose tokens start with a block is read through the last token of that block. -/
theorem Form.ofText {text description : String} {lines : List (Environment × Entry)}
    (h : Script.Form ts description lines) (hfront : ts <+: significant text) :
    ∃ s, Script.ofText text = .ok s ∧ s.directives.Says description lines ∧
      s.closing = ts.getLast? := by
  obtain ⟨all, p, last, hof, hsig, hlast, -⟩ := TokenStream.exists_ofText text
  rw [hsig, List.prefix_concat_iff] at hfront
  obtain hwhole | ⟨us, rfl⟩ := hfront
  -- a block does not reach to the end of the input
  · subst hwhole
    rw [h.kind_closing] at hlast
    cases hlast
  · rw [Script.ofText, hof]
    exact h.readStream us p

/-- It has the directives that say what the block does. -/
theorem Form.parse {text description : String} {lines : List (Environment × Entry)}
    (h : Script.Form ts description lines) (hfront : ts <+: significant text) :
    ∃ d, Directives.parse text = .ok d ∧ d.Says description lines := by
  obtain ⟨s, hs, hsays, -⟩ := h.ofText hfront
  exact ⟨s.directives, by rw [Directives.parse, hs]; rfl, hsays⟩

end Script

namespace Script
variable {text : String}

theorem opensBlock_ofText_iff (text : String) :
    opensBlock (.ofText text) = true ↔ BeginsBlock (significant text) := by
  obtain ⟨ts, p, last, hof, hsig, hlast, -⟩ := TokenStream.exists_ofText text
  rw [hof, hsig, opensBlock_iff]
  match ts with
  | [] | [_] => simp [BeginsBlock, kinds, hlast]
  | _ :: _ :: _ => simp [BeginsBlock, kinds]

theorem ofText_of_not_begins (h : ¬ BeginsBlock (significant text)) : ofText text = .ok {} := by
  have hopen : opensBlock (.ofText text) = false :=
    Bool.eq_false_iff.2 (mt (opensBlock_ofText_iff text).1 h)
  rw [ofText, readStream, hopen]
  rfl

/-- What was read of tokens that begin like a block is a form of the grammar in front, through the
closing bracket. -/
theorem exists_form_of_begins {s : Script} (hbegins : BeginsBlock (significant text))
    (h : ofText text = .ok s) : ∃ front closing us description lines,
      significant text = front ++ closing :: us ∧ Form (front ++ [closing]) description lines ∧
        s.directives.Says description lines ∧ s.closing = some closing := by
  have hopen := (opensBlock_ofText_iff text).2 hbegins
  obtain ⟨all, p, last, hof, hsig, -, hend⟩ := TokenStream.exists_ofText text
  rw [hof] at hopen
  rw [ofText, hof] at h
  obtain ⟨block, us, description, lines, rfl, hform, hsays⟩ := exists_of_readStream hend hopen h
  obtain ⟨s', hs', -, hlast⟩ := hform.readStream us p
  obtain ⟨front, t, rfl, -⟩ := hform.exists_getLast
  cases h.symm.trans hs'
  rw [List.getLast?_concat] at hlast
  exact ⟨front, t, us ++ [last], description, lines, by rw [hsig]; simp, hform, hsays, hlast⟩

end Script

namespace Directives
variable {text : String} {d : Directives}

theorem parse_of_not_begins (h : ¬ BeginsBlock (significant text)) : parse text = .ok {} := by
  rw [parse, Script.ofText_of_not_begins h]
  rfl

theorem exists_form_of_begins (hbegins : BeginsBlock (significant text)) (h : parse text = .ok d) :
    ∃ ts description lines, ts <+: significant text ∧ Script.Form ts description lines ∧
      d.Says description lines := by
  rw [parse] at h
  cases hs : Script.ofText text with
  | error e => rw [hs] at h; cases h
  | ok s =>
    rw [hs] at h
    cases h
    obtain ⟨front, closing, us, description, lines, hsig, hform, hsays, -⟩ :=
      Script.exists_form_of_begins hbegins hs
    exact ⟨front ++ [closing], description, lines, ⟨us, by rw [hsig]; simp⟩, hform, hsays⟩

/-- Directives that were read are none, or what a block at the front of the text says. -/
theorem exists_form_of_parse (h : parse text = .ok d) :
    d = {} ∨ ∃ ts description lines, ts <+: significant text ∧ Script.Form ts description lines ∧
      d.Says description lines := by
  by_cases hbegins : BeginsBlock (significant text)
  · exact .inr (exists_form_of_begins hbegins h)
  · cases (parse_of_not_begins hbegins).symm.trans h
    exact .inl rfl

end Directives

/-- A script that does not begin with a block has no directives, whatever else is in it. A script
that does is accepted exactly if its tokens start with a form of the grammar, and then it has the
directives that say what the form does. -/
theorem Directives.parse_accepts (text : String) :
    (¬ BeginsBlock (significant text) → parse text = .ok {}) ∧
    (BeginsBlock (significant text) →
      (∀ ts description lines, ts <+: significant text → Script.Form ts description lines →
        ∃ d, parse text = .ok d ∧ d.Says description lines) ∧
      (∀ d, parse text = .ok d →
        ∃ ts description lines, ts <+: significant text ∧ Script.Form ts description lines ∧
          d.Says description lines)) :=
  ⟨parse_of_not_begins, fun hbegins => ⟨fun _ _ _ hts hform => hform.parse hts, fun _ hd =>
    exists_form_of_begins hbegins hd⟩⟩

end SqlComposer
