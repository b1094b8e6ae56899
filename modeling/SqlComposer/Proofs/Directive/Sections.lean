import SqlComposer.Proofs.Directive.Grammar

/-! Reading lines and sections. Each reader takes a form of its grammar and nothing else, and takes
every form that stands in front of it. -/
namespace SqlComposer
variable {ts us : List Token} {p : Position}

theorem eq_ok_of_toOption {ε α : Type} {x : Except ε α} {a : α} (h : x.toOption = some a) :
    x = .ok a := by
  cases x with
  | error e => cases h
  | ok b => cases h; rfl

theorem eq_error_of_match {ε α : Type} {x : Except ε α} {e : ε}
    (h : (match x with | .error e => some e | .ok _ => none) = some e) : x = .error e := by
  cases x with
  | ok a => cases h
  | error e' => cases h; rfl

namespace TokenStream

theorem expect_cons {t : Token} {what : Expected} (h : what.accepts t.kind = true)
    (ts : List Token) (p : Position) :
    (TokenStream.mk (t :: ts) p).expect what = .ok ⟨ts, p⟩ := if_pos h

theorem expect_bind {α : Type} {t : Token} {what : Expected} {f : TokenStream → Except ParseError α}
    (h : what.accepts t.kind = true) :
    (TokenStream.mk (t :: ts) p).expect what >>= f = f ⟨ts, p⟩ := by
  rw [expect_cons h]; rfl

theorem exists_of_expect {what : Expected} {r : TokenStream}
    (h : (TokenStream.mk ts p).expect what = .ok r) :
    ∃ t us, ts = t :: us ∧ what.accepts t.kind = true ∧ r = ⟨us, p⟩ := by
  obtain ⟨ha, rfl⟩ := expect_eq_ok h
  cases ts with
  | nil => rw [current_nil, Token.atEnd, Expected.accepts_endOfInput] at ha; cases ha
  | cons t us => exact ⟨t, us, rfl, ha, rfl⟩

theorem exists_of_expect_bind {α : Type} {what : Expected} {f : TokenStream → Except ParseError α}
    {a : α} (h : (TokenStream.mk ts p).expect what >>= f = .ok a) :
    ∃ t us, ts = t :: us ∧ what.accepts t.kind = true ∧ f ⟨us, p⟩ = .ok a := by
  obtain ⟨r, hr, h⟩ := exists_of_bind_eq_ok h
  obtain ⟨t, us, rfl, ha, rfl⟩ := exists_of_expect hr
  exact ⟨t, us, rfl, ha, h⟩

theorem skipSection_append (h : ∀ t ∈ ts, t.kind.IsSkip) (us : List Token) (p : Position) :
    (TokenStream.mk (ts ++ us) p).skipSection = (TokenStream.mk us p).skipSection := by
  induction ts with
  | nil => rfl
  | cons t ts ih =>
    obtain ⟨⟨hb, -, hf⟩, h⟩ := List.forall_mem_cons.1 h
    rw [← ih h, skipSection, skipSection, List.cons_append, skipSection.go]
    split
    · exact absurd ‹_› hb
    · exact absurd ‹_› (hf _)
    · rfl

theorem skipSection_bracket {t : Token} (h : t.kind = .punct '[') (ts : List Token) (p : Position) :
    (TokenStream.mk (t :: ts) p).skipSection = .ok ⟨t :: ts, p⟩ := by
  rw [skipSection, skipSection.go, h]; rfl

theorem exists_of_skipSection {r : TokenStream} (hend : ∀ t ∈ ts, t.kind ≠ .endOfInput)
    (h : (TokenStream.mk ts p).skipSection = .ok r) :
    ∃ skips us, ts = skips ++ us ∧ r = ⟨us, p⟩ ∧ (∀ t ∈ skips, t.kind.IsSkip) ∧
      ∀ t ∈ us.head?, t.kind = .punct '[' := by
  induction ts with
  | nil => cases h; exact ⟨[], [], rfl, rfl, by simp, by simp⟩
  | cons t ts ih =>
    obtain ⟨ht, hend⟩ := List.forall_mem_cons.1 hend
    by_cases hb : t.kind = .punct '['
    · rw [skipSection_bracket hb] at h
      cases h
      exact ⟨[], t :: ts, rfl, rfl, by simp, by simp [hb]⟩
    · by_cases hf : ∃ f, t.kind = .fault f
      · obtain ⟨f, hf⟩ := hf
        rw [skipSection, skipSection.go, hf] at h
        cases h
      · have hs : t.kind.IsSkip := ⟨hb, ht, fun f hk => hf ⟨f, hk⟩⟩
        have hpass := skipSection_append (List.forall_mem_singleton.2 hs) ts p
        rw [List.singleton_append] at hpass
        rw [hpass] at h
        obtain ⟨skips, us, rfl, hr, hskips, hhead⟩ := ih hend h
        exact ⟨t :: skips, us, rfl, hr, List.forall_mem_cons.2 ⟨hs, hskips⟩, hhead⟩

end TokenStream

theorem Expected.accepts_key_iff (k : TokenKind) : Expected.key.accepts k = true ↔ k.IsKey := by
  cases k <;> simp [accepts, TokenKind.IsKey]

namespace Entry
open TokenStream

theorem Form.read {x : Entry} (h : Entry.Form ts x) (us : List Token) (p : Position) :
    Entry.read ⟨ts ++ us, p⟩ = .ok (x, ⟨us, p⟩) := by
  cases h with
  | @keyword dash key colon value hk hkey =>
    simp only [kinds, List.map_cons, List.map_nil, List.cons.injEq, and_true] at hk
    obtain ⟨hd, hc, hv⟩ := hk
    have ad : Expected.dash.accepts dash.kind = true := by rw [hd]; rfl
    have ac : Expected.colon.accepts colon.kind = true := by rw [hc]; rfl
    have av : Expected.value.accepts value.kind = true := by rw [hv]; rfl
    have ak := (Expected.accepts_key_iff key.kind).2 hkey
    rw [Entry.read, List.cons_append, expect_bind ad, List.cons_append, expect_bind ak,
      List.cons_append, expect_bind ac, List.cons_append, expect_bind av, current_cons, hv]
    rfl
  | @named dash key colon word left target right hk hkey
  | @file dash key colon word left target right hk hkey =>
    simp only [kinds, List.map_cons, List.map_nil, List.cons.injEq, and_true] at hk
    obtain ⟨hd, hc, hw, hl, ht, hr⟩ := hk
    have ad : Expected.dash.accepts dash.kind = true := by rw [hd]; rfl
    have ac : Expected.colon.accepts colon.kind = true := by rw [hc]; rfl
    have aw : Expected.value.accepts word.kind = true := by rw [hw]; rfl
    have al : Expected.openParen.accepts left.kind = true := by rw [hl]; rfl
    have aq : Expected.string.accepts target.kind = true := by rw [ht]; rfl
    have ar : Expected.closeParen.accepts right.kind = true := by rw [hr]; rfl
    have ak := (Expected.accepts_key_iff key.kind).2 hkey
    simp only [Entry.read, List.cons_append, expect_bind ad, expect_bind ak, expect_bind ac,
      expect_bind aw, current_cons, hw, Source.ofWord?, expect_bind al, expect_bind aq,
      expect_bind ar]
    rfl

theorem exists_of_read {r : Entry × TokenStream} (h : Entry.read ⟨ts, p⟩ = .ok r) :
    ∃ line us, ts = line ++ us ∧ r.2 = ⟨us, p⟩ ∧ Entry.Form line r.1 := by
  obtain ⟨dash, ts, rfl, hdash, h⟩ := exists_of_expect_bind h
  obtain ⟨key, ts, rfl, hkey, h⟩ := exists_of_expect_bind h
  obtain ⟨colon, ts, rfl, hcolon, h⟩ := exists_of_expect_bind h
  obtain ⟨value, ts, rfl, hvalue, h⟩ := exists_of_expect_bind h
  rw [Expected.accepts_key_iff] at hkey
  simp only [Expected.accepts, decide_eq_true_eq, Bool.or_eq_true] at hdash hcolon hvalue
  simp only [current_cons] at h
  -- a string ends the line; the word of a reference has its target behind it
  obtain (hv | hv) | hv := hvalue
  · rw [hv] at h
    cases h
    exact ⟨[dash, key, colon, value], ts, rfl, rfl, .keyword (by simp [kinds, *]) hkey⟩
  all_goals
    rw [hv] at h
    simp only [Source.ofWord?] at h
    obtain ⟨left, ts, rfl, hleft, h⟩ := exists_of_expect_bind h
    obtain ⟨target, ts, rfl, htarget, h⟩ := exists_of_expect_bind h
    obtain ⟨right, ts, rfl, hright, h⟩ := exists_of_expect_bind h
    simp only [Expected.accepts, decide_eq_true_eq] at hleft htarget hright
    cases h
    refine ⟨[dash, key, colon, value, left, target, right], ts, rfl, rfl, ?_⟩
  · exact .named (by simp [kinds, *]) hkey
  · exact .file (by simp [kinds, *]) hkey

theorem Form.exists_dash {x : Entry} (h : Entry.Form ts x) :
    ∃ t us, ts = t :: us ∧ t.kind = .punct '-' := by
  cases h with
  | keyword hk _ | named hk _ | file hk _ =>
    exact ⟨_, _, rfl, (List.cons.inj hk).1⟩

theorem readAll_of_many {es : List Entry} (h : Many Entry.Form ts es) {p : Position}
    (hus : (TokenStream.mk us p).current.kind ≠ .punct '-') :
    readAll ⟨ts ++ us, p⟩ = .ok (es, ⟨us, p⟩) := by
  induction h with
  | nil => rw [List.nil_append, readAll, if_neg hus]
  | @cons line ts x es hline _ ih =>
    obtain ⟨t, rest, ht, hdash⟩ := hline.exists_dash
    have hread := hline.read (ts ++ us) p
    rw [← List.append_assoc] at hread
    rw [readAll, if_pos (by rw [ht]; exact hdash)]
    split
    · rw [hread] at *; contradiction
    · rename_i hr
      rw [hread] at hr
      cases hr
      rw [ih]; rfl

theorem exists_of_readAll {r : List Entry × TokenStream} (h : readAll ⟨ts, p⟩ = .ok r) :
    ∃ lines us, ts = lines ++ us ∧ r.2 = ⟨us, p⟩ ∧ Many Entry.Form lines r.1 := by
  generalize hs : TokenStream.mk ts p = s at h
  fun_induction readAll s generalizing ts r with
  | case1 => cases h
  | case2 s _ x rest hread ih =>
    subst hs
    obtain ⟨line, ts, rfl, rfl, hline⟩ := exists_of_read hread
    cases hm : readAll ⟨ts, p⟩ with
    | error e => rw [hm] at h; cases h
    | ok m =>
      obtain ⟨lines, us, rfl, hr, hlines⟩ := ih rfl hm
      rw [hm] at h
      cases h
      exact ⟨line ++ lines, us, (List.append_assoc ..).symm, hr, .cons hline hlines⟩
  | case3 => cases h; exact ⟨[], ts, rfl, hs.symm, .nil⟩

end Entry

namespace Section
open TokenStream
variable {left word right : Token} {rest : TokenStream}

/-- The lines that a section gives. -/
def said : Section → List (Environment × Entry)
  | .environment e es => es.map (e, ·)
  | .unknown _ => []

/-- What the token behind a bracket decides. -/
theorem readAll_bracket (hl : left.kind = .punct '[') (ts : List Token) (p : Position) :
    readAll ⟨left :: ts, p⟩ =
      let inner : TokenStream := ⟨ts, p⟩
      match inner.current.kind with
      | .keyword .sqlmEnd => ([], (inner.next.expect .closeBracket).map fun _ => inner.next)
      | .keyword (.environment e) =>
        match readLines inner.next with
        | .error err => ([], .error err)
        | .ok (es, rest) => (.environment e es :: (readAll rest).1, (readAll rest).2)
      | _ =>
        match inner.skipSection with
        | .error err => ([.unknown inner.current], .error err)
        | .ok rest => (.unknown inner.current :: (readAll rest).1, (readAll rest).2) := by
  have ho : (TokenStream.mk (left :: ts) p).expect .openBracket = .ok ⟨ts, p⟩ :=
    expect_cons (by rw [hl]; rfl) ts p
  rw [readAll, if_neg (by simp [hl])]
  split
  · rw [ho] at *; contradiction
  · rename_i inner hinner
    rw [ho] at hinner
    cases hinner
    dsimp only
    split
    · simp_all
    · split <;> simp_all
    · split <;> simp_all

theorem readAll_end (hl : left.kind = .punct '[') (hw : word.kind = .keyword .sqlmEnd)
    (hr : right.kind = .punct ']') (us : List Token) (p : Position) :
    readAll ⟨left :: word :: right :: us, p⟩ = ([], .ok ⟨right :: us, p⟩) := by
  have ar : Expected.closeBracket.accepts right.kind = true := by rw [hr]; rfl
  rw [readAll_bracket hl]
  simp only [current_cons, next_cons, hw, expect_cons ar]
  rfl

theorem readAll_environment {e : Environment} {es : List Entry} (hl : left.kind = .punct '[')
    (hw : word.kind = .keyword (.environment e)) (h : readLines ⟨ts, p⟩ = .ok (es, rest)) :
    readAll ⟨left :: word :: ts, p⟩ = (.environment e es :: (readAll rest).1, (readAll rest).2) := by
  rw [readAll_bracket hl]
  simp only [current_cons, next_cons, hw, h]

theorem readAll_unknown (hl : left.kind = .punct '[')
    (hhead : ¬ (TokenStream.mk ts p).current.kind.IsKnown)
    (h : (TokenStream.mk ts p).skipSection = .ok rest) :
    readAll ⟨left :: ts, p⟩ =
      (.unknown (TokenStream.mk ts p).current :: (readAll rest).1, (readAll rest).2) := by
  rw [readAll_bracket hl]
  dsimp only
  split
  · exact absurd (.inl ‹_›) hhead
  · exact absurd (.inr ⟨_, ‹_›⟩) hhead
  · rw [h]

theorem Form.exists_bracket {said : List (Environment × Entry)} (h : Section.Form ts said) :
    ∃ t us, ts = t :: us ∧ t.kind = .punct '[' := by
  cases h with
  | environment hk _ => exact ⟨_, _, rfl, (List.cons.inj hk).1⟩
  | unknown hl _ _ => exact ⟨_, _, rfl, hl⟩

theorem exists_bracket {parts : List (List (Environment × Entry))} (h : Many Section.Form ts parts)
    {footer : List Token} (hf : kinds footer = [.punct '[', .keyword .sqlmEnd, .punct ']'])
    (us : List Token) : ∃ t rest, ts ++ (footer ++ us) = t :: rest ∧ t.kind = .punct '[' := by
  cases h with
  | nil =>
    obtain ⟨t, footer, rfl, ht, -⟩ := List.map_eq_cons_iff.1 hf
    exact ⟨t, footer ++ us, rfl, ht⟩
  | cons hs _ =>
    obtain ⟨t, rest, rfl, ht⟩ := hs.exists_bracket
    exact ⟨t, _, rfl, ht⟩

theorem readAll_of_many {parts : List (List (Environment × Entry))}
    (h : Many Section.Form ts parts) {footer : List Token}
    (hf : kinds footer = [.punct '[', .keyword .sqlmEnd, .punct ']']) (us : List Token)
    (p : Position) :
    ∃ sections closing, readAll ⟨ts ++ (footer ++ us), p⟩ = (sections, .ok closing) ∧
      sections.map said = parts ∧ footer.getLast? = some closing.current := by
  induction h with
  | nil =>
    obtain ⟨left, footer, rfl, hl, hf⟩ := List.map_eq_cons_iff.1 hf
    obtain ⟨word, footer, rfl, hw, hf⟩ := List.map_eq_cons_iff.1 hf
    obtain ⟨right, footer, rfl, hr, hf⟩ := List.map_eq_cons_iff.1 hf
    cases List.map_eq_nil_iff.1 hf
    exact ⟨[], _, readAll_end hl hw hr us p, rfl, rfl⟩
  | @cons piece ts part parts hpiece hmany ih =>
    obtain ⟨sections, closing, hread, rfl, hlast⟩ := ih
    -- the bracket that comes next ends the lines or the passing over of this section
    obtain ⟨t, rest, hrest, ht⟩ := exists_bracket hmany hf us
    rw [List.append_assoc]
    cases hpiece with
    | @environment left word right e lines es hk hlines =>
      simp only [kinds, List.map_cons, List.map_nil, List.cons.injEq, and_true] at hk
      obtain ⟨hl, hw, hr⟩ := hk
      have ar : Expected.closeBracket.accepts right.kind = true := by rw [hr]; rfl
      have hstop : (TokenStream.mk (ts ++ (footer ++ us)) p).current.kind ≠ .punct '-' := by
        rw [hrest, current_cons, ht]; decide
      have hl' : readLines ⟨right :: (lines ++ (ts ++ (footer ++ us))), p⟩ =
          .ok (es, ⟨ts ++ (footer ++ us), p⟩) := by
        rw [readLines, expect_bind ar, Entry.readAll_of_many hlines hstop]
      have henv := readAll_environment hl hw hl'
      rw [hread] at henv
      exact ⟨_, closing, henv, rfl, hlast⟩
    | @unknown left skips hl hskips hhead =>
      have hskip : (TokenStream.mk (skips ++ (ts ++ (footer ++ us))) p).skipSection =
          .ok ⟨ts ++ (footer ++ us), p⟩ := by
        rw [skipSection_append hskips, hrest, skipSection_bracket ht]
      have hknown : ¬ (TokenStream.mk (skips ++ (ts ++ (footer ++ us))) p).current.kind.IsKnown := by
        cases skips with
        | nil => rw [List.nil_append, hrest, current_cons, ht]; simp [TokenKind.IsKnown]
        | cons t skips => exact hhead t rfl
      have hunknown := readAll_unknown hl hknown hskip
      rw [hread] at hunknown
      exact ⟨_, closing, hunknown, rfl, hlast⟩

theorem exists_of_readAll {sections : List Section} {closing : TokenStream}
    (hend : ∀ t ∈ ts, t.kind ≠ .endOfInput) (h : readAll ⟨ts, p⟩ = (sections, .ok closing)) :
    ∃ body footer us, ts = body ++ (footer ++ us) ∧ Many Section.Form body (sections.map said) ∧
      kinds footer = [.punct '[', .keyword .sqlmEnd, .punct ']'] := by
  generalize hs : TokenStream.mk ts p = s at h
  fun_induction readAll s generalizing ts sections closing with
  | case1 => cases h
  | case2 => cases h
  | case3 s _ inner ho hw =>
    subst hs
    obtain ⟨left, ts, rfl, hl, rfl⟩ := exists_of_expect ho
    cases ts with
    | nil => cases hw
    | cons word ts =>
      cases hc : (TokenStream.mk ts p).expect .closeBracket with
      | error e => rw [next_cons, hc] at h; cases h
      | ok r =>
        obtain ⟨right, us, rfl, hr, -⟩ := exists_of_expect hc
        rw [next_cons, hc] at h
        cases h
        simp only [Expected.accepts, decide_eq_true_eq, current_cons] at hl hr hw
        exact ⟨[], [left, word, right], us, rfl, .nil, by simp [kinds, *]⟩
  | case4 => cases h
  | case5 s _ inner ho e hw es rest hlines more =>
    rename_i ih
    subst hs
    obtain ⟨left, ts, rfl, hl, rfl⟩ := exists_of_expect ho
    cases ts with
    | nil => cases hw
    | cons word ts =>
      obtain ⟨right, ts, rfl, hr, hlines⟩ := exists_of_expect_bind hlines
      obtain ⟨lines, us, rfl, hrest, hmany⟩ := Entry.exists_of_readAll hlines
      subst hrest
      obtain ⟨hsections, hclosing⟩ := Prod.mk.inj h
      subst hsections
      have hend' : ∀ t ∈ us, t.kind ≠ .endOfInput := fun t ht => hend t (by simp [ht])
      obtain ⟨body, footer, us, rfl, hbody, hfooter⟩ := ih hend' rfl (Prod.ext rfl hclosing)
      simp only [Expected.accepts, decide_eq_true_eq, current_cons] at hl hr hw
      have hform : Section.Form (left :: word :: right :: lines) (es.map (e, ·)) :=
        .environment (by simp [kinds, *]) hmany
      exact ⟨_, footer, us, by simp, .cons hform hbody, hfooter⟩
  | case6 => cases h
  | case7 s _ inner ho rest hskip more hnot henv =>
    rename_i ih
    subst hs
    obtain ⟨left, ts, rfl, hl, rfl⟩ := exists_of_expect ho
    obtain ⟨-, hend⟩ := List.forall_mem_cons.1 hend
    -- what is passed over starts with the token that named no environment, if with any
    obtain ⟨skips, us, rfl, rfl, hskips, -⟩ := exists_of_skipSection hend hskip
    obtain ⟨hsections, hclosing⟩ := Prod.mk.inj h
    subst hsections
    have hend' : ∀ t ∈ us, t.kind ≠ .endOfInput := fun t ht => hend t (by simp [ht])
    obtain ⟨body, footer, us, rfl, hbody, hfooter⟩ := ih hend' rfl (Prod.ext rfl hclosing)
    simp only [Expected.accepts, decide_eq_true_eq] at hl
    have hhead : ∀ t ∈ skips.head?, ¬ t.kind.IsKnown := by
      intro t ht hk
      obtain ⟨rest, rfl⟩ := List.head?_eq_some_iff.1 ht
      exact hk.elim hnot fun ⟨e, he⟩ => henv e he
    exact ⟨_, footer, us, by simp, .cons (.unknown hl hskips hhead) hbody, hfooter⟩

end Section
end SqlComposer
