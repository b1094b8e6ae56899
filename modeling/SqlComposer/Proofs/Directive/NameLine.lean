import SqlComposer.Proofs.Directive.Acceptance

/-! Lines that give a name. The reader asks for the form of a name at the front of a line, and does not
look at what comes behind the strings. -/
namespace SqlComposer

/-- The form of a name: a line's beginning and one or more strings, which are the words of the name. -/
inductive NameForm : List Token → String → Prop
  | mk {header strings : List Token} :
      kinds header = [.punct '-', .keyword .name, .punct ':'] → strings ≠ [] →
      (∀ t ∈ strings, t.kind = .string) →
      NameForm (header ++ strings) (" ".intercalate (strings.map (·.text)))

/-- That a line gives a name exactly if it has the form of a name and nothing stands behind. -/
def GivesNameAlone (line : String) : Prop :=
  ∀ name, parseName line = .ok name ↔
    ∃ ts last, significant line = ts ++ [last] ∧ last.kind = .endOfInput ∧ NameForm ts name

namespace NameForm
variable {ts rest strings : List Token} {name : String}

theorem kind_of_mem (h : NameForm ts name) {t : Token} (ht : t ∈ ts) :
    t.kind ∈ [.punct '-', .keyword .name, .punct ':', .string] := by
  obtain ⟨hheader, -, hstrings⟩ := h
  rcases List.mem_append.1 ht with ht | ht
  · have hkind : t.kind ∈ kinds _ := List.mem_map_of_mem ht
    rw [hheader] at hkind
    exact List.mem_append_left [.string] hkind
  · simp [hstrings t ht]

theorem takeWhile_strings (h : ∀ t ∈ strings, t.kind = .string)
    (hrest : ∀ t ∈ rest.head?, t.kind ≠ .string) :
    (strings ++ rest).takeWhile (·.kind = .string) = strings := by
  rw [List.takeWhile_append_of_pos fun t ht => decide_eq_true (h t ht)]
  cases rest with
  | nil => simp
  | cons t rest =>
    rw [List.takeWhile_cons_of_neg (by simpa using hrest t rfl), List.append_nil]

/-- The strings of a name reach as far as there are strings, so the form is determined. -/
theorem rest_eq {ts' rest' : List Token} {name' : String} (h : NameForm ts name)
    (h' : NameForm ts' name') (hrest : ∀ t ∈ rest.head?, t.kind ≠ .string)
    (hrest' : ∀ t ∈ rest'.head?, t.kind ≠ .string) (heq : ts ++ rest = ts' ++ rest') :
    rest = rest' := by
  obtain @⟨header, strings, hheader, -, hstrings⟩ := h
  obtain @⟨header', strings', hheader', -, hstrings'⟩ := h'
  have hlength : header.length = header'.length := by
    have hkinds := congrArg List.length (hheader.trans hheader'.symm)
    simpa [kinds] using hkinds
  rw [List.append_assoc, List.append_assoc] at heq
  have hbehind := (List.append_inj heq hlength).2
  have hsame : strings = strings' := by
    rw [← takeWhile_strings hstrings hrest, hbehind, takeWhile_strings hstrings' hrest']
  rw [hsame] at hbehind
  exact List.append_cancel_left hbehind

end NameForm

namespace TokenStream

theorem takeStrings_append {strings rest : List Token} (h : ∀ t ∈ strings, t.kind = .string)
    (hrest : ∀ t ∈ rest.head?, t.kind ≠ .string) (p : Position) :
    (TokenStream.mk (strings ++ rest) p).takeStrings.1 =
      " ".intercalate (strings.map (·.text)) := by
  rw [takeStrings]
  exact congrArg (fun ts => " ".intercalate (ts.map Token.text))
    (NameForm.takeWhile_strings h hrest)

end TokenStream
open TokenStream

theorem exists_nameForm_of_parseName {line name : String} (h : parseName line = .ok name) :
    ∃ ts rest, significant line = ts ++ rest ∧ NameForm ts name ∧
      ∀ t ∈ rest.head?, t.kind ≠ .string := by
  obtain ⟨all, p, last, hof, hsig, hlast, -⟩ := TokenStream.exists_ofText line
  rw [parseName, hof] at h
  obtain ⟨dash, us, rfl, hdash, h⟩ := exists_of_expect_bind h
  obtain ⟨word, us, rfl, hword, h⟩ := exists_of_expect_bind h
  obtain ⟨colon, us, rfl, hcolon, h⟩ := exists_of_expect_bind h
  obtain ⟨first, others, hsplit, hfirst, hname⟩ := exists_of_expect_bind h
  simp only [Expected.accepts, decide_eq_true_eq] at hdash hword hcolon hfirst
  cases hname
  refine ⟨[dash, word, colon] ++ us.takeWhile (·.kind = .string),
    us.dropWhile (·.kind = .string) ++ [last], ?_, .mk ?_ ?_ ?_, ?_⟩
  · simp [hsig, ← List.append_assoc]
  · simp [kinds, hdash, hword, hcolon]
  · rw [hsplit, List.takeWhile_cons_of_pos (by simpa using hfirst)]
    exact List.cons_ne_nil _ _
  · exact fun t ht => of_decide_eq_true (List.all_eq_true.1 List.all_takeWhile t ht)
  · intro t ht
    cases hrest : us.dropWhile (·.kind = .string) with
    | nil =>
      rw [hrest] at ht
      cases ht
      simp [hlast]
    | cons u rest =>
      rw [hrest] at ht
      cases ht
      have hu := List.head?_dropWhile_not (·.kind = .string) us
      simpa [hrest] using hu

/-- A name whose form stands in front is read, whatever comes behind its strings. -/
theorem NameForm.parseName {line name : String} {ts rest : List Token} (hform : NameForm ts name)
    (hsig : significant line = ts ++ rest) (hrest : ∀ t ∈ rest.head?, t.kind ≠ .string) :
    parseName line = .ok name := by
  obtain ⟨all, p, last, hof, hall, hlast, -⟩ := TokenStream.exists_ofText line
  have heq : all ++ [last] = ts ++ rest := hall.symm.trans hsig
  -- the end of the input is no part of the form
  obtain ⟨front, rfl, rfl⟩ : ∃ front, rest = front ++ [last] ∧ all = ts ++ front := by
    rcases List.append_eq_append_iff.1 heq with ⟨mid, rfl, hmid⟩ | ⟨front, rfl, hrest⟩
    · cases mid with
      | nil => exact ⟨[], hmid.symm, by simp⟩
      | cons t mid =>
        have ht : last = t := (List.cons.inj hmid).1
        have hkind := hform.kind_of_mem (t := last) (by simp [ht])
        simp [hlast] at hkind
    · exact ⟨front, hrest, rfl⟩
  obtain @⟨header, strings, hheader, hsome, hstrings⟩ := hform
  obtain ⟨dash, header, rfl, hdash, h⟩ := List.map_eq_cons_iff.1 hheader
  obtain ⟨word, header, rfl, hword, h⟩ := List.map_eq_cons_iff.1 h
  obtain ⟨colon, header, rfl, hcolon, h⟩ := List.map_eq_cons_iff.1 h
  cases List.map_eq_nil_iff.1 h
  obtain ⟨first, others, rfl⟩ := List.exists_cons_of_ne_nil hsome
  have hfront : ∀ t ∈ front.head?, t.kind ≠ .string := by
    intro t ht
    refine hrest t ?_
    rw [List.head?_append, Option.mem_def.1 ht]
    rfl
  rw [SqlComposer.parseName, hof]
  simp only [List.cons_append, List.nil_append]
  rw [expect_bind (by rw [hdash]; rfl), expect_bind (by rw [hword]; rfl),
    expect_bind (by rw [hcolon]; rfl),
    expect_bind (by rw [hstrings first List.mem_cons_self]; rfl)]
  exact congrArg Except.ok (takeStrings_append hstrings hfront p)

theorem parseName_eq_ok_iff (line name : String) : parseName line = .ok name ↔
    ∃ ts rest, significant line = ts ++ rest ∧ NameForm ts name ∧
      ∀ t ∈ rest.head?, t.kind ≠ .string := by
  refine ⟨exists_nameForm_of_parseName, fun h => ?_⟩
  obtain ⟨ts, rest, hsig, hform, hrest⟩ := h
  exact hform.parseName hsig hrest

/-- A line gives a name exactly if the form of a name stands in front of it. Whatever comes behind its
strings is not looked at, so a line gives no more than it should exactly if nothing comes there. -/
theorem parseName_accepts (line : String) :
    (∀ name, parseName line = .ok name ↔
      ∃ ts rest, significant line = ts ++ rest ∧ NameForm ts name ∧
        ∀ t ∈ rest.head?, t.kind ≠ .string) ∧
    (GivesNameAlone line ↔ ∀ ts rest name, significant line = ts ++ rest → NameForm ts name →
      (∀ t ∈ rest.head?, t.kind ≠ .string) → kinds rest = [.endOfInput]) := by
  have hread := parseName_eq_ok_iff line
  refine ⟨hread, fun h ts rest name hsig hform hrest => ?_, fun h name => ?_⟩
  · obtain ⟨ts', last, hsig', hlast, hform'⟩ :=
      (h name).1 ((hread name).2 ⟨ts, rest, hsig, hform, hrest⟩)
    have heq := hform.rest_eq hform' hrest (by simp [hlast]) (hsig.symm.trans hsig')
    simp [heq, kinds, hlast]
  · rw [hread]
    constructor
    · rintro ⟨ts, rest, hsig, hform, hrest⟩
      obtain ⟨last, back, rfl, hlast, hback⟩ :=
        List.map_eq_cons_iff.1 (h ts rest name hsig hform hrest)
      cases List.map_eq_nil_iff.1 hback
      exact ⟨ts, last, hsig, hlast, hform⟩
    · rintro ⟨ts, last, hsig, hlast, hform⟩
      exact ⟨ts, [last], hsig, hform, by simp [hlast]⟩

/-- Behind the strings a line may break off in the middle of a string, or go on with something else. -/
theorem not_givesNameAlone_trailing :
    let unclosed := "- name: \"x\" 'open"
    let longer := "- name: \"x\" y"
    parseName unclosed = .ok "x" ∧ ¬ GivesNameAlone unclosed ∧
    parseName longer = .ok "x" ∧ ¬ GivesNameAlone longer := by
  intro unclosed longer
  have hunclosed : parseName unclosed = .ok "x" := eq_ok_of_toOption (by decide +kernel)
  have hlonger : parseName longer = .ok "x" := eq_ok_of_toOption (by decide +kernel)
  have hname : ∀ line, parseName line = .ok "x" → GivesNameAlone line →
      ∀ t ∈ (significant line).dropLast,
        t.kind ∈ [.punct '-', .keyword .name, .punct ':', .string] := by
    intro line hline h t ht
    obtain ⟨ts, last, hsig, -, hform⟩ := (h "x").1 hline
    rw [hsig, List.dropLast_concat] at ht
    exact hform.kind_of_mem ht
  refine ⟨hunclosed, fun h => ?_, hlonger, fun h => ?_⟩
  · exact absurd (hname unclosed hunclosed h) (by decide +kernel)
  · exact absurd (hname longer hlonger h) (by decide +kernel)

end SqlComposer
