import SqlComposer.Proofs.Directive.Extent
import SqlComposer.Proofs.Token.Insertion

/-! The layout of a directive block does not matter: where gaps are put between its tokens, the block
has the same form as before, and it says the same. -/
namespace SqlComposer
variable {ts us : List Token}

theorem exists_of_meaning {t : Token} (h : us.map Token.meaning = (t :: ts).map Token.meaning) :
    ∃ u rest, us = u :: rest ∧ u.kind = t.kind ∧ (t.kind ≠ .argument → u.text = t.text) ∧
      rest.map Token.meaning = ts.map Token.meaning := by
  obtain ⟨u, rest, rfl, hu, hrest⟩ := List.map_eq_cons_iff.1 h
  obtain ⟨hkind, htext⟩ := Prod.mk.inj hu
  refine ⟨u, rest, rfl, hkind, fun hargument => ?_, hrest⟩
  rw [if_neg (hkind ▸ hargument), if_neg hargument] at htext
  exact Option.some.inj htext

theorem kinds_of_meaning (h : us.map Token.meaning = ts.map Token.meaning) : kinds us = kinds ts := by
  have hfst := congrArg (List.map Prod.fst) h
  rwa [List.map_map, List.map_map] at hfst

theorem forall_kind_of_meaning (h : us.map Token.meaning = ts.map Token.meaning)
    {P : TokenKind → Prop} (hts : ∀ t ∈ ts, P t.kind) : ∀ u ∈ us, P u.kind := by
  intro u hu
  have hkind : u.kind ∈ kinds ts := kinds_of_meaning h ▸ List.mem_map_of_mem hu
  obtain ⟨t, ht, hkind⟩ := List.mem_map.1 hkind
  exact hkind ▸ hts t ht

theorem TokenKind.IsKey.ne_argument {k : TokenKind} (h : k.IsKey) : k ≠ .argument := by
  obtain rfl | ⟨w, rfl⟩ := h <;> simp

theorem Entry.Form.of_meaning {x : Entry} (h : Entry.Form ts x)
    (hm : us.map Token.meaning = ts.map Token.meaning) : Entry.Form us x := by
  cases h with
  | keyword hk hkey =>
    obtain ⟨dash, us, rfl, hdash, -, hm⟩ := exists_of_meaning hm
    obtain ⟨key, us, rfl, hkind, hname, hm⟩ := exists_of_meaning hm
    obtain ⟨colon, us, rfl, hcolon, -, hm⟩ := exists_of_meaning hm
    obtain ⟨value, us, rfl, hvalue, htext, hm⟩ := exists_of_meaning hm
    cases List.map_eq_nil_iff.1 hm
    simp only [kinds, List.map_cons, List.map_nil, List.cons.injEq, and_true] at hk
    obtain ⟨hd, hc, hv⟩ := hk
    rw [← hname hkey.ne_argument, ← htext (by simp [hv])]
    exact .keyword (by simp [kinds, *]) (hkind ▸ hkey)
  | named hk hkey | file hk hkey =>
    obtain ⟨dash, us, rfl, hdash, -, hm⟩ := exists_of_meaning hm
    obtain ⟨key, us, rfl, hkind, hname, hm⟩ := exists_of_meaning hm
    obtain ⟨colon, us, rfl, hcolon, -, hm⟩ := exists_of_meaning hm
    obtain ⟨word, us, rfl, hword, -, hm⟩ := exists_of_meaning hm
    obtain ⟨left, us, rfl, hleft, -, hm⟩ := exists_of_meaning hm
    obtain ⟨target, us, rfl, htarget, htext, hm⟩ := exists_of_meaning hm
    obtain ⟨right, us, rfl, hright, -, hm⟩ := exists_of_meaning hm
    cases List.map_eq_nil_iff.1 hm
    simp only [kinds, List.map_cons, List.map_nil, List.cons.injEq, and_true] at hk
    obtain ⟨hd, hc, hw, hl, ht, hr⟩ := hk
    rw [← hname hkey.ne_argument, ← htext (by simp [ht])]
    constructor
    · simp [kinds, *]
    · exact hkind ▸ hkey

theorem Many.of_meaning {α : Type} {Form : List Token → α → Prop} {as : List α}
    (hform : ∀ {ts us x}, Form ts x → us.map Token.meaning = ts.map Token.meaning → Form us x)
    (h : Many Form ts as) (hm : us.map Token.meaning = ts.map Token.meaning) : Many Form us as := by
  induction h generalizing us with
  | nil =>
    cases List.map_eq_nil_iff.1 hm
    exact .nil
  | cons hx _ ih =>
    rw [List.map_append] at hm
    obtain ⟨front, rest, rfl, hfront, hrest⟩ := List.map_eq_append_iff.1 hm
    exact .cons (hform hx hfront) (ih hrest)

theorem Section.Form.of_meaning {said : List (Environment × Entry)} (h : Section.Form ts said)
    (hm : us.map Token.meaning = ts.map Token.meaning) : Section.Form us said := by
  cases h with
  | environment hk hlines =>
    obtain ⟨left, us, rfl, hleft, -, hm⟩ := exists_of_meaning hm
    obtain ⟨word, us, rfl, hword, -, hm⟩ := exists_of_meaning hm
    obtain ⟨right, us, rfl, hright, -, hm⟩ := exists_of_meaning hm
    refine .environment ?_ (hlines.of_meaning Entry.Form.of_meaning hm)
    rw [← hk]
    simp only [kinds, List.map_cons, List.map_nil, hleft, hword, hright]
  | unknown hl hskips hhead =>
    obtain ⟨left, us, rfl, hleft, -, hm⟩ := exists_of_meaning hm
    refine .unknown (hleft.trans hl) (forall_kind_of_meaning hm hskips) fun u hu hknown => ?_
    obtain ⟨rest, rfl⟩ := List.head?_eq_some_iff.1 hu
    obtain ⟨t, ts, rfl, ht, -, -⟩ := exists_of_meaning hm.symm
    exact hhead t rfl (ht ▸ hknown)

theorem takeStrings_of_meaning (hm : us.map Token.meaning = ts.map Token.meaning) :
    (us.takeWhile (·.kind = .string)).map (·.text) =
      (ts.takeWhile (·.kind = .string)).map (·.text) := by
  induction ts generalizing us with
  | nil =>
    cases List.map_eq_nil_iff.1 hm
    rfl
  | cons t ts ih =>
    obtain ⟨u, us, rfl, hkind, htext, hm⟩ := exists_of_meaning hm
    by_cases hstring : t.kind = .string
    · simp [hkind, hstring, htext (by simp [hstring]), ih hm]
    · simp [hkind, hstring]

theorem describedBy_of_meaning (hm : us.map Token.meaning = ts.map Token.meaning) :
    describedBy us = describedBy ts := by
  match ts with
  | [] =>
    cases List.map_eq_nil_iff.1 hm
    rfl
  | [_] =>
    obtain ⟨dash, us, rfl, -, -, hm⟩ := exists_of_meaning hm
    cases List.map_eq_nil_iff.1 hm
    rfl
  | [_, _] =>
    obtain ⟨dash, us, rfl, -, -, hm⟩ := exists_of_meaning hm
    obtain ⟨word, us, rfl, -, -, hm⟩ := exists_of_meaning hm
    cases List.map_eq_nil_iff.1 hm
    rfl
  | _ :: _ :: _ :: ts =>
    obtain ⟨dash, us, rfl, hdash, -, hm⟩ := exists_of_meaning hm
    obtain ⟨word, us, rfl, hword, -, hm⟩ := exists_of_meaning hm
    obtain ⟨colon, us, rfl, hcolon, -, hm⟩ := exists_of_meaning hm
    simp only [describedBy, kinds, List.map_cons, hdash, hword, hcolon, takeStrings_of_meaning hm]

/-- A block keeps its form where its tokens keep their meaning. -/
theorem Script.Form.of_meaning {description : String} {lines : List (Environment × Entry)}
    (h : Script.Form ts description lines) (hm : us.map Token.meaning = ts.map Token.meaning) :
    Script.Form us description lines := by
  cases h with
  | mk hheader hskips hsections hfooter =>
    rw [List.map_append, List.map_append, List.map_append] at hm
    obtain ⟨us, footer, rfl, hm, hfoot⟩ := List.map_eq_append_iff.1 hm
    obtain ⟨us, sections, rfl, hm, hbody⟩ := List.map_eq_append_iff.1 hm
    obtain ⟨header, skips, rfl, hhead, hpass⟩ := List.map_eq_append_iff.1 hm
    rw [← describedBy_of_meaning hpass]
    exact .mk ((kinds_of_meaning hhead).trans hheader) (forall_kind_of_meaning hpass hskips)
      (hsections.of_meaning Section.Form.of_meaning hbody) ((kinds_of_meaning hfoot).trans hfooter)

section NoFault
variable {description : String} {lines : List (Environment × Entry)}

theorem Entry.Form.no_fault {x : Entry} (h : Entry.Form ts x) :
    ∀ t ∈ ts, ∀ f, t.kind ≠ .fault f := by
  have hkey : ∀ k : TokenKind, k.IsKey → ∀ f, k ≠ .fault f := by
    rintro k (rfl | ⟨w, rfl⟩) f <;> simp
  cases h with
  | keyword hk hk' | named hk hk' | file hk hk' =>
    simp only [kinds, List.map_cons, List.map_nil, List.cons.injEq, and_true] at hk
    have hname := hkey _ hk'
    simp [hk, hname]

theorem Many.forall_mem {α : Type} {Form : List Token → α → Prop} {P : Token → Prop}
    (hform : ∀ {ts x}, Form ts x → ∀ t ∈ ts, P t) {as : List α} (h : Many Form ts as) :
    ∀ t ∈ ts, P t := by
  induction h with
  | nil => simp
  | cons hx _ ih => exact List.forall_mem_append.2 ⟨hform hx, ih⟩

theorem Section.Form.no_fault (h : Section.Form ts lines) : ∀ t ∈ ts, ∀ f, t.kind ≠ .fault f := by
  cases h with
  | environment hk hlines =>
    simp only [kinds, List.map_cons, List.map_nil, List.cons.injEq, and_true] at hk
    have hlines := hlines.forall_mem Entry.Form.no_fault
    simp only [List.forall_mem_cons, hk]
    exact ⟨by simp, by simp, by simp, hlines⟩
  | unknown hl hskips _ =>
    rw [List.forall_mem_cons, hl]
    exact ⟨by simp, fun t ht => (hskips t ht).2.2⟩

/-- Nothing in a block is malformed. -/
theorem Script.Form.no_fault (h : Script.Form ts description lines) :
    ∀ t ∈ ts, ∀ f, t.kind ≠ .fault f := by
  cases h with
  | @mk header skips sections footer parts hheader hskips hsections hfooter =>
    have hfixed : ∀ {us : List Token} {ks : List TokenKind}, kinds us = ks →
        (∀ k ∈ ks, ∀ f, k ≠ .fault f) → ∀ t ∈ us, ∀ f, t.kind ≠ .fault f := by
      rintro us _ rfl hks t ht
      exact hks _ (List.mem_map_of_mem ht)
    simp only [List.forall_mem_append]
    exact ⟨⟨⟨hfixed hheader (by simp), fun t ht => (hskips t ht).2.2⟩,
      hsections.forall_mem Section.Form.no_fault⟩, hfixed hfooter (by simp)⟩

end NoFault

/-- Up to the last token of a block all tokens are settled: none is malformed, the text does not end,
and each comment has more text behind it. -/
theorem Script.Form.settled {text description : String} {front : List Token} {closing : Token}
    {lines : List (Environment × Entry)} (h : Script.Form (front ++ [closing]) description lines)
    (hsig : significant text = front ++ closing :: us) {n : Nat}
    (hn : ((Cursor.ofText text).after n).scan.1.start.offset ≤ closing.start.offset) :
    ∀ i ≤ n, ((Cursor.ofText text).after i).lexeme.Settled := by
  obtain ⟨mark, -, hstand⟩ := Cursor.standsBehind_ofText text
  have hkind := h.kind_closing
  -- the closing bracket is one of the scanned tokens, and the scans up to `n` do not pass it
  have hclosing : closing ∈ significant text := by simp [hsig]
  obtain ⟨m, rfl⟩ := exists_scan_of_mem hclosing
  have hm : ((Cursor.ofText text).after m).scan.1.kind ≠ .endOfInput := by simp [hkind]
  have hnm : n ≤ m := Nat.not_lt.1 fun hlt => Nat.not_le.2 (hstand.start_lt hlt hm) hn
  intro i hi
  have hlexeme : ((Cursor.ofText text).after i).scan.1.kind =
      ((Cursor.ofText text).after i).lexeme.kind := Cursor.kind_scan _
  have hend := Cursor.kind_after_ne_endOfInput (Nat.le_trans hi hnm) hm
  refine ⟨fun f hf => ?_, hlexeme ▸ hend, fun hcomment hnil => ?_⟩
  · rw [← hlexeme] at hf
    have hmem : ((Cursor.ofText text).after i).scan.1 ∈ significant text :=
      List.mem_filter.2 ⟨List.mem_map_of_mem (Cursor.scan_mem_run hend), by simp [hf]⟩
    have hle : ((Cursor.ofText text).after i).scan.1.start.offset ≤
        ((Cursor.ofText text).after m).scan.1.start.offset := by
      obtain rfl | hlt := Nat.eq_or_lt_of_le (Nat.le_trans hi hnm)
      · exact Nat.le_refl _
      · exact Nat.le_of_lt (hstand.start_lt hlt hend)
    exact h.no_fault _ (mem_of_start_le hsig hmem hle) f hf
  -- behind a comment that takes the rest of the text there is no closing bracket
  · have hne : i ≠ m := by
      rintro rfl
      rw [hlexeme, hcomment] at hkind
      cases hkind
    have hrest : ((Cursor.ofText text).after (i+1)).rest = [] := by
      rw [Cursor.after_succ, Cursor.rest_scan]
      exact hnil
    refine Cursor.kind_after_ne_endOfInput (m := i+1) (by omega) hm ?_
    rw [Cursor.scan_of_rest_eq_nil hrest]
    rfl

/-- Layout does not matter. Behind any token up to the closing bracket of a block, a blank with more
blanks, comments that end with their line and closed comments behind it leaves what is read as it is,
as long as none of those comments opens a block. Only behind the bracket that is split out of a `/*`
nothing can be put, since bracket and word together make it no comment. -/
theorem Directives.parse_insert {script : String} {s : Script} {closing : Token}
    (h : Script.ofText script = .ok s) (hc : s.closing = some closing) {n : Nat}
    (hn : ((Cursor.ofText script).after n).scan.1.start.offset ≤ closing.start.offset)
    (hsplit : '/' ∉ (Comment.gap ((Cursor.ofText script).after n).rest).taken)
    {front rest : List Char} (hrest : ((Cursor.ofText script).after (n+1)).rest = rest)
    (htext : script.toList = front ++ rest) {b : Char} (hb : isBlank b = true) {gap : List Char}
    (hgap : Leading gap) :
    parse script = .ok s.directives ∧
      parse (String.ofList (front ++ (b :: gap ++ rest))) = .ok s.directives := by
  obtain ⟨ts, us, description, lines, hsig, hform, hsays⟩ := Script.exists_form_of_ofText h hc
  have hmeaning := Cursor.meaning_significant_insert (hform.settled hsig hn)
    (Comment.isBlank_of_mem_gap hsplit) hrest htext hb hgap
  change (significant _).map _ = (significant script).map _ at hmeaning
  rw [hsig, List.append_cons, List.map_append] at hmeaning
  obtain ⟨block, more, hsig', hblock, -⟩ := List.map_eq_append_iff.1 hmeaning
  obtain ⟨d, hparse, hsays'⟩ := (hform.of_meaning hblock).parse ⟨more, hsig'.symm⟩
  refine ⟨by rw [parse, h]; rfl, ?_⟩
  rw [hparse, hsays'.unique hsays]

/-- A comment through the end of the line, and one that is closed, behind the dash of a line. -/
theorem Directives.parse_insert_behind_dash :
    let front := "/*[sqlmbegin][script][dev]-"
    let rest := "a:\"1\"[sqlmend]*/"
    let script := front ++ rest
    let gap := "-- x\n/*[y]*/"
    ∃ s closing, Script.ofText script = .ok s ∧ s.closing = some closing ∧
      ((Cursor.ofText script).after 9).scan.1.start.offset ≤ closing.start.offset ∧
      '/' ∉ (Comment.gap ((Cursor.ofText script).after 9).rest).taken ∧
      ((Cursor.ofText script).after (9+1)).rest = rest.toList ∧ Leading gap.toList ∧
      parse (front ++ " " ++ gap ++ rest) = .ok s.directives := by
  intro front rest script gap
  have hread : (((Script.ofText script).toOption.bind (·.closing)).any fun closing => decide
      (((Cursor.ofText script).after 9).scan.1.start.offset ≤ closing.start.offset)) = true := by
    decide +kernel
  obtain ⟨closing, hc, hn⟩ := (Option.any_eq_true ..).1 hread
  obtain ⟨s, hs, hc⟩ := Option.bind_eq_some_iff.1 hc
  have h := eq_ok_of_toOption hs
  have hn := of_decide_eq_true hn
  have hsplit : '/' ∉ (Comment.gap ((Cursor.ofText script).after 9).rest).taken := by decide +kernel
  have hrest : ((Cursor.ofText script).after (9+1)).rest = rest.toList := by decide +kernel
  have htext : script.toList = front.toList ++ rest.toList := String.toList_append ..
  have hgap : Leading gap.toList := by
    have hleading : Leading (['-', '-'] ++ (" x".toList ++ '\n' :: '/' :: '*' ::
        ("[y]".toList ++ '*' :: '/' :: []))) :=
      .line (by simp) (by decide) (.block (by decide) (by decide) .nil)
    simpa [gap] using hleading
  have hblank : isBlank ' ' = true := rfl
  have hinsert := parse_insert h hc hn hsplit hrest htext hblank hgap
  have hchanged : String.ofList (front.toList ++ (' ' :: gap.toList ++ rest.toList)) =
      front ++ " " ++ gap ++ rest := by decide +kernel
  rw [hchanged] at hinsert
  exact ⟨s, closing, h, hc, hn, hsplit, hrest, hgap, hinsert.2⟩

end SqlComposer
