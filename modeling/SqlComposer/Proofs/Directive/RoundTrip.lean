import SqlComposer.Proofs.Directive.Acceptance
import SqlComposer.Proofs.Token.Reading

/-! Printed directives are read back: a printed block spells the tokens of a form that says what
the directives do, whatever leads to it and whatever stands behind it. -/
namespace SqlComposer

namespace Source

/-- The word that announces a source. -/
def keyword : Source → Keyword
  | .file _ => .sqlmFile
  | .named _ => .sqlmRef

def target : Source → String
  | .file path => path
  | .named name => name

end Source

namespace Entry

def key : Entry → String
  | .keyword key _ => key
  | .reference r => r.key

/-- The tokens of a line. -/
def words : Entry → List (TokenKind × String)
  | .keyword key value =>
    [(.punct '-', "-"), (wordKind key, key), (.punct ':', ":"), (.string, value)]
  | .reference r =>
    [(.punct '-', "-"), (wordKind r.key, r.key), (.punct ':', ":"),
      (.keyword r.source.keyword, r.source.keyword.spelling), (.punct '(', "("),
      (.string, r.source.target),
      (.punct ')', ")")]

theorem toList_print_keyword (key value : String) (a : List Char) :
    (Entry.keyword key value).print.toList ++ a = '\t' :: '-' :: ' ' :: (key.toList ++
      ':' :: ' ' :: '"' :: (value.toList.flatMap escape ++ '"' :: '\n' :: a)) := by
  simp [print, quote, toString]

theorem toList_print_reference (r : Reference) (a : List Char) :
    (Entry.reference r).print.toList ++ a = '\t' :: '-' :: ' ' :: (r.key.toList ++
      ':' :: ' ' :: (r.source.keyword.spelling.toList ++
        '(' :: '"' :: (r.source.target.toList.flatMap escape ++ '"' :: ')' :: '\n' :: a))) := by
  obtain ⟨key, path | name⟩ := r <;> simp [print, quote, toString, Source.keyword,
    Keyword.spelling, Source.target]

theorem reads {x : Entry} (hx : isWord x.key = true) (a : List Char) :
    Reads (x.print.toList ++ a) x.words a := by
  have hend : Reads ('\n' :: a) [] a := .blank rfl (.done a)
  cases x with
  | keyword key value =>
    rw [toList_print_keyword]
    refine .blank rfl (.dash (.blank rfl (.word hx (by decide) (by decide) (.punct (by simp) ?_))))
    exact .blank rfl (.string value (by decide) hend)
  | reference r =>
    rw [toList_print_reference]
    refine .blank rfl (.dash (.blank rfl (.word hx (by decide) (by decide) (.punct (by simp) ?_))))
    refine .blank rfl (.keyword r.source.keyword (by decide) (by decide) (.punct (by simp) ?_))
    exact .string r.source.target (by decide) (.punct (by simp) hend)

end Entry

theorem isKey_wordKind (w : String) : (wordKind w).IsKey := by
  unfold wordKind
  cases Keyword.ofWord? w with
  | none => exact .inl rfl
  | some k => exact .inr ⟨k, rfl⟩

theorem exists_of_spelling {ts : List Token} {k : TokenKind} {s : String}
    {ws : List (TokenKind × String)} (h : ts.map Token.spelling = (k, s) :: ws) :
    ∃ t us, ts = t :: us ∧ t.kind = k ∧ t.text = s ∧ us.map Token.spelling = ws := by
  obtain ⟨t, us, rfl, ht, hus⟩ := List.map_eq_cons_iff.1 h
  obtain ⟨hk, hs⟩ := Prod.mk.inj ht
  exact ⟨t, us, rfl, hk, hs, hus⟩

theorem kinds_of_spelling {ts : List Token} {ws : List (TokenKind × String)}
    (h : ts.map Token.spelling = ws) : kinds ts = ws.map (·.1) := by
  rw [← h, List.map_map]; rfl

theorem Entry.form_of_words {ts : List Token} {x : Entry} (h : ts.map Token.spelling = x.words) :
    Entry.Form ts x := by
  cases x with
  | keyword key value =>
    obtain ⟨dash, ts, rfl, hdash, -, h⟩ := exists_of_spelling h
    obtain ⟨word, ts, rfl, hword, hkey, h⟩ := exists_of_spelling h
    obtain ⟨colon, ts, rfl, hcolon, -, h⟩ := exists_of_spelling h
    obtain ⟨string, ts, rfl, hstring, htext, h⟩ := exists_of_spelling h
    cases List.map_eq_nil_iff.1 h
    rw [← hkey, ← htext]
    exact .keyword (by simp [kinds, *]) (hword ▸ isKey_wordKind key)
  | reference r =>
    obtain ⟨key, source⟩ := r
    obtain ⟨dash, ts, rfl, hdash, -, h⟩ := exists_of_spelling h
    obtain ⟨word, ts, rfl, hword, hkey, h⟩ := exists_of_spelling h
    obtain ⟨colon, ts, rfl, hcolon, -, h⟩ := exists_of_spelling h
    obtain ⟨announce, ts, rfl, hannounce, -, h⟩ := exists_of_spelling h
    obtain ⟨left, ts, rfl, hleft, -, h⟩ := exists_of_spelling h
    obtain ⟨string, ts, rfl, hstring, htext, h⟩ := exists_of_spelling h
    obtain ⟨right, ts, rfl, hright, -, h⟩ := exists_of_spelling h
    cases List.map_eq_nil_iff.1 h
    have hk : word.kind.IsKey := hword ▸ isKey_wordKind key
    cases source with
    | named name =>
      change word.text = key at hkey
      change string.text = name at htext
      rw [← hkey, ← htext]
      exact .named (by simp [kinds, *]; rfl) hk
    | file path =>
      change word.text = key at hkey
      change string.text = path at htext
      rw [← hkey, ← htext]
      exact .file (by simp [kinds, *]; rfl) hk

theorem Many.of_flatMap {α : Type} {Form : List Token → α → Prop}
    {words : α → List (TokenKind × String)}
    (hform : ∀ ts x, ts.map Token.spelling = words x → Form ts x) {ts : List Token} {as : List α}
    (h : ts.map Token.spelling = as.flatMap words) : Many Form ts as := by
  induction as generalizing ts with
  | nil => cases List.map_eq_nil_iff.1 h; exact .nil
  | cons x as ih =>
    rw [List.flatMap_cons, List.map_eq_append_iff] at h
    obtain ⟨front, rest, rfl, hfront, hrest⟩ := h
    exact .cons (hform front x hfront) (ih hrest)

namespace Block

/-- The tokens of a section; none if there is nothing to say. -/
def words (e : Environment) (b : Block) : List (TokenKind × String) :=
  if b.isEmpty then []
  else (.punct '[', "[") :: (.keyword (.environment e), e.name) :: (.punct ']', "]") ::
    b.entries.flatMap Entry.words

theorem reads {b : Block} (e : Environment) (hb : ∀ x ∈ b.entries, isWord x.key = true)
    (a : List Char) : Reads ((b.print e).toList ++ a) (b.words e) a := by
  unfold print words
  split
  · exact .done a
  · have hl : (s!"[{e.name}]\n" ++ String.join (b.entries.map Entry.print)).toList ++ a =
        '[' :: (e.name.toList ++ ']' :: '\n' :: (b.entries.flatMap (·.print.toList) ++ a)) := by
      simp [toString, List.flatMap_map]
    rw [hl]
    refine .punct (by simp) (.keyword (.environment e) (by decide) (by decide)
      (.punct (by simp) ?_))
    exact .blank rfl (.flatMap (fun x hx a => Entry.reads (hb x hx) a) a)

/-- The tokens of a section have the form of one that gives its lines; without lines there is no
section. -/
theorem exists_form {b : Block} {e : Environment} {ts : List Token}
    (h : ts.map Token.spelling = b.words e) :
    ∃ parts, Many Section.Form ts parts ∧ parts.flatten = b.entries.map (e, ·) := by
  unfold words at h
  split at h
  · rename_i hempty
    cases List.map_eq_nil_iff.1 h
    rw [isEmpty, Bool.and_eq_true, List.isEmpty_iff, List.isEmpty_iff] at hempty
    exact ⟨[], .nil, by rw [entries, hempty.1, hempty.2]; rfl⟩
  · obtain ⟨left, ts, rfl, hl, -, h⟩ := exists_of_spelling h
    obtain ⟨word, ts, rfl, hw, -, h⟩ := exists_of_spelling h
    obtain ⟨right, ts, rfl, hr, -, h⟩ := exists_of_spelling h
    have hform : Section.Form (left :: word :: right :: ts) (b.entries.map (e, ·)) :=
      .environment (by simp [kinds, *]) (.of_flatMap (fun _ _ => Entry.form_of_words) h)
    refine ⟨[b.entries.map (e, ·)], ?_, List.flatten_singleton⟩
    rw [← List.append_nil (left :: _)]
    exact .cons hform .nil

end Block

theorem Many.append {α : Type} {Form : List Token → α → Prop} {ts us : List Token} {as bs : List α}
    (h : Many Form ts as) (h' : Many Form us bs) : Many Form (ts ++ us) (as ++ bs) := by
  induction h with
  | nil => exact h'
  | cons hx _ ih => rw [List.append_assoc]; exact .cons hx ih

namespace Directives
variable (d : Directives)

/-- The lines of all sections. -/
def lines : List (Environment × Entry) :=
  Environment.all.flatMap fun e => (d.block e).entries.map (e, ·)

def headerWords : List (TokenKind × String) :=
  [(.punct '[', "["), (.keyword .sqlmBegin, "sqlmbegin"), (.punct ']', "]"), (.punct '[', "["),
    (.keyword .script, "script"), (.punct ']', "]")]

def descriptionWords : List (TokenKind × String) :=
  [(.punct '-', "-"), (.keyword .description, "description"), (.punct ':', ":"),
    (.string, d.description)]

def footerWords : List (TokenKind × String) :=
  [(.punct '[', "["), (.keyword .sqlmEnd, "sqlmend"), (.punct ']', "]")]

/-- The tokens of a block. -/
def words : List (TokenKind × String) :=
  headerWords ++ (d.descriptionWords ++
    (Environment.all.flatMap (fun e => (d.block e).words e) ++ footerWords))

/-- A printed block, character by character, in front of some text. -/
theorem toList_print (body : List Char) :
    d.print.toList ++ body = '/' :: '*' :: (['\n'] ++ '[' :: ("sqlmbegin".toList ++
      ']' :: '\n' :: '[' :: ("script".toList ++ ']' :: '\n' :: '\t' :: '-' :: ' ' ::
      ("description".toList ++ ':' :: ' ' :: '"' :: (d.description.toList.flatMap escape ++
      '"' :: '\n' :: (Environment.all.flatMap (fun e => ((d.block e).print e).toList) ++
      '[' :: ("sqlmend".toList ++ ']' :: '\n' :: '*' :: '/' :: '\n' :: body))))))) := by
  have happend : ∀ s t u v w : String, (s ++ t ++ u ++ v ++ w).toList =
      s.toList ++ (t.toList ++ (u.toList ++ (v.toList ++ w.toList))) := by
    intro s t u v w
    simp only [String.toList_append, List.append_assoc]
  have hsections : (String.join (Environment.all.map fun e => (d.block e).print e)).toList =
      Environment.all.flatMap fun e => ((d.block e).print e).toList := by
    rw [String.toList_join, List.flatMap_map]
  unfold print
  refine (congrArg (· ++ body) (happend _ _ _ _ _)).trans ?_
  rw [hsections]
  simp [quote]

variable {d}

theorem reads (hd : ∀ e, ∀ x ∈ (d.block e).entries, isWord x.key = true) (body : List Char) :
    Reads (d.print.toList ++ body) d.words ('\n' :: '*' :: '/' :: '\n' :: body) := by
  have hfooter : Reads ('[' :: ("sqlmend".toList ++ ']' :: '\n' :: '*' :: '/' :: '\n' :: body))
      footerWords ('\n' :: '*' :: '/' :: '\n' :: body) :=
    .punct (by simp) (.keyword .sqlmEnd (by decide) (by decide) (.punct (by simp) (.done _)))
  have hsections := (Reads.flatMap (fun e (_ : e ∈ Environment.all) a => Block.reads e (hd e) a)
    _).append hfooter
  rw [toList_print]
  refine .opener (List.forall_mem_singleton.2 rfl) rfl (.punct (by simp) ?_)
  refine .keyword .sqlmBegin (by decide) (by decide) (.punct (by simp) (.blank rfl ?_))
  refine .punct (by simp) (.keyword .script (by decide) (by decide) (.punct (by simp) ?_))
  refine .blank rfl (.blank rfl (.dash (.blank rfl ?_)))
  refine .keyword .description (by decide) (by decide) (.punct (by simp) (.blank rfl ?_))
  exact .string d.description (by decide) (.blank rfl hsections)

theorem exists_parts {es : List Environment} {ts : List Token}
    (h : ts.map Token.spelling = es.flatMap fun e => (d.block e).words e) :
    ∃ parts, Many Section.Form ts parts ∧
      parts.flatten = es.flatMap fun e => (d.block e).entries.map (e, ·) := by
  induction es generalizing ts with
  | nil => cases List.map_eq_nil_iff.1 h; exact ⟨[], .nil, rfl⟩
  | cons e es ih =>
    rw [List.flatMap_cons, List.map_eq_append_iff] at h
    obtain ⟨front, rest, rfl, hfront, hrest⟩ := h
    obtain ⟨parts, hparts, hflatten⟩ := Block.exists_form hfront
    obtain ⟨more, hmore, hflatten'⟩ := ih hrest
    exact ⟨parts ++ more, hparts.append hmore, by
      rw [List.flatten_append, hflatten, hflatten', List.flatMap_cons]⟩

/-- The tokens of a block have the form of one that gives the description and all lines. -/
theorem form_of_words {ts : List Token} (h : ts.map Token.spelling = d.words) :
    Script.Form ts d.description d.lines := by
  obtain ⟨header, ts, rfl, hheader, h⟩ := List.map_eq_append_iff.1 h
  obtain ⟨skips, ts, rfl, hskips, h⟩ := List.map_eq_append_iff.1 h
  obtain ⟨sections, footer, rfl, hsections, hfooter⟩ := List.map_eq_append_iff.1 h
  obtain ⟨dash, ts, rfl, hdash, -, h⟩ := exists_of_spelling hskips
  obtain ⟨word, ts, rfl, hword, -, h⟩ := exists_of_spelling h
  obtain ⟨colon, ts, rfl, hcolon, -, h⟩ := exists_of_spelling h
  obtain ⟨string, ts, rfl, hstring, htext, h⟩ := exists_of_spelling h
  cases List.map_eq_nil_iff.1 h
  obtain ⟨parts, hparts, hflatten⟩ := exists_parts hsections
  have hskip : ∀ t ∈ [dash, word, colon, string], t.kind.IsSkip := by
    simp [TokenKind.IsSkip, hdash, hword, hcolon, hstring]
  have hdescribed : describedBy [dash, word, colon, string] = d.description := by
    rw [describedBy_of_introduces ((introduces_iff _ _ _).2 ⟨hdash, hword, hcolon⟩)]
    simp [hstring, htext]
  have hform := Script.Form.mk (kinds_of_spelling hheader) hskip hparts (kinds_of_spelling hfooter)
  rw [hdescribed, hflatten, List.append_assoc, List.append_assoc] at hform
  exact hform

theorem filterMap_lines {β : Type} (d : Directives) (e : Environment)
    {f : Environment × Entry → Option β} (hf : ∀ e', e' ≠ e → ∀ x, f (e', x) = none) :
    d.lines.filterMap f = (d.block e).entries.filterMap fun x => f (e, x) := by
  have hother : ∀ e', e' ≠ e → ((d.block e').entries.map (e', ·)).filterMap f = [] := by
    intro e' he
    rw [List.filterMap_map, List.filterMap_eq_nil_iff]
    exact fun x _ => hf e' he x
  have hown : ((d.block e).entries.map (e, ·)).filterMap f =
      (d.block e).entries.filterMap fun x => f (e, x) := List.filterMap_map
  rw [lines, List.filterMap_flatMap, ← hown]
  cases e <;> simp [Environment.all, hother, -List.filterMap_map, -List.filterMap_eq_nil_iff]

/-- The lines of all sections say what the directives say, except for the name. -/
theorem says_lines (d : Directives) : { d with name := "" }.Says d.description d.lines := by
  refine ⟨rfl, rfl, fun e key => ?_, fun e => ?_⟩
  · have hother : ∀ e', e' ≠ e → ∀ x, Entry.literalFor? e (e', x) = none := by
      intro e' he x
      cases x <;> simp [Entry.literalFor?, he]
    have hlines : d.lines.filterMap (Entry.literalFor? e) = (d.block e).keywords.entries := by
      rw [filterMap_lines d e hother, Block.entries, List.filterMap_append, List.filterMap_map,
        List.filterMap_map]
      simp [Entry.literalFor?, Function.comp_def]
    rw [hlines, Bindings.lookup_reverse (d.block e).keywords.sorted]
    rfl
  · have hother : ∀ e', e' ≠ e → ∀ x, Entry.referenceFor? e (e', x) = none := by
      intro e' he x
      cases x <;> simp [Entry.referenceFor?, he]
    have hlines : d.lines.filterMap (Entry.referenceFor? e) = (d.block e).references := by
      rw [filterMap_lines d e hother, Block.entries, List.filterMap_append, List.filterMap_map,
        List.filterMap_map]
      simp [Entry.referenceFor?, Function.comp_def]
    rw [hlines]
    rfl

end Directives

theorem Cursor.rest_ofText {text : String} (h : text.toList.head? ≠ some '\ufeff') :
    (ofText text).rest = text.toList := by
  unfold ofText
  split
  · rename_i he
    rw [he] at h
    exact absurd rfl h
  · rfl

theorem Leading.head?_ne {cs a : List Char} (h : Leading cs) (ha : a.head? ≠ some '\ufeff') :
    (cs ++ a).head? ≠ some '\ufeff' := by
  cases h with
  | nil => exact ha
  | blank hc _ =>
    intro he
    cases Option.some.inj he
    exact absurd hc (by decide)
  | line hlead _ _ =>
    simp only [List.mem_cons, List.not_mem_nil, or_false] at hlead
    obtain rfl | rfl | rfl := hlead <;> simp
  | block _ _ _ => simp

/-- Whatever leads to a printed block, and whatever stands behind it, its directives are read back,
without their name. -/
theorem Directives.parse_print (d : Directives) (pre body : String) (hpre : Leading pre.toList)
    (hd : ∀ e, ∀ x ∈ (d.block e).entries, isWord x.key = true) :
    parse (pre ++ d.print ++ body) = .ok { d with name := "" } := by
  have htext : (pre ++ d.print ++ body).toList = pre.toList ++ (d.print.toList ++ body.toList) := by
    rw [String.toList_append, String.toList_append, List.append_assoc]
  have hrest : (Cursor.ofText (pre ++ d.print ++ body)).rest =
      pre.toList ++ (d.print.toList ++ body.toList) := by
    rw [Cursor.rest_ofText, htext]
    rw [htext]
    exact hpre.head?_ne (by rw [toList_print]; simp)
  obtain ⟨c, ts, -, hts, hsig⟩ := hpre.reads (reads hd body.toList) _ hrest
  have hfront : ts <+: significant (pre ++ d.print ++ body) := ⟨_, hsig.symm⟩
  obtain ⟨d', hparse, hsays⟩ := (form_of_words hts).parse hfront
  rw [hparse, hsays.unique d.says_lines]

/-- A block between comments and an open string, with a reserved word for a key. -/
theorem Directives.parse_print_between_comments :
    let b : Block := ⟨⟨[("select", "a\\b")], List.pairwise_singleton ..⟩, [⟨"@t", .file "t.sql"⟩]⟩
    let d : Directives := ⟨"report", "\"all\"\n", (PerEnvironment.const {}).set .production b⟩
    Leading "# report\n/* [x] */ ".toList ∧
      (∀ e, ∀ x ∈ (d.block e).entries, isWord x.key = true) ∧
      parse ("# report\n/* [x] */ " ++ d.print ++ "select 'x") = .ok { d with name := "" } := by
  intro b d
  have hpre : Leading "# report\n/* [x] */ ".toList := by
    have h : Leading (['#'] ++ (" report".toList ++ '\n' :: '/' :: '*' ::
        (" [x] ".toList ++ '*' :: '/' :: ' ' :: []))) :=
      .line (by simp) (by decide) (.block (by decide) (by decide) (.blank rfl .nil))
    simpa using h
  have hd : ∀ e, ∀ x ∈ (d.block e).entries, isWord x.key = true := by
    intro e
    cases e <;> decide
  exact ⟨hpre, hd, parse_print d _ _ hpre hd⟩

end SqlComposer
