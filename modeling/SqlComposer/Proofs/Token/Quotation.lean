import SqlComposer.Proofs.Token.Locality
import SqlComposer.Proofs.Token.Tiling

/-! What quoted text says. It is written in pieces of one or two characters, each of which gives one
character, up to a delimiter that is not doubled. Whatever pieces a value is written in, it is what a
scan finds. -/
namespace SqlComposer
namespace Quoted
variable {quote : Char} {cs written text rest : List Char}

/-- What becomes of a character behind a backslash, where that is not the character itself. -/
def escapes : List (Char × Char) :=
  [('0', '\x00'), ('b', '\x08'), ('n', '\n'), ('r', '\r'), ('t', '\t'), ('Z', '\x1a')]

theorem unescape_eq (c : Char) : unescape c = (escapes.lookup c).getD c := by
  unfold unescape
  split
  case h_7 h₀ hb hn hr ht hZ =>
    have hlookup : escapes.lookup c = none := by
      simpa [escapes, List.lookup_eq_none_iff] using ⟨h₀, hb, hn, hr, ht, hZ⟩
    rw [hlookup]
    rfl
  all_goals rfl

/-- A piece of a string, and the character that it gives. -/
inductive StringPiece (quote : Char) : List Char → Char → Prop
  | plain {c : Char} : c ≠ quote → c ≠ '\\' → StringPiece quote [c] c
  | escaped (c : Char) : StringPiece quote ['\\', c] ((escapes.lookup c).getD c)
  | doubled : StringPiece quote [quote, quote] quote

/-- A piece of an identifier between back-ticks; a backslash is nothing special. -/
inductive NamePiece : List Char → Char → Prop
  | plain {c : Char} : c ≠ '`' → NamePiece [c] c
  | doubled : NamePiece ['`', '`'] '`'

/-- The pieces in which a text is written, one behind the other. -/
inductive Spells (piece : List Char → Char → Prop) : List Char → List Char → Prop
  | nil : Spells piece [] []
  | cons {part : List Char} {c : Char} {written text : List Char} : piece part c →
      Spells piece written text → Spells piece (part ++ written) (c :: text)

/-- A text goes on with the pieces of another, then the delimiter, and then `rest`; the delimiter is
not the first half of a doubled one. -/
structure Closed (piece : List Char → Char → Prop) (quote : Char)
    (cs written text rest : List Char) : Prop where
  spells : Spells piece written text
  split : cs = written ++ quote :: rest
  single : rest.head? ≠ some quote

theorem string_cons (hq : quote ≠ '\\') {part : List Char} {c : Char}
    (hp : StringPiece quote part c) (cs : List Char) :
    string quote (part ++ cs) = (string quote cs).cons c part := by
  cases hp with
  | plain hne hb => exact string_plain hne hb cs
  | escaped d => rw [← unescape_eq]; exact string_backslash
  | doubled =>
    rw [List.cons_append, List.singleton_append, string, if_pos rfl, if_pos rfl]
    exact hq

theorem string_of_closed (hq : quote ≠ '\\')
    (h : Closed (StringPiece quote) quote cs written text rest) :
    string quote cs = ⟨text, ⟨written ++ [quote], rest⟩, true⟩ := by
  obtain ⟨hspells, rfl, hsingle⟩ := h
  induction hspells with
  | nil => exact string_end hq fun c hc he => hsingle (he ▸ hc)
  | cons hp _ ih =>
    rw [List.append_assoc, string_cons hq hp, ih]
    simp [Body.cons]

theorem identifier_cons {part : List Char} {c : Char} (hp : NamePiece part c) (cs : List Char) :
    identifier (part ++ cs) = (identifier cs).cons c part := by
  cases hp with
  | plain hne =>
    rw [List.singleton_append, identifier]
    all_goals
      intros
      exact absurd ‹_› hne
  | doubled => rfl

theorem identifier_of_closed (h : Closed NamePiece '`' cs written text rest) :
    identifier cs = ⟨text, ⟨written ++ ['`'], rest⟩, true⟩ := by
  obtain ⟨hspells, rfl, hsingle⟩ := h
  induction hspells with
  | nil => exact identifier_end fun c hc he => hsingle (he ▸ hc)
  | cons hp _ ih =>
    rw [List.append_assoc, identifier_cons hp, ih]
    simp [Body.cons]

theorem Closed.cons {piece : List Char → Char → Prop} {part : List Char} {c : Char}
    (hp : piece part c) (h : Closed piece quote cs written text rest) :
    Closed piece quote (part ++ cs) (part ++ written) (c :: text) rest where
  spells := .cons hp h.spells
  split := by rw [h.split, List.append_assoc]
  single := h.single

/-- What is read as closed is closed. -/
theorem exists_closed_of_string (h : (string quote cs).closed = true) :
    ∃ written text rest, Closed (StringPiece quote) quote cs written text rest := by
  fun_induction string quote cs with
  | case1 | case2 | case5 => cases h
  | case3 c cs ih =>
    obtain ⟨_, _, _, hcs⟩ := ih h
    exact ⟨_, _, _, hcs.cons (.escaped c)⟩
  | case4 => exact ⟨_, _, _, .nil, rfl, by simp⟩
  | case6 cs _ ih =>
    obtain ⟨_, _, _, hcs⟩ := ih h
    exact ⟨_, _, _, hcs.cons .doubled⟩
  | case7 d cs hd => exact ⟨_, _, _, .nil, rfl, by simpa using hd⟩
  | case8 c d cs hb hc ih =>
    obtain ⟨_, _, _, hcs⟩ := ih h
    exact ⟨_, _, _, hcs.cons (.plain hc hb)⟩

theorem exists_closed_of_identifier (h : (identifier cs).closed = true) :
    ∃ written text rest, Closed NamePiece '`' cs written text rest := by
  fun_induction identifier cs with
  | case1 => cases h
  | case2 => exact ⟨_, _, _, .nil, rfl, by simp⟩
  | case3 cs ih =>
    obtain ⟨_, _, _, hcs⟩ := ih h
    exact ⟨_, _, _, hcs.cons .doubled⟩
  | case4 c cs hc => exact ⟨_, _, _, .nil, rfl, by simpa using hc⟩
  | case5 c cs h₁ h₂ h₃ ih =>
    obtain ⟨_, _, _, hcs⟩ := ih h
    refine ⟨_, _, _, hcs.cons (.plain ?_)⟩
    rintro rfl
    cases cs with
    | nil => exact h₁ rfl rfl
    | cons d cs => exact h₃ d cs rfl rfl

theorem rest_of_unclosed_string (h : (string quote cs).closed = false) :
    (string quote cs).cut.rest = [] := by
  fun_induction string quote cs with
  | case1 | case2 | case5 => rfl
  | case4 | case7 => cases h
  | case3 _ _ ih | case6 _ _ ih | case8 _ _ _ _ _ ih => exact ih h

theorem rest_of_unclosed_identifier (h : (identifier cs).closed = false) :
    (identifier cs).cut.rest = [] := by
  fun_induction identifier cs with
  | case1 => rfl
  | case2 | case4 => cases h
  | case3 _ ih | case5 _ _ _ _ _ ih => exact ih h

/-- Every text can be written between quotation marks. -/
theorem exists_spelling (quote : Char) (text : List Char) :
    ∃ written, Spells (StringPiece quote) written text := by
  induction text with
  | nil => exact ⟨_, .nil⟩
  | cons c text ih =>
    obtain ⟨written, hwritten⟩ := ih
    by_cases hq : c = quote
    · subst hq
      exact ⟨_, .cons .doubled hwritten⟩
    · by_cases hb : c = '\\'
      · subst hb
        exact ⟨_, .cons (.escaped '\\') hwritten⟩
      · exact ⟨_, .cons (.plain hq hb) hwritten⟩

end Quoted

namespace Lexeme
variable {quote : Char} {cs written text rest : List Char}

theorem ofText_quote (h : quote ∈ ['\'', '"']) (cs : List Char) :
    ofText (quote :: cs) = string quote cs := by
  simp only [List.mem_cons, List.not_mem_nil, or_false] at h
  obtain rfl | rfl := h <;> rfl

theorem ofText_closed_string (hq : quote ∈ ['\'', '"'])
    (h : Quoted.Closed (Quoted.StringPiece quote) quote cs written text rest) :
    ofText (quote :: cs) = ⟨.string, text, ⟨quote :: (written ++ [quote]), rest⟩⟩ := by
  have hb : quote ≠ '\\' := by
    rintro rfl
    exact absurd hq (by decide)
  rw [ofText_quote hq, string, Quoted.string_of_closed hb h]
  rfl

theorem ofText_closed_identifier (h : Quoted.Closed Quoted.NamePiece '`' cs written text rest) :
    ofText ('`' :: cs) =
      ⟨if text = [] then .fault .emptyIdentifier else .identifier, text,
        ⟨'`' :: (written ++ ['`']), rest⟩⟩ := by
  change quotedIdentifier cs = _
  rw [quotedIdentifier, Quoted.identifier_of_closed h]
  simp [Cut.cons]

end Lexeme

namespace Cursor
variable {c : Cursor} {kind : TokenKind} {text taken rest : List Char}

/-- A scan finds a token of some kind that says `text`, written as `taken` right before `rest`. -/
structure Finds (c : Cursor) (kind : TokenKind) (text taken rest : List Char) : Prop where
  kind : c.scan.1.kind = kind
  text : c.scan.1.text = String.ofList text
  behind : c.scan.2.position = c.scan.1.start.advanceOver taken
  rest : c.scan.2.rest = rest

theorem finds_of_lexeme (hkind : kind ≠ .argument)
    (h : Lexeme.ofText (Comment.gap c.rest).rest = ⟨kind, text, ⟨taken, rest⟩⟩) :
    c.Finds kind text taken rest where
  kind := by rw [kind_scan, h]
  text := by rw [text_scan (by rw [kind_scan, h]; exact hkind), h]
  behind := by rw [position_scan, h]
  rest := by rw [rest_scan, h]

/-- A text that is one token has no others. -/
theorem tokenize_of_finds {t : String} (hplace : (ofText t).position = {})
    (hgap : Comment.gap (ofText t).rest = .nothing (ofText t).rest)
    (h : (ofText t).Finds kind text taken []) (hend : kind ≠ .endOfInput)
    (hfault : ∀ f, kind ≠ .fault f) : tokenize t = .ok [⟨kind, String.ofList text, {}⟩] := by
  have htoken : (ofText t).scan.1 = ⟨kind, String.ofList text, {}⟩ := by
    have hstart : (ofText t).scan.1.start = {} := by
      rw [start_scan, hgap, hplace]
      rfl
    rw [← h.kind, ← h.text, ← hstart]
  have hrun : (ofText t).run = [(ofText t).scan, (ofText t).scan.2.scan] := by
    rw [run, if_neg (by rw [h.kind]; exact hend), run, if_pos]
    rw [scan_of_rest_eq_nil h.rest]
    rfl
  have htokens : (Token.ofText t).dropLast = [⟨kind, String.ofList text, {}⟩] := by
    rw [Token.ofText, hrun, ← htoken]
    rfl
  have hchecked : Token.checked ⟨kind, String.ofList text, {}⟩ =
      .ok ⟨kind, String.ofList text, {}⟩ := Token.checked_of_no_fault hfault
  change (Token.ofText t).dropLast.mapM Token.checked = _
  rw [htokens, List.mapM_cons, hchecked]
  rfl

end Cursor

open Quoted in
theorem tokenize_string {quote : Char} (hq : quote ∈ ['\'', '"']) {written text : List Char}
    (h : Spells (StringPiece quote) written text) :
    tokenize (String.ofList (quote :: (written ++ [quote]))) =
      .ok [⟨.string, String.ofList text, {}⟩] := by
  have hstart : Cursor.ofText (String.ofList (quote :: (written ++ [quote]))) =
      { rest := quote :: (written ++ [quote]) } := by
    rw [Cursor.ofText, String.toList_ofList]
    simp only [List.mem_cons, List.not_mem_nil, or_false] at hq
    obtain rfl | rfl := hq <;> rfl
  have hgap : Comment.gap (quote :: (written ++ [quote])) =
      .nothing (quote :: (written ++ [quote])) := by
    simp only [List.mem_cons, List.not_mem_nil, or_false] at hq
    obtain rfl | rfl := hq <;> exact Comment.gap_eq_nothing rfl (by decide)
  have hfinds : (Cursor.ofText (String.ofList (quote :: (written ++ [quote])))).Finds .string text
      (quote :: (written ++ [quote])) [] := by
    refine Cursor.finds_of_lexeme (by simp) ?_
    rw [hstart, hgap]
    exact Lexeme.ofText_closed_string hq ⟨h, rfl, by simp⟩
  exact Cursor.tokenize_of_finds (by rw [hstart]) (by rw [hstart, hgap]) hfinds (by simp) (by simp)

open Quoted in
/-- Where a scan starts at a quotation mark, it finds the string whose pieces stand there, through
the mark that closes it, or nothing but a fault if none does. Where it starts at a back-tick, it finds
the identifier whose pieces stand there, unless there are none, or again a fault. So a string is what
it says, whichever way it is written. -/
theorem scan_quoted (c : Cursor) :
    (∀ quote ∈ ['\'', '"'], ∀ cs, (Comment.gap c.rest).rest = quote :: cs →
      (∀ written text rest, Closed (StringPiece quote) quote cs written text rest →
        c.Finds .string text (quote :: (written ++ [quote])) rest) ∧
      ((¬ ∃ written text rest, Closed (StringPiece quote) quote cs written text rest) →
        c.scan.1.kind = .fault .unterminatedString ∧ c.scan.2.rest = [])) ∧
    (∀ cs, (Comment.gap c.rest).rest = '`' :: cs →
      (∀ written text rest, Closed NamePiece '`' cs written text rest →
        c.Finds (if text = [] then .fault .emptyIdentifier else .identifier) text
          ('`' :: (written ++ ['`'])) rest) ∧
      ((¬ ∃ written text rest, Closed NamePiece '`' cs written text rest) →
        c.scan.1.kind = .fault .unterminatedIdentifier ∧ c.scan.2.rest = [])) ∧
    ∀ quote ∈ ['\'', '"'], ∀ text, (∃ written, Spells (StringPiece quote) written text) ∧
      ∀ written, Spells (StringPiece quote) written text →
        tokenize (String.ofList (quote :: (written ++ [quote]))) =
          .ok [⟨.string, String.ofList text, {}⟩] := by
  refine ⟨fun quote hq cs hcs => ⟨fun written text rest h => ?_, fun h => ?_⟩, fun cs hcs =>
    ⟨fun written text rest h => ?_, fun h => ?_⟩, fun quote hq text =>
    ⟨exists_spelling quote text, fun written h => ?_⟩⟩
  · refine Cursor.finds_of_lexeme (by simp) ?_
    rw [hcs]
    exact Lexeme.ofText_closed_string hq h
  · have hopen : (string quote cs).closed = false :=
      Bool.eq_false_iff.2 fun hclosed => h (exists_closed_of_string hclosed)
    rw [Cursor.kind_scan, Cursor.rest_scan, hcs, Lexeme.ofText_quote hq, Lexeme.string]
    exact ⟨by simp [hopen], rest_of_unclosed_string hopen⟩
  · refine Cursor.finds_of_lexeme (by split <;> simp) ?_
    rw [hcs]
    exact Lexeme.ofText_closed_identifier h
  · have hopen : (identifier cs).closed = false :=
      Bool.eq_false_iff.2 fun hclosed => h (exists_closed_of_identifier hclosed)
    rw [Cursor.kind_scan, Cursor.rest_scan, hcs]
    change (Lexeme.quotedIdentifier cs).kind = _ ∧ (Lexeme.quotedIdentifier cs).cut.rest = _
    rw [Lexeme.quotedIdentifier]
    exact ⟨by simp [hopen], rest_of_unclosed_identifier hopen⟩
  · exact tokenize_string hq h

end SqlComposer
