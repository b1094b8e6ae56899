import Mathlib.Algebra.GroupWithZero.Nat
import Mathlib.Algebra.Order.BigOperators.Group.List
import Mathlib.Algebra.Order.Group.Nat
import SqlComposer.Proofs.Directive.RoundTrip

/-! Which directives are read back when they are printed: those whose keys are words, and no
others. A key that is no word is read from between back-ticks alone, and back-ticks are what
printing does not write: a text that gives the key takes more of them than a printed one has. -/
namespace SqlComposer

def backTicks (cs : List Char) : Nat := cs.count '`'

/-- How many back-ticks it takes to have a key read: around a key that is no word, and twice for
each one in it. -/
def keyCost (key : String) : Nat := if isWord key then 0 else 2 * backTicks key.toList + 2

def spellingCost : TokenKind → String → Nat
  | .string, text => backTicks text.toList
  | .identifier, text => keyCost text
  | .keyword _, text => keyCost text
  | _, _ => 0

def Token.cost (t : Token) : Nat := spellingCost t.kind t.text

@[simp] theorem backTicks_nil : backTicks [] = 0 := rfl

@[simp] theorem backTicks_append (xs ys : List Char) :
    backTicks (xs ++ ys) = backTicks xs + backTicks ys := List.count_append

@[simp] theorem backTicks_cons (c : Char) (cs : List Char) :
    backTicks (c :: cs) = (if c = '`' then 1 else 0) + backTicks cs := by
  rw [backTicks, List.count_cons, Nat.add_comm]
  simp [backTicks]

theorem backTicks_of_isWord {key : String} (h : isWord key = true) : backTicks key.toList = 0 := by
  obtain ⟨c, cs, he, -, hpart⟩ := (isWord_iff key).1 h
  refine List.count_eq_zero.2 fun hmem => ?_
  rw [he] at hmem
  exact absurd (hpart _ hmem) (by decide)

theorem keyCost_of_isWord {key : String} (h : isWord key = true) : keyCost key = 0 := if_pos h

/-- To have a key read takes at least as many back-ticks as it has, and more if it is no word. -/
theorem backTicks_le_keyCost (key : String) :
    backTicks key.toList ≤ keyCost key ∧
      (isWord key = false → backTicks key.toList < keyCost key) := by
  cases h : isWord key with
  | true => exact ⟨by rw [backTicks_of_isWord h]; exact Nat.zero_le _, by simp⟩
  | false =>
    have hcost : keyCost key = 2 * backTicks key.toList + 2 := if_neg (by simp [h])
    omega

namespace Quoted

theorem unescape_eq_backTick_iff (c : Char) : unescape c = '`' ↔ c = '`' := by
  unfold unescape
  split <;> simp

theorem backTicks_body_cons (c : Char) (written : List Char) (b : Body) :
    backTicks (b.cons c written).text = (if c = '`' then 1 else 0) + backTicks b.text ∧
      backTicks (b.cons c written).cut.taken = backTicks written + backTicks b.cut.taken :=
  ⟨backTicks_cons .., backTicks_append ..⟩

theorem backTicks_body_cons_le {c : Char} {written : List Char} {b : Body}
    (hc : c = '`' → '`' ∈ written) (hb : backTicks b.text ≤ backTicks b.cut.taken) :
    backTicks (b.cons c written).text ≤ backTicks (b.cons c written).cut.taken := by
  obtain ⟨htext, htaken⟩ := backTicks_body_cons c written b
  rw [htext, htaken]
  split
  · have hpos : 0 < backTicks written := List.count_pos_iff.2 (hc ‹_›)
    omega
  · omega

/-- A string has no more back-ticks than the way it is written. -/
theorem backTicks_string (quote : Char) (cs : List Char) :
    backTicks (string quote cs).text ≤ backTicks (string quote cs).cut.taken := by
  fun_induction string quote cs with
  | case1 | case2 | case4 | case7 => exact Nat.zero_le _
  | case3 c cs ih =>
    refine backTicks_body_cons_le (fun hc => ?_) ih
    rw [(unescape_eq_backTick_iff c).1 hc]
    simp
  | case5 c hc => exact backTicks_body_cons_le (by simp +contextual) (Nat.zero_le _)
  | case6 cs _ ih => exact backTicks_body_cons_le (by simp +contextual) ih
  | case8 c d cs _ _ ih => exact backTicks_body_cons_le (by simp +contextual) ih

/-- An identifier between back-ticks has its own ones written twice. -/
theorem backTicks_identifier {cs : List Char} (h : (identifier cs).closed = true) :
    backTicks (identifier cs).cut.taken = 2 * backTicks (identifier cs).text + 1 := by
  fun_induction identifier cs with
  | case1 => cases h
  | case2 | case4 => rfl
  | case3 cs ih =>
    obtain ⟨htext, htaken⟩ := backTicks_body_cons '`' ['`', '`'] (identifier cs)
    have hwritten : backTicks ['`', '`'] = 2 := rfl
    rw [htext, htaken, ih h, if_pos rfl]
    omega
  | case5 c cs hend hdouble hclose ih =>
    -- a back-tick would have closed the identifier, or have been one of two
    have hc : c ≠ '`' := by
      rintro rfl
      cases cs with
      | nil => exact hend rfl rfl
      | cons d cs => exact hclose d cs rfl rfl
    obtain ⟨htext, htaken⟩ := backTicks_body_cons c [c] (identifier cs)
    have hwritten : backTicks [c] = 0 := by rw [backTicks_cons, if_neg hc]; rfl
    rw [htext, htaken, ih h, if_neg hc, hwritten]
    omega

end Quoted

namespace Lexeme

/-- What starts like a word takes no back-ticks. -/
theorem cost_wordLike {cs : List Char} (h : cs.head?.any isLetter = true) :
    spellingCost (wordLike cs).kind (String.ofList (wordLike cs).text) = 0 := by
  obtain hw | hkind := kind_wordLike_cases cs
  · obtain ⟨c, cs, rfl⟩ : ∃ c rest, cs = c :: rest := by
      cases cs with
      | nil => cases h
      | cons c cs => exact ⟨c, cs, rfl⟩
    have hc : isLetter c = true := h
    have hpart : isWordPart c = true := by simp [isWordPart, hc]
    have hword : isWord (String.ofList (Cut.span isWordPart (c :: cs)).taken) = true := by
      simp [isWord, Cut.span, hpart, hc]
    rw [hw, word, raw]
    cases Keyword.ofWord? (String.ofList (Cut.span isWordPart (c :: cs)).taken) <;>
      exact keyCost_of_isWord hword
  · simp only [List.mem_cons, List.not_mem_nil, or_false] at hkind
    obtain hkind | hkind | hkind | hkind := hkind <;> rw [hkind] <;> rfl

theorem cost_number (cs : List Char) :
    spellingCost (number cs).kind (String.ofList (number cs).text) = 0 := by
  have hkind := kind_number_cases cs
  simp only [List.mem_cons, List.not_mem_nil, or_false] at hkind
  obtain hkind | hkind | hkind | hkind := hkind <;> rw [hkind] <;> rfl

theorem cost_string (quote : Char) (cs : List Char) :
    spellingCost (string quote cs).kind (String.ofList (string quote cs).text) ≤
      backTicks (string quote cs).cut.taken := by
  have hbody := Quoted.backTicks_string quote cs
  unfold string
  dsimp only
  split
  · rw [spellingCost, String.toList_ofList, Cut.cons, backTicks_cons]
    omega
  · exact Nat.zero_le _

theorem cost_quotedIdentifier (cs : List Char) :
    spellingCost (quotedIdentifier cs).kind (String.ofList (quotedIdentifier cs).text) ≤
      backTicks (quotedIdentifier cs).cut.taken := by
  unfold quotedIdentifier
  dsimp only
  split
  · exact Nat.zero_le _
  · rename_i hclosed
    have hbody := Quoted.backTicks_identifier (by simpa using hclosed)
    split
    · exact Nat.zero_le _
    · rw [spellingCost, Cut.cons, backTicks_cons, hbody, if_pos rfl]
      unfold keyCost
      rw [String.toList_ofList]
      split <;> omega

theorem cost_blockComment (cs : List Char) :
    spellingCost (blockComment cs).kind (String.ofList (blockComment cs).text) = 0 := by
  unfold blockComment
  split <;> rfl

theorem cost_single (c : Char) (cs : List Char) :
    spellingCost (single c cs).kind (String.ofList (single c cs).text) = 0 := by
  unfold single raw
  dsimp only
  split <;> rfl

theorem cost_symbol (cs : List Char) :
    spellingCost (symbol cs).kind (String.ofList (symbol cs).text) ≤
      backTicks (symbol cs).cut.taken := by
  unfold symbol
  split
  case h_5 => rw [cost_blockComment]; exact Nat.zero_le _
  case h_6 | h_7 => exact cost_string _ _
  case h_8 => exact cost_quotedIdentifier _
  case h_19 => rw [cost_single]; exact Nat.zero_le _
  -- the other kinds of lexemes take no back-ticks
  all_goals exact Nat.zero_le _

/-- No lexeme takes more back-ticks than the text it covers has. -/
theorem cost_ofText (cs : List Char) :
    spellingCost (ofText cs).kind (String.ofList (ofText cs).text) ≤
      backTicks (ofText cs).cut.taken := by
  unfold ofText
  split
  · rw [cost_wordLike ‹_›]
    exact Nat.zero_le _
  · split
    · rw [cost_number]
      exact Nat.zero_le _
    · exact cost_symbol cs

end Lexeme

namespace Cursor

theorem cost_scan (c : Cursor) :
    c.scan.1.cost + backTicks c.scan.2.rest ≤ backTicks c.rest := by
  have hwhole := congrArg backTicks (gap_append_token_append_rest c)
  rw [backTicks_append, backTicks_append] at hwhole
  have hcost : c.scan.1.cost ≤ backTicks (Lexeme.ofText (Comment.gap c.rest).rest).cut.taken := by
    rw [Token.cost]
    by_cases h : c.scan.1.kind = .argument
    · rw [h]
      exact Nat.zero_le _
    · rw [text_scan h, kind_scan]
      exact Lexeme.cost_ofText _
  omega

/-- The tokens of a text take no more back-ticks than it has. -/
theorem cost_significant (c : Cursor) :
    (c.significant.map Token.cost).sum ≤ backTicks c.rest := by
  have hrun : ((c.run.map (·.1)).map Token.cost).sum ≤ backTicks c.rest := by
    fun_induction run c with
    | case1 c h =>
      have hcost := cost_scan c
      simp only [List.map_cons, List.map_nil, List.sum_cons, List.sum_nil]
      omega
    | case2 c h ih =>
      have hcost := cost_scan c
      simp only [List.map_cons, List.sum_cons]
      omega
  exact ((List.filter_sublist.map _).sum_le_sum (by simp)).trans hrun

end Cursor

namespace Entry

/-- What a line gives for its key: the value, or where the script is found. -/
def text : Entry → String
  | .keyword _ value => value
  | .reference r => r.source.target

def cost (x : Entry) : Nat := keyCost x.key + backTicks x.text.toList

/-- How many back-ticks a line is printed with. -/
def printed (x : Entry) : Nat := backTicks x.key.toList + backTicks x.text.toList

end Entry

section Forms
variable {ts : List Token}

def totalCost (ts : List Token) : Nat := (ts.map Token.cost).sum

def linesCost (lines : List (Environment × Entry)) : Nat := (lines.map (·.2.cost)).sum

theorem totalCost_cons (t : Token) (ts : List Token) :
    totalCost (t :: ts) = t.cost + totalCost ts := by
  rw [totalCost, List.map_cons, List.sum_cons, totalCost]

theorem totalCost_append (ts us : List Token) :
    totalCost (ts ++ us) = totalCost ts + totalCost us := by
  rw [totalCost, List.map_append, List.sum_append, totalCost, totalCost]

theorem linesCost_append (xs ys : List (Environment × Entry)) :
    linesCost (xs ++ ys) = linesCost xs + linesCost ys := by
  rw [linesCost, List.map_append, List.sum_append, linesCost, linesCost]

theorem cost_of_isKey {t : Token} (h : t.kind.IsKey) : t.cost = keyCost t.text := by
  rw [Token.cost]
  obtain h | ⟨w, h⟩ := h <;> rw [h] <;> rfl

theorem cost_of_string {t : Token} (h : t.kind = .string) : t.cost = backTicks t.text.toList := by
  rw [Token.cost, h]
  rfl

theorem Entry.Form.cost_le {x : Entry} (h : Entry.Form ts x) : x.cost ≤ totalCost ts := by
  cases h with
  | keyword hk hkey =>
    simp only [kinds, List.map_cons, List.map_nil, List.cons.injEq, and_true] at hk
    obtain ⟨-, -, hv⟩ := hk
    simp only [totalCost_cons, Entry.cost, Entry.key, Entry.text, cost_of_isKey hkey,
      cost_of_string hv]
    omega
  | named hk hkey | file hk hkey =>
    simp only [kinds, List.map_cons, List.map_nil, List.cons.injEq, and_true] at hk
    obtain ⟨-, -, -, -, ht, -⟩ := hk
    simp only [totalCost_cons, Entry.cost, Entry.key, Entry.text, Source.target,
      cost_of_isKey hkey, cost_of_string ht]
    omega

theorem Many.cost_le {α : Type} {Form : List Token → α → Prop} {f : α → Nat} {as : List α}
    (hform : ∀ ts x, Form ts x → f x ≤ totalCost ts) (h : Many Form ts as) :
    (as.map f).sum ≤ totalCost ts := by
  induction h with
  | nil => exact Nat.zero_le _
  | @cons ts us x as hx _ ih =>
    have hle := hform ts x hx
    rw [List.map_cons, List.sum_cons, totalCost_append]
    omega

theorem Section.Form.cost_le {lines : List (Environment × Entry)} (h : Section.Form ts lines) :
    linesCost lines ≤ totalCost ts := by
  cases h with
  | @environment left word right e ts es _ hmany =>
    have hle : (es.map Entry.cost).sum ≤ totalCost ts :=
      Many.cost_le (fun _ _ => Entry.Form.cost_le) hmany
    have hlines : linesCost (es.map (e, ·)) = (es.map Entry.cost).sum := by
      rw [linesCost, List.map_map]
      rfl
    simp only [hlines, totalCost_cons]
    omega
  | unknown => exact Nat.zero_le _

theorem backTicks_intercalate (xs : List String) :
    backTicks (" ".intercalate xs).toList = (xs.map fun s => backTicks s.toList).sum := by
  have hlist : ∀ xs : List (List Char), backTicks ([' '].intercalate xs) = (xs.map backTicks).sum := by
    intro xs
    induction xs with
    | nil => rfl
    | cons x xs ih =>
      cases xs with
      | nil => simp [List.intercalate]
      | cons y ys =>
        rw [List.intercalate_cons_cons, backTicks_append, backTicks_append, ih, List.map_cons,
          List.sum_cons]
        rfl
  rw [String.toList_intercalate]
  exact (hlist _).trans (by rw [List.map_map]; rfl)

theorem backTicks_describedBy (ts : List Token) :
    backTicks (describedBy ts).toList ≤ totalCost ts := by
  unfold describedBy
  split
  · rename_i dash word colon ts
    split
    · have hstrings : ((ts.takeWhile (·.kind = .string)).map fun t => backTicks t.text.toList) =
          (ts.takeWhile (·.kind = .string)).map Token.cost := by
        refine List.map_congr_left fun t ht => (cost_of_string ?_).symm
        exact of_decide_eq_true (List.all_eq_true.1 List.all_takeWhile t ht)
      have hle : ((ts.takeWhile (·.kind = .string)).map Token.cost).sum ≤ totalCost ts :=
        ((List.takeWhile_sublist _).map _).sum_le_sum (by simp)
      rw [backTicks_intercalate, List.map_map]
      simp only [totalCost_cons]
      change (List.map (fun t : Token => backTicks t.text.toList) _).sum ≤ _
      rw [hstrings]
      omega
    · exact Nat.zero_le _
  · exact Nat.zero_le _

theorem Script.Form.cost_le {description : String} {lines : List (Environment × Entry)}
    (h : Script.Form ts description lines) :
    backTicks description.toList + linesCost lines ≤ totalCost ts := by
  obtain @⟨header, skips, body, footer, parts, -, -, hbody, -⟩ := h
  have hparts : (parts.map linesCost).sum ≤ totalCost body :=
    Many.cost_le (fun _ _ => Section.Form.cost_le) hbody
  have hflatten : linesCost parts.flatten = (parts.map linesCost).sum := by
    rw [linesCost, List.map_flatten, List.sum_flatten, List.map_map]
    rfl
  have hskips := backTicks_describedBy skips
  simp only [totalCost_append, hflatten]
  omega

end Forms

theorem sum_insertEntry_le (f : String × String → Nat) (name text : String)
    (es : List (String × String)) :
    ((Bindings.insertEntry name text es).map f).sum ≤ f (name, text) + (es.map f).sum := by
  fun_induction Bindings.insertEntry name text es with
  | case1 => simp
  | case2 => simp
  | case3 => simp only [List.map_cons, List.sum_cons]; omega
  | case4 n t rest _ _ ih => simp only [List.map_cons, List.sum_cons]; omega

def Block.cost (b : Block) : Nat := (b.entries.map Entry.cost).sum

theorem Block.cost_add (b : Block) (x : Entry) : (b.add x).cost ≤ b.cost + x.cost := by
  have hsplit : ∀ b : Block, b.cost =
      (b.keywords.entries.map fun e => (Entry.keyword e.1 e.2).cost).sum +
        (b.references.map fun r => (Entry.reference r).cost).sum := by
    intro b
    rw [cost, entries, List.map_append, List.sum_append, List.map_map, List.map_map]
    rfl
  rw [hsplit, hsplit b]
  cases x with
  | keyword key value =>
    have hle := sum_insertEntry_le (fun e => (Entry.keyword e.1 e.2).cost) key value
      b.keywords.entries
    simp only [add, Bindings.insert] at hle ⊢
    omega
  | reference r =>
    simp only [add, List.map_append, List.sum_append, List.map_cons, List.map_nil, List.sum_cons,
      List.sum_nil]
    omega

namespace Directives
variable {d : Directives} {description : String} {lines : List (Environment × Entry)}

theorem linesCost_lines (d : Directives) :
    linesCost d.lines = (Environment.all.map fun e => (d.block e).cost).sum := by
  have hblock : ∀ e, linesCost ((d.block e).entries.map (e, ·)) = (d.block e).cost := by
    intro e
    rw [linesCost, List.map_map]
    rfl
  simp only [lines, Environment.all, List.flatMap_cons, List.flatMap_nil, linesCost_append, hblock,
    List.map_cons, List.map_nil, List.sum_cons, List.sum_nil]
  rfl

theorem linesCost_addEntries (d : Directives) (e : Environment) (x : Entry) :
    linesCost (d.addEntries e [x]).lines ≤ linesCost d.lines + x.cost := by
  have hadd := (d.block e).cost_add x
  simp only [linesCost_lines, Environment.all, List.map_cons, List.map_nil, List.sum_cons,
    List.sum_nil, block_addEntries]
  cases e <;> simp [Block.addAll] <;> omega

/-- What lines say takes no more back-ticks than the lines. -/
theorem Says.cost_le (h : d.Says description lines) : linesCost d.lines ≤ linesCost lines := by
  have hfold : ∀ (d : Directives) (said : List (Environment × Entry)), d.Says description said →
      ∃ d' : Directives, d'.Says description (said ++ lines) ∧
        linesCost d'.lines ≤ linesCost d.lines + linesCost lines := by
    clear h
    induction lines with
    | nil => exact fun d said h => ⟨d, by rwa [List.append_nil], Nat.le_add_right ..⟩
    | cons l lines ih =>
      intro d said h
      obtain ⟨d', hsays, hle⟩ := ih (d.addEntries l.1 [l.2]) _ (h.add l.1 l.2)
      have hadd := linesCost_addEntries d l.1 l.2
      refine ⟨d', by rwa [List.append_assoc] at hsays, ?_⟩
      have hcons : linesCost (l :: lines) = l.2.cost + linesCost lines := List.sum_cons
      omega
  obtain ⟨d', hsays, hle⟩ := hfold _ [] (says_start description)
  have hstart : linesCost ({ description := description } : Directives).lines = 0 := rfl
  rw [h.unique hsays]
  omega

end Directives

theorem backTicks_escape (text : List Char) :
    backTicks (text.flatMap escape) = backTicks text := by
  have hescape : ∀ c, backTicks (escape c) = if c = '`' then 1 else 0 := by
    intro c
    unfold escape
    split <;> simp
  induction text with
  | nil => rfl
  | cons c text ih => rw [List.flatMap_cons, backTicks_append, backTicks_cons, hescape, ih]

theorem Entry.backTicks_print (x : Entry) : backTicks x.print.toList = x.printed := by
  have hnil : x.print.toList = x.print.toList ++ [] := (List.append_nil _).symm
  cases x with
  | keyword key value =>
    rw [hnil, toList_print_keyword]
    simp [backTicks_escape, printed, Entry.key, Entry.text]
  | reference r =>
    have hword := backTicks_of_isWord (isWord_spelling r.source.keyword)
    rw [hnil, toList_print_reference]
    simp [backTicks_escape, printed, Entry.key, Entry.text, hword]

theorem backTicks_flatMap {α : Type} (f : α → List Char) (as : List α) :
    backTicks (as.flatMap f) = (as.map fun x => backTicks (f x)).sum := List.count_flatMap

theorem Block.backTicks_print (e : Environment) (b : Block) :
    backTicks (b.print e).toList = (b.entries.map Entry.printed).sum := by
  unfold print
  split
  · rename_i hempty
    rw [isEmpty, Bool.and_eq_true, List.isEmpty_iff, List.isEmpty_iff] at hempty
    rw [entries, hempty.1, hempty.2]
    rfl
  · have hname : backTicks e.name.toList = 0 := by cases e <;> rfl
    simp [toString, hname, List.flatMap_map, backTicks_flatMap, Entry.backTicks_print]

/-- The back-ticks that directives are printed with are their own. -/
theorem Directives.backTicks_print (d : Directives) : backTicks d.print.toList =
    backTicks d.description.toList + (d.lines.map (·.2.printed)).sum := by
  have hsections : backTicks (Environment.all.flatMap fun e => ((d.block e).print e).toList) =
      (d.lines.map (·.2.printed)).sum := by
    simp only [backTicks_flatMap, Block.backTicks_print, lines, Environment.all]
    simp [Function.comp_def]
  have hnil : d.print.toList = d.print.toList ++ [] := (List.append_nil _).symm
  rw [hnil, toList_print]
  simp [backTicks_escape, hsections]

theorem Directives.rest_ofText_print (d : Directives) :
    (Cursor.ofText d.print).rest = d.print.toList := by
  refine Cursor.rest_ofText ?_
  rw [← List.append_nil d.print.toList, toList_print]
  simp

/-- Directives that are read from what they are printed as have words for keys. -/
theorem Directives.isWord_of_parse_print {d : Directives} (h : parse d.print = .ok d) :
    ∀ l ∈ d.lines, isWord l.2.key = true := by
  obtain rfl | ⟨ts, description, lines, hfront, hform, hsays⟩ := exists_form_of_parse h
  · have hnone : ({} : Directives).lines = [] := rfl
    simp [hnone]
  · have hsub : totalCost ts ≤ totalCost (significant d.print) :=
      (hfront.sublist.map _).sum_le_sum (by simp)
    have hcost : totalCost (significant d.print) ≤ backTicks d.print.toList := by
      have hall := (Cursor.ofText d.print).cost_significant
      rwa [rest_ofText_print] at hall
    have hread := hform.cost_le
    have hsaid := hsays.cost_le
    rw [backTicks_print] at hcost
    rw [← hsays.description] at hread
    -- a key that is no word would make reading cost more than printing gives
    intro l hl
    cases hw : isWord l.2.key with
    | true => rfl
    | false =>
      have hle : ∀ l ∈ d.lines, l.2.printed ≤ l.2.cost := fun l _ =>
        Nat.add_le_add_right (backTicks_le_keyCost l.2.key).1 _
      have hlt : l.2.printed < l.2.cost :=
        Nat.add_lt_add_right ((backTicks_le_keyCost l.2.key).2 hw) _
      have hsum := List.sum_lt_sum _ _ hle ⟨l, hl, hlt⟩
      change _ < linesCost d.lines at hsum
      omega

theorem Directives.mem_lines_iff {d : Directives} {l : Environment × Entry} :
    l ∈ d.lines ↔ l.2 ∈ (d.block l.1).entries := by
  rw [lines, List.mem_flatMap]
  constructor
  · rintro ⟨e, -, hl⟩
    obtain ⟨x, hx, rfl⟩ := List.mem_map.1 hl
    exact hx
  · intro hl
    exact ⟨l.1, Environment.mem_all l.1, List.mem_map.2 ⟨l.2, hl, rfl⟩⟩

theorem Directives.parse_print_of_isWord {d : Directives}
    (h : ∀ e, ∀ x ∈ (d.block e).entries, isWord x.key = true) :
    parse d.print = .ok { d with name := "" } := by
  have hrest : (Cursor.ofText d.print).rest = d.print.toList ++ [] := by
    rw [List.append_nil, rest_ofText_print]
  obtain ⟨c, ts, -, hts, hsig⟩ := reads h [] _ hrest
  have hfront : ts <+: significant d.print := ⟨_, hsig.symm⟩
  obtain ⟨d', hparse, hsays⟩ := (form_of_words hts).parse hfront
  rw [hparse, hsays.unique d.says_lines]

/-- Printed directives are read back as they are exactly if they have no name of their own and all
their keys are words. -/
theorem Directives.parse_print_iff (d : Directives) :
    parse d.print = .ok d ↔
      d.name = "" ∧ ∀ e, ∀ x ∈ (d.block e).entries, isWord x.key = true := by
  constructor
  · intro h
    refine ⟨?_, fun e x hx => isWord_of_parse_print h (e, x) (mem_lines_iff.2 hx)⟩
    obtain rfl | ⟨ts, description, lines, -, -, hsays⟩ := exists_form_of_parse h
    · rfl
    · exact hsays.name
  · rintro ⟨hname, hwords⟩
    rw [parse_print_of_isWord hwords, ← hname]

/-- A key that stands between back-ticks is read, but it is not printed so that it can be read
again. -/
theorem Directives.parse_print_quoted_key : ∃ d : Directives,
    parse "/* [sqlmbegin] [script] [dev] - `a b`: \"x\" [sqlmend] */" = .ok d ∧
      parse d.print ≠ .ok d := by
  let b : Block := ⟨⟨[("a b", "x")], List.pairwise_singleton ..⟩, []⟩
  let d : Directives := ⟨"", "", (PerEnvironment.const {}).set .development b⟩
  refine ⟨d, eq_ok_of_toOption (by decide +kernel), fun h => ?_⟩
  have hword := isWord_of_parse_print h (.development, .keyword "a b" "x") (by decide)
  exact absurd hword (by decide)

end SqlComposer
