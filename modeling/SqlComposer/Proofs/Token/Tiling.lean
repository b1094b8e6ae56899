import SqlComposer.Proofs.Token.Lexing
import SqlComposer.Token.Stream

/-! Scanning a text again and again. Each scan passes over a gap and takes a token from the front
of what is left, so the tokens tile the text, gaps apart, and the scans come to its end. -/
namespace SqlComposer

def byteSize (cs : List Char) : Nat := (String.ofList cs).utf8ByteSize

@[simp] theorem byteSize_nil : byteSize [] = 0 := rfl

@[simp] theorem byteSize_cons (c : Char) (cs : List Char) :
    byteSize (c :: cs) = c.utf8Size + byteSize cs := by simp [byteSize]

@[simp] theorem byteSize_append (xs ys : List Char) :
    byteSize (xs ++ ys) = byteSize xs + byteSize ys := by simp [byteSize]

theorem byteSize_toList (s : String) : byteSize s.toList = s.utf8ByteSize := by
  rw [byteSize, String.ofList_toList]

theorem length_le_byteSize (cs : List Char) : cs.length ≤ byteSize cs := by
  induction cs with
  | nil => exact Nat.le_refl _
  | cons c cs ih =>
    have hc := c.utf8Size_pos
    rw [List.length_cons, byteSize_cons]
    omega

theorem Position.offset_advanceOver (p : Position) (cs : List Char) :
    (p.advanceOver cs).offset = p.offset + byteSize cs := by
  induction cs generalizing p with
  | nil => rfl
  | cons c cs ih => rw [advanceOver_cons, ih, offset_advance, byteSize_cons, Nat.add_assoc]

/-- What may stand between tokens. -/
def blanks : List Char := [' ', '\n', '\r', '\t']

theorem isBlank_iff (c : Char) : isBlank c = true ↔ c ∈ blanks := by
  simp only [isBlank, Bool.or_eq_true, decide_eq_true_eq, blanks, List.mem_cons, List.not_mem_nil,
    or_false, or_assoc]

theorem forall_isBlank_iff (cs : List Char) :
    (∀ c ∈ cs, isBlank c = true) ↔ ∀ c ∈ cs, c ∈ blanks := by
  simp only [isBlank_iff]

namespace Comment

/-- What may stand in front of some text and belong to no token: blanks, and behind them the `/*`
and the blanks of a directive block, if the text is the bracket that opens it, which is `[sqlmbegin`
in any letter case. -/
inductive IsGap : List Char → List Char → Prop
  | blanks {bs cs : List Char} : (∀ c ∈ bs, c ∈ blanks) → IsGap bs cs
  | opener {bs inner word cs : List Char} : (∀ c ∈ bs, c ∈ blanks) → (∀ c ∈ inner, c ∈ blanks) →
      word.map Char.toLower = "sqlmbegin".toList →
      IsGap (bs ++ '/' :: '*' :: inner) ('[' :: (word ++ cs))

theorem opensBlock_iff (cs : List Char) : opensBlock cs = true ↔
    ∃ word rest, cs = '[' :: (word ++ rest) ∧ word.map Char.toLower = "sqlmbegin".toList := by
  constructor
  · intro h
    unfold opensBlock at h
    split at h
    · rename_i ds
      exact ⟨ds.take blockWord.length, ds.drop blockWord.length, by rw [List.take_append_drop],
        of_decide_eq_true h⟩
    · cases h
  · rintro ⟨word, rest, rfl, hword⟩
    have hlength : word.length = blockWord.length := by
      rw [← List.length_map Char.toLower, hword]
      rfl
    refine decide_eq_true ?_
    rw [← hlength, List.take_left]
    exact hword

/-- A gap in the scanner's own terms. -/
theorem isGap_iff {gap cs : List Char} : IsGap gap cs ↔ (∀ c ∈ gap, isBlank c = true) ∨
    ∃ bs inner, gap = bs ++ '/' :: '*' :: inner ∧ (∀ c ∈ bs, isBlank c = true) ∧
      (∀ c ∈ inner, isBlank c = true) ∧ opensBlock cs = true := by
  simp only [forall_isBlank_iff, opensBlock_iff]
  constructor
  · rintro (hb | ⟨hb, hi, hword⟩)
    · exact .inl hb
    · exact .inr ⟨_, _, rfl, hb, hi, _, _, rfl, hword⟩
  · rintro (hb | ⟨bs, inner, rfl, hb, hi, word, rest, rfl, hword⟩)
    · exact .blanks hb
    · exact .opener hb hi hword

theorem isBlank_of_mem_span {cs : List Char} {c : Char} (h : c ∈ (Cut.span isBlank cs).taken) :
    isBlank c = true := List.all_eq_true.1 List.all_takeWhile c h

theorem opener_cases (cs : List Char) : opener cs = .nothing cs ∨
    ∃ inner rest, opener cs = ⟨'/' :: '*' :: inner, rest⟩ ∧ (∀ c ∈ inner, isBlank c = true) ∧
      opensBlock rest = true := by
  unfold opener
  split
  · rename_i cs
    dsimp only
    split
    · exact .inr ⟨_, _, rfl, fun c => isBlank_of_mem_span, ‹_›⟩
    · exact .inl rfl
  · exact .inl rfl

theorem isGap_gap (cs : List Char) : IsGap (gap cs).taken (gap cs).rest := by
  have hb : ∀ c ∈ (Cut.span isBlank cs).taken, isBlank c = true := fun c => isBlank_of_mem_span
  obtain h | ⟨inner, rest, h, hi, ho⟩ := opener_cases (Cut.span isBlank cs).rest
  · rw [gap, Cut.andThen, h]
    exact isGap_iff.2 (.inl (by simpa [Cut.nothing] using hb))
  · rw [gap, Cut.andThen, h]
    exact isGap_iff.2 (.inr ⟨_, inner, rfl, hb, hi, ho⟩)

theorem rest_gap_eq_nil_iff (cs : List Char) :
    (gap cs).rest = [] ↔ ∀ c ∈ cs, isBlank c = true := by
  constructor
  · intro h
    have hw := whole_gap cs
    have hg := isGap_gap cs
    rw [Cut.whole, h, List.append_nil] at hw
    rw [h, hw] at hg
    obtain hb | ⟨_, _, -, -, -, ho⟩ := isGap_iff.1 hg
    · exact hb
    · cases ho
  · intro h
    have hspan : Cut.span isBlank (cs ++ []) = ⟨cs, []⟩ := Cut.span_append h (by simp)
    rw [List.append_nil] at hspan
    rw [gap, hspan]
    rfl

end Comment

namespace Cursor

def after (c : Cursor) : Nat → Cursor
  | 0 => c
  | n + 1 => (c.after n).scan.2

@[simp] theorem after_zero (c : Cursor) : c.after 0 = c := rfl

theorem after_succ (c : Cursor) (n : Nat) : c.after (n+1) = (c.after n).scan.2 := rfl

theorem after_scan (c : Cursor) (n : Nat) : c.scan.2.after n = c.after (n+1) := by
  induction n with
  | zero => rfl
  | succ n ih => rw [after_succ, ih, ← after_succ]

theorem after_after {c : Cursor} (m n : Nat) : (c.after m).after n = c.after (m+n) := by
  induction n with
  | zero => rfl
  | succ n ih => rw [after_succ, ih, ← after_succ, Nat.add_assoc]

/-- A cursor stands in a text behind `front`: it has the rest before it, and it counts the bytes. -/
structure StandsBehind (c : Cursor) (front text : List Char) : Prop where
  split : text = front ++ c.rest
  offset : c.position.offset = byteSize front

theorem standsBehind_ofText (text : String) :
    ∃ front, (front = [] ∨ front = ['\ufeff']) ∧ (ofText text).StandsBehind front text.toList := by
  unfold ofText
  split
  · rename_i cs h
    exact ⟨['\ufeff'], .inr rfl, h, rfl⟩
  · exact ⟨[], .inl rfl, rfl, rfl⟩

theorem start_scan (c : Cursor) :
    c.scan.1.start = c.position.advanceOver (Comment.gap c.rest).taken := by
  unfold scan; dsimp only; split <;> rfl

theorem position_scan (c : Cursor) : c.scan.2.position =
    c.scan.1.start.advanceOver (Lexeme.ofText (Comment.gap c.rest).rest).cut.taken := by
  unfold scan; dsimp only; split <;> rfl

/-- Where a token starts, and how it lies in the text. -/
theorem StandsBehind.start {c : Cursor} {front text : List Char} (h : c.StandsBehind front text) :
    c.scan.1.start.offset = byteSize (front ++ (Comment.gap c.rest).taken) ∧
    text = front ++ (Comment.gap c.rest).taken ++
      ((Lexeme.ofText (Comment.gap c.rest).rest).cut.taken ++ c.scan.2.rest) := by
  constructor
  · rw [start_scan, Position.offset_advanceOver, h.offset, byteSize_append]
  · rw [List.append_assoc, gap_append_token_append_rest, h.split]

theorem token_append_rest (c : Cursor) :
    (Lexeme.ofText (Comment.gap c.rest).rest).cut.taken ++ c.scan.2.rest =
      (Comment.gap c.rest).rest := by
  rw [rest_scan]
  exact Lexeme.whole_ofText _

/-- What one scan does to a text: behind a gap it takes a token, which is empty only at the end. -/
theorem StandsBehind.scan {c : Cursor} {front text : List Char} (h : c.StandsBehind front text) :
    ∃ gap token, Comment.IsGap gap (token ++ c.scan.2.rest) ∧
      c.scan.1.start.offset = byteSize (front ++ gap) ∧
      (c.scan.1.kind = .endOfInput ↔ token = []) ∧
      c.scan.2.StandsBehind (front ++ gap ++ token) text := by
  obtain ⟨hstart, hsplit⟩ := h.start
  have hrest := c.token_append_rest
  refine ⟨_, (Lexeme.ofText (Comment.gap c.rest).rest).cut.taken, ?_, hstart, ?_, ?_, ?_⟩
  · rw [hrest]
    exact Comment.isGap_gap c.rest
  · rw [kind_scan, Lexeme.kind_ofText_eq_endOfInput_iff]
    constructor
    · intro hnil
      rw [hnil] at hrest ⊢
      exact (List.append_eq_nil_iff.1 hrest).1
    · intro hnil
      exact Decidable.byContradiction fun hne => Lexeme.taken_ofText_ne_nil hne hnil
  · rw [hsplit, List.append_assoc _ (Lexeme.cut _).taken]
  · rw [position_scan, Position.offset_advanceOver, hstart, byteSize_append _ (Lexeme.cut _).taken]

/-- A token starts where the cursor stands or later, and it covers at least one byte. -/
theorem StandsBehind.start_mem {c : Cursor} {front text : List Char}
    (h : c.StandsBehind front text) : c.position.offset ≤ c.scan.1.start.offset ∧
      (c.scan.1.kind ≠ .endOfInput → c.scan.1.start.offset < c.scan.2.position.offset) := by
  obtain ⟨gap, token, -, hstart, hkind, h'⟩ := h.scan
  constructor
  · rw [hstart, h.offset, byteSize_append]
    exact Nat.le_add_right ..
  · intro hne
    have hpos := List.length_pos_iff.2 (mt hkind.2 hne)
    have hbytes := length_le_byteSize token
    rw [h'.offset, byteSize_append, ← hstart]
    omega

theorem exists_standsBehind_after {c : Cursor} {front text : List Char}
    (h : c.StandsBehind front text) (n : Nat) : ∃ front, (c.after n).StandsBehind front text := by
  induction n with
  | zero => exact ⟨front, h⟩
  | succ n ih =>
    obtain ⟨front, h⟩ := ih
    obtain ⟨gap, token, -, -, -, h⟩ := h.scan
    exact ⟨_, h⟩

/-- A token starts before the place of every later scan. -/
theorem StandsBehind.start_lt_position {c : Cursor} {front text : List Char}
    (h : c.StandsBehind front text) {m n : Nat} (hmn : m < n)
    (hend : (c.after m).scan.1.kind ≠ .endOfInput) :
    (c.after m).scan.1.start.offset < (c.after n).position.offset := by
  obtain ⟨k, rfl⟩ := Nat.exists_eq_add_of_lt hmn
  induction k with
  | zero =>
    obtain ⟨front, h⟩ := exists_standsBehind_after h m
    exact h.start_mem.2 hend
  | succ k ih =>
    have hnext : (c.after (m+k+1)).position.offset ≤ (c.after (m+k+1)).scan.2.position.offset := by
      rw [position_scan, start_scan, Position.offset_advanceOver, Position.offset_advanceOver]
      omega
    exact Nat.lt_of_lt_of_le (ih (by omega)) hnext

/-- A later scan finds a token that starts further behind. -/
theorem StandsBehind.start_lt {c : Cursor} {front text : List Char} (h : c.StandsBehind front text)
    {m n : Nat} (hmn : m < n) (hend : (c.after m).scan.1.kind ≠ .endOfInput) :
    (c.after m).scan.1.start.offset < (c.after n).scan.1.start.offset := by
  obtain ⟨front, hn⟩ := exists_standsBehind_after h n
  exact Nat.lt_of_lt_of_le (h.start_lt_position hmn hend) hn.start_mem.1

theorem StandsBehind.offset_le {c : Cursor} {front text : List Char}
    (h : c.StandsBehind front text) : c.position.offset ≤ byteSize text := by
  rw [h.offset, h.split, byteSize_append]
  exact Nat.le_add_right ..

/-- Tokens start one behind the other. -/
theorem StandsBehind.pairwise_run {c : Cursor} {front text : List Char}
    (h : c.StandsBehind front text) :
    (∀ t ∈ c.run.map (·.1), c.position.offset ≤ t.start.offset) ∧
      (c.run.map (·.1)).Pairwise (·.start.offset < ·.start.offset) := by
  fun_induction run c generalizing front with
  | case1 c hend =>
    exact ⟨List.forall_mem_singleton.2 h.start_mem.1, List.pairwise_singleton ..⟩
  | case2 c hend ih =>
    obtain ⟨gap, token, -, -, -, h'⟩ := h.scan
    obtain ⟨hbehind, hpairwise⟩ := ih h'
    obtain ⟨hfirst, hlast⟩ := h.start_mem
    have hlast := hlast hend
    rw [List.map_cons]
    exact ⟨List.forall_mem_cons.2 ⟨hfirst, fun t ht => by have := hbehind t ht; omega⟩,
      List.pairwise_cons.2 ⟨fun t ht => by have := hbehind t ht; omega, hpairwise⟩⟩

theorem kind_scan_eq_endOfInput_iff (c : Cursor) :
    c.scan.1.kind = .endOfInput ↔ ∀ x ∈ c.rest, isBlank x = true := by
  rw [kind_scan, Lexeme.kind_ofText_eq_endOfInput_iff, Comment.rest_gap_eq_nil_iff]

theorem scan_of_rest_eq_nil {c : Cursor} (h : c.rest = []) : c.scan = (.atEnd c.position, c) := by
  obtain ⟨rest, position, arguments⟩ := c
  cases h
  rfl

theorem rest_scan_of_endOfInput {c : Cursor} (h : c.scan.1.kind = .endOfInput) :
    c.scan.2.rest = [] := by
  rw [kind_scan, Lexeme.kind_ofText_eq_endOfInput_iff] at h
  rw [rest_scan, h]
  rfl

theorem after_of_endOfInput {c : Cursor} {count : Nat}
    (h : (c.after count).scan.1.kind = .endOfInput) (n : Nat) :
    c.after (count+1+n) = c.after (count+1) := by
  induction n with
  | zero => rfl
  | succ n ih =>
    have hnil : (c.after (count+1)).rest = [] := rest_scan_of_endOfInput h
    rw [← Nat.add_assoc, after_succ, ih, scan_of_rest_eq_nil hnil]

/-- The run of a cursor is what its scans give, up to the first one that finds the end. -/
theorem exists_count (c : Cursor) : ∃ count, count ≤ c.rest.length ∧
    c.run = (List.range (count+1)).map (fun n => (c.after n).scan) ∧
    (∀ n < count, (c.after n).scan.1.kind ≠ .endOfInput) ∧
    (c.after count).scan.1.kind = .endOfInput := by
  fun_induction run c with
  | case1 c h => exact ⟨0, Nat.zero_le _, rfl, by simp, h⟩
  | case2 c h ih =>
    obtain ⟨count, hle, hrun, hbefore, hend⟩ := ih
    have hlt := length_rest_scan_lt h
    refine ⟨count+1, by omega, ?_, fun n hn => ?_, ?_⟩
    · rw [List.range_succ_eq_map, List.map_cons, List.map_map, hrun]
      simp only [after_scan]
      rfl
    · cases n with
      | zero => exact h
      | succ n => rw [← after_scan]; exact hbefore n (by omega)
    · rw [← after_scan]; exact hend

theorem kind_after_iff {c : Cursor} {count : Nat}
    (hbefore : ∀ n < count, (c.after n).scan.1.kind ≠ .endOfInput)
    (hend : (c.after count).scan.1.kind = .endOfInput) (n : Nat) :
    (c.after n).scan.1.kind = .endOfInput ↔ count ≤ n := by
  constructor
  · intro h
    exact Nat.not_lt.1 fun hlt => hbefore n hlt h
  · intro h
    obtain rfl | hlt := Nat.eq_or_lt_of_le h
    · exact hend
    -- behind the first end there is nothing left to scan
    · obtain ⟨k, rfl⟩ := Nat.exists_eq_add_of_lt hlt
      have hnil : (c.after (count+1)).rest = [] := rest_scan_of_endOfInput hend
      rw [Nat.add_right_comm, after_of_endOfInput hend, scan_of_rest_eq_nil hnil]
      rfl

theorem kind_after_ne_endOfInput {c : Cursor} {m n : Nat} (hmn : m ≤ n)
    (h : (c.after n).scan.1.kind ≠ .endOfInput) : (c.after m).scan.1.kind ≠ .endOfInput := by
  obtain ⟨count, -, -, hbefore, hend⟩ := c.exists_count
  have hiff := kind_after_iff hbefore hend
  rw [ne_eq, hiff] at h ⊢
  omega

theorem scan_mem_run {c : Cursor} {n : Nat} (h : (c.after n).scan.1.kind ≠ .endOfInput) :
    (c.after n).scan ∈ c.run := by
  obtain ⟨count, -, hrun, hbefore, hend⟩ := c.exists_count
  rw [ne_eq, kind_after_iff hbefore hend] at h
  rw [hrun]
  exact List.mem_map_of_mem (List.mem_range.2 (by omega))

end Cursor

section Tokenize
variable {ts : List Token}

def Token.checked (t : Token) : Except LexError Token :=
  match t.kind with
  | .fault f => .error ⟨f, t.start⟩
  | _ => .ok t

theorem Token.checked_of_no_fault {t : Token} (h : ∀ f, t.kind ≠ .fault f) : t.checked = .ok t := by
  unfold checked
  split
  · exact absurd ‹_› (h _)
  · rfl

theorem mapM_checked (h : ∀ t ∈ ts, ∀ f, t.kind ≠ .fault f) : ts.mapM Token.checked = .ok ts := by
  induction ts with
  | nil => rfl
  | cons t ts ih =>
    obtain ⟨ht, h⟩ := List.forall_mem_cons.1 h
    rw [List.mapM_cons, Token.checked_of_no_fault ht, ih h]
    rfl

theorem mapM_checked_fault (h : ∀ t ∈ ts, ∀ f, t.kind ≠ .fault f) {t : Token} {f : LexFault}
    (ht : t.kind = .fault f) (us : List Token) :
    (ts ++ t :: us).mapM Token.checked = .error ⟨f, t.start⟩ := by
  have hchecked : t.checked = .error ⟨f, t.start⟩ := by rw [Token.checked, ht]
  rw [List.mapM_append, mapM_checked h, List.mapM_cons, hchecked]
  rfl

end Tokenize

theorem tokenize_eq {text : String} {count : Nat}
    (h : (Cursor.ofText text).run =
      (List.range (count+1)).map fun n => ((Cursor.ofText text).after n).scan) :
    tokenize text =
      ((List.range count).map fun n => ((Cursor.ofText text).after n).scan.1).mapM
        Token.checked := by
  change (Token.ofText text).dropLast.mapM Token.checked = _
  rw [Token.ofText, h, List.map_map, List.range_succ, List.map_append, List.map_singleton,
    List.dropLast_concat]
  rfl

end SqlComposer
