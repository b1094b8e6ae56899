import SqlComposer.Proofs.Directive.Detection
import SqlComposer.Proofs.Directive.Enclosed
import SqlComposer.Proofs.Directive.Isolation

/-! How far the comment reaches that a block is read from. Its tokens are read like those of any other
text, so the comment may end at one of them, or behind the block, or not at all. -/
namespace SqlComposer
variable {bs inner cs xs ys comment : List Char}

namespace Closes

/-- The end of a comment is on one side, or its star is the last character and its slash the first. -/
theorem append_iff : Closes (xs ++ ys) ↔
    Closes xs ∨ (xs.getLast? = some '*' ∧ ys.head? = some '/') ∨ Closes ys := by
  induction xs with
  | nil => simp [Closes]
  | cons x xs ih =>
    rw [List.cons_append, cons_iff, cons_iff, ih]
    cases xs with
    | nil => simp [Closes]
    | cons y xs => simp [or_assoc]

theorem blanks_append_iff (hb : ∀ b ∈ bs, isBlank b = true) : Closes (bs ++ ys) ↔ Closes ys := by
  induction bs with
  | nil => rfl
  | cons b bs ih =>
    obtain ⟨hblank, hb⟩ := List.forall_mem_cons.1 hb
    have hne : b ≠ '*' := by
      rintro rfl
      cases hblank
    rw [List.cons_append, cons_of_ne hne, ih hb]

/-- No comment ends in the opening of another, nor right behind it. -/
theorem opener_append_iff (hb : ∀ b ∈ bs, isBlank b = true) (hi : ∀ b ∈ inner, isBlank b = true)
    (hslash : ys.head? ≠ some '/') : Closes (bs ++ '/' :: '*' :: (inner ++ ys)) ↔ Closes ys := by
  have hbehind : (inner ++ ys).head? ≠ some '/' := by
    cases inner with
    | nil => exact hslash
    | cons c inner =>
      rintro hc
      cases hc
      cases hi '/' List.mem_cons_self
  rw [blanks_append_iff hb, cons_of_ne (by decide), cons_iff, blanks_append_iff hi]
  exact or_iff_right fun hc => hbehind hc.2

theorem gap_append_iff (h : Comment.IsGap bs cs) (hhead : ys.head? = cs.head?) :
    Closes (bs ++ ys) ↔ Closes ys := by
  obtain hb | ⟨bs, inner, rfl, hb, hi, ho⟩ := Comment.isGap_iff.1 h
  · exact blanks_append_iff hb
  · obtain ⟨rest, rfl⟩ := Comment.exists_of_opensBlock ho
    rw [List.append_assoc, List.cons_append, List.cons_append]
    exact opener_append_iff hb hi (by simp [hhead])

end Closes

namespace Cursor
variable {c : Cursor} {n : Nat}

/-- That a comment in which the next token stands ends with it: what is written of the token has a
`*/`, or it ends with the star of one whose slash stands behind it. -/
def EndsComment (c : Cursor) : Prop :=
  Closes c.lexeme.cut.taken ∨ c.lexeme.cut.taken.getLast? = some '*' ∧ c.scan.2.rest.head? = some '/'

def passedBy (c : Cursor) : Nat → List Char
  | 0 => []
  | n + 1 => c.passed ++ c.scan.2.passedBy n

theorem passedBy_append (c : Cursor) (n : Nat) : c.passedBy n ++ (c.after n).rest = c.rest := by
  induction n generalizing c with
  | zero => rfl
  | succ n ih => rw [passedBy, List.append_assoc, ← after_scan, ih, passed_append]

theorem closes_passed_iff (h : c.scan.1.kind ≠ .endOfInput)
    (hhead : ys.head? = c.scan.2.rest.head?) :
    Closes (c.passed ++ ys) ↔ c.EndsComment ∨ Closes ys := by
  have hne : c.lexeme.cut.taken ≠ [] := by
    rw [kind_scan, ne_eq, Lexeme.kind_ofText_eq_endOfInput_iff] at h
    exact Lexeme.taken_ofText_ne_nil h
  have hfront : (c.lexeme.cut.taken ++ ys).head? = (Comment.gap c.rest).rest.head? := by
    rw [← c.token_append_rest, List.head?_append_of_ne_nil _ hne, ← lexeme,
      List.head?_append_of_ne_nil _ hne]
  rw [passed, List.append_assoc, Closes.gap_append_iff (Comment.isGap_gap c.rest) hfront,
    Closes.append_iff, hhead, EndsComment, or_assoc]

/-- What some scans pass over ends a comment exactly if one of their tokens does. -/
theorem closes_passedBy_iff (h : ∀ i < n, (c.after i).scan.1.kind ≠ .endOfInput)
    (hhead : ys.head? = (c.after n).rest.head?) :
    Closes (c.passedBy n ++ ys) ↔ (∃ i < n, (c.after i).EndsComment) ∨ Closes ys := by
  induction n generalizing c with
  | zero => simp [passedBy]
  | succ n ih =>
    have hfirst : c.scan.1.kind ≠ .endOfInput := h 0 (Nat.succ_pos n)
    have hnext : (c.scan.2.passedBy n ++ ys).head? = c.scan.2.rest.head? := by
      rw [← passedBy_append c.scan.2 n, List.head?_append, List.head?_append, after_scan, hhead]
    have hrest := ih (c := c.scan.2) (fun i hi => by rw [after_scan]; exact h (i+1) (by omega))
      (by rw [after_scan]; exact hhead)
    simp only [after_scan] at hrest
    rw [passedBy, List.append_assoc, closes_passed_iff hfirst hnext, hrest, ← or_assoc,
      Nat.exists_lt_succ_left, after_zero]

/-- Blanks and comments in front are passed by scans that find comments, but for the last blanks. -/
theorem exists_after_skipAll (c : Cursor) : ∃ n bs, (∀ b ∈ bs, isBlank b = true) ∧
    (c.after n).rest = bs ++ Comment.skipAll Comment.opensBlock c.rest ∧
    ∀ i < n, (c.after i).scan.1.kind = .comment := by
  generalize hcs : c.rest = cs
  fun_induction Comment.skipAll Comment.opensBlock cs generalizing c with
  | case1 => exact ⟨0, [], by simp, hcs, by simp⟩
  | case2 cs rest hs ih =>
    obtain ⟨b, hb, rfl⟩ | ⟨hgap, cut, hlexeme, rfl⟩ := Comment.skip?_cases hs
    · obtain ⟨cs, position, arguments⟩ := c
      cases hcs
      have hscan : scan ⟨b :: rest, position, arguments⟩ =
          scan ⟨rest, position.advanceOver [b], arguments⟩ :=
        scan_append (x := [b]) (Comment.gap_blank hb) position arguments
      obtain ⟨n, bs, hblank, hrest, hcomments⟩ := ih ⟨rest, position.advanceOver [b], arguments⟩ rfl
      cases n with
      | zero => exact ⟨0, b :: bs, by simpa [hb] using hblank, congrArg (b :: ·) hrest, by simp⟩
      | succ n =>
        have hafter : ∀ i, after ⟨b :: rest, position, arguments⟩ (i+1) =
            after ⟨rest, position.advanceOver [b], arguments⟩ (i+1) := fun i => by
          rw [← after_scan, ← after_scan, hscan]
        refine ⟨n+1, bs, hblank, by rw [hafter, hrest], fun i hi => ?_⟩
        cases i with
        | zero => exact (congrArg (·.1.kind) hscan).trans (hcomments 0 hi)
        | succ i => rw [hafter]; exact hcomments (i+1) hi
    · subst hcs
      have hkind : c.scan.1.kind = .comment := by rw [kind_scan, hgap]; exact congrArg _ hlexeme
      have hbehind : c.scan.2.rest = cut.rest := by
        rw [rest_scan, hgap]
        exact congrArg (·.cut.rest) hlexeme
      obtain ⟨n, bs, hblank, hrest, hcomments⟩ := ih c.scan.2 hbehind
      refine ⟨n+1, bs, hblank, by rw [← after_scan, hrest], fun i hi => ?_⟩
      cases i with
      | zero => exact hkind
      | succ i => rw [← after_scan]; exact hcomments i (by omega)

theorem significant_after (h : ∀ i < n, (c.after i).scan.1.kind = .comment) :
    (c.after n).significant = c.significant := by
  induction n with
  | zero => rfl
  | succ n ih =>
    have hkind := h n (Nat.lt_succ_self n)
    rw [after_succ, ← significant_of_comment hkind, ih fun i hi => h i (by omega)]

/-- The first bracket of a block that is read from a comment stands behind the opening of that. -/
theorem exists_gap_opener (hb : ∀ b ∈ bs, isBlank b = true)
    (hrest : c.rest = bs ++ '/' :: '*' :: comment)
    (hskip : Comment.skip? Comment.opensBlock ('/' :: '*' :: comment) = none)
    (hbegins : BeginsBlock c.significant) : ∃ inner, (∀ b ∈ inner, isBlank b = true) ∧
      (Comment.gap c.rest).taken = bs ++ '/' :: '*' :: inner ∧ c.scan.1.kind = .punct '[' := by
  let d : Cursor := ⟨'/' :: '*' :: comment, c.position.advanceOver bs, c.arguments⟩
  have hgap : Comment.gap c.rest = ⟨bs ++ (Comment.gap d.rest).taken, (Comment.gap d.rest).rest⟩ := by
    rw [hrest, Comment.gap_blanks hb]
  have hkind : c.scan.1.kind = d.scan.1.kind := by rw [kind_scan, kind_scan, hgap]
  have hbracket : d.scan.1.kind = .punct '[' := by
    have hhead := head?_significant (c := c) (hkind ▸ kind_scan_ne_comment hskip)
    rw [← hkind]
    by_contra hne
    exact not_beginsBlock_of_head? hhead hne hbegins
  obtain ⟨ho, -⟩ | ⟨-, -, hfronts⟩ := kind_scan_cases (c := d) hskip
  · obtain ⟨inner, rest, he, hi, hopens⟩ := Comment.exists_of_isOpener ho
    refine ⟨inner, hi, ?_, hkind.trans hbracket⟩
    rw [hgap, he, Comment.gap_opener hi hopens]
  · obtain ⟨rest, he⟩ := hfronts.bracket hbracket
    cases he

/-- The tokens between two scans are those that start where the first one finds its token or behind it,
and before the other one's. -/
theorem StandsBehind.between_iff {front text : List Char} (h : c.StandsBehind front text)
    {m offset : Nat} (hle : (c.after n).position.offset ≤ offset)
    (hstart : offset ≤ (c.after n).scan.1.start.offset) (hnm : n ≤ m)
    (hend : (c.after m).scan.1.kind ≠ .endOfInput) (i : Nat) :
    (offset ≤ (c.after i).scan.1.start.offset ∧
      (c.after i).scan.1.start.offset < (c.after m).scan.1.start.offset) ↔ n ≤ i ∧ i < m := by
  constructor
  · rintro ⟨hfrom, hto⟩
    have him : i < m := Nat.not_le.1 fun hmi => by
      obtain rfl | hlt := Nat.eq_or_lt_of_le hmi
      · exact Nat.lt_irrefl _ hto
      · have hlater := h.start_lt hlt hend
        omega
    refine ⟨Nat.not_lt.1 fun hin => ?_, him⟩
    have hbefore := h.start_lt_position hin (kind_after_ne_endOfInput (Nat.le_of_lt him) hend)
    omega
  · rintro ⟨hni, him⟩
    refine ⟨?_, h.start_lt him (kind_after_ne_endOfInput (Nat.le_of_lt him) hend)⟩
    obtain rfl | hlt := Nat.eq_or_lt_of_le hni
    · exact hstart
    · have hfirst := h.start_lt hlt (kind_after_ne_endOfInput hnm hend)
      omega

/-- A block between the opening of a comment and a closing bracket: what is behind the opening, and
which tokens can end the comment there. -/
theorem StandsBehind.exists_block {front text : List Char} (h : c.StandsBehind front text)
    (hi : ∀ b ∈ inner, isBlank b = true) (hb : ∀ b ∈ bs, isBlank b = true)
    (hrest : c.rest = bs ++ '/' :: '*' :: comment)
    (hgap : (Comment.gap c.rest).taken = bs ++ '/' :: '*' :: inner)
    (hbracket : c.scan.1.kind = .punct '[') (hkind : (c.after (n+1)).scan.1.kind = .punct ']') :
    ∃ block behind,
      comment = block ++ ']' :: behind ∧
      (c.after (n+1)).scan.1.start.offset = byteSize (front ++ bs ++ '/' :: '*' :: block) ∧
      (Closes block ↔ ∃ i < n+1, (c.after i).EndsComment) := by
  obtain ⟨before, hclosing⟩ := exists_standsBehind_after h (n+1)
  obtain ⟨place, behind, htext, hplace⟩ := hclosing.exists_place hkind
  obtain ⟨bs', hb', hrest', hbefore⟩ := hclosing.exists_blanks hkind htext hplace
  have htiled := c.passedBy_append (n+1)
  have hopening : c.passedBy (n+1) = bs ++ '/' :: '*' :: (inner ++ '[' :: c.scan.2.passedBy n) := by
    rw [kind_scan] at hbracket
    rw [passedBy, passed, hgap, lexeme, Lexeme.taken_of_punct hbracket]
    simp
  let block := inner ++ '[' :: (c.scan.2.passedBy n ++ bs')
  have hblock : c.passedBy (n+1) ++ bs' = bs ++ '/' :: '*' :: block := by simp [hopening, block]
  have hcomment : comment = block ++ ']' :: behind := by
    rw [hrest', ← List.append_assoc, hblock, hrest, List.append_assoc] at htiled
    exact (List.cons.inj (List.cons.inj (List.append_cancel_left htiled)).2).2.symm
  have hfront : before = front ++ c.passedBy (n+1) := by
    have hsplit := hclosing.split
    rw [h.split, ← c.passedBy_append (n+1), ← List.append_assoc] at hsplit
    exact (List.append_cancel_right hsplit).symm
  refine ⟨block, behind, hcomment, ?_, ?_⟩
  · rw [hplace, ← hbefore, hfront, List.append_assoc, hblock, List.append_assoc]
  · have hscanned : Closes (c.passedBy (n+1) ++ (bs' ++ [']'])) ↔
        (∃ i < n+1, (c.after i).EndsComment) ∨ Closes (bs' ++ [']']) := by
      refine closes_passedBy_iff (fun i hi => ?_) ?_
      · exact kind_after_ne_endOfInput (Nat.le_of_lt hi) (by simp [hkind])
      · rw [hrest', List.head?_append, List.head?_append]
        rfl
    have hbracket : ¬ Closes (bs' ++ [']']) := by
      rw [Closes.blanks_append_iff hb']
      decide
    rw [or_iff_left hbracket, ← List.append_assoc, hblock,
      Closes.append_cons_iff (by decide) (by decide), or_iff_left (by decide),
      Closes.opener_append_iff hb hi (by simp)] at hscanned
    rw [← hscanned, Closes.blanks_append_iff hi]

end Cursor

/-- Behind a piece of text a comment ends after blanks exactly if a `*/` stands there, and none in it. -/
theorem Comment.block?_behind_iff {block behind after : List Char}
    (hb : ∀ b ∈ bs, isBlank b = true) :
    block? (block ++ ']' :: behind) = some ⟨block ++ ']' :: (bs ++ ['*', '/']), after⟩ ↔
      behind = bs ++ '*' :: '/' :: after ∧ ¬ Closes block := by
  have hcloses : Closes (block ++ ']' :: bs) ↔ Closes block := by
    have hnone : ¬ Closes bs := by
      rw [← List.append_nil bs, Closes.blanks_append_iff hb]
      decide
    rw [Closes.append_cons_iff (by decide) (by decide), or_iff_left hnone]
  have hends := block?_append_iff (block ++ ']' :: bs) after
  rw [hcloses] at hends
  have hassoc : ∀ tail, block ++ ']' :: (bs ++ tail) = block ++ ']' :: bs ++ tail := by simp
  constructor
  · intro h
    have hwhole := whole_of_block? h
    have hbehind : behind = bs ++ '*' :: '/' :: after := by simpa [Cut.whole] using hwhole.symm
    rw [hbehind, hassoc, hassoc, hends] at h
    exact ⟨hbehind, h⟩
  · rintro ⟨rfl, hno⟩
    rw [hassoc, hassoc, hends]
    exact hno

namespace Script
variable {text : String} {s : Script} {closing : Token}

/-- A block that is read from a comment is what some scans find: the first of them behind the opening
of the comment, and the last one the closing bracket. -/
theorem exists_scans (h : ofText text = .ok s) (hc : s.closing = some closing)
    (hopen : Comment.skipAll Comment.opensBlock (Cursor.ofText text).rest = '/' :: '*' :: comment) :
    ∃ c n k bs inner, c = (Cursor.ofText text).after n ∧ c.rest = bs ++ '/' :: '*' :: comment ∧
      (∀ b ∈ bs, isBlank b = true) ∧ (∀ b ∈ inner, isBlank b = true) ∧
      (Comment.gap c.rest).taken = bs ++ '/' :: '*' :: inner ∧ c.scan.1.kind = .punct '[' ∧
      (c.after (k+1)).scan.1 = closing ∧ closing.kind = .punct ']' := by
  obtain ⟨ts, us, description, lines, hsig, hform, -⟩ := exists_form_of_ofText h hc
  have hclosing : closing ∈ significant text := by simp [hsig]
  have hkind := hform.kind_closing
  obtain ⟨m, hm⟩ := exists_scan_of_mem hclosing
  obtain ⟨n, bs, hb, hrest, hcomments⟩ := (Cursor.ofText text).exists_after_skipAll
  rw [hopen] at hrest
  have hskip : Comment.skip? Comment.opensBlock ('/' :: '*' :: comment) = none :=
    hopen ▸ Comment.skip?_skipAll _ _
  have hbegins : BeginsBlock ((Cursor.ofText text).after n).significant := by
    rw [Cursor.significant_after hcomments]
    by_contra hnone
    cases (ofText_of_not_begins hnone).symm.trans h
    cases hc
  obtain ⟨inner, hi, hgap, hbracket⟩ := Cursor.exists_gap_opener hb hrest hskip hbegins
  -- the closing bracket is none of the comments in front, and not the first bracket
  have hnm : n < m := by
    refine Nat.not_le.1 fun hmn => ?_
    rw [hm] at hkind
    obtain rfl | hlt := Nat.eq_or_lt_of_le hmn
    · rw [hbracket] at hkind; cases hkind
    · rw [hcomments m hlt] at hkind; cases hkind
  obtain ⟨k, rfl⟩ := Nat.exists_eq_add_of_lt hnm
  exact ⟨_, n, k, bs, inner, rfl, hrest, hb, hi, hgap, hbracket,
    by rw [Cursor.after_after, hm, Nat.add_assoc], hkind⟩

/-- Whether a block stays in the comment that it is read from. That comment ends behind the closing
bracket and some blanks exactly if these and a `*/` stand there, and no token ends it that starts
behind its opening and before the bracket, be it a comment in the block, a text or a star. -/
theorem stays_in_comment_iff (h : ofText text = .ok s) (hc : s.closing = some closing)
    (hopen : Comment.skipAll Comment.opensBlock (Cursor.ofText text).rest = '/' :: '*' :: comment) :
    ∃ front block behind, text.toList = front ++ '/' :: '*' :: comment ∧
      comment = block ++ ']' :: behind ∧
      closing.start.offset = byteSize (front ++ '/' :: '*' :: block) ∧
      ∀ bs after, (∀ b ∈ bs, b ∈ blanks) →
        (Comment.block? comment = some ⟨block ++ ']' :: (bs ++ ['*', '/']), after⟩ ↔
          behind = bs ++ '*' :: '/' :: after ∧
          ∀ n, byteSize front ≤ ((Cursor.ofText text).after n).scan.1.start.offset →
            ((Cursor.ofText text).after n).scan.1.start.offset < closing.start.offset →
            ¬ ((Cursor.ofText text).after n).EndsComment) := by
  obtain ⟨c, n, k, bs, inner, hn, hrest, hb, hi, hgap, hbracket, rfl, hkind⟩ :=
    exists_scans h hc hopen
  obtain ⟨mark, -, hmark⟩ := Cursor.standsBehind_ofText text
  obtain ⟨front, hstand⟩ := Cursor.exists_standsBehind_after hmark n
  rw [← hn] at hstand
  obtain ⟨block, behind, hcomment, hplace, hcloses⟩ :=
    hstand.exists_block hi hb hrest hgap hbracket hkind
  refine ⟨front ++ bs, block, behind, ?_, hcomment, hplace, fun bs' after hb' => ?_⟩
  · rw [hstand.split, hrest, List.append_assoc]
  have hstart : byteSize (front ++ bs) ≤ c.scan.1.start.offset := by
    rw [hstand.start.1, hgap, byteSize_append, byteSize_append, byteSize_append]
    omega
  have hle : c.position.offset ≤ byteSize (front ++ bs) := by
    rw [hstand.offset, byteSize_append]
    omega
  subst hn
  simp only [Cursor.after_after] at hkind hcloses ⊢
  have hbetween := hmark.between_iff hle hstart (Nat.le_add_right n (k+1)) (by simp [hkind])
  rw [hcomment, Comment.block?_behind_iff ((forall_isBlank_iff bs').2 hb'), hcloses]
  refine and_congr_right fun _ => ?_
  constructor
  · intro hno i hfrom hto hends
    obtain ⟨hni, him⟩ := (hbetween i).1 ⟨hfrom, hto⟩
    obtain ⟨j, rfl⟩ := Nat.exists_eq_add_of_le hni
    exact hno ⟨j, by omega, hends⟩
  · rintro hno ⟨j, hj, hends⟩
    obtain ⟨hfrom, hto⟩ := (hbetween (n+j)).2 ⟨by omega, by omega⟩
    exact hno _ hfrom hto hends

end Script
end SqlComposer
