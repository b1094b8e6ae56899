import SqlComposer.Proofs.Token.Tiling
import SqlComposer.Text.Bytes

/-! Lines and columns, counted in the bytes of a text. A cursor counts them as it moves over one
character after the other, with the same result at every place that it comes to. -/
namespace SqlComposer

/-- How many bytes there are through the last line feed. -/
def throughLastFeed (bs : List UInt8) : Nat := bs.length - bs.reverse.idxOf lineFeed

/-- Where the line of an offset begins: behind the last line feed before it, or with the text. -/
def lineStart (bs : List UInt8) (offset : Nat) : Nat :=
  max (textStart bs) (throughLastFeed (bs.take offset))

/-- The line and the column of an offset. -/
def Position.ofOffset (bs : List UInt8) (offset : Nat) : Position where
  offset := offset
  line := 1 + (bs.take offset).count lineFeed
  column := 1 + (offset - lineStart bs offset)

/-- A place in a text is what its offset says, and its line begins there or before. -/
structure Position.IsExact (p : Position) (text : String) : Prop where
  place : p = .ofOffset (bytes text) p.offset
  lineStart_le : lineStart (bytes text) p.offset ≤ p.offset
  offset_le : p.offset ≤ (bytes text).length

def encode (cs : List Char) : List UInt8 := cs.flatMap String.utf8EncodeChar

theorem encode_append (xs ys : List Char) : encode (xs ++ ys) = encode xs ++ encode ys :=
  List.flatMap_append ..

theorem bytes_eq (text : String) : bytes text = encode text.toList := by
  have hbytes : text.toByteArray = (encode text.toList).toByteArray := by
    rw [← String.ofList_toList (s := text), String.toByteArray_ofList, String.toList_ofList]
    rfl
  rw [bytes, hbytes, List.toList_data_toByteArray]

def isAscii (c : Char) : Bool := c.val ≤ 127

/-- An ASCII character is one byte, its number. -/
theorem utf8EncodeChar_of_isAscii {c : Char} (h : isAscii c = true) :
    String.utf8EncodeChar c = [c.toUInt8] :=
  String.utf8EncodeChar_eq_singleton (Char.utf8Size_eq_one_iff.2 (of_decide_eq_true h))

/-- No byte of any other character is the number of an ASCII character. -/
theorem high_of_mem_utf8EncodeChar {c : Char} (h : isAscii c = false) {b : UInt8}
    (hb : b ∈ String.utf8EncodeChar c) : 128 ≤ b.toNat := by
  have hhigh : ∀ n, 128 ≤ n → n < 256 → b = UInt8.ofNat n → 128 ≤ b.toNat := by
    rintro n hlow hn rfl
    rwa [UInt8.toNat_ofNat_of_lt' hn]
  have hval : ¬ c.val.toNat ≤ 127 := fun hle => of_decide_eq_false h (UInt32.le_iff_toNat_le.2 hle)
  unfold String.utf8EncodeChar at hb
  dsimp only at hb
  rw [if_neg hval] at hb
  split at hb
  · simp only [List.mem_cons, List.not_mem_nil, or_false] at hb
    obtain hb | hb := hb <;> exact hhigh _ (by omega) (by omega) hb
  split at hb
  · simp only [List.mem_cons, List.not_mem_nil, or_false] at hb
    obtain hb | hb | hb := hb <;> exact hhigh _ (by omega) (by omega) hb
  · simp only [List.mem_cons, List.not_mem_nil, or_false] at hb
    obtain hb | hb | hb | hb := hb <;> exact hhigh _ (by omega) (by omega) hb

/-- The byte of a line feed is in no other character. -/
theorem lineFeed_mem_encode_iff (c : Char) : lineFeed ∈ String.utf8EncodeChar c ↔ c = '\n' := by
  constructor
  · intro h
    cases hc : isAscii c with
    | true =>
      rw [utf8EncodeChar_of_isAscii hc, List.mem_singleton] at h
      have hle : c.val.toNat ≤ 127 := UInt32.le_iff_toNat_le.1 (of_decide_eq_true hc)
      have hbyte : 10 = c.val.toNat % 256 := congrArg UInt8.toNat h
      have hval : c.val.toNat = 10 := by omega
      exact Char.toNat_inj.1 hval
    | false => exact absurd (high_of_mem_utf8EncodeChar hc h) (by decide)
  · rintro rfl
    decide

theorem throughLastFeed_append {xs : List UInt8} (h : lineFeed ∉ xs) (bs : List UInt8) :
    throughLastFeed (bs ++ xs) = throughLastFeed bs := by
  have hxs : lineFeed ∉ xs.reverse := by simpa using h
  rw [throughLastFeed, List.reverse_append, List.idxOf_append, if_neg hxs, List.length_append,
    List.length_reverse, throughLastFeed]
  omega

theorem throughLastFeed_concat (bs : List UInt8) :
    throughLastFeed (bs ++ [lineFeed]) = bs.length + 1 := by
  simp [throughLastFeed]

/-- A place behind some bytes, counted where a text begins at `start`. -/
structure Position.Counts (p : Position) (start : Nat) (bs : List UInt8) : Prop where
  offset : p.offset = bs.length
  start_le : start ≤ bs.length
  line : p.line = 1 + bs.count lineFeed
  column : p.column + max start (throughLastFeed bs) = 1 + bs.length

namespace Position.Counts
variable {p : Position} {start : Nat} {bs : List UInt8}

theorem advance (h : p.Counts start bs) (c : Char) :
    (p.advance c).Counts start (bs ++ String.utf8EncodeChar c) := by
  obtain ⟨hoffset, hstart, hline, hcolumn⟩ := h
  have hlength : (bs ++ String.utf8EncodeChar c).length = bs.length + c.utf8Size := by
    rw [List.length_append, String.length_utf8EncodeChar]
  refine ⟨by rw [offset_advance, hoffset, hlength], by omega, ?_, ?_⟩
  · rw [line_advance, hline, List.count_append, Nat.add_assoc]
    by_cases hc : c = '\n'
    · subst hc
      rfl
    · rw [if_neg hc, List.count_eq_zero.2 (mt (lineFeed_mem_encode_iff c).1 hc)]
  · rw [hlength]
    by_cases hc : c = '\n'
    -- a line feed begins a line, where the columns start again
    · subst hc
      have hlast : throughLastFeed (bs ++ String.utf8EncodeChar '\n') = bs.length + 1 :=
        throughLastFeed_concat bs
      rw [hlast, Nat.max_eq_right (by omega), Nat.add_comm (p.advance '\n').column]
      exact Nat.add_comm ..
    · rw [throughLastFeed_append (mt (lineFeed_mem_encode_iff c).1 hc), Position.advance, if_neg hc]
      change p.column + c.utf8Size + _ = _
      omega

theorem advanceOver (h : p.Counts start bs) (cs : List Char) :
    (p.advanceOver cs).Counts start (bs ++ encode cs) := by
  induction cs generalizing p bs with
  | nil => simpa [encode] using h
  | cons c cs ih =>
    have hcs := ih (h.advance c)
    rwa [List.append_assoc] at hcs

theorem isExact {text : String} {more : List UInt8} (h : p.Counts (textStart (bytes text)) bs)
    (htext : bytes text = bs ++ more) : p.IsExact text := by
  obtain ⟨hoffset, hstart, hline, hcolumn⟩ := h
  have htake : (bytes text).take p.offset = bs := by rw [htext, hoffset, List.take_left]
  have hcolumn : p.column + lineStart (bytes text) p.offset = 1 + p.offset := by
    rw [lineStart, htake, hcolumn, hoffset]
  have hlast : throughLastFeed bs ≤ bs.length := Nat.sub_le ..
  have hle : lineStart (bytes text) p.offset ≤ p.offset := by
    rw [lineStart, htake, hoffset]
    omega
  refine ⟨?_, hle, by rw [htext, hoffset]; simp⟩
  have heq : p.column = 1 + (p.offset - lineStart (bytes text) p.offset) := by omega
  rw [ofOffset, htake, ← hline, ← heq]

end Position.Counts

theorem textStart_encode {cs : List Char} (h : cs.head? ≠ some '\ufeff') :
    textStart (encode cs) = 0 := by
  refine if_neg fun hmark => ?_
  obtain ⟨more, hmore⟩ := hmark
  have hencode : ['\ufeff'].utf8Encode ++ more.toByteArray = cs.utf8Encode := by
    rw [List.utf8Encode, List.utf8Encode, ← List.toByteArray_append]
    exact congrArg List.toByteArray hmore
  obtain ⟨rest, rfl⟩ := List.isPrefix_of_utf8Encode_append_eq_utf8Encode _ hencode
  exact h rfl

namespace Cursor

/-- A cursor in a text: the rest before it is the rest of the bytes, and it counts those behind. -/
def Counts (c : Cursor) (text : String) : Prop :=
  ∃ bs, bytes text = bs ++ encode c.rest ∧ c.position.Counts (textStart (bytes text)) bs

/-- A text begins behind its byte order mark, if it has one. -/
theorem ofText_cases (text : String) :
    (∃ cs, bytes text = byteOrderMark ++ encode cs ∧ textStart (bytes text) = 3 ∧
      ofText text = { rest := cs, position := { offset := 3 } }) ∨
    (bytes text = encode text.toList ∧ textStart (bytes text) = 0 ∧
      ofText text = { rest := text.toList }) := by
  unfold ofText
  rw [bytes_eq]
  split
  · rename_i cs h
    have htext : encode text.toList = byteOrderMark ++ encode cs := by rw [h]; rfl
    rw [htext]
    exact .inl ⟨cs, rfl, if_pos ⟨_, rfl⟩, rfl⟩
  · rename_i h
    refine .inr ⟨rfl, textStart_encode fun hmark => ?_, rfl⟩
    obtain ⟨cs, hcs⟩ := List.head?_eq_some_iff.1 hmark
    exact h cs hcs

theorem counts_ofText (text : String) : (ofText text).Counts text := by
  obtain ⟨cs, hbytes, hstart, hfirst⟩ | ⟨hbytes, hstart, hfirst⟩ := ofText_cases text
  · rw [Counts, hfirst, hstart]
    exact ⟨byteOrderMark, hbytes, rfl, Nat.le_refl _, rfl, rfl⟩
  · rw [Counts, hfirst, hstart]
    exact ⟨[], hbytes, rfl, Nat.le_refl _, rfl, rfl⟩

variable {c : Cursor} {text : String}

/-- One scan counts on, over a gap to the start of a token, and over the token. -/
theorem Counts.scan (h : c.Counts text) : c.scan.1.start.IsExact text ∧ c.scan.2.Counts text := by
  obtain ⟨bs, htext, hcounts⟩ := h
  have hwhole := congrArg encode c.gap_append_token_append_rest
  simp only [encode_append] at hwhole
  have hstart := hcounts.advanceOver (Comment.gap c.rest).taken
  rw [← start_scan] at hstart
  have hbehind := hstart.advanceOver (Lexeme.ofText (Comment.gap c.rest).rest).cut.taken
  rw [← position_scan] at hbehind
  refine ⟨hstart.isExact (by rw [htext, ← hwhole, List.append_assoc]), _, ?_, hbehind⟩
  rw [htext, ← hwhole]
  simp

theorem Counts.after (h : c.Counts text) (n : Nat) : (c.after n).Counts text := by
  induction n with
  | zero => exact h
  | succ n ih => exact ih.scan.2

theorem Counts.isExact (h : c.Counts text) : c.position.IsExact text := by
  obtain ⟨bs, htext, hcounts⟩ := h
  exact hcounts.isExact htext

end Cursor

end SqlComposer
