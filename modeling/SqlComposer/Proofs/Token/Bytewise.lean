import SqlComposer.Proofs.Token.Decoding
import SqlComposer.Proofs.Token.Spreading

/-! Scanning bytes. A byte cursor knows no characters: it compares and collects bytes, and decodes what
it has collected. On the bytes of a text it finds the tokens of the text, at the same places, and what
it decodes is never a piece of a character. -/
namespace SqlComposer

/-- A lexeme found in bytes: its text, the bytes that were collected for it, and those it covers. -/
structure ByteLexeme where
  kind : TokenKind
  text : List Char
  collected : List UInt8
  taken : List UInt8
  rest : List UInt8

/-- The lexeme at the front of some bytes. What readers look for is ASCII, so they read bytes as they
read characters. Where no lexeme starts, four bytes are decoded for the first character in them, and
as many are passed over as it has. -/
def ByteLexeme.ofBytes (bs : List UInt8) : ByteLexeme :=
  let l := Lexeme.ofText (latin bs)
  match l.kind with
  | .fault (.unexpectedCharacter _) =>
    let c := (Utf8.decode (bs.take 4)).headD Utf8.replacement
    let width := min c.utf8Size bs.length
    ⟨.fault (.unexpectedCharacter c), [c], bs.take width, bs.take width, bs.drop width⟩
  | kind =>
    let collected := unlatin l.text
    ⟨kind, Utf8.decode collected, collected, unlatin l.cut.taken, unlatin l.cut.rest⟩

namespace Position

theorem advanceBytes_of_no_feed (p : Position) {bs : List UInt8} (h : lineFeed ∉ bs) :
    p.advanceBytes bs = ⟨p.offset + bs.length, p.line, p.column + bs.length⟩ := by
  induction bs generalizing p with
  | nil => rfl
  | cons b bs ih =>
    rw [List.mem_cons, not_or] at h
    have hb : p.advanceByte b = ⟨p.offset + 1, p.line, p.column + 1⟩ := if_neg fun he => h.1 he.symm
    change (p.advanceByte b).advanceBytes bs = _
    rw [ih _ h.2, hb, List.length_cons, Nat.add_comm bs.length, Nat.add_assoc, Nat.add_assoc]

theorem advanceBytes_encode (p : Position) (cs : List Char) :
    p.advanceBytes (encode cs) = p.advanceOver cs := by
  induction cs generalizing p with
  | nil => rfl
  | cons c cs ih =>
    have hc : p.advanceBytes (String.utf8EncodeChar c) = p.advance c := by
      by_cases hfeed : c = '\n'
      · subst hfeed
        rfl
      · rw [advanceBytes_of_no_feed p (mt (lineFeed_mem_encode_iff c).1 hfeed), advance, if_neg hfeed,
          String.length_utf8EncodeChar]
    change (String.utf8EncodeChar c ++ encode cs).foldl advanceByte p = _
    rw [List.foldl_append, advanceOver_cons, ← ih, ← hc]
    rfl

end Position

/-- What is left of some bytes, where that begins, and how many `?` have been numbered. -/
structure ByteCursor where
  rest : List UInt8
  position : Position := {}
  arguments : Nat := 0

namespace ByteCursor

/-- The start of some bytes, behind a byte order mark. -/
def ofBytes (bs : List UInt8) : ByteCursor :=
  { rest := bs.drop (textStart bs), position := { offset := textStart bs } }

variable (c : ByteCursor)

def gap : List UInt8 := unlatin (Comment.gap (latin c.rest)).taken

/-- The lexeme behind the gap. -/
def lexeme : ByteLexeme := .ofBytes (unlatin (Comment.gap (latin c.rest)).rest)

/-- The next token, and the cursor behind it. -/
def scan : Token × ByteCursor :=
  let start := c.position.advanceBytes c.gap
  let behind := start.advanceBytes c.lexeme.taken
  if c.lexeme.kind = .argument then
    let n := c.arguments + 1
    (⟨.argument, Cursor.argumentName n, start⟩, ⟨c.lexeme.rest, behind, n⟩)
  else
    (⟨c.lexeme.kind, String.ofList c.lexeme.text, start⟩, ⟨c.lexeme.rest, behind, c.arguments⟩)

def after : Nat → ByteCursor
  | 0 => c
  | n + 1 => (after n).scan.2

end ByteCursor

/-! In the bytes of a text. -/

def Lexeme.encoded (l : Lexeme) : ByteLexeme :=
  ⟨l.kind, l.text, encode l.text, encode l.cut.taken, encode l.cut.rest⟩

def Cursor.encoded (c : Cursor) : ByteCursor := ⟨encode c.rest, c.position, c.arguments⟩

theorem ByteLexeme.ofBytes_encode (cs : List Char) :
    ofBytes (encode cs) = (Lexeme.ofText cs).encoded := by
  by_cases h : ∃ c, (Lexeme.ofText cs).kind = .fault (.unexpectedCharacter c)
  · obtain ⟨c, hc⟩ := h
    obtain ⟨d, hd⟩ := Lexeme.kind_ofText_spread_of_unexpected hc
    obtain ⟨xs, rfl, hl⟩ := Lexeme.ofText_of_unexpected hc
    have hencode : encode (c :: xs) = String.utf8EncodeChar c ++ encode xs := rfl
    have hhead := Utf8.head_decode_take c (encode xs)
    have hwidth : min c.utf8Size (encode (c :: xs)).length = (String.utf8EncodeChar c).length := by
      rw [hencode, List.length_append, String.length_utf8EncodeChar]
      omega
    have hc : encode [c] = String.utf8EncodeChar c := List.append_nil _
    unfold ofBytes
    rw [← spread]
    simp only [hd]
    rw [hencode, hhead, ← hencode, hwidth, hencode, List.take_left, List.drop_left, hl, Lexeme.encoded]
    dsimp only
    rw [hc]
  · have hspread := Lexeme.ofText_spread fun c hc => h ⟨c, hc⟩
    unfold ofBytes
    rw [← spread, hspread]
    dsimp only
    split
    · exact absurd ⟨_, ‹_›⟩ h
    · rw [Lexeme.spread, Cut.spread, Lexeme.encoded]
      dsimp only
      rw [unlatin_spread, unlatin_spread, unlatin_spread, Utf8.decode_encode]

namespace Cursor
variable (c : Cursor)

theorem gap_encoded : c.encoded.gap = encode (Comment.gap c.rest).taken := by
  change unlatin (Comment.gap (spread c.rest)).taken = _
  rw [Comment.spreads_gap, Cut.spread, unlatin_spread]

theorem lexeme_encoded :
    c.encoded.lexeme = (Lexeme.ofText (Comment.gap c.rest).rest).encoded := by
  change ByteLexeme.ofBytes (unlatin (Comment.gap (spread c.rest)).rest) = _
  rw [Comment.spreads_gap, Cut.spread, unlatin_spread, ByteLexeme.ofBytes_encode]

/-- One scan of the bytes finds what a scan of the text finds. -/
theorem scan_encoded : c.encoded.scan = (c.scan.1, c.scan.2.encoded) := by
  rw [ByteCursor.scan, gap_encoded, lexeme_encoded, scan]
  dsimp only
  by_cases hkind : (Lexeme.ofText (Comment.gap c.rest).rest).kind = .argument
  · have hsame : (Lexeme.ofText (Comment.gap c.rest).rest).encoded.kind = .argument := hkind
    rw [if_pos hkind, if_pos hsame, Lexeme.encoded, Position.advanceBytes_encode,
      Position.advanceBytes_encode]
    rfl
  · have hsame : (Lexeme.ofText (Comment.gap c.rest).rest).encoded.kind ≠ .argument := hkind
    rw [if_neg hkind, if_neg hsame, Lexeme.encoded, Position.advanceBytes_encode,
      Position.advanceBytes_encode]
    rfl

theorem after_encoded (n : Nat) : c.encoded.after n = (c.after n).encoded := by
  induction n with
  | zero => rfl
  | succ n ih => rw [ByteCursor.after, ih, scan_encoded, after_succ]

end Cursor

theorem ByteCursor.ofBytes_bytes (text : String) :
    ofBytes (bytes text) = (Cursor.ofText text).encoded := by
  obtain ⟨cs, hbytes, hstart, hfirst⟩ | ⟨hbytes, hstart, hfirst⟩ := Cursor.ofText_cases text
  · rw [ofBytes, hstart, hfirst, hbytes]
    rfl
  · rw [ofBytes, hstart, hfirst, hbytes]
    rfl

theorem length_encode (cs : List Char) : (encode cs).length = byteSize cs := by
  induction cs with
  | nil => rfl
  | cons c cs ih =>
    change (String.utf8EncodeChar c ++ encode cs).length = _
    rw [List.length_append, String.length_utf8EncodeChar, ih, byteSize_cons]

theorem isValid_of_split {text : String} {front rest : List Char}
    (h : text.toList = front ++ rest) : String.Pos.Raw.IsValid text ⟨byteSize front⟩ := by
  refine String.Pos.Raw.isValid_iff_exists_append.2 ⟨.ofList front, .ofList rest, ?_, rfl⟩
  rw [← String.ofList_append, ← h, String.ofList_toList]

namespace ByteCursor

/-- A scan breaks no character of a text. -/
structure KeepsCharacters (c : ByteCursor) (text : String) : Prop where
  start : String.Pos.Raw.IsValid text ⟨c.scan.1.start.offset⟩
  behind : String.Pos.Raw.IsValid text ⟨c.scan.2.position.offset⟩
  /-- The token covers the bytes that stand where it starts. -/
  place : ∃ before, bytes text = before ++ c.lexeme.taken ++ c.scan.2.rest ∧
    before.length = c.scan.1.start.offset
  /-- A text that was decoded is what was collected, all of it and with nothing in its place. -/
  decoded : c.scan.1.kind ≠ .argument → Utf8.decode c.lexeme.collected = c.scan.1.text.toList ∧
    bytes c.scan.1.text = c.lexeme.collected
  /-- A character that was not expected is the one that stands there. -/
  unexpected : ∀ x, c.scan.1.kind = .fault (.unexpectedCharacter x) →
    c.scan.1.text.toList = [x] ∧
    ∃ front rest, text.toList = front ++ x :: rest ∧ byteSize front = c.scan.1.start.offset

theorem keepsCharacters_encoded {c : Cursor} {front : List Char} {text : String}
    (h : c.StandsBehind front text.toList) : c.encoded.KeepsCharacters text := by
  obtain ⟨hstart, hsplit⟩ := h.start
  have hscan := c.scan_encoded
  have hlexeme := c.lexeme_encoded
  refine ⟨?_, ?_, ?_, ?_, ?_⟩
  · rw [hscan, hstart]
    exact isValid_of_split hsplit
  · obtain ⟨_, _, -, -, -, hbehind⟩ := h.scan
    rw [hscan]
    change String.Pos.Raw.IsValid text ⟨c.scan.2.position.offset⟩
    rw [hbehind.offset]
    exact isValid_of_split hbehind.split
  · rw [hscan, hlexeme, hstart, bytes_eq, hsplit]
    refine ⟨encode (front ++ (Comment.gap c.rest).taken), ?_, length_encode _⟩
    rw [encode_append (front ++ _), encode_append (Lexeme.cut _).taken, ← List.append_assoc]
    rfl
  · intro hkind
    rw [hscan] at hkind ⊢
    rw [hlexeme, Cursor.text_scan hkind, bytes_eq, String.toList_ofList]
    exact ⟨Utf8.decode_encode _, rfl⟩
  · intro x hx
    rw [hscan] at hx ⊢
    have hkind : c.scan.1.kind ≠ .argument := by
      rw [hx]
      simp
    rw [Cursor.kind_scan] at hx
    obtain ⟨xs, -, hl⟩ := Lexeme.ofText_of_unexpected hx
    rw [Cursor.text_scan hkind, hl, String.toList_ofList]
    rw [hl] at hsplit
    exact ⟨rfl, _, _, hsplit, hstart.symm⟩

end ByteCursor

/-- Scanning the bytes of a text breaks no character: every token starts and ends between two, and what
is decoded for it are the bytes that were collected, with nothing replaced. So the bytes have the
tokens of the text. Of the four bytes that are decoded for an unexpected character the last may belong
to one that is cut off, but only the first character is used, and it is whole. -/
theorem scan_bytes (text : String) (n : Nat) :
    ((ByteCursor.ofBytes (bytes text)).after n).KeepsCharacters text ∧
    ((ByteCursor.ofBytes (bytes text)).after n).scan.1 = ((Cursor.ofText text).after n).scan.1 := by
  obtain ⟨mark, -, hfirst⟩ := Cursor.standsBehind_ofText text
  obtain ⟨front, h⟩ := Cursor.exists_standsBehind_after hfirst n
  rw [ByteCursor.ofBytes_bytes, Cursor.after_encoded]
  exact ⟨ByteCursor.keepsCharacters_encoded h, by rw [Cursor.scan_encoded]⟩

end SqlComposer
