import SqlComposer.Token.Comment
import SqlComposer.Token.Numeral
import SqlComposer.Token.Quoted

/-! The lexeme at the front of a text. A malformed one is read as a fault, so reading never
stops before the end; each lexeme is a front of the text, and an empty one only at its end. -/
namespace SqlComposer

/-- A token without its place: its text, and the text cut behind it. -/
structure Lexeme where
  kind : TokenKind
  text : List Char
  cut : Cut
  deriving DecidableEq

namespace Lexeme

/-- A lexeme whose text is the way it is written. -/
def raw (kind : TokenKind) (cut : Cut) : Lexeme := ⟨kind, cut.taken, cut⟩

def word (cs : List Char) : Lexeme :=
  let cut := Cut.span isWordPart cs
  raw ((Keyword.ofWord? (String.ofList cut.taken)).elim .identifier .keyword) cut

/-- Digits between `'`, behind `x` or `b`. Without the closing `'` the literal ends behind its
digits; hex digits come in pairs. -/
def quotedDigits (radix : Radix) (kind : TokenKind) (fault : LexFault) (lead : Char)
    (cs : List Char) : Lexeme :=
  let digits := Numeral.digits radix cs
  match digits.rest with
  | '\'' :: rest =>
    let paired := radix ≠ .hexadecimal || digits.taken.length % 2 = 0
    ⟨if paired then kind else .fault fault, digits.taken,
      ⟨lead :: '\'' :: (digits.taken ++ ['\'']), rest⟩⟩
  | _ => ⟨.fault fault, digits.taken, (digits.cons '\'').cons lead⟩

/-- A word, or a literal that starts like one. -/
def wordLike : List Char → Lexeme
  | x :: '\'' :: cs =>
    if x = 'x' || x = 'X' then quotedDigits .hexadecimal .hexString .malformedHex x cs
    else if x = 'b' || x = 'B' then quotedDigits .binary .bitString .malformedBit x cs
    else word (x :: '\'' :: cs)
  | cs => word cs

/-- A number; a letter directly behind it makes it malformed. -/
def number (cs : List Char) : Lexeme :=
  let (kind, cut) := Numeral.literal cs
  raw (if cut.rest.head?.any isLetter then .fault .malformedNumber else kind) cut

/-- A string, behind its opening delimiter. -/
def string (quote : Char) (cs : List Char) : Lexeme :=
  let body := Quoted.string quote cs
  ⟨if body.closed then .string else .fault .unterminatedString, body.text, body.cut.cons quote⟩

/-- An identifier between back-ticks, behind the first one. -/
def quotedIdentifier (cs : List Char) : Lexeme :=
  let body := Quoted.identifier cs
  let kind :=
    if !body.closed then .fault .unterminatedIdentifier
    else if body.text.isEmpty then .fault .emptyIdentifier
    else .identifier
  ⟨kind, body.text, body.cut.cons '`'⟩

/-- A comment through the end of the line, behind its opening characters. -/
def lineComment (lead cs : List Char) : Lexeme :=
  let body := Comment.line cs
  raw .comment ⟨lead ++ body.taken, body.rest⟩

def blockComment (cs : List Char) : Lexeme :=
  match Comment.block? cs with
  | some body => raw .comment ((body.cons '*').cons '/')
  | none => raw (.fault .unterminatedComment) ⟨'/' :: '*' :: cs, []⟩

def operator (o : Operator) (taken rest : List Char) : Lexeme := raw (.operator o) ⟨taken, rest⟩

/-- The characters that are tokens by themselves, unless they start a longer one. -/
def punctuation : List Char := "=,;()+*%^~[]:{}.&|!/-<>".toList

def single (c : Char) (cs : List Char) : Lexeme :=
  raw (if c ∈ punctuation then .punct c else .fault (.unexpectedCharacter c)) ⟨[c], cs⟩

/-- A lexeme that starts with neither a letter nor a number; longer spellings come first. -/
def symbol : List Char → Lexeme
  | [] => raw .endOfInput (.nothing [])
  | '#' :: cs => lineComment ['#'] cs
  | '/' :: '/' :: cs => lineComment ['/', '/'] cs
  | '-' :: '-' :: cs => lineComment ['-', '-'] cs
  | '/' :: '*' :: cs => blockComment cs
  | '\'' :: cs => string '\'' cs
  | '"' :: cs => string '"' cs
  | '`' :: cs => quotedIdentifier cs
  | '?' :: cs => raw .argument ⟨['?'], cs⟩
  | '&' :: '&' :: cs => operator .and ['&', '&'] cs
  | '|' :: '|' :: cs => operator .or ['|', '|'] cs
  | '!' :: '=' :: cs => operator .notEqual ['!', '='] cs
  | '<' :: '>' :: cs => operator .notEqual ['<', '>'] cs
  | '<' :: '<' :: cs => operator .shiftLeft ['<', '<'] cs
  | '<' :: '=' :: '>' :: cs => operator .nullSafeEqual ['<', '=', '>'] cs
  | '<' :: '=' :: cs => operator .lessEqual ['<', '='] cs
  | '>' :: '=' :: cs => operator .greaterEqual ['>', '='] cs
  | '>' :: '>' :: cs => operator .shiftRight ['>', '>'] cs
  | c :: cs => single c cs

/-- The lexeme at the front of a text that starts with no gap. -/
def ofText (cs : List Char) : Lexeme :=
  if cs.head?.any isLetter then wordLike cs
  else if Numeral.startsHere cs then number cs
  else symbol cs

@[simp] theorem cut_raw (kind : TokenKind) (cut : Cut) : (raw kind cut).cut = cut := rfl

@[simp] theorem whole_word (cs : List Char) : (word cs).cut.whole = cs := by simp [word]

@[simp] theorem whole_quotedDigits (radix : Radix) (kind : TokenKind) (fault : LexFault)
    (lead : Char) (cs : List Char) :
    (quotedDigits radix kind fault lead cs).cut.whole = lead :: '\'' :: cs := by
  have h := Numeral.whole_digits radix cs
  unfold quotedDigits
  dsimp only
  split
  · rename_i rest hr
    rw [Cut.whole, hr] at h
    simp [h]
  · simp

@[simp] theorem whole_wordLike (cs : List Char) : (wordLike cs).cut.whole = cs := by
  unfold wordLike
  split
  · split
    · simp
    · split <;> simp
  · simp

@[simp] theorem whole_number (cs : List Char) : (number cs).cut.whole = cs :=
  Numeral.whole_literal cs

@[simp] theorem whole_string (quote : Char) (cs : List Char) :
    (string quote cs).cut.whole = quote :: cs := by
  simp [string, Quoted.whole_string]

@[simp] theorem whole_quotedIdentifier (cs : List Char) :
    (quotedIdentifier cs).cut.whole = '`' :: cs := by
  simp [quotedIdentifier, Quoted.whole_identifier]

@[simp] theorem whole_lineComment (lead cs : List Char) :
    (lineComment lead cs).cut.whole = lead ++ cs := by
  have h := Comment.whole_line cs
  rw [Cut.whole] at h
  simp [lineComment, h]

@[simp] theorem whole_blockComment (cs : List Char) :
    (blockComment cs).cut.whole = '/' :: '*' :: cs := by
  unfold blockComment
  split
  · rename_i body h
    simp [Comment.whole_of_block? h]
  · simp

@[simp] theorem whole_symbol (cs : List Char) : (symbol cs).cut.whole = cs := by
  unfold symbol; split <;> simp [operator, single]

/-- A lexeme is a front of the text. -/
theorem whole_ofText (cs : List Char) : (ofText cs).cut.whole = cs := by
  unfold ofText; split
  · simp
  · split <;> simp

theorem taken_quotedDigits_ne_nil (radix : Radix) (kind : TokenKind) (fault : LexFault)
    (lead : Char) (cs : List Char) :
    (quotedDigits radix kind fault lead cs).cut.taken ≠ [] := by
  unfold quotedDigits; dsimp only; split <;> simp [Cut.cons]

theorem taken_wordLike_ne_nil {c : Char} {cs : List Char} (h : isLetter c = true) :
    (wordLike (c :: cs)).cut.taken ≠ [] := by
  have hw : (word (c :: cs)).cut.taken ≠ [] := by simp [word, Cut.span, isWordPart, h]
  unfold wordLike
  split
  · split
    · exact taken_quotedDigits_ne_nil _ _ _ _ _
    · split
      · exact taken_quotedDigits_ne_nil _ _ _ _ _
      · simp_all
  · exact hw

theorem taken_number_ne_nil {cs : List Char} (h : Numeral.startsHere cs = true) :
    (number cs).cut.taken ≠ [] := Numeral.taken_literal_ne_nil h

theorem taken_symbol_ne_nil {cs : List Char} (h : cs ≠ []) : (symbol cs).cut.taken ≠ [] := by
  unfold symbol
  split <;> simp_all [raw, operator, single, lineComment, string, quotedIdentifier, Cut.cons]
  unfold blockComment; split <;> simp [raw, Cut.cons]

/-- A text that has not ended starts with a lexeme of at least one character. -/
theorem taken_ofText_ne_nil {cs : List Char} (h : cs ≠ []) : (ofText cs).cut.taken ≠ [] := by
  unfold ofText
  split
  · obtain ⟨c, cs, rfl⟩ := List.exists_cons_of_ne_nil h
    exact taken_wordLike_ne_nil (by simpa using ‹_›)
  · split
    · exact taken_number_ne_nil ‹_›
    · exact taken_symbol_ne_nil h

theorem kind_wordLike_ne_endOfInput (cs : List Char) : (wordLike cs).kind ≠ .endOfInput := by
  have hw : ∀ cs, (word cs).kind ≠ .endOfInput := fun cs => by
    unfold word raw; dsimp only
    cases Keyword.ofWord? (String.ofList (Cut.span isWordPart cs).taken) <;> simp
  have hq : ∀ radix kind fault lead cs, kind ≠ .endOfInput →
      (quotedDigits radix kind fault lead cs).kind ≠ .endOfInput := by
    intro radix kind fault lead cs hk
    unfold quotedDigits; dsimp only
    split
    · dsimp only; split <;> simp [hk]
    · simp
  unfold wordLike
  split
  · split
    · exact hq _ _ _ _ _ (by simp)
    · split
      · exact hq _ _ _ _ _ (by simp)
      · exact hw _
  · exact hw _

theorem kind_number_ne_endOfInput (cs : List Char) : (number cs).kind ≠ .endOfInput := by
  have h := Numeral.kind_literal_ne_endOfInput cs
  unfold number raw; dsimp only
  split <;> simp [h]

theorem kind_symbol_ne_endOfInput {cs : List Char} (h : cs ≠ []) :
    (symbol cs).kind ≠ .endOfInput := by
  unfold symbol
  split <;> try simp_all [raw, operator, lineComment]
  · unfold blockComment; split <;> simp [raw]
  · unfold string; dsimp only; split <;> simp
  · unfold string; dsimp only; split <;> simp
  · unfold quotedIdentifier; dsimp only; split
    · simp
    · split <;> simp
  · unfold single raw; split <;> simp

/-- Only the end of a text is read as the end of the input. -/
theorem kind_ofText_eq_endOfInput_iff (cs : List Char) :
    (ofText cs).kind = .endOfInput ↔ cs = [] := by
  constructor
  · intro h
    by_cases hn : cs = []
    · exact hn
    · unfold ofText at h
      split at h
      · exact absurd h (kind_wordLike_ne_endOfInput cs)
      · split at h
        · exact absurd h (kind_number_ne_endOfInput cs)
        · exact absurd h (kind_symbol_ne_endOfInput hn)
  · rintro rfl; rfl

end Lexeme
end SqlComposer
