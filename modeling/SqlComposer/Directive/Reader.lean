import SqlComposer.Directive.Basic
import SqlComposer.Directive.Error

/-! Reading a directive block from a token stream. Each step takes the tokens it understands and
hands on the rest, or complains about the first token that cannot stand where it does. -/
namespace SqlComposer

namespace TokenStream

/-- The stream behind the next token, if that is what is asked for. -/
def expect (s : TokenStream) (what : Expected) : Except ParseError TokenStream :=
  if what.accepts s.current.kind then .ok s.next else .error (.unexpected what s.current)

theorem expect_eq_ok {s r : TokenStream} {what : Expected} (h : s.expect what = .ok r) :
    what.accepts s.current.kind = true ∧ r = s.next := by
  unfold expect at h; split at h
  · cases h; exact ⟨‹_›, rfl⟩
  · cases h

theorem size_expect_lt {s r : TokenStream} {what : Expected} (h : s.expect what = .ok r) :
    r.size < s.size := by
  obtain ⟨ha, rfl⟩ := expect_eq_ok h
  refine size_next_lt fun hk => ?_
  rw [hk, Expected.accepts_endOfInput] at ha
  cases ha

/-- Passes over tokens up to the next bracket or the end; malformed text cannot be passed. -/
def skipSection (s : TokenStream) : Except ParseError TokenStream :=
  (go s.pending).map fun ts => { s with pending := ts }
where
  go : List Token → Except ParseError (List Token)
    | [] => .ok []
    | t :: ts =>
      match t.kind with
      | .punct '[' => .ok (t :: ts)
      | .fault f => .error ⟨.lex f, t.start⟩
      | _ => go ts

theorem length_skipSection_go_le {ts r : List Token} (h : skipSection.go ts = .ok r) :
    r.length ≤ ts.length := by
  fun_induction skipSection.go ts with
  | case1 => cases h; exact Nat.le_refl _
  | case2 => cases h; exact Nat.le_refl _
  | case3 => cases h
  | case4 t ts _ _ ih => exact Nat.le_succ_of_le (ih h)

theorem size_skipSection_le {s r : TokenStream} (h : s.skipSection = .ok r) :
    r.size ≤ s.size := by
  unfold skipSection at h
  cases hg : skipSection.go s.pending with
  | error e => rw [hg] at h; cases h
  | ok ts => rw [hg] at h; cases h; exact length_skipSection_go_le hg

/-- Takes the strings that come next, joined by single spaces. -/
def takeStrings (s : TokenStream) : String × TokenStream :=
  let isString (t : Token) : Bool := t.kind = .string
  (" ".intercalate ((s.pending.takeWhile isString).map (·.text)),
    { s with pending := s.pending.dropWhile isString })

end TokenStream

/-- A step that ends well is made of steps that end well. -/
theorem exists_of_bind_eq_ok {ε α β : Type} {x : Except ε α} {f : α → Except ε β} {b : β}
    (h : x >>= f = .ok b) : ∃ a, x = .ok a ∧ f a = .ok b := by
  cases x with
  | error e => cases h
  | ok a => exact ⟨a, rfl, h⟩

/-- The source that a reference word announces. -/
def Source.ofWord? : TokenKind → Option (String → Source)
  | .keyword .sqlmFile => some .file
  | .keyword .sqlmRef => some .named
  | _ => none

namespace Entry

/-- One line: `- key : "value"`, `- key : sqlmfile("path")` or `- key : sqlmref("name")`. -/
def read (s : TokenStream) : Except ParseError (Entry × TokenStream) := do
  let key ← s.expect .dash
  let colon ← key.expect .key
  let value ← colon.expect .colon
  let rest ← value.expect .value
  match Source.ofWord? value.current.kind with
  | none => return (.keyword key.current.text value.current.text, rest)
  | some source =>
    let target ← rest.expect .openParen
    let close ← target.expect .string
    let rest ← close.expect .closeParen
    return (.reference ⟨key.current.text, source target.current.text⟩, rest)

theorem size_read_lt {s : TokenStream} {r : Entry × TokenStream} (h : read s = .ok r) :
    r.2.size < s.size := by
  unfold read at h
  obtain ⟨key, h₁, h⟩ := exists_of_bind_eq_ok h
  obtain ⟨colon, h₂, h⟩ := exists_of_bind_eq_ok h
  obtain ⟨value, h₃, h⟩ := exists_of_bind_eq_ok h
  obtain ⟨rest, h₄, h⟩ := exists_of_bind_eq_ok h
  have := TokenStream.size_expect_lt h₁
  have := TokenStream.size_expect_lt h₂
  have := TokenStream.size_expect_lt h₃
  have := TokenStream.size_expect_lt h₄
  split at h
  · cases h; dsimp only; omega
  · obtain ⟨target, h₅, h⟩ := exists_of_bind_eq_ok h
    obtain ⟨close, h₆, h⟩ := exists_of_bind_eq_ok h
    obtain ⟨rest, h₇, h⟩ := exists_of_bind_eq_ok h
    have := TokenStream.size_expect_lt h₅
    have := TokenStream.size_expect_lt h₆
    have := TokenStream.size_expect_lt h₇
    cases h; dsimp only; omega

/-- The lines of a section, as many as start with a dash. -/
def readAll (s : TokenStream) : Except ParseError (List Entry × TokenStream) :=
  if s.current.kind = .punct '-' then
    match _h : read s with
    | .error e => .error e
    | .ok (entry, rest) => (readAll rest).map fun (es, rest) => (entry :: es, rest)
  else .ok ([], s)
termination_by s.size
decreasing_by exact size_read_lt _h

theorem size_readAll_le {s : TokenStream} {r : List Entry × TokenStream} (h : readAll s = .ok r) :
    r.2.size ≤ s.size := by
  fun_induction readAll s generalizing r with
  | case1 => cases h
  | case2 s _ entry rest hr ih =>
    cases hm : readAll rest with
    | error e => rw [hm] at h; cases h
    | ok p =>
      have := ih hm
      rw [hm] at h; cases h
      exact Nat.le_trans this (Nat.le_of_lt (size_read_lt hr))
  | case3 => cases h; exact Nat.le_refl _

end Entry

/-- The first line of the script section, as far as it describes the script. A line that does
not is passed over and only remarked on. -/
inductive Description where
  | missing
  | notFirst (line : Token)
  | noColon (found : Token)
  | noText (found : Token)
  | text (s : String)
  deriving DecidableEq

namespace Description

/-- The line `- description : "..." "..."`. -/
def read (s : TokenStream) : Description × TokenStream :=
  if s.current.kind ≠ .punct '-' then (.missing, s)
  else if s.peek.kind ≠ .keyword .description then (.notFirst s.current, s)
  else
    let colon := s.next.next
    if colon.current.kind ≠ .punct ':' then (.noColon colon.current, colon)
    else if colon.peek.kind ≠ .string then (.noText colon.peek, colon.next)
    else
      let (words, rest) := colon.next.takeStrings
      (.text words, rest)

/-- The description of the script; empty if none could be read. -/
def value : Description → String
  | .text s => s
  | _ => ""

end Description

/-- A section behind the script section; one that is named for no environment is passed over. -/
inductive Section where
  | environment (e : Environment) (entries : List Entry)
  | unknown (head : Token)
  deriving DecidableEq

namespace Section

def apply (d : Directives) : Section → Directives
  | .environment e entries => d.addEntries e entries
  | .unknown _ => d

/-- The rest of an environment's section, behind its name. -/
def readLines (s : TokenStream) : Except ParseError (List Entry × TokenStream) := do
  Entry.readAll (← s.expect .closeBracket)

theorem size_readLines_lt {s : TokenStream} {r : List Entry × TokenStream}
    (h : readLines s = .ok r) : r.2.size < s.size := by
  obtain ⟨lines, h₁, h₂⟩ := exists_of_bind_eq_ok h
  exact Nat.lt_of_le_of_lt (Entry.size_readAll_le h₂) (TokenStream.size_expect_lt h₁)

/-- The sections up to the end of the block, and the stream at the block's last bracket. Sections
read before a complaint are kept with it. -/
def readAll (s : TokenStream) : List Section × Except ParseError TokenStream :=
  if s.current.kind = .endOfInput then
    ([], .error ⟨.unterminatedBlock, s.current.start⟩)
  else
    match _ho : s.expect .openBracket with
    | .error e => ([], .error e)
    | .ok inner =>
      match inner.current.kind with
      | .keyword .sqlmEnd => ([], (inner.next.expect .closeBracket).map fun _ => inner.next)
      | .keyword (.environment e) =>
        match _hl : readLines inner.next with
        | .error err => ([], .error err)
        | .ok (entries, rest) =>
          let more := readAll rest
          (.environment e entries :: more.1, more.2)
      | _ =>
        match _hs : inner.skipSection with
        | .error e => ([.unknown inner.current], .error e)
        | .ok rest =>
          let more := readAll rest
          (.unknown inner.current :: more.1, more.2)
termination_by s.size
decreasing_by
  · have := TokenStream.size_expect_lt _ho
    have := TokenStream.size_next_le inner
    have := size_readLines_lt _hl
    dsimp only at this
    omega
  · exact Nat.lt_of_le_of_lt (TokenStream.size_skipSection_le _hs) (TokenStream.size_expect_lt _ho)

end Section
end SqlComposer
