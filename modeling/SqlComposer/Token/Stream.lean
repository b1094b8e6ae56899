import SqlComposer.Token.Cursor

/-! The tokens of a text as one list. `tokenize` keeps comments and refuses malformed text; a
stream drops comments and keeps faults, since its reader may never come to them. -/
namespace SqlComposer

/-- The tokens of a text, the end of the input last. -/
def Token.ofText (text : String) : List Token := (Cursor.ofText text).run.map (·.1)

/-- The tokens of a text with no fault in it, or its first fault. -/
def tokenize (text : String) : Except LexError (List Token) :=
  (Token.ofText text).dropLast.mapM fun t =>
    match t.kind with
    | .fault f => .error ⟨f, t.start⟩
    | _ => .ok t

/-- Tokens that wait to be read, and the place where the text ends. -/
structure TokenStream where
  pending : List Token
  finish : Position
  deriving DecidableEq

namespace TokenStream

def ofText (text : String) : TokenStream :=
  let tokens := Token.ofText text
  { pending := tokens.dropLast.filter (·.kind ≠ .comment)
    finish := (tokens.getLast?.map (·.start)).getD {} }

/-- The next token to be read; behind the last one, the end of the input again and again. -/
def current (s : TokenStream) : Token := s.pending.headD (.atEnd s.finish)

def next (s : TokenStream) : TokenStream := { s with pending := s.pending.tail }

/-- The token behind the next one. -/
def peek (s : TokenStream) : Token := s.next.current

@[simp] theorem current_cons (t : Token) (ts : List Token) (p : Position) :
    (TokenStream.mk (t :: ts) p).current = t := rfl

@[simp] theorem current_nil (p : Position) : (TokenStream.mk [] p).current = .atEnd p := rfl

@[simp] theorem next_cons (t : Token) (ts : List Token) (p : Position) :
    (TokenStream.mk (t :: ts) p).next = ⟨ts, p⟩ := rfl

@[simp] theorem next_nil (p : Position) : (TokenStream.mk [] p).next = ⟨[], p⟩ := rfl

def size (s : TokenStream) : Nat := s.pending.length

theorem size_next_le (s : TokenStream) : s.next.size ≤ s.size := by
  simp [size, next]

theorem size_next_lt {s : TokenStream} (h : s.current.kind ≠ .endOfInput) :
    s.next.size < s.size := by
  obtain ⟨_ | ⟨t, ts⟩, p⟩ := s
  · exact absurd rfl h
  · simp [size]

end TokenStream
end SqlComposer
