import SqlComposer.Token.Lexeme

/-! Reading a text token by token. A cursor stands at a place of the text; `scan` reads the next
token and moves behind it, and at the end it stays. Every scan before the end makes the rest
shorter, so `run` comes to the end. -/
namespace SqlComposer

/-- What is left of a text, where that begins, and how many `?` have been numbered. -/
structure Cursor where
  rest : List Char
  position : Position := {}
  arguments : Nat := 0
  deriving DecidableEq

namespace Cursor

/-- The start of a text. A byte order mark counts in offsets, but not in columns. -/
def ofText (text : String) : Cursor :=
  match text.toList with
  | '\ufeff' :: cs => { rest := cs, position := { offset := 3 } }
  | cs => { rest := cs }

def argumentName (n : Nat) : String := s!":v{n}"

/-- The next token, and the cursor behind it. -/
def scan (c : Cursor) : Token × Cursor :=
  let gap := Comment.gap c.rest
  let lexeme := Lexeme.ofText gap.rest
  let start := c.position.advanceOver gap.taken
  let behind := start.advanceOver lexeme.cut.taken
  if lexeme.kind = .argument then
    let n := c.arguments + 1
    (⟨.argument, argumentName n, start⟩, ⟨lexeme.cut.rest, behind, n⟩)
  else
    (⟨lexeme.kind, String.ofList lexeme.text, start⟩, ⟨lexeme.cut.rest, behind, c.arguments⟩)

theorem kind_scan (c : Cursor) :
    c.scan.1.kind = (Lexeme.ofText (Comment.gap c.rest).rest).kind := by
  unfold scan; dsimp only; split <;> simp_all

theorem rest_scan (c : Cursor) :
    c.scan.2.rest = (Lexeme.ofText (Comment.gap c.rest).rest).cut.rest := by
  unfold scan; dsimp only; split <;> rfl

/-- Gap, token and rest make up the text. -/
theorem gap_append_token_append_rest (c : Cursor) :
    (Comment.gap c.rest).taken ++
      ((Lexeme.ofText (Comment.gap c.rest).rest).cut.taken ++ c.scan.2.rest) = c.rest := by
  have hl := Lexeme.whole_ofText (Comment.gap c.rest).rest
  have hg := Comment.whole_gap c.rest
  rw [Cut.whole] at hl hg
  rw [rest_scan, hl, hg]

/-- Only the end of a text stops the scan from moving on. -/
theorem length_rest_scan_lt {c : Cursor} (h : c.scan.1.kind ≠ .endOfInput) :
    c.scan.2.rest.length < c.rest.length := by
  have hl := congrArg List.length (gap_append_token_append_rest c)
  rw [kind_scan, ne_eq, Lexeme.kind_ofText_eq_endOfInput_iff] at h
  have ht := List.length_pos_iff.2 (Lexeme.taken_ofText_ne_nil h)
  simp only [List.length_append] at hl
  omega

/-- The tokens through the end of the input, each with the cursor behind it. -/
def run (c : Cursor) : List (Token × Cursor) :=
  if c.scan.1.kind = .endOfInput then [c.scan] else c.scan :: c.scan.2.run
termination_by c.rest.length
decreasing_by exact length_rest_scan_lt ‹_›

theorem scan_of_endOfInput {c : Cursor} (h : c.scan.1.kind = .endOfInput) :
    c.scan.1 = .atEnd c.scan.1.start := by
  rw [kind_scan, Lexeme.kind_ofText_eq_endOfInput_iff] at h
  simp only [scan, h]
  rfl

/-- A run ends with the end of the input, which it comes to nowhere else. -/
theorem exists_run (c : Cursor) :
    ∃ ts p, c.run.map (·.1) = ts ++ [.atEnd p] ∧ ∀ t ∈ ts, t.kind ≠ .endOfInput := by
  fun_induction run c with
  | case1 c h => exact ⟨[], c.scan.1.start, congrArg ([·]) (scan_of_endOfInput h), by simp⟩
  | case2 c h ih =>
    obtain ⟨ts, p, hrun, hts⟩ := ih
    exact ⟨c.scan.1 :: ts, p, by rw [List.map_cons, hrun]; rfl, List.forall_mem_cons.2 ⟨h, hts⟩⟩

end Cursor
end SqlComposer
