import SqlComposer.Text.Case
import SqlComposer.Text.Cut
import SqlComposer.Token.Character

/-! Comments, and the one block comment that is none: the `/*` in front of a directive block
only belongs to the gap before the block's first bracket. -/
namespace SqlComposer.Comment

/-- Through the end of the line. -/
def line : List Char → Cut
  | [] => .nothing []
  | '\n' :: cs => ⟨['\n'], cs⟩
  | c :: cs => (line cs).cons c

/-- Through the first `*/`, if there is one. -/
def block? : List Char → Option Cut
  | '*' :: '/' :: cs => some ⟨['*', '/'], cs⟩
  | c :: cs => (block? cs).map (Cut.cons c)
  | [] => none

/-- The word behind the bracket of a directive block. -/
def blockWord : List Char := "sqlmbegin".toList

/-- Whether the text starts with `[sqlmbegin`, in any letter case. -/
def opensBlock : List Char → Bool
  | '[' :: cs => Text.lower (cs.take blockWord.length) = blockWord
  | _ => false

/-- A `/*` and blanks, where a directive block follows them. -/
def opener : List Char → Cut
  | '/' :: '*' :: cs =>
    let gap := Cut.span isBlank cs
    if opensBlock gap.rest then (gap.cons '*').cons '/' else .nothing ('/' :: '*' :: cs)
  | cs => .nothing cs

/-- What stands before a token and belongs to none. -/
def gap (cs : List Char) : Cut := (Cut.span isBlank cs).andThen opener

@[simp] theorem whole_line (cs : List Char) : (line cs).whole = cs := by
  fun_induction line cs <;> simp_all

theorem whole_of_block? {cs : List Char} {c : Cut} (h : block? cs = some c) : c.whole = cs := by
  fun_induction block? cs generalizing c with
  | case1 cs => cases h; rfl
  | case2 x cs _ ih =>
    obtain ⟨d, hd, rfl⟩ := Option.map_eq_some_iff.1 h
    simp [ih hd]
  | case3 => cases h

@[simp] theorem whole_opener (cs : List Char) : (opener cs).whole = cs := by
  unfold opener
  split
  · dsimp only; split <;> simp
  · simp

@[simp] theorem whole_gap (cs : List Char) : (gap cs).whole = cs := by
  simp [gap, Cut.whole_andThen]

end SqlComposer.Comment
