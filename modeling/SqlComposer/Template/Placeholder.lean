import SqlComposer.Template.Basic
import SqlComposer.Text.Cut
import SqlComposer.Text.Decimal

/-! Reading what stands between the braces of a placeholder. -/
namespace SqlComposer.Template

inductive Word where
  | name (s : String)
  | integer (digits : List Char)
  | literal (s : List Char)
  | dot
  | minus
  deriving DecidableEq

/-- The closing braces; a mark before them belongs to them, and a minus takes the white space
behind them away. -/
def closing? : List Char → Option (Bool × List Char)
  | '}' :: '}' :: cs => some (false, cs)
  | '-' :: '}' :: '}' :: cs => some (true, cs)
  | '+' :: '}' :: '}' :: cs => some (false, cs)
  | _ => none

/-- The next word of a text that starts with no separator. -/
def word? : List Char → Option (Word × List Char)
  | [] => none
  | '.' :: cs => some (.dot, cs)
  | '-' :: cs => some (.minus, cs)
  | c :: cs =>
    if c = '\'' || c = '"' then
      let body := Cut.span (· ≠ c) cs
      match body.rest with
      | [] => none
      | _ :: rest => some (.literal body.taken, rest)
    else if startsName c then
      let cut := Cut.span isNamePart cs
      some (.name (String.ofList (c :: cut.taken)), cut.rest)
    else if c.isDigit then
      let cut := Cut.span Char.isDigit cs
      some (.integer (c :: cut.taken), cut.rest)
    else none

theorem length_rest_span_le (p : Char → Bool) (cs : List Char) :
    (Cut.span p cs).rest.length ≤ cs.length := by
  have h := congrArg List.length (Cut.whole_span p cs)
  simp only [Cut.whole, List.length_append] at h
  omega

theorem length_word?_lt {cs : List Char} {r : Word × List Char} (h : word? cs = some r) :
    r.2.length < cs.length := by
  unfold word? at h
  split at h
  · cases h
  · cases h; simp
  · cases h; simp
  · rename_i c cs _ _
    split at h
    · have hl := length_rest_span_le (· ≠ c) cs
      dsimp only at h
      split at h
      · cases h
      · rename_i hr
        cases h
        rw [hr] at hl
        simp only [List.length_cons] at hl ⊢
        omega
    · split at h
      · cases h; exact Nat.lt_succ_of_le (length_rest_span_le ..)
      · split at h
        · cases h; exact Nat.lt_succ_of_le (length_rest_span_le ..)
        · cases h

def skipSeparators (cs : List Char) : List Char := (Cut.span isSeparator cs).rest

/-- The words up to the closing braces, what these do to the text behind them, and that text. -/
def words? (cs : List Char) : Option (List Word × Bool × List Char) :=
  match closing? (skipSeparators cs) with
  | some (trim, rest) => some ([], trim, rest)
  | none =>
    match _h : word? (skipSeparators cs) with
    | none => none
    | some (w, rest) => (words? rest).map fun (ws, r) => (w :: ws, r)
termination_by cs.length
decreasing_by exact Nat.lt_of_lt_of_le (length_word?_lt _h) (length_rest_span_le ..)

theorem length_closing?_le {cs : List Char} {r : Bool × List Char} (h : closing? cs = some r) :
    r.2.length ≤ cs.length := by
  unfold closing? at h
  split at h
  · cases h; simp only [List.length_cons]; omega
  · cases h; simp only [List.length_cons]; omega
  · cases h; simp only [List.length_cons]; omega
  · cases h

theorem length_words?_le {cs : List Char} {r : List Word × Bool × List Char}
    (h : words? cs = some r) : r.2.2.length ≤ cs.length := by
  fun_induction words? cs generalizing r with
  | case1 cs trim rest hc =>
    cases h
    exact Nat.le_trans (length_closing?_le hc) (length_rest_span_le ..)
  | case2 => cases h
  | case3 cs _ w rest hw ih =>
    obtain ⟨q, hq, rfl⟩ := Option.map_eq_some_iff.1 h
    have h₁ := ih hq
    have h₂ := Nat.lt_of_lt_of_le (length_word?_lt hw) (length_rest_span_le ..)
    dsimp only at h₁ h₂ ⊢
    omega

/-- The names behind dots. -/
def attributes? : List Word → Option (List String)
  | [] => some []
  | .dot :: .name n :: ws => (attributes? ws).map (n :: ·)
  | _ => none

/-- Literals side by side are one; the words behind them follow. -/
def literals : List Word → List Char × List Word
  | .literal s :: ws => (s ++ (literals ws).1, (literals ws).2)
  | ws => ([], ws)

/-- The name that only ever negates where an expression starts. -/
def negation : String := "not"

/-- The first number that is too great for an integer. -/
def integerLimit : Nat := Nat.pow 2 128

/-- The integer of decimal digits. -/
def integer? (ds : List Char) : Option Nat :=
  let n := Text.natOfDigits ds
  if n < integerLimit then some n else none

/-- The operand at the front of some words, and the words behind it, of which there are none if it
is an integer. -/
def operand? (signed : Bool) : List Word → Option (Operand × List Word)
  | [.integer ds] => (integer? ds).map fun n => (.integer n, [])
  | .name n :: ws => if n = negation && !signed then none else some (.name n, ws)
  | .literal s :: ws =>
    some (.literal (String.ofList (literals (.literal s :: ws)).1), (literals ws).2)
  | _ => none

/-- The expression that the words make up, if they make up one. -/
def Expr.ofWords? (ws : List Word) : Option Expr := do
  let signs := ws.takeWhile (· = .minus)
  let (operand, rest) ← operand? (!signs.isEmpty) (ws.dropWhile (· = .minus))
  return ⟨signs.length, operand, ← attributes? rest⟩

end SqlComposer.Template
