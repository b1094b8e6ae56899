/-! A text cut in two, what a reader took and what it left. Readers that lose nothing are put
together by `andThen`, and `whole` says that nothing is lost. -/
namespace SqlComposer

/-- What a reader took from the front of a text, and the rest. -/
structure Cut where
  taken : List Char
  rest : List Char
  deriving DecidableEq, Repr

namespace Cut

/-- The text that was cut. -/
def whole (c : Cut) : List Char := c.taken ++ c.rest

def nothing (cs : List Char) : Cut := ⟨[], cs⟩

/-- Takes the longest front whose characters all satisfy `p`. -/
def span (p : Char → Bool) (cs : List Char) : Cut := ⟨cs.takeWhile p, cs.dropWhile p⟩

def optional (p : Char → Bool) : List Char → Cut
  | [] => nothing []
  | c :: cs => if p c then ⟨[c], cs⟩ else nothing (c :: cs)

/-- Puts a character in front of what was taken. -/
def cons (x : Char) (c : Cut) : Cut := ⟨x :: c.taken, c.rest⟩

/-- Goes on reading where `c` stopped. -/
def andThen (c : Cut) (next : List Char → Cut) : Cut :=
  ⟨c.taken ++ (next c.rest).taken, (next c.rest).rest⟩

@[simp] theorem whole_mk (xs ys : List Char) : (Cut.mk xs ys).whole = xs ++ ys := rfl

@[simp] theorem whole_none (cs : List Char) : (nothing cs).whole = cs := rfl

@[simp] theorem whole_span (p : Char → Bool) (cs : List Char) : (span p cs).whole = cs :=
  List.takeWhile_append_dropWhile

@[simp] theorem whole_optional (p : Char → Bool) (cs : List Char) :
    (optional p cs).whole = cs := by
  cases cs with
  | nil => rfl
  | cons c cs => by_cases h : p c <;> simp [optional, h]

@[simp] theorem whole_cons (x : Char) (c : Cut) : (c.cons x).whole = x :: c.whole := rfl

theorem whole_andThen (c : Cut) (next : List Char → Cut) (h : ∀ cs, (next cs).whole = cs) :
    (c.andThen next).whole = c.whole := by
  have hn := h c.rest
  simp only [whole, andThen] at hn ⊢
  rw [List.append_assoc, hn]

end Cut
end SqlComposer
