import SqlComposer.Template.Placeholder
import SqlComposer.Text.WhiteSpace

/-! Reading a template for the small engine, with the marks that this library asks for. A tag may take
white space around it away. What opens a block is known, but no block is. -/
namespace SqlComposer.Template

inductive TagKind where
  | block
  | placeholder
  | comment
  deriving DecidableEq

/-- A tag's opening: what it opens, whether it takes the white space before it away, and the
text behind it. -/
structure Opening where
  kind : TagKind
  trim : Bool
  rest : List Char
  deriving DecidableEq

namespace Opening

/-- A mark directly behind the opening characters belongs to them. -/
def ofRest (kind : TagKind) : List Char → Opening
  | '-' :: cs => ⟨kind, true, cs⟩
  | '+' :: cs => ⟨kind, false, cs⟩
  | cs => ⟨kind, false, cs⟩

theorem length_ofRest_le (kind : TagKind) (cs : List Char) :
    (ofRest kind cs).rest.length ≤ cs.length := by
  unfold ofRest; split <;> simp

/-- The text before the first tag, and its opening, if there is one. -/
def find : List Char → List Char × Option Opening
  | [] => ([], none)
  | '\x7b' :: '\x7b' :: cs => ([], some (ofRest .placeholder cs))
  | '\x00' :: '\x7b' :: '#' :: cs => ([], some (ofRest .comment cs))
  | '\x00' :: '\x7b' :: '%' :: cs => ([], some (ofRest .block cs))
  | c :: cs => (c :: (find cs).1, (find cs).2)

theorem length_find_lt {cs : List Char} {o : Opening} (h : (find cs).2 = some o) :
    o.rest.length < cs.length := by
  fun_induction find cs with
  | case1 => cases h
  | case2 cs =>
    cases h
    have := length_ofRest_le .placeholder cs
    simp only [List.length_cons]; omega
  | case3 cs =>
    cases h
    have := length_ofRest_le .comment cs
    simp only [List.length_cons]; omega
  | case4 cs =>
    cases h
    have := length_ofRest_le .block cs
    simp only [List.length_cons]; omega
  | case5 c cs _ _ _ ih => exact Nat.lt_succ_of_lt (ih h)

end Opening

/-- The text behind a comment, and whether white space is taken away there. -/
def comment? : List Char → Option (Bool × List Char)
  | '-' :: '#' :: '\x7d' :: '\x00' :: cs => some (true, cs)
  | '#' :: '\x7d' :: '\x00' :: cs => some (false, cs)
  | _ :: cs => comment? cs
  | [] => none

theorem length_comment?_le {cs : List Char} {r : Bool × List Char} (h : comment? cs = some r) :
    r.2.length ≤ cs.length := by
  fun_induction comment? cs with
  | case1 cs => cases h; simp only [List.length_cons]; omega
  | case2 cs => cases h; simp only [List.length_cons]; omega
  | case3 c cs _ _ ih => exact Nat.le_succ_of_le (ih h)
  | case4 => cases h

/-- A tag behind its opening: its expression, if it has one, what it does to the text behind it,
and that text. -/
def tag? (o : Opening) : Option (Option Expr × Bool × List Char) :=
  match o.kind with
  | .block => none
  | .comment => (comment? o.rest).map fun r => (none, r)
  | .placeholder => do
    let (ws, r) ← words? o.rest
    let e ← Expr.ofWords? ws
    return (some e, r)

theorem length_tag?_le {o : Opening} {r : Option Expr × Bool × List Char} (h : tag? o = some r) :
    r.2.2.length ≤ o.rest.length := by
  unfold tag? at h
  split at h
  · cases h
  · obtain ⟨q, hq, rfl⟩ := Option.map_eq_some_iff.1 h
    exact length_comment?_le hq
  · obtain ⟨⟨ws, q⟩, hq, h⟩ := Option.bind_eq_some_iff.1 h
    obtain ⟨e, _, h⟩ := Option.bind_eq_some_iff.1 h
    cases h
    exact length_words?_le hq

/-- The text behind a tag, which may take white space away. -/
def behind (trim : Bool) (cs : List Char) : List Char := if trim then Text.trimStart cs else cs

theorem length_behind_le (trim : Bool) (cs : List Char) :
    (behind trim cs).length ≤ cs.length := by
  unfold behind; split
  · exact length_rest_span_le Text.isWhiteSpace cs
  · exact Nat.le_refl _

/-- The segments of a template; `trim` says that a tag before it takes white space away. -/
def segments? (trim : Bool) (cs : List Char) : Option (List Segment) :=
  match _hf : Opening.find (behind trim cs) with
  | (lead, none) => some [.text (String.ofList lead)]
  | (lead, some o) =>
    let text := if o.trim then Text.trimEnd lead else lead
    match _ht : tag? o with
    | none => none
    | some (e, trim, rest) =>
      (segments? trim rest).map fun ss =>
        .text (String.ofList text) :: ((e.map Segment.placeholder).toList ++ ss)
termination_by cs.length
decreasing_by
  have h₁ := length_tag?_le _ht
  have h₂ := Opening.length_find_lt (congrArg Prod.snd _hf)
  exact Nat.lt_of_le_of_lt h₁ (Nat.lt_of_lt_of_le h₂ (length_behind_le ..))

/-- Reads a template. One fault anywhere spoils the whole. -/
def ofText (text : String) : Except TemplateFault (List Segment) :=
  match segments? false text.toList with
  | some ss => .ok ss
  | none => .error .malformed

/-- The small engine. It has no settings but those of this library. -/
def small : Engine where
  render s context text :=
    if s = settings then ofText text >>= renderSegments context else .error (.other "InvalidDelimiter")

end SqlComposer.Template
