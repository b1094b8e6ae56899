import SqlComposer.Directive.Script

/-! The grammar of directive blocks, over the tokens of a script without its comments, and what a
block says. -/
namespace SqlComposer

/-- The tokens that a reader of directives comes to, the end of the input last. -/
def significant (text : String) : List Token := (Token.ofText text).filter (·.kind ≠ .comment)

def kinds (ts : List Token) : List TokenKind := ts.map (·.kind)

/-- What may be passed over. -/
def TokenKind.IsSkip (k : TokenKind) : Prop :=
  k ≠ .punct '[' ∧ k ≠ .endOfInput ∧ ∀ f, k ≠ .fault f

/-- What may name an entry. -/
def TokenKind.IsKey (k : TokenKind) : Prop := k = .identifier ∨ ∃ w, k = .keyword w

/-- What ends the passing over of sections where it comes behind a bracket. -/
def TokenKind.IsKnown (k : TokenKind) : Prop :=
  k = .keyword .sqlmEnd ∨ ∃ e, k = .keyword (.environment e)

/-- Any number of pieces of a form, one behind the other. -/
inductive Many {α : Type} (Form : List Token → α → Prop) : List Token → List α → Prop
  | nil : Many Form [] []
  | cons {ts us : List Token} {a : α} {as : List α} :
      Form ts a → Many Form us as → Many Form (ts ++ us) (a :: as)

/-- The forms of a line. -/
inductive Entry.Form : List Token → Entry → Prop
  | keyword {dash key colon value : Token} :
      kinds [dash, colon, value] = [.punct '-', .punct ':', .string] → key.kind.IsKey →
      Form [dash, key, colon, value] (.keyword key.text value.text)
  | named {dash key colon word left target right : Token} :
      kinds [dash, colon, word, left, target, right] =
        [.punct '-', .punct ':', .keyword .sqlmRef, .punct '(', .string, .punct ')'] →
      key.kind.IsKey →
      Form [dash, key, colon, word, left, target, right] (.reference ⟨key.text, .named target.text⟩)
  | file {dash key colon word left target right : Token} :
      kinds [dash, colon, word, left, target, right] =
        [.punct '-', .punct ':', .keyword .sqlmFile, .punct '(', .string, .punct ')'] →
      key.kind.IsKey →
      Form [dash, key, colon, word, left, target, right] (.reference ⟨key.text, .file target.text⟩)

/-- The forms of a section, with the lines that it says for its environment. -/
inductive Section.Form : List Token → List (Environment × Entry) → Prop
  | environment {left word right : Token} {e : Environment} {ts : List Token} {es : List Entry} :
      kinds [left, word, right] = [.punct '[', .keyword (.environment e), .punct ']'] →
      Many Entry.Form ts es → Form (left :: word :: right :: ts) (es.map (e, ·))
  | unknown {left : Token} {skips : List Token} :
      left.kind = .punct '[' → (∀ t ∈ skips, t.kind.IsSkip) →
      (∀ t ∈ skips.head?, ¬ t.kind.IsKnown) → Form (left :: skips) []

/-- The description that stands at the front of some tokens: all strings behind the colon. -/
def describedBy : List Token → String
  | dash :: word :: colon :: ts =>
    if kinds [dash, word, colon] = [.punct '-', .keyword .description, .punct ':'] then
      " ".intercalate ((ts.takeWhile (·.kind = .string)).map (·.text))
    else ""
  | _ => ""

/-- The form of a block, with its description and the lines of all its sections. -/
inductive Script.Form : List Token → String → List (Environment × Entry) → Prop
  | mk {header skips sections footer : List Token} {parts : List (List (Environment × Entry))} :
      kinds header =
        [.punct '[', .keyword .sqlmBegin, .punct ']', .punct '[', .keyword .script, .punct ']'] →
      (∀ t ∈ skips, t.kind.IsSkip) → Many Section.Form sections parts →
      kinds footer = [.punct '[', .keyword .sqlmEnd, .punct ']'] →
      Form (header ++ skips ++ sections ++ footer) (describedBy skips) parts.flatten

/-- The keyword that a line gives for an environment. -/
def Entry.literalFor? (e : Environment) : Environment × Entry → Option (String × String)
  | (e', .keyword key value) => if e' = e then some (key, value) else none
  | (_, .reference _) => none

/-- The reference that a line gives for an environment. -/
def Entry.referenceFor? (e : Environment) : Environment × Entry → Option Reference
  | (e', .reference r) => if e' = e then some r else none
  | (_, .keyword _ _) => none

/-- Directives say what some lines do: of the keywords the last one of each key, and all references
in their order. -/
structure Directives.Says (d : Directives) (description : String)
    (lines : List (Environment × Entry)) : Prop where
  name : d.name = ""
  description : d.description = description
  keywords : ∀ e key, (d.block e).keywords.get? key =
    ((lines.filterMap (Entry.literalFor? e)).reverse).lookup key
  references : ∀ e, (d.block e).references = lines.filterMap (Entry.referenceFor? e)

/-- Whether tokens begin like a block. -/
def BeginsBlock (ts : List Token) : Prop :=
  kinds (ts.take 2) = [.punct '[', .keyword .sqlmBegin]

/-- Directives that say the same are the same. -/
theorem Directives.Says.unique {d d' : Directives} {description : String}
    {lines : List (Environment × Entry)} (h : d.Says description lines)
    (h' : d'.Says description lines) : d = d' := by
  obtain ⟨name, text, blocks⟩ := d
  obtain ⟨name', text', blocks'⟩ := d'
  have hb : blocks = blocks' := PerEnvironment.ext_get fun e => by
    have hk : (blocks.get e).keywords = (blocks'.get e).keywords :=
      Bindings.ext_get? fun key => (h.keywords e key).trans (h'.keywords e key).symm
    have hr : (blocks.get e).references = (blocks'.get e).references :=
      (h.references e).trans (h'.references e).symm
    cases hx : blocks.get e
    cases hy : blocks'.get e
    simp_all
  have hn := h.name.trans h'.name.symm
  have ht := h.description.trans h'.description.symm
  simp only at hn ht
  rw [hn, ht, hb]

end SqlComposer
