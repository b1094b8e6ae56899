import SqlComposer.Environment

/-! Keywords: the words of directive blocks, and the reserved words of SQL, which matter to a
directive block only in that they may name an entry. -/
namespace SqlComposer

/-- The reserved words of SQL that are told apart from identifiers. -/
def sqlWords : List String :=
  ["select", "from", "where", "insert", "into", "values", "update", "set", "delete", "create",
   "alter", "drop", "table", "view", "index", "join", "left", "right", "inner", "outer", "on",
   "as", "and", "or", "not", "null", "is", "in", "like", "between", "exists", "distinct", "group",
   "order", "by", "having", "limit", "offset", "union", "all", "with", "case", "when", "then",
   "else", "end", "asc", "desc"]

def SqlWord : Type := { w : String // w ∈ sqlWords }

instance : DecidableEq SqlWord := inferInstanceAs (DecidableEq (Subtype _))

inductive Keyword where
  | sqlmBegin | sqlmEnd | script | name | description
  | environment (e : Environment)
  | sqlmRef | sqlmFile
  | sql (w : SqlWord)
  deriving DecidableEq

namespace Keyword

/-- The spelling in small letters. -/
def spelling : Keyword → String
  | .sqlmBegin => "sqlmbegin"
  | .sqlmEnd => "sqlmend"
  | .script => "script"
  | .name => "name"
  | .description => "description"
  | .environment e => e.name
  | .sqlmRef => "sqlmref"
  | .sqlmFile => "sqlmfile"
  | .sql w => w.val

/-- The keywords of directive blocks. -/
def directive : List Keyword :=
  [.sqlmBegin, .sqlmEnd, .script, .name, .description] ++
    Environment.all.map .environment ++ [.sqlmRef, .sqlmFile]

/-- The keyword that a word spells, in any letter case. -/
def ofWord? (word : String) : Option Keyword :=
  let w := Text.lowerString word
  match directive.find? (·.spelling = w) with
  | some k => some k
  | none => if h : w ∈ sqlWords then some (.sql ⟨w, h⟩) else none

theorem sqlWords_plain :
    ∀ w ∈ sqlWords, Text.lowerString w = w ∧ directive.find? (·.spelling = w) = none := by
  decide

/-- Spellings are told apart, so a keyword is found under its own. -/
theorem ofWord?_spelling (k : Keyword) : ofWord? k.spelling = some k := by
  cases k with
  | sql w =>
    obtain ⟨hl, hd⟩ := sqlWords_plain w.val w.property
    have hs : (Keyword.sql w).spelling = w.val := rfl
    simp only [hs, ofWord?, hl, hd, w.property, dite_true]
    rfl
  | environment e => cases e <;> decide
  | _ => decide

end Keyword
end SqlComposer
