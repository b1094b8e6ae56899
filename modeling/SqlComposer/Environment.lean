import SqlComposer.Text.Case

/-! The deployment environments a script is composed for, and their names. -/
namespace SqlComposer

inductive Environment where
  | development | production | localMachine | integration
  deriving DecidableEq, Repr, Inhabited

namespace Environment

/-- In the order in which their sections are written. -/
def all : List Environment := [.development, .production, .localMachine, .integration]

theorem mem_all (e : Environment) : e ∈ all := by cases e <;> decide

def name : Environment → String
  | .development => "dev"
  | .production => "prod"
  | .localMachine => "local"
  | .integration => "int"

/-- The environment of a name, in any letter case. -/
def ofName? (s : String) : Option Environment :=
  all.find? fun e => e.name = Text.lowerString s

/-- What is said of a name that names no environment. -/
def unknownMessage (s : String) : String :=
  s!"unknown environment '{s}', expected one of " ++ ", ".intercalate (all.map name)

end Environment

/-- One value for each environment. -/
structure PerEnvironment (α : Type) where
  development : α
  production : α
  localMachine : α
  integration : α
  deriving DecidableEq, Repr

namespace PerEnvironment
variable {α : Type}

/-- The same value everywhere. -/
def const (a : α) : PerEnvironment α := ⟨a, a, a, a⟩

def get (p : PerEnvironment α) : Environment → α
  | .development => p.development
  | .production => p.production
  | .localMachine => p.localMachine
  | .integration => p.integration

def set (p : PerEnvironment α) (e : Environment) (a : α) : PerEnvironment α :=
  match e with
  | .development => { p with development := a }
  | .production => { p with production := a }
  | .localMachine => { p with localMachine := a }
  | .integration => { p with integration := a }

/-- Changes the value of one environment. -/
def modify (p : PerEnvironment α) (e : Environment) (f : α → α) : PerEnvironment α :=
  p.set e (f (p.get e))

@[simp] theorem get_const (a : α) (e : Environment) : (const a).get e = a := by
  cases e <;> rfl

theorem get_set (p : PerEnvironment α) (e e' : Environment) (a : α) :
    (p.set e a).get e' = if e' = e then a else p.get e' := by
  cases e <;> cases e' <;> rfl

theorem get_modify (p : PerEnvironment α) (e e' : Environment) (f : α → α) :
    (p.modify e f).get e' = if e' = e then f (p.get e') else p.get e' := by
  rw [modify, get_set]
  split
  · subst e'; rfl
  · rfl

theorem ext_get {p q : PerEnvironment α} (h : ∀ e, p.get e = q.get e) : p = q := by
  have h₁ := h .development
  have h₂ := h .production
  have h₃ := h .localMachine
  have h₄ := h .integration
  cases p; cases q; simp_all [get]

end PerEnvironment
end SqlComposer
