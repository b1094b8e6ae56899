import SqlComposer.Bindings
import SqlComposer.Environment

/-! Migration records, and the flags that tell a script which migrations have been applied. A
flag's name is made of the table's name and the order of the migration's file. -/
namespace SqlComposer

/-- One migration file of one table. -/
structure MigrationRecord where
  sourceTable : String
  fileOrder : UInt32
  applied : Bool := false
  deriving DecidableEq, Repr

namespace Flag

def isPlain (c : Char) : Bool := c.isAlphanum

/-- Each run of other characters becomes one `_`. Within such a run nothing more is written. -/
def collapse (inRun : Bool) : List Char → List Char
  | [] => []
  | c :: cs =>
    if isPlain c then c :: collapse false cs
    else if inRun then collapse true cs
    else '_' :: collapse true cs

/-- A text in which only ASCII letters, digits and single `_` are left. -/
def sanitize (text : String) : String := String.ofList (collapse false text.toList)

def name (table : String) (order : UInt32) : String := s!"{sanitize table}_{order.toNat}"

end Flag

def MigrationRecord.flag (r : MigrationRecord) : String := Flag.name r.sourceTable r.fileOrder

/-- Records by environment, in the order in which they were added. -/
abbrev Migrations := PerEnvironment (List MigrationRecord)

namespace Migrations

def empty : Migrations := .const []

def record (m : Migrations) (e : Environment) (r : MigrationRecord) : Migrations :=
  m.modify e (· ++ [r])

/-- A flag for each migration applied in an environment. -/
def appliedFlags (m : Migrations) (e : Environment) : Bindings :=
  .ofList (((m.get e).filter (·.applied)).map fun r => (r.flag, "true"))

end Migrations
end SqlComposer
