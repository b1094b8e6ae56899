import SqlComposer.Json.Value
import SqlComposer.Migration.Basic

/-! Migration records written as JSON: an object with a list of records for each environment. A
record is an object with named fields, or a list of the fields in their order. -/
namespace SqlComposer
open Json

/-- The fields of a record read so far. -/
structure PartialRecord where
  sourceTable : Option String := none
  fileOrder : Option UInt32 := none
  applied : Option Bool := none

namespace PartialRecord

/-- Only the last field may be left out. -/
def complete (p : PartialRecord) : Except Fault MigrationRecord :=
  match p.sourceTable, p.fileOrder with
  | some table, some order => .ok ⟨table, order, p.applied.getD false⟩
  | _, _ => .error .unsuitable

/-- Takes the value of a field, which has not been read before. -/
def fill {α : Type} (seen : Option α) (read : Reader α) (cs : List Char) :
    Except Fault (Option α × List Char) :=
  if seen.isSome then .error .unsuitable
  else do
    let (a, rest) ← read (← expect ':' cs)
    return (some a, rest)

/-- Reads a member of a record; unknown ones are passed over. -/
def member (p : PartialRecord) : Reader PartialRecord
  | cs => do
    let (name, cs) ← key cs
    match name with
    | "source_table" =>
      let (v, rest) ← fill p.sourceTable string cs
      return ({ p with sourceTable := v }, rest)
    | "file_order" =>
      let (v, rest) ← fill p.fileOrder word32 cs
      return ({ p with fileOrder := v }, rest)
    | "applied" =>
      let (v, rest) ← fill p.applied bool cs
      return ({ p with applied := v }, rest)
    | _ => return (p, ← skipValue (← expect ':' cs))

end PartialRecord

namespace MigrationRecord

/-- The next field of a record written as a list, if there is one. -/
def field {α : Type} (first : Bool) (read : Reader α) (cs : List Char) :
    Except Fault (Option α × List Char) := do
  match ← nextItem ']' first cs with
  | none => return (none, cs)
  | some cs =>
    let (a, rest) ← read cs
    return (some a, rest)

/-- A record written as a list, behind its bracket. Text behind its last field is no JSON. -/
def ofFields : Reader MigrationRecord
  | cs => do
    let (table, cs) ← field true string cs
    if table.isNone then .error .unsuitable
    else
      let (order, cs) ← field false word32 cs
      if order.isNone then .error .unsuitable
      else
        let (applied, cs) ← field false bool cs
        let record ← PartialRecord.complete ⟨table, order, applied⟩
        return (record, ← expect ']' cs)

def ofJson : Reader MigrationRecord
  | cs =>
    match skipBlanks cs with
    | '\x7b' :: rest => do
      let (p, rest) ← items '\x7d' PartialRecord.member {} rest
      return (← p.complete, rest)
    | '[' :: rest => ofFields rest
    | cs => .error (otherType cs)

end MigrationRecord

namespace Migrations

def recordsOfJson : Reader (List MigrationRecord)
  | cs =>
    match skipBlanks cs with
    | '[' :: rest =>
      let add (rs : List MigrationRecord) : Reader (List MigrationRecord) := fun cs => do
        let (r, rest) ← MigrationRecord.ofJson cs
        return (rs ++ [r], rest)
      items ']' add [] rest
    | cs => .error (otherType cs)

/-- Reads the records of one environment in place of earlier ones. Names of environments are
written in small letters. -/
def memberOfJson (m : Migrations) : Reader Migrations
  | cs => do
    let (name, cs) ← key cs
    match Environment.all.find? (·.name = name) with
    | none => .error .unsuitable
    | some e =>
      let (rs, rest) ← recordsOfJson (← expect ':' cs)
      return (m.set e rs, rest)

def ofJson (text : String) : Except Fault Migrations :=
  match skipBlanks text.toList with
  | '\x7b' :: rest => do
    let (m, rest) ← items '\x7d' memberOfJson empty rest
    if (skipBlanks rest).isEmpty then return m else .error .malformed
  | cs => .error (otherType cs)

end Migrations
end SqlComposer
