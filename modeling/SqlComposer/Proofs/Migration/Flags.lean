import SqlComposer.Migration.Basic
import SqlComposer.Proofs.Compose.Texts

/-! What flags tell. A flag's name gives back the order of the file and what is left of the table's
name, so a flag tells exactly that some such migration has been applied. -/
namespace SqlComposer
namespace Flag
variable {table table' : String} {order order' : UInt32}

theorem toList_name (table : String) (order : UInt32) : (name table order).toList =
    collapse false table.toList ++ '_' :: Nat.toDigits 10 order.toNat := by
  have hrepr : (Nat.repr order.toNat).toList = Nat.toDigits 10 order.toNat := String.toList_ofList
  simp [name, sanitize, toString, hrepr]

/-- What stands before and behind the last separator of a text is determined. -/
theorem eq_of_last_separator {α : Type} {sep : α} {front front' back back' : List α}
    (h : front ++ sep :: back = front' ++ sep :: back') (hback : sep ∉ back) (hback' : sep ∉ back') :
    front = front' ∧ back = back' := by
  -- otherwise one of the separators stands in what is behind the other
  rcases List.append_eq_append_iff.1 h with ⟨mid, rfl, hmid⟩ | ⟨mid, rfl, hmid⟩
  · cases mid with
    | nil => exact ⟨(List.append_nil _).symm, (List.cons.inj hmid).2⟩
    | cons c mid =>
      rw [List.cons_append] at hmid
      exact absurd (by simp [(List.cons.inj hmid).2]) hback
  · cases mid with
    | nil => exact ⟨List.append_nil _, (List.cons.inj hmid).2.symm⟩
    | cons c mid =>
      rw [List.cons_append] at hmid
      exact absurd (by simp [(List.cons.inj hmid).2]) hback'

theorem underscore_not_mem_toDigits (n : Nat) : '_' ∉ Nat.toDigits 10 n := by
  intro h
  have hdigit := Nat.isDigit_of_mem_toDigits (by decide) (by decide) h
  exact absurd hdigit (by decide)

theorem name_inj :
    name table order = name table' order' ↔ order = order' ∧ sanitize table = sanitize table' := by
  constructor
  · intro h
    have hlist := congrArg String.toList h
    rw [toList_name, toList_name] at hlist
    obtain ⟨htable, horder⟩ := eq_of_last_separator hlist (underscore_not_mem_toDigits _)
      (underscore_not_mem_toDigits _)
    have hvalue := congrArg (Nat.ofDigitChars 10 · 0) horder
    simp only [Nat.ofDigitChars_ten_toDigits] at hvalue
    exact ⟨UInt32.toNat_inj.1 hvalue, congrArg String.ofList htable⟩
  · rintro ⟨rfl, h⟩
    rw [name, name, h]

end Flag

namespace Migrations
variable {m : Migrations} {e : Environment} {r : MigrationRecord}
  {records others : List (Environment × MigrationRecord)}

/-- The flags of what has been applied in an environment. -/
def flagNames (m : Migrations) (e : Environment) : List String :=
  ((m.get e).filter (·.applied)).map (·.flag)

theorem get?_appliedFlags (m : Migrations) (e : Environment) (key : String) :
    (m.appliedFlags e).get? key = if key ∈ m.flagNames e then some "true" else none := by
  have hentries : ((m.get e).filter (·.applied)).map (fun r => (r.flag, "true")) =
      (m.flagNames e).map fun flag => (flag, "true") := by simp [flagNames]
  rw [appliedFlags, get?_ofList, hentries, ← List.map_reverse]
  generalize hflags : (m.flagNames e).reverse = flags
  have hmem : key ∈ m.flagNames e ↔ key ∈ flags := by rw [← hflags, List.mem_reverse]
  simp only [hmem]
  clear hflags hmem
  induction flags with
  | nil => rfl
  | cons flag flags ih =>
    rw [List.map_cons, List.lookup_cons, ih]
    by_cases h : key = flag
    · simp [h]
    · simp [h, beq_false_of_ne h]

/-- Migrations to which records were added one after the other. -/
def ofRecords (records : List (Environment × MigrationRecord)) : Migrations :=
  records.foldl (fun m added => m.record added.1 added.2) empty

theorem get_record (m : Migrations) (e e' : Environment) (r : MigrationRecord) :
    (m.record e r).get e' = if e' = e then m.get e' ++ [r] else m.get e' :=
  PerEnvironment.get_modify m e e' _

theorem mem_get_ofRecords : r ∈ (ofRecords records).get e ↔ (e, r) ∈ records := by
  suffices h : ∀ m : Migrations,
      r ∈ (records.foldl (fun m added => m.record added.1 added.2) m).get e ↔
        r ∈ m.get e ∨ (e, r) ∈ records by
    rw [ofRecords, h empty, empty, PerEnvironment.get_const]
    simp
  -- by induction on the records that are still to be added
  induction records with
  | nil => simp
  | cons added records ih =>
    intro m
    obtain ⟨e', r'⟩ := added
    rw [List.foldl_cons, ih, get_record]
    by_cases he : e = e'
    · subst he
      simp [or_assoc]
    · simp [he]

theorem mem_flagNames_ofRecords {key : String} : key ∈ (ofRecords records).flagNames e ↔
    ∃ r, (e, r) ∈ records ∧ r.applied = true ∧ r.flag = key := by
  simp only [flagNames, List.mem_map, List.mem_filter, mem_get_ofRecords, and_assoc]

theorem appliedFlags_congr
    (h : ∀ r, r.applied = true → ((e, r) ∈ others ↔ (e, r) ∈ records)) :
    (ofRecords others).appliedFlags e = (ofRecords records).appliedFlags e := by
  refine Bindings.ext_get? fun key => ?_
  have hkey : key ∈ (ofRecords others).flagNames e ↔ key ∈ (ofRecords records).flagNames e := by
    rw [mem_flagNames_ofRecords, mem_flagNames_ofRecords]
    exact exists_congr fun r => and_congr_left fun hr => h r hr.1
  rw [get?_appliedFlags, get?_appliedFlags]
  simp only [hkey]

end Migrations

/-- Flags tell exactly what has been applied. A table and an order have a flag if a record that was
added for the environment is applied, has this order and has a table that comes to the same name;
there are no other flags, and all of them are true. Records that are not applied or that are of
other environments make no difference, nor does the order in which records were added. Flags are
told apart by their orders and by what is left of the tables, wherever digits and underscores
stand in these. -/
theorem applied_flags_exact (records : List (Environment × MigrationRecord)) (e : Environment) :
    let flags := (Migrations.ofRecords records).appliedFlags e
    (∀ table order, flags.get? (Flag.name table order) = some "true" ↔
      ∃ r, (e, r) ∈ records ∧ r.applied = true ∧ r.fileOrder = order ∧
        Flag.sanitize r.sourceTable = Flag.sanitize table) ∧
    (∀ key value, flags.get? key = some value → value = "true" ∧
      ∃ r, (e, r) ∈ records ∧ r.applied = true ∧ key = Flag.name r.sourceTable r.fileOrder) ∧
    (∀ others, others.Perm records → (Migrations.ofRecords others).appliedFlags e = flags) ∧
    (∀ others, (∀ r, r.applied = true → ((e, r) ∈ others ↔ (e, r) ∈ records)) →
      (Migrations.ofRecords others).appliedFlags e = flags) ∧
    ∀ table table' order order', Flag.name table order = Flag.name table' order' ↔
      order = order' ∧ Flag.sanitize table = Flag.sanitize table' := by
  intro flags
  have hget (key : String) := Migrations.get?_appliedFlags (Migrations.ofRecords records) e key
  refine ⟨fun table order => ?_, fun key value h => ?_, fun others h => ?_, fun others h => ?_,
    fun table table' order order' => Flag.name_inj⟩
  · rw [hget, Option.ite_none_right_eq_some]
    simp only [Migrations.mem_flagNames_ofRecords, MigrationRecord.flag, Flag.name_inj, and_true]
  · rw [hget, Option.ite_none_right_eq_some] at h
    obtain ⟨hkey, hvalue⟩ := h
    obtain ⟨r, hr, happlied, hflag⟩ := Migrations.mem_flagNames_ofRecords.1 hkey
    exact ⟨(Option.some.inj hvalue).symm, r, hr, happlied, hflag.symm⟩
  · exact Migrations.appliedFlags_congr fun r _ => h.mem_iff
  · exact Migrations.appliedFlags_congr h

end SqlComposer
