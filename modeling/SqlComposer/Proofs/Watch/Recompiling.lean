import SqlComposer.Proofs.Store.Writing
import SqlComposer.Proofs.Watch.Session

/-! Recompiling once. It stores all of what the input compiles to, in the one file it is to write, or
it changes no file and tells what went wrong first. So it is also at each moment on the way: the
files are as they were until they are as they will be. -/
namespace SqlComposer
namespace Recompiler
variable {r : Recompiler} {files done : FileTree} {e : RecompileError} {text : String}

/-- What the input compiles to, as far as files can be read. -/
def Compiles (r : Recompiler) (files : FileTree) (text : String) : Prop :=
  ∃ script, files.read r.input = .ok script ∧
    compile r.engine (r.loader files.read) r.limit r.options script = .ok text

/-- Why recompiling fails: the first of its steps that does. -/
inductive Fails (r : Recompiler) (files : FileTree) : RecompileError → Prop
  | input {x : FileFault} : files.read r.input = .error x → Fails r files (.file r.input x)
  | compile {script : String} {x : ComposeError} : files.read r.input = .ok script →
      SqlComposer.compile r.engine (r.loader files.read) r.limit r.options script = .error x →
      Fails r files (.compile x)
  | output {text : String} {x : FileFault} : r.Compiles files text →
      files.write r.output text = .error x → Fails r files (.file r.output x)

/-- What is stored: all that the input compiled to before, in the output. Every other file is the
same, and every path that does not lead to the output leads where it led. -/
structure Stores (r : Recompiler) (files done : FileTree) : Prop where
  output : ∃ text, r.Compiles files text ∧ done.read r.output = .ok text
  others : ∃ slot, files.place r.output = .ok slot ∧
    (∀ names, names ≠ slot → done.node? names = files.node? names) ∧
    ∀ path names, names ≠ slot → (done.resolve path = .ok names ↔ files.resolve path = .ok names)

theorem Compiles.result (h : r.Compiles files text) : (r.recompile files).result =
    (files.write r.output text).mapError (.file r.output) := by
  obtain ⟨script, hread, hcompile⟩ := h
  rw [result_recompile, hread]
  change (SqlComposer.compile _ _ _ _ script).mapError _ >>= _ = _
  rw [hcompile]
  rfl

theorem Fails.result (h : Fails r files e) : (r.recompile files).result = .error e := by
  cases h with
  | input hread =>
    rw [result_recompile, hread]
    rfl
  | @compile script x hread hcompile =>
    rw [result_recompile, hread]
    change (SqlComposer.compile _ _ _ _ script).mapError _ >>= _ = _
    rw [hcompile]
    rfl
  | output hcompiles hwrite =>
    rw [hcompiles.result, hwrite]
    rfl

theorem Compiles.result_of_write (h : r.Compiles files text)
    (hwrite : files.write r.output text = .ok done) : (r.recompile files).result = .ok done := by
  rw [h.result, hwrite]
  rfl

theorem recompile_cases (r : Recompiler) (files : FileTree) : (∃ e, Fails r files e) ∨
    ∃ text done, r.Compiles files text ∧ files.write r.output text = .ok done := by
  cases hread : files.read r.input with
  | error x => exact .inl ⟨_, .input hread⟩
  | ok script =>
    cases hcompile : compile r.engine (r.loader files.read) r.limit r.options script with
    | error x => exact .inl ⟨_, .compile hread hcompile⟩
    | ok text =>
      cases hwrite : files.write r.output text with
      | error x => exact .inl ⟨_, .output ⟨script, hread, hcompile⟩ hwrite⟩
      | ok done => exact .inr ⟨text, done, ⟨script, hread, hcompile⟩, hwrite⟩

theorem result_eq_error_iff : (r.recompile files).result = .error e ↔ Fails r files e := by
  refine ⟨fun h => ?_, Fails.result⟩
  obtain ⟨x, hx⟩ | ⟨text, done, hcompiles, hwrite⟩ := recompile_cases r files
  · cases hx.result.symm.trans h
    exact hx
  · cases (hcompiles.result_of_write hwrite).symm.trans h

theorem Compiles.stores (h : r.Compiles files text)
    (hwrite : files.write r.output text = .ok done) : r.Stores files done := by
  obtain ⟨slot, hslot, hfree, rfl⟩ := FileTree.write_eq_ok_iff.mp hwrite
  have hsame := FileTree.sameBut_put hfree text
  refine ⟨⟨text, h, ?_⟩, slot, hslot, hsame.elsewhere, fun path names hne => hsame.resolve_iff hne⟩
  exact FileTree.read_of_place (hsame.place_eq hslot) (FileTree.node?_put_text hfree)

theorem stores_of_result (h : (r.recompile files).result = .ok done) : r.Stores files done := by
  obtain ⟨x, hx⟩ | ⟨text, done', hcompiles, hwrite⟩ := recompile_cases r files
  · cases hx.result.symm.trans h
  · cases (hcompiles.result_of_write hwrite).symm.trans h
    exact hcompiles.stores hwrite

end Recompiler

namespace Session
variable {r : Recompiler} {s t : Session} {files now : FileTree} {phase : Phase} {n m : Nat}
open Recompiler

/-- How far the recompiler has come that found `files` when it took a signal, and what it has made of
the files and of the number of its successes. -/
inductive Recompiling (r : Recompiler) (files : FileTree) (n : Nat) : Phase → FileTree → Nat → Prop
  | signalled : Recompiling r files n .signalled files n
  | loaded {script : String} : files.read r.input = .ok script →
      Recompiling r files n (.loaded script) files n
  | compiled {text : String} : r.Compiles files text → Recompiling r files n (.compiled text) files n
  | failed {phase : Phase} {e : RecompileError} : phase = .waiting ∨ phase = .returned →
      Fails r files e → Recompiling r files n phase files n
  | stored {phase : Phase} {text : String} {done : FileTree} :
      phase = .waiting ∨ phase = .returned → r.Compiles files text →
      files.write r.output text = .ok done → Recompiling r files n phase done (n+1)

namespace Recompiling

theorem of_signalled (h : Recompiling r files n .signalled now m) : now = files ∧ m = n := by
  cases h with
  | signalled => exact ⟨rfl, rfl⟩
  | failed hp | stored hp => simp at hp

theorem of_loaded {script : String} (h : Recompiling r files n (.loaded script) now m) :
    now = files ∧ m = n ∧ files.read r.input = .ok script := by
  cases h with
  | loaded hread => exact ⟨rfl, rfl, hread⟩
  | failed hp | stored hp => simp at hp

theorem of_compiled {text : String} (h : Recompiling r files n (.compiled text) now m) :
    now = files ∧ m = n ∧ r.Compiles files text := by
  cases h with
  | compiled hcompiles => exact ⟨rfl, rfl, hcompiles⟩
  | failed hp | stored hp => simp at hp

theorem returned (h : Recompiling r files n .waiting now m) :
    Recompiling r files n .returned now m := by
  cases h with
  | failed _ hfails => exact .failed (.inr rfl) hfails
  | stored _ hcompiles hwrite => exact .stored (.inr rfl) hcompiles hwrite

theorem step {a : Action} (h : Recompiling r files n s.phase s.files s.succeeded)
    (hstep : Step r s a t) (hw : ∀ content, a ≠ .write content) (ht : a ≠ .take) :
    Recompiling r files n t.phase t.files t.succeeded := by
  cases hstep with
  | write => exact absurd rfl (hw _)
  | take => exact absurd rfl ht
  | notify | join | leave => exact h
  | read hp hread =>
    obtain ⟨rfl, rfl⟩ := (hp ▸ h).of_signalled
    exact .loaded hread
  | unread hp hread =>
    obtain ⟨rfl, rfl⟩ := (hp ▸ h).of_signalled
    exact .failed (.inl rfl) (.input hread)
  | compile hp hcompile =>
    obtain ⟨rfl, rfl, hread⟩ := (hp ▸ h).of_loaded
    exact .compiled ⟨_, hread, hcompile⟩
  | uncompiled hp hcompile =>
    obtain ⟨rfl, rfl, hread⟩ := (hp ▸ h).of_loaded
    exact .failed (.inl rfl) (.compile hread hcompile)
  | store hp hstore =>
    obtain ⟨rfl, rfl, hcompiles⟩ := (hp ▸ h).of_compiled
    exact .stored (.inl rfl) hcompiles hstore
  | unstored hp hstore =>
    obtain ⟨rfl, rfl, hcompiles⟩ := (hp ▸ h).of_compiled
    exact .failed (.inl rfl) (.output hcompiles hstore)
  | stop hp => exact (hp ▸ h).returned

theorem run {actions : List Action} (hs : s.phase = .signalled)
    (hw : ∀ content, .write content ∉ actions) (ht : .take ∉ actions)
    (h : run? r s actions = some t) :
    Recompiling r s.files s.succeeded t.phase t.files t.succeeded := by
  refine run_induction (P := fun _ u => Recompiling r s.files s.succeeded u.phase u.files u.succeeded)
    h (hs ▸ .signalled) fun done a u v hdone _ hu hstep => ?_
  have hmem : a ∈ actions := hdone.subset (by simp)
  exact hu.step hstep (fun content ha => hw content (ha ▸ hmem)) fun ha => ht (ha ▸ hmem)

/-- At each moment the files are as they were found or as they are to be. -/
theorem files_eq (h : Recompiling r files n phase now m) :
    now = files ∧ m = n ∨ (r.recompile files).result = .ok now ∧ m = n + 1 := by
  cases h with
  | stored _ hcompiles hwrite => exact .inr ⟨hcompiles.result_of_write hwrite, rfl⟩
  | _ => exact .inl ⟨rfl, rfl⟩

/-- When it waits again the recompiler has done what it does in one piece. -/
theorem outcome (h : Recompiling r files n phase now m) (hp : phase = .waiting ∨ phase = .returned) :
    (r.recompile files).result = .ok now ∧ m = n + 1 ∨
      (∃ e, (r.recompile files).result = .error e) ∧ now = files ∧ m = n := by
  cases h with
  | signalled | loaded | compiled => simp at hp
  | failed _ hfails => exact .inr ⟨⟨_, hfails.result⟩, rfl, rfl⟩
  | stored _ hcompiles hwrite => exact .inl ⟨hcompiles.result_of_write hwrite, rfl⟩

end Recompiling
end Session

/-- A recompile is all or nothing. If it succeeds, the output holds what the input compiled to, and
nothing else has changed; it fails for the first of its steps that does. Between the steps, whoever
signals meanwhile, the files are as they were or as they are to be, and if it fails they stay as they
were. -/
theorem recompile_all_or_nothing (r : Recompiler) (files : FileTree) :
    (∀ done, (r.recompile files).result = .ok done → r.Stores files done) ∧
    (∀ e, (r.recompile files).result = .error e ↔ r.Fails files e) ∧
    ∀ s t actions, s.files = files → s.phase = .signalled → Session.run? r s actions = some t →
      (∀ content, .write content ∉ actions) → .take ∉ actions →
      (t.files = files ∧ t.succeeded = s.succeeded ∨
        (r.recompile files).result = .ok t.files ∧ t.succeeded = s.succeeded + 1) ∧
      (t.phase = .waiting ∨ t.phase = .returned →
        (r.recompile files).result = .ok t.files ∧ t.succeeded = s.succeeded + 1 ∨
        (∃ e, (r.recompile files).result = .error e) ∧ t.files = files ∧
          t.succeeded = s.succeeded) := by
  refine ⟨fun done => Recompiler.stores_of_result, fun e => Recompiler.result_eq_error_iff, ?_⟩
  rintro s t actions rfl hs hrun hw ht
  have h := Session.Recompiling.run hs hw ht hrun
  exact ⟨h.files_eq, h.outcome⟩

end SqlComposer
