import SqlComposer.Proofs.Watch.Freshness
import SqlComposer.Proofs.Watch.Recompiling

/-! What becomes of the signals that wait when nobody can signal any more. Each of them is served by
one round of the recompiler, whether or not that succeeds, and then it returns. -/
namespace SqlComposer
namespace Recompiler

/-- The files after recompiling once; a failure leaves them as they are. -/
def filesAfterOne (r : Recompiler) (files : FileTree) : FileTree :=
  match (r.recompile files).result with
  | .ok done => done
  | .error _ => files

/-- The files after recompiling some times, one after the other. -/
def filesAfter (r : Recompiler) (files : FileTree) : Nat → FileTree
  | 0 => files
  | n + 1 => r.filesAfterOne (r.filesAfter files n)

def succeeds (r : Recompiler) (files : FileTree) : Bool :=
  match (r.recompile files).result with
  | .ok _ => true
  | .error _ => false

/-- How many of the first rounds succeed. -/
def successes (r : Recompiler) (files : FileTree) (n : Nat) : Nat :=
  (List.range n).countP fun i => r.succeeds (r.filesAfter files i)

/-- What is logged in a round. -/
def roundLog (r : Recompiler) (files : FileTree) : List LogEntry :=
  ((r.recompile files).onError r.failure).events

variable {r : Recompiler} {files done : FileTree}

theorem filesAfter_succ (r : Recompiler) (files : FileTree) (n : Nat) :
    r.filesAfter files (n + 1) = r.filesAfter (r.filesAfterOne files) n := by
  induction n with
  | zero => rfl
  | succ n ih =>
    rw [filesAfter, ih]
    rfl

theorem successes_add_one (r : Recompiler) (files : FileTree) (n : Nat) :
    r.successes files (n + 1) =
      r.successes files n + if r.succeeds (r.filesAfter files n) then 1 else 0 := by
  rw [successes, List.range_succ, List.countP_append, List.countP_singleton]
  rfl

theorem successes_succ (r : Recompiler) (files : FileTree) (n : Nat) :
    r.successes files (n + 1) =
      (if r.succeeds files then 1 else 0) + r.successes (r.filesAfterOne files) n := by
  rw [successes, List.range_succ_eq_map, List.countP_cons, List.countP_map, Nat.add_comm]
  congr 1
  exact List.countP_congr fun i _ => by simp only [Function.comp_apply, filesAfter_succ]

/-- Serving a number of signals is recompiling as often, and counting what succeeds. -/
theorem run_eq (r : Recompiler) (files : FileTree) (n : Nat) :
    r.run files n = ⟨r.filesAfter files n, r.successes files n,
      (List.range n).flatMap fun i => r.roundLog (r.filesAfter files i)⟩ := by
  induction n generalizing files with
  | zero => rfl
  | succ n ih =>
    have hlog : (List.range (n + 1)).flatMap (fun i => r.roundLog (r.filesAfter files i)) =
        r.roundLog files ++
          (List.range n).flatMap fun i => r.roundLog (r.filesAfter (r.filesAfterOne files) i) := by
      rw [List.range_succ_eq_map, List.flatMap_cons, List.flatMap_map]
      simp only [filesAfter_succ]
      rfl
    rw [filesAfter_succ, successes_succ, hlog, run]
    simp only [Traced.result_onError, ih]
    cases hresult : (r.recompile files).result with
    | ok done => simp [filesAfterOne, succeeds, hresult, roundLog, Nat.add_comm]
    | error e => simp [filesAfterOne, succeeds, hresult, roundLog]

theorem filesAfterOne_of_ok (h : (r.recompile files).result = .ok done) :
    r.filesAfterOne files = done := by
  rw [filesAfterOne, h]

theorem filesAfterOne_of_error {e : RecompileError} (h : (r.recompile files).result = .error e) :
    r.filesAfterOne files = files := by
  rw [filesAfterOne, h]

end Recompiler

/-- How many steps are left of a round, or to the end if none is under way. -/
def Phase.stepsLeft : Phase → Nat
  | .signalled => 4
  | .loaded _ => 3
  | .compiled _ => 2
  | .waiting => 1
  | .returned => 0

namespace Session
open Recompiler
variable {r : Recompiler} {s t : Session} {files : FileTree} {n : Nat}

/-- How many steps the recompiler has left at most if nobody signals. -/
def stepsLeft (s : Session) : Nat := 4 * s.channel.queued + s.phase.stepsLeft

/-- Nobody is left who could signal, and signals are still taken. -/
structure Deserted (s : Session) : Prop where
  senders : s.senders = 0
  receiving : s.channel.receiving = true

theorem Deserted.step {a : Action} (h : Deserted s) (hstep : Step r s a t) : Deserted t := by
  obtain ⟨hs, hr⟩ := h
  cases hstep with
  | notify hpos | join hpos | leave hpos => simp [hs] at hpos
  | take _ hc => exact ⟨hs, (Channel.receiving_of_receive? hc).trans hr⟩
  | _ => exact ⟨hs, hr⟩

theorem Deserted.run {actions : List Action} (h : Deserted s) (hrun : run? r s actions = some t) :
    Deserted t :=
  run_induction (P := fun _ u => Deserted u) hrun h fun _ _ _ _ _ _ hu hstep => hu.step hstep

theorem Deserted.stepsLeft_lt {a : Action} (h : Deserted s) (hstep : Step r s a t)
    (hw : ∀ content, a ≠ .write content) : t.stepsLeft < s.stepsLeft := by
  cases hstep with
  | write => exact absurd rfl (hw _)
  | notify hpos | join hpos | leave hpos => simp [h.senders] at hpos
  | take hp hc =>
    have hq := Channel.queued_of_receive? hc
    simp only [stepsLeft, Phase.stepsLeft, hp]
    omega
  | read hp | unread hp | compile hp | uncompiled hp | store hp | unstored hp | stop hp =>
    simp only [stepsLeft, Phase.stepsLeft, hp]
    omega

/-- Until it returns, there is always something that the recompiler can do. -/
theorem Deserted.exists_step (r : Recompiler) (h : Deserted s) (hp : s.phase ≠ .returned) :
    ∃ a t, a.isRecompiler = true ∧ Step r s a t := by
  cases hphase : s.phase with
  | waiting =>
    by_cases hq : s.channel.queued = 0
    · exact ⟨.stop, _, rfl, .stop hphase h.senders hq⟩
    · have hsome := Channel.receive?_eq_some_iff.mpr ⟨h.receiving, Nat.pos_of_ne_zero hq, rfl⟩
      exact ⟨.take, _, rfl, .take hphase hsome⟩
  | signalled =>
    cases hread : s.files.read r.input with
    | ok script => exact ⟨.read, _, rfl, .read hphase hread⟩
    | error x => exact ⟨.read, _, rfl, .unread hphase hread⟩
  | loaded script =>
    cases hcompile :
        SqlComposer.compile r.engine (r.loader s.files.read) r.limit r.options script with
    | ok text => exact ⟨.compile, _, rfl, .compile hphase hcompile⟩
    | error x => exact ⟨.compile, _, rfl, .uncompiled hphase hcompile⟩
  | compiled text =>
    cases hwrite : s.files.write r.output text with
    | ok files => exact ⟨.store, _, rfl, .store hphase hwrite⟩
    | error x => exact ⟨.store, _, rfl, .unstored hphase hwrite⟩
  | returned => exact absurd hphase hp

theorem Deserted.length_le {actions : List Action} (h : Deserted s) (hrun : run? r s actions = some t)
    (hw : ∀ content, .write content ∉ actions) : actions.length ≤ s.stepsLeft := by
  have hinv : actions.length + t.stepsLeft ≤ s.stepsLeft := by
    refine run_induction (P := fun done u => done.length + u.stepsLeft ≤ s.stepsLeft) hrun (by simp)
      fun done a u v hdone hfront hu hstep => ?_
    have hmem : a ∈ actions := hdone.subset (by simp)
    have hlt := (h.run hfront).stepsLeft_lt hstep fun content ha => hw content (ha ▸ hmem)
    rw [List.length_append, List.length_singleton]
    omega
  omega

/-- The signals that have been taken are those that do not wait any more. -/
theorem Deserted.count_take {actions : List Action} (h : Deserted s)
    (hrun : run? r s actions = some t) :
    actions.count .take + t.channel.queued = s.channel.queued := by
  refine run_induction (P := fun done u => done.count .take + u.channel.queued = s.channel.queued)
    hrun (by simp) fun done a u v _ hfront hu hstep => ?_
  rw [List.count_append, List.count_singleton]
  cases hstep with
  | notify hpos | join hpos | leave hpos => simp [(h.run hfront).senders] at hpos
  | take _ hc =>
    have hq := Channel.queued_of_receive? hc
    simp only [beq_self_eq_true, if_true]
    omega
  | _ => exact hu

/-- Where the recompiler stands that has taken some signals: all rounds before the last are over, and
so is the last one once it waits again. -/
def Served (r : Recompiler) (files : FileTree) : Nat → Session → Prop
  | 0, s => (s.phase = .waiting ∨ s.phase = .returned) ∧ s.files = files ∧ s.succeeded = 0
  | n + 1, s => Recompiling r (r.filesAfter files n) (r.successes files n) s.phase s.files s.succeeded

/-- Between rounds the files and the number of successes are those of recompiling as often. -/
theorem Served.settled (h : Served r files n s) (hp : s.phase = .waiting ∨ s.phase = .returned) :
    s.files = r.filesAfter files n ∧ s.succeeded = r.successes files n := by
  cases n with
  | zero => exact h.2
  | succ n =>
    rw [successes_add_one, Recompiler.succeeds, Recompiler.filesAfter]
    rcases h.outcome hp with ⟨hresult, hcount⟩ | ⟨⟨e, hresult⟩, hfiles, hcount⟩
    · rw [filesAfterOne_of_ok hresult, hresult]
      exact ⟨rfl, hcount⟩
    · rw [filesAfterOne_of_error hresult, hresult]
      exact ⟨hfiles, hcount⟩

theorem Served.step {a : Action} (h : Served r files n s) (hstep : Step r s a t)
    (hw : ∀ content, a ≠ .write content) : Served r files (n + if a = .take then 1 else 0) t := by
  by_cases ha : a = .take
  · subst ha
    cases hstep with
    | take hp =>
      obtain ⟨hfiles, hcount⟩ := h.settled (.inl hp)
      show Recompiling r _ _ .signalled s.files s.succeeded
      rw [hfiles, hcount]
      exact .signalled
  · rw [if_neg ha, Nat.add_zero]
    cases n with
    | succ n => exact Recompiling.step h hstep hw ha
    | zero =>
      obtain ⟨hp, hrest⟩ := h
      cases hstep with
      | write => exact absurd rfl (hw _)
      | take => exact absurd rfl ha
      | notify | join | leave => exact ⟨hp, hrest⟩
      | stop => exact ⟨.inr rfl, hrest⟩
      | read hp' | unread hp' | compile hp' | uncompiled hp' | store hp' | unstored hp' =>
        rw [hp'] at hp
        simp at hp

theorem Served.run {actions : List Action} (hp : s.phase = .waiting) (hs : s.succeeded = 0)
    (hw : ∀ content, .write content ∉ actions) (hrun : run? r s actions = some t) :
    Served r s.files (actions.count .take) t := by
  refine run_induction (P := fun done u => Served r s.files (done.count .take) u) hrun
    ⟨.inl hp, rfl, hs⟩ fun done a u v hdone _ hu hstep => ?_
  have hmem : a ∈ actions := hdone.subset (by simp)
  have hnext := hu.step hstep fun content ha => hw content (ha ▸ hmem)
  simpa only [List.count_append, List.count_singleton, beq_iff_eq] using hnext

end Session
end SqlComposer
