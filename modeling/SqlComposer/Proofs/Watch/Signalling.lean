import SqlComposer.Proofs.Watch.Rounds
import SqlComposer.Template.Reader

/-! The account of signals. A signal that is accepted waits until it is taken, and none is taken that
was not accepted, whoever signals, takes signals or leaves in whatever order. -/
namespace SqlComposer

/-- A channel in use, and how many may signal. -/
structure Exchange where
  channel : Channel := {}
  senders : Nat := 1
  deriving DecidableEq, Repr

/-- What is done with a channel: senders notify, are joined by others and leave; the receiver takes a
signal or goes. -/
inductive Call where
  | notify | join | leave
  | receive | close
  deriving DecidableEq, Repr

namespace Exchange

/-- Makes a call, if somebody is there to make it, and tells whether a signal has passed. -/
def call? (x : Exchange) : Call → Option (Bool × Exchange)
  | .notify =>
    if 0 < x.senders then some (x.channel.notify.1, { x with channel := x.channel.notify.2 })
    else none
  | .join => if 0 < x.senders then some (false, { x with senders := x.senders + 1 }) else none
  | .leave => if 0 < x.senders then some (false, { x with senders := x.senders - 1 }) else none
  | .receive =>
    if x.channel.receiving = true then
      match x.channel.receive? with
      | some c => some (true, { x with channel := c })
      | none => some (false, x)
    else none
  | .close =>
    if x.channel.receiving = true then some (false, { x with channel := x.channel.close }) else none

/-- Makes calls one after the other, and keeps what each of them tells. -/
def run? (x : Exchange) : List Call → Option (List (Call × Bool) × Exchange)
  | [] => some ([], x)
  | c :: calls =>
    (x.call? c).bind fun (passed, y) =>
      (run? y calls).map fun (trace, z) => ((c, passed) :: trace, z)

end Exchange

namespace Channel
variable {c : Channel}

theorem notify_accepted (h : c.notify.1 = true) : c.notify.2.queued = c.queued + 1 := by
  unfold notify at h ⊢
  split at h
  · next room => rw [if_pos room]
  · cases h

/-- A signal is dropped for want of room or of a receiver, and for nothing else. -/
theorem notify_eq_false_iff (h : c.queued ≤ capacity) :
    c.notify.1 = false ↔ c.queued = capacity ∨ c.receiving = false := by
  unfold notify
  split
  · next room =>
    rw [Bool.and_eq_true, decide_eq_true_eq] at room
    simp only [Bool.true_eq_false, false_iff, not_or, Bool.not_eq_false]
    exact ⟨Nat.ne_of_lt room.2, room.1⟩
  · next full =>
    rw [Bool.and_eq_true, decide_eq_true_eq, not_and] at full
    simp only [true_iff]
    cases hr : c.receiving with
    | false => exact .inr rfl
    | true => exact .inl (Nat.le_antisymm h (Nat.not_lt.mp (full hr)))

/-- What a call can do to a channel. -/
inductive Changes (c : Channel) : Call → Bool → Channel → Prop
  | notify : Changes c .notify c.notify.1 c.notify.2
  | receive {d : Channel} : c.receive? = some d → Changes c .receive true d
  | close : Changes c .close false c.close
  | idle {call : Call} : call ≠ .close → Changes c call false c

namespace Changes
variable {d : Channel} {call : Call} {passed : Bool}

/-- What one call does to the account: a signal that is accepted waits, and one that is taken does not
wait any more. -/
theorem accounts (h : c.Changes call passed d) :
    d.queued + [(call, passed)].count (.receive, true) =
      c.queued + [(call, passed)].count (.notify, true) := by
  cases h with
  | notify =>
    cases haccepted : c.notify.1 with
    | true => simp [notify_accepted haccepted]
    | false => simp [notify_dropped haccepted]
  | receive hd => simpa using queued_of_receive? hd
  | close => simp [Channel.close]
  | idle => simp

theorem queued_le (hc : c.queued ≤ capacity) (h : c.Changes call passed d) :
    d.queued ≤ capacity := by
  cases h with
  | notify => exact queued_notify_le hc
  | receive hd => exact Nat.le_trans (queued_receive?_le hd) hc
  | close | idle => exact hc

/-- The receiver is there until it goes. -/
theorem receiving (h : c.Changes call passed d) :
    d.receiving = false ↔ c.receiving = false ∨ call = .close := by
  cases h with
  | notify => simp [receiving_notify]
  | receive hd => simp [receiving_of_receive? hd]
  | close => simp [Channel.close]
  | idle hcall => simp [hcall]

end Changes
end Channel

namespace Exchange
variable {x y : Exchange} {c : Call} {calls : List Call} {passed : Bool}
  {trace : List (Call × Bool)}

theorem call_changes (h : x.call? c = some (passed, y)) : x.channel.Changes c passed y.channel := by
  cases c with
  | notify =>
    obtain ⟨-, h⟩ := Option.ite_none_right_eq_some.mp h
    cases h
    exact .notify
  | join | leave =>
    obtain ⟨-, h⟩ := Option.ite_none_right_eq_some.mp h
    cases h
    exact .idle (by decide)
  | close =>
    obtain ⟨-, h⟩ := Option.ite_none_right_eq_some.mp h
    cases h
    exact .close
  | receive =>
    obtain ⟨-, h⟩ := Option.ite_none_right_eq_some.mp h
    cases hd : x.channel.receive? with
    | some d =>
      rw [hd] at h
      cases h
      exact .receive hd
    | none =>
      rw [hd] at h
      cases h
      exact .idle (by decide)

theorem exists_of_run_cons {traced : List (Call × Bool)} (h : x.run? (c :: calls) = some (traced, y)) :
    ∃ passed u trace, x.call? c = some (passed, u) ∧ u.run? calls = some (trace, y) ∧
      traced = (c, passed) :: trace := by
  obtain ⟨⟨passed, u⟩, hcall, h⟩ := Option.bind_eq_some_iff.mp h
  obtain ⟨⟨trace, z⟩, hrun, hout⟩ := Option.map_eq_some_iff.mp h
  cases hout
  exact ⟨passed, u, trace, hcall, hrun, rfl⟩

/-- What holds at the start and is kept by every call holds after all calls. -/
theorem run_induction {P : List Call → List (Call × Bool) → Exchange → Prop}
    (h : x.run? calls = some (trace, y)) (hx : P [] [] x)
    (hstep : ∀ {done told u c passed v}, P done told u → u.call? c = some (passed, v) →
      P (done ++ [c]) (told ++ [(c, passed)]) v) : P calls trace y := by
  induction calls generalizing x trace P with
  | nil => cases h; exact hx
  | cons c calls ih =>
    obtain ⟨passed, u, trace, hcall, hrun, rfl⟩ := exists_of_run_cons h
    exact ih (P := fun done told v => P (c :: done) ((c, passed) :: told) v) hrun
      (hstep hx hcall) hstep

/-- Signals that were accepted have been taken or wait. -/
theorem run_accounts (h : x.run? calls = some (trace, y)) :
    y.channel.queued + trace.count (.receive, true) =
      x.channel.queued + trace.count (.notify, true) := by
  refine run_induction (P := fun _ told u => u.channel.queued + told.count (.receive, true) =
    x.channel.queued + told.count (.notify, true)) h rfl fun hu hcall => ?_
  have hone := (call_changes hcall).accounts
  rw [List.count_append, List.count_append]
  omega

theorem run_queued_le (hx : x.channel.queued ≤ Channel.capacity)
    (h : x.run? calls = some (trace, y)) : y.channel.queued ≤ Channel.capacity :=
  run_induction (P := fun _ _ u => u.channel.queued ≤ Channel.capacity) h hx
    fun hu hcall => (call_changes hcall).queued_le hu

theorem run_receiving (h : x.run? calls = some (trace, y)) :
    y.channel.receiving = false ↔ x.channel.receiving = false ∨ .close ∈ calls := by
  refine run_induction (P := fun done _ u => u.channel.receiving = false ↔
    x.channel.receiving = false ∨ .close ∈ done) h (by simp) fun {done _ _ c _ _} hu hcall => ?_
  rw [(call_changes hcall).receiving, hu, List.mem_append, List.mem_singleton, or_assoc,
    eq_comm (a := c)]

end Exchange

namespace Recompiler
variable {r : Recompiler} {files : FileTree} {c : Channel} {actions : List Action} {t : Session}

/-- A course of the recompiler's steps when all senders have gone and nobody writes. -/
structure Course (r : Recompiler) (files : FileTree) (c : Channel) (actions : List Action)
    (t : Session) : Prop where
  unwritten : ∀ content, .write content ∉ actions
  run : Session.run? r { files, senders := 0, channel := c } actions = some t

/-- All signals that wait are served. Serving them is recompiling once for each of them, and a failure
does not keep the next round from taking place. Step by step, the recompiler goes on until it
returns, and has then taken all signals. -/
structure ServesAll (r : Recompiler) (files : FileTree) (c : Channel) : Prop where
  rounds : r.run files c.queued =
    { files := r.filesAfter files c.queued
      succeeded := r.successes files c.queued
      log := (List.range c.queued).flatMap fun i => r.roundLog (r.filesAfter files i) }
  ends : ∀ actions t, r.Course files c actions t → actions.length ≤ 4 * c.queued + 1
  continues : ∀ actions t, r.Course files c actions t → t.phase ≠ .returned →
    ∃ a u, a.isRecompiler = true ∧ Session.Step r t a u
  returns : ∀ actions t, r.Course files c actions t → t.phase = .returned →
    actions.count .take = c.queued ∧ t.channel = c.drain.2 ∧
      t.files = (r.run files c.queued).files ∧ t.succeeded = (r.run files c.queued).succeeded

theorem deserted (files : FileTree) (hc : c.receiving = true) :
    Session.Deserted { files, senders := 0, channel := c } := ⟨rfl, hc⟩

theorem Course.returned (h : r.Course files c actions t) (hc : c.receiving = true)
    (hp : t.phase = .returned) : actions.count .take = c.queued ∧ t.channel = c.drain.2 ∧
      t.files = r.filesAfter files c.queued ∧ t.succeeded = r.successes files c.queued := by
  have hstart : Session.Heard [] { files, senders := 0, channel := c } := by
    refine ⟨hc, fun hwaiting => ?_, fun hnotified => ?_⟩
    · cases hwaiting
    · cases hnotified
  have hheard := hstart.run h.run
  have hempty := (hheard.returned hp).2
  have hchannel : t.channel = c.drain.2 := by
    rw [Channel.drain, hc, ← hempty, ← hheard.receiving]
  have htake := (deserted files hc).count_take h.run
  rw [hempty, Nat.add_zero] at htake
  -- as many rounds are over as signals have been taken, and these are all
  have hserved := (Session.Served.run rfl rfl h.unwritten h.run).settled (.inr hp)
  rw [htake] at hserved
  exact ⟨htake, hchannel, hserved⟩

theorem servesAll (r : Recompiler) (files : FileTree) (hc : c.receiving = true) :
    r.ServesAll files c where
  rounds := r.run_eq files c.queued
  ends _ _ h := (deserted files hc).length_le h.run h.unwritten
  continues _ _ h hp := ((deserted files hc).run h.run).exists_step r hp
  returns _ _ h hp := by
    rw [run_eq]
    exact h.returned hc hp

end Recompiler

/-- Signals are neither doubled nor lost. After any calls, of those that were accepted the ones that
have not been taken wait, no more than there is room for; one that is dropped finds the room taken or
the receiver gone, and changes nothing. When all senders have gone, what waits is served. -/
theorem signals_accounted (r : Recompiler) (files : FileTree) {calls : List Call}
    {trace : List (Call × Bool)} {x : Exchange} (h : Exchange.run? {} calls = some (trace, x)) :
    ((trace.count (.notify, true) : Int) - trace.count (.receive, true) = x.channel.queued ∧
      x.channel.queued ≤ Channel.capacity) ∧
    ((x.channel.notify.1 = false ↔ x.channel.queued = Channel.capacity ∨ .close ∈ calls) ∧
      (x.channel.notify.1 = false → x.channel.notify.2 = x.channel)) ∧
    (x.senders = 0 → .close ∉ calls → r.ServesAll files x.channel) := by
  have haccounts := Exchange.run_accounts h
  have hle := Exchange.run_queued_le (Nat.zero_le _) h
  have hreceiving : x.channel.receiving = false ↔ .close ∈ calls := by
    simpa using Exchange.run_receiving h
  refine ⟨⟨?_, hle⟩, ⟨?_, Channel.notify_dropped⟩, fun _ hopen => ?_⟩
  · -- nothing waits at the start
    have hzero : ({} : Exchange).channel.queued = 0 := rfl
    omega
  · rw [Channel.notify_eq_false_iff hle, hreceiving]
  · exact r.servesAll files (by simpa using mt hreceiving.mp hopen)

/-- Compiles a script into the script itself. -/
def selfRecompiler : Recompiler where
  engine := Template.small
  loader read := .ofFiles read "" Loader.noLookup
  options := {}
  input := "root.sql"
  output := "root.sql"

/-- A script that compiles to one that does not compile. -/
def selfFiles : FileTree := ⟨[(["root.sql"], .text "select \x7b\x7b '\x7b\x7b' \x7d\x7d")]⟩

/-- Two senders, of which one leaves before the last signals. -/
def crowdedCalls : List Call :=
  .join :: .replicate 6 .notify ++ [.receive, .leave, .notify, .notify, .receive, .leave]

/-- Of eight signals two are dropped, and of the four that wait when all have gone one is served with
success. -/
theorem signals_accounted_crowded :
    ∃ out ∈ Exchange.run? {} crowdedCalls,
      out.1.count (.notify, false) = 2 ∧ out.2.channel.queued = 4 ∧
        selfRecompiler.ServesAll selfFiles out.2.channel ∧
        (selfRecompiler.run selfFiles out.2.channel.queued).succeeded = 1 := by
  have hrun : ∃ out ∈ Exchange.run? {} crowdedCalls,
      out.1.count (.notify, false) = 2 ∧ out.2.channel.queued = 4 ∧ out.2.senders = 0 := by
    decide +kernel
  obtain ⟨⟨trace, x⟩, h, hdropped, hqueued, hsenders⟩ := hrun
  obtain ⟨-, -, hserves⟩ := signals_accounted selfRecompiler selfFiles h
  refine ⟨(trace, x), h, hdropped, hqueued, hserves hsenders (by decide), ?_⟩
  rw [hqueued]
  decide +kernel

end SqlComposer
