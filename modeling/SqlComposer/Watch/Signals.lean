import SqlComposer.Log

/-! Signals that a script has been written to. Only so many wait at a time; while that many wait,
a further one says nothing new and is dropped. -/
namespace SqlComposer

/-- What has happened to the contents of a file, or to what is known about it. -/
inductive Modification where
  | any | contents | metadata | name | other
  deriving DecidableEq, Repr

inductive FileEvent where
  | any | access | create | remove | other
  | modify (m : Modification)
  deriving DecidableEq, Repr

/-- Whether the contents of the file may have been written. -/
def FileEvent.isWrite : FileEvent → Bool
  | .modify .any => true
  | .modify .contents => true
  | _ => false

/-- A queue of signals, and whether anybody still takes signals from it. -/
structure Channel where
  queued : Nat := 0
  receiving : Bool := true
  deriving DecidableEq, Repr

namespace Channel

/-- How many signals wait at most. -/
def capacity : Nat := 5

/-- Sends a signal, and tells whether it is accepted. -/
def notify (c : Channel) : Bool × Channel :=
  if c.receiving && c.queued < capacity then (true, { c with queued := c.queued + 1 })
  else (false, c)

/-- A signal is only worth a word when it is dropped for want of room. -/
def notifyRecord? (c : Channel) : Option LogRecord :=
  if c.receiving && !c.notify.1 then
    some ⟨.trace, "recompile already queued, dropping signal", []⟩
  else none

def receive? (c : Channel) : Option Channel :=
  if c.receiving && 0 < c.queued then some { c with queued := c.queued - 1 } else none

/-- Takes all signals, and tells how many there were. -/
def drain (c : Channel) : Nat × Channel := (c.queued, { c with queued := 0 })

/-- Nobody takes signals any more. -/
def close (c : Channel) : Channel := { c with receiving := false }

theorem queued_notify_le {c : Channel} (h : c.queued ≤ capacity) :
    c.notify.2.queued ≤ capacity := by
  unfold notify
  split
  · next room =>
    rw [Bool.and_eq_true, decide_eq_true_eq] at room
    exact room.2
  · exact h

/-- A signal that is dropped leaves the channel as it was. -/
theorem notify_dropped {c : Channel} (h : c.notify.1 = false) : c.notify.2 = c := by
  unfold notify at h ⊢; split <;> simp_all

end Channel
end SqlComposer
