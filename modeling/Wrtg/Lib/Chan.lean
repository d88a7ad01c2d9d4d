/-
A bounded first-in first-out channel: the queue between the senders of a
channel and its one receiver, with its capacity in the type.

`send` and `recv` are the two ends where they do not wait: `none` is a
sender that waits for room, or a receiver that waits for a value. That a
queue holds no more than the capacity is a field, so no step of a system
built on channels has to keep it.
-/
import Mathlib.Data.List.Basic

namespace Wrtg.Lib

structure Chan (α : Type) (cap : Nat) where
  queue : List α
  bounded : queue.length ≤ cap

namespace Chan

variable {α : Type} {cap : Nat}

def empty : Chan α cap where
  queue := []
  bounded := Nat.zero_le _

def send (c : Chan α cap) (a : α) : Option (Chan α cap) :=
  if h : c.queue.length < cap then
    some { queue := c.queue ++ [a]
           bounded := by rw [List.length_append]; exact h }
  else none

def recv (c : Chan α cap) : Option (α × Chan α cap) :=
  match c with
  | { queue := [], .. } => none
  | { queue := a :: rest, bounded } =>
      some (a, { queue := rest, bounded := Nat.le_of_succ_le bounded })

/-- A value sent is the last of the queue. -/
theorem send_queue {c c' : Chan α cap} {a : α} (h : c.send a = some c') :
    c'.queue = c.queue ++ [a] := by
  unfold send at h
  split at h
  · cases h
    rfl
  · cases h

/-- A value received was the first of the queue. -/
theorem recv_queue {c c' : Chan α cap} {a : α}
    (h : c.recv = some (a, c')) : c.queue = a :: c'.queue := by
  obtain ⟨queue, bounded⟩ := c
  cases queue with
  | nil => cases h
  | cons b rest =>
      cases h
      rfl

/-- The receiver waits on an empty queue only. -/
theorem recv_eq_none {c : Chan α cap} : c.recv = none ↔ c.queue = [] := by
  obtain ⟨queue, bounded⟩ := c
  cases queue with
  | nil => exact iff_of_true rfl rfl
  | cons b rest => exact iff_of_false (fun h => nomatch h) (fun h => nomatch h)

end Chan

end Wrtg.Lib
