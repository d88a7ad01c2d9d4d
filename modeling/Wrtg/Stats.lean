/-
The counters of the daemon (`stats.rs`): an array of words, each of which
wraps.
-/
import Mathlib.Logic.Function.Basic

namespace Wrtg.Stats

/-- A monotonic counter. -/
inductive Stat where
  | accepted
  | selfConnectDropped
  | wsPoolHit
  | wsDirect
  | fronting
  | cfWorker
  | cfProxy
  | tcpFallback
  | workerPassthrough
  | blindRelay
  | allPathsFailed
  | idleReaped
  | passthroughNoData
  | cfProxyMedia
  | mediaHttpRejected
  | cfProxyDialFailed
  deriving DecidableEq, Repr

variable {w : Nat}

/-- `COUNTERS`. -/
abbrev Counters (w : Nat) := Stat → BitVec w

def Counters.zero : Counters w := fun _ => 0

/-- `fetch_add`, which wraps. -/
def inc (s : Stat) (c : Counters w) : Counters w :=
  Function.update c s (c s + 1)

/-- One behind the other. -/
def incAll (counts : List Stat) (c : Counters w) : Counters w :=
  counts.foldl (fun c s => inc s c) c

/-- What the array holds is what has been counted, as a word. -/
theorem incAll_apply (counts : List Stat) (c : Counters w) (t : Stat) :
    incAll counts c t = c t + BitVec.ofNat w (counts.count t) := by
  induction counts generalizing c with
  | nil => simp [incAll]
  | cons s counts ih =>
      have htail := ih (inc s c)
      unfold incAll at htail ⊢
      rw [List.foldl_cons, htail, inc, Function.update_apply,
        List.count_cons]
      by_cases hs : t = s
      · subst hs
        simp only [beq_self_eq_true, if_true]
        rw [BitVec.ofNat_add, BitVec.add_assoc,
          BitVec.add_comm (BitVec.ofNat w _)]
        rfl
      · rw [if_neg hs, if_neg (by simpa using Ne.symm hs), Nat.add_zero]

end Wrtg.Stats
