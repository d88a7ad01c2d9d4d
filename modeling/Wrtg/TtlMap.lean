/-
A set of keys that each stay active until a deadline of their own
(`ttl_map.rs`). It backs the cooldown and blacklist maps.

A method that reads the clock takes the instant it reads, `now`, and
returns the map it leaves. An expired entry is dropped where it is met.
A result of `none` is the panic of `Instant + Duration`: the lock is
recovered behind it, so the map stays as the call has left it.
-/
import Mathlib.Data.List.AList
import Wrtg.Rust.Basic

namespace Wrtg

/-- The instant each key expires at. -/
abbrev TtlMap (κ : Type) := AList fun _ : κ => Nat

namespace TtlMap

variable {κ : Type} [DecidableEq κ]

def mark (m : TtlMap κ) (key : κ) (ttl now : Nat) :
    Option Unit × TtlMap κ :=
  match Instant.add now ttl with
  | some deadline => (some (), m.insert key deadline)
  | none => (none, m)

/-- Whether a new entry was put in, and the map. An expired one is
dropped before the new deadline is computed. -/
def markIfAbsent (m : TtlMap κ) (key : κ) (ttl now : Nat) :
    Option Bool × TtlMap κ :=
  let putIn (m : TtlMap κ) : Option Bool × TtlMap κ :=
    match Instant.add now ttl with
    | some deadline => (some true, m.insert key deadline)
    | none => (none, m)
  match m.lookup key with
  | some expiry => if now < expiry then (some false, m) else putIn (m.erase key)
  | none => putIn m

def isActive (m : TtlMap κ) (key : κ) (now : Nat) : Bool × TtlMap κ :=
  match m.lookup key with
  | some expiry => if now < expiry then (true, m) else (false, m.erase key)
  | none => (false, m)

/-- Whether there was an entry, and the map. -/
def clear (m : TtlMap κ) (key : κ) : Bool × TtlMap κ :=
  ((m.lookup key).isSome, m.erase key)

-- =================================================== small lemmas

/-- The key is within its time. -/
def activeAt (m : TtlMap κ) (key : κ) (now : Nat) : Bool :=
  match m.lookup key with
  | some expiry => decide (now < expiry)
  | none => false

@[simp] theorem isActive_fst (m : TtlMap κ) (key : κ) (now : Nat) :
    (m.isActive key now).1 = m.activeAt key now := by
  unfold isActive activeAt
  cases m.lookup key with
  | none => rfl
  | some expiry =>
      by_cases h : now < expiry
      · simp [h]
      · simp [h]

@[simp] theorem activeAt_clear (m : TtlMap κ) (key : κ) (now : Nat) :
    (m.clear key).2.activeAt key now = false := by
  unfold activeAt clear
  rw [AList.lookup_erase]

end TtlMap

end Wrtg
