/-
Reading from a byte stream: `std::io::Error` as its kind and text, and
`read_exact` over a stream that is a list of bytes followed by end of
file.

A reader is a state-passing function over the unread bytes that keeps
the state on failure too, so that what an `Err` leaves behind is part
of the model.
-/
import Wrtg.Rust.Basic

namespace Wrtg

/-- The kinds that the source makes or asks for, and the rest. -/
inductive ErrorKind where
  | invalidData
  | brokenPipe
  | unexpectedEof
  | timedOut
  | other
  deriving DecidableEq, Repr

structure IoError where
  kind : ErrorKind
  msg : String
  deriving DecidableEq, Repr

/-- A reader of the unread bytes. -/
abbrev Read := EStateM IoError Bytes

/-- `read_exact` into a buffer of `n` bytes: end of file on the way is
an error and uses up what there was. -/
def readExact (n : Nat) : Read Bytes := fun input =>
  if n ≤ input.length then .ok (input.take n) (input.drop n)
  else .error { kind := .unexpectedEof, msg := "early eof" } []

theorem readExact_append (xs rest : Bytes) :
    readExact xs.length (xs ++ rest) = .ok xs rest := by
  unfold readExact
  rw [if_pos (by simp), List.take_left, List.drop_left]

theorem readExact_of_length {n : Nat} {xs : Bytes} (h : xs.length = n)
    (rest : Bytes) : readExact n (xs ++ rest) = .ok xs rest := by
  rw [← h, readExact_append]

theorem readExact_length {n : Nat} {s xs rest : Bytes}
    (h : readExact n s = .ok xs rest) : xs.length = n := by
  unfold readExact at h
  split at h
  · next hn =>
      cases h
      rw [List.length_take, Nat.min_eq_left hn]
  · cases h

-- ======================================================= consumption

/-- A reader that takes at least `k` bytes whenever it succeeds. -/
def Consumes {α : Type} (k : Nat) (r : Read α) : Prop :=
  ∀ s a rest, r s = .ok a rest → rest.length + k ≤ s.length

theorem consumes_readExact (n : Nat) : Consumes n (readExact n) := by
  intro s a rest h
  unfold readExact at h
  split at h
  · cases h
    rw [List.length_drop]
    omega
  · cases h

theorem consumes_pure {α : Type} (a : α) : Consumes 0 (pure a : Read α) := by
  intro s b rest h
  cases h
  exact Nat.le_refl _

theorem consumes_throw {α : Type} (k : Nat) (e : IoError) :
    Consumes k (throw e : Read α) := by
  intro s a rest h
  cases h

theorem consumes_ite {α : Type} {k : Nat} {p : Prop} [Decidable p]
    {r t : Read α} (hr : Consumes k r) (ht : Consumes k t) :
    Consumes k (if p then r else t) := by
  split
  · exact hr
  · exact ht

/-- What two readers in a row take adds up. -/
theorem consumes_bind {α β : Type} {j k : Nat} {r : Read α}
    {f : α → Read β} (hr : Consumes j r) (hf : ∀ a, Consumes k (f a)) :
    Consumes (j + k) (r >>= f) := by
  intro s b rest h
  simp only [bind, EStateM.bind] at h
  cases hs : r s with
  | error e s' =>
      rw [hs] at h
      cases h
  | ok a s' =>
      rw [hs] at h
      have h₁ := hr s a s' hs
      have h₂ := hf a s' b rest h
      omega

theorem Consumes.mono {α : Type} {j k : Nat} {r : Read α}
    (h : Consumes k r) (hjk : j ≤ k) : Consumes j r := by
  intro s a rest hs
  have := h s a rest hs
  omega

end Wrtg
