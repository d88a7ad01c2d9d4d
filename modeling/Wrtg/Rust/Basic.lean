/-
What the translated functions need of the language they come from:
bytes, faults, bounds-checked access and machine arithmetic.

A function of the source that can fail or panic is a function into
`Res`: `Fault.err` is the `Err` the source returns, `Fault.panic` the
panic it would raise. Indexing and slicing go through `idx` and
`slice`, so that "no access is out of range" is "never `panic`". `usize`
sums and products whose operands come from the wire go through the
checked operations of `Word`, the width of the target; a sum that is
bounded by the length of a buffer in memory is a plain `Nat`. So are
instants and durations: nanoseconds, on a clock that never goes back,
whose sums `Instant.add` checks.
-/
import Mathlib.Algebra.Group.Int.Defs
import Mathlib.Algebra.Group.Nat.Defs
import Mathlib.Data.List.Basic
import Mathlib.Data.Int.Basic
import Mathlib.Data.List.TakeWhile

namespace Wrtg

abbrev Bytes := List UInt8

-- ============================================================= faults

/-- Why a call panics. -/
inductive Panic where
  | outOfRange
  | overflow
  | outOfFuel
  | unwrap
  deriving DecidableEq, Repr

/-- How a call ends other than by returning: the source's `Err`, or a
panic. -/
inductive Fault where
  | err (msg : String)
  | panic (why : Panic)
  deriving DecidableEq, Repr

abbrev Res (α : Type) := Except Fault α

/-- What a `?` chain that returned went through. -/
theorem Res.bind_ok {α β : Type} {x : Res α} {f : α → Res β} {b : β}
    (h : (x >>= f) = .ok b) : ∃ a, x = .ok a ∧ f a = .ok b := by
  cases x with
  | error e => cases h
  | ok a => exact ⟨a, rfl, h⟩

-- ===================================================== checked access

/-- `xs[i]`. -/
def idx {α : Type} (xs : List α) (i : Nat) : Res α :=
  match xs[i]? with
  | some a => .ok a
  | none => .error (.panic .outOfRange)

/-- The bytes `a..b` of a slice, without the bounds check. -/
def sub {α : Type} (xs : List α) (a b : Nat) : List α :=
  (xs.drop a).take (b - a)

/-- `&xs[a..b]`. -/
def slice {α : Type} (xs : List α) (a b : Nat) : Res (List α) :=
  if a ≤ b ∧ b ≤ xs.length then .ok (sub xs a b)
  else .error (.panic .outOfRange)

/-- `&xs[a..]`. -/
def sliceFrom {α : Type} (xs : List α) (a : Nat) : Res (List α) :=
  slice xs a xs.length

theorem idx_ok {α : Type} {xs : List α} {i : Nat} (h : i < xs.length) :
    idx xs i = .ok xs[i] := by
  unfold idx
  rw [List.getElem?_eq_getElem h]

theorem slice_ok {α : Type} {xs : List α} {a b : Nat} (hab : a ≤ b)
    (hb : b ≤ xs.length) : slice xs a b = .ok (sub xs a b) := by
  unfold slice
  rw [if_pos ⟨hab, hb⟩]

theorem sliceFrom_ok {α : Type} {xs : List α} {a : Nat}
    (h : a ≤ xs.length) : sliceFrom xs a = .ok (xs.drop a) := by
  unfold sliceFrom
  rw [slice_ok h (Nat.le_refl _), sub, ← List.length_drop, List.take_length]

@[simp] theorem sub_length {α : Type} (xs : List α) (a b : Nat) :
    (sub xs a b).length = min (b - a) (xs.length - a) := by
  simp [sub]

-- ================================================= machine arithmetic

/-- The pointer width of the target. -/
inductive Word where
  | w32
  | w64
  deriving DecidableEq, Repr

/-- One more than the largest `usize`. -/
def Word.size : Word → Nat
  | .w32 => 2 ^ 32
  | .w64 => 2 ^ 64

theorem Word.le_size (w : Word) : 2 ^ 32 ≤ w.size := by
  cases w <;> decide

/-- `a + b` on `usize`. -/
def Word.add (w : Word) (a b : Nat) : Res Nat :=
  if a + b < w.size then .ok (a + b) else .error (.panic .overflow)

/-- `a * b` on `usize`. -/
def Word.mul (w : Word) (a b : Nat) : Res Nat :=
  if a * b < w.size then .ok (a * b) else .error (.panic .overflow)

theorem Word.add_ok {w : Word} {a b : Nat} (h : a + b < 2 ^ 32) :
    w.add a b = .ok (a + b) := by
  unfold Word.add
  rw [if_pos (Nat.lt_of_lt_of_le h w.le_size)]

theorem Word.mul_ok {w : Word} {a b : Nat} (h : a * b < 2 ^ 32) :
    w.mul a b = .ok (a * b) := by
  unfold Word.mul
  rw [if_pos (Nat.lt_of_lt_of_le h w.le_size)]

/-- `n as i32`: the low 32 bits, read as two's complement. -/
def asI32 (n : Nat) : Int := (n : Int).bmod (2 ^ 32)

theorem asI32_of_lt {n : Nat} (h : n < 2 ^ 31) : asI32 n = n := by
  unfold asI32
  rw [Int.bmod_eq_of_le] <;> omega

/-- `n as usize` of an `i32`: the value modulo the pointer width. -/
def Word.ofI32 (w : Word) (n : Int) : Nat := (n % w.size).toNat

theorem Word.ofI32_of_lt {w : Word} {n : Nat} (h : n < 2 ^ 31) :
    w.ofI32 n = n := by
  have hw := w.le_size
  unfold Word.ofI32
  rw [Int.emod_eq_of_lt (by omega) (by omega)]
  exact Int.toNat_natCast n

/-- Big-endian value of a byte string. -/
def beNat (bs : Bytes) : Nat := bs.foldl (fun acc b => acc * 256 + b.toNat) 0

/-- The last `k` big-endian bytes of `n`. -/
def beBytes : Nat → Nat → Bytes
  | 0, _ => []
  | k + 1, n => beBytes k (n / 256) ++ [UInt8.ofNat (n % 256)]

/-- Little-endian value of a byte string. -/
def leNat : Bytes → Nat
  | [] => 0
  | b :: bs => b.toNat + 256 * leNat bs

/-- The first `k` little-endian bytes of `n`. -/
def leBytes : Nat → Nat → Bytes
  | 0, _ => []
  | k + 1, n => UInt8.ofNat (n % 256) :: leBytes k (n / 256)

@[simp] theorem leBytes_length (k n : Nat) : (leBytes k n).length = k := by
  induction k generalizing n with
  | zero => rfl
  | succ k ih => simp [leBytes, ih]

/-- Reading little-endian bytes back. -/
theorem leNat_leBytes {k n : Nat} (h : n < 256 ^ k) :
    leNat (leBytes k n) = n := by
  induction k generalizing n with
  | zero =>
      rw [Nat.pow_zero] at h
      have hn : n = 0 := by omega
      subst hn
      rfl
  | succ k ih =>
      have hd : n / 256 < 256 ^ k := by
        rw [Nat.pow_succ] at h
        exact Nat.div_lt_of_lt_mul (by omega)
      simp only [leBytes, leNat, ih hd, UInt8.toNat_ofNat']
      omega

theorem beNat_append_singleton (bs : Bytes) (b : UInt8) :
    beNat (bs ++ [b]) = beNat bs * 256 + b.toNat := by
  unfold beNat
  rw [List.foldl_append]
  rfl

/-- Reading big-endian bytes back. -/
theorem beNat_beBytes {k n : Nat} (h : n < 256 ^ k) :
    beNat (beBytes k n) = n := by
  induction k generalizing n with
  | zero =>
      rw [Nat.pow_zero] at h
      have hn : n = 0 := by omega
      subst hn
      rfl
  | succ k ih =>
      have hd : n / 256 < 256 ^ k := by
        rw [Nat.pow_succ] at h
        exact Nat.div_lt_of_lt_mul (by omega)
      rw [beBytes, beNat_append_singleton, ih hd, UInt8.toNat_ofNat']
      omega

@[simp] theorem beBytes_length (k n : Nat) : (beBytes k n).length = k := by
  induction k generalizing n with
  | zero => rfl
  | succ k ih => simp [beBytes, ih]

-- =============================================================== lines

/-- `b == b' ' || b == b'\t'`. -/
def isBlank (b : UInt8) : Bool := b == 0x20 || b == 0x09

/-- `b == b'\r' || b == b'\n'`. -/
def isLineEnd (b : UInt8) : Bool := b == 0x0D || b == 0x0A

theorem isLineEnd_blank {b : UInt8} (h : isBlank b = true) :
    isLineEnd b = false := by
  unfold isBlank at h
  rcases Bool.or_eq_true_iff.mp h with h | h
  · cases beq_iff_eq.mp h
    rfl
  · cases beq_iff_eq.mp h
    rfl

theorem drop_takeWhile {α : Type} (p : α → Bool) (xs : List α) :
    xs.drop (xs.takeWhile p).length = xs.dropWhile p := by
  have hleft := @List.drop_left _ (xs.takeWhile p) (xs.dropWhile p)
  rw [List.takeWhile_append_dropWhile] at hleft
  exact hleft

/-- The blanks before a value are on its line. -/
theorem takeWhile_blanks (xs : Bytes) :
    xs.takeWhile isBlank ++ (xs.dropWhile isBlank).takeWhile (!isLineEnd ·)
      = xs.takeWhile (!isLineEnd ·) := by
  have hline : ∀ b ∈ xs.takeWhile isBlank, (!isLineEnd b) = true := by
    intro b hb
    rw [isLineEnd_blank (List.mem_takeWhile_imp hb)]
    rfl
  conv_rhs => rw [← @List.takeWhile_append_dropWhile _ isBlank xs]
  rw [List.takeWhile_append_of_pos hline]

-- ================================================================ time

def Duration.fromSecs (secs : Nat) : Nat := secs * 1000000000

def Duration.fromMillis (millis : Nat) : Nat := millis * 1000000

/-- `Duration::MAX`: all the seconds of a `u64`, and the nanoseconds
short of one more. -/
def Duration.MAX : Nat := 2 ^ 64 * 1000000000 - 1

/-- The end of the seconds that an `Instant` counts, an `i64` of them. -/
def Instant.END : Nat := 2 ^ 63 * 1000000000

/-- `Instant + Duration`; `none` is its panic. -/
def Instant.add (now duration : Nat) : Option Nat :=
  if now + duration < Instant.END then some (now + duration) else none

theorem Instant.add_of_lt {now duration : Nat}
    (h : now + duration < Instant.END) :
    Instant.add now duration = some (now + duration) := if_pos h

theorem Instant.add_of_ge {now duration : Nat}
    (h : ¬ now + duration < Instant.END) :
    Instant.add now duration = none := if_neg h

theorem Instant.eq_of_add {now duration time : Nat}
    (h : Instant.add now duration = some time) : time = now + duration := by
  unfold Instant.add at h
  split at h
  · cases h
    rfl
  · cases h

end Wrtg
