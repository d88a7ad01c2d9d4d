/-
Additive stream ciphers: a symbol stream combined position by position
with a keystream. AES-CTR and the WebSocket payload mask are both this
with different keystreams, so every chunking and involution fact about
either is a fact of this file.

`maskFrom op ks off xs` combines `xs` with the keystream from position
`off` on. Cutting the text carries the position across the cut
(`maskFrom_append`), and combining twice with an involutive `op` is the
identity (`maskFrom_maskFrom`).
-/
import Wrtg.Lib.Feed

namespace Wrtg.Lib

variable {α κ : Type} (op : α → κ → α) (ks : Nat → κ)

/-- Combine a text with the keystream from position `off` on. -/
def maskFrom : Nat → List α → List α
  | _, [] => []
  | off, a :: as => op a (ks off) :: maskFrom (off + 1) as

@[simp] theorem maskFrom_nil (off : Nat) : maskFrom op ks off [] = [] :=
  rfl

@[simp] theorem maskFrom_length (off : Nat) (xs : List α) :
    (maskFrom op ks off xs).length = xs.length := by
  induction xs generalizing off with
  | nil => rfl
  | cons a as ih => simp only [maskFrom, List.length_cons, ih]

/-- The position carries across a cut of the text. -/
theorem maskFrom_append (off : Nat) (xs ys : List α) :
    maskFrom op ks off (xs ++ ys)
      = maskFrom op ks off xs ++ maskFrom op ks (off + xs.length) ys := by
  induction xs generalizing off with
  | nil => rfl
  | cons a as ih =>
      simp only [List.cons_append, maskFrom, ih, List.length_cons]
      rw [show off + 1 + as.length = off + (as.length + 1) by omega]

/-- Combining twice with an involutive operation gives the text back. -/
theorem maskFrom_maskFrom (hop : ∀ a k, op (op a k) k = a) (off : Nat)
    (xs : List α) :
    maskFrom op ks off (maskFrom op ks off xs) = xs := by
  induction xs generalizing off with
  | nil => rfl
  | cons a as ih => simp only [maskFrom, hop, ih]

/-- A masked text read by index. -/
theorem maskFrom_getElem? (off : Nat) (xs : List α) (i : Nat) :
    (maskFrom op ks off xs)[i]? = xs[i]?.map fun a => op a (ks (off + i)) := by
  induction xs generalizing off i with
  | nil => simp
  | cons a as ih =>
      cases i with
      | zero => simp [maskFrom]
      | succ i =>
          simp only [maskFrom, List.getElem?_cons_succ, ih]
          rw [show off + 1 + i = off + (i + 1) by omega]

/-- A masked text, cut: taking `n` symbols. -/
theorem maskFrom_take (off n : Nat) (xs : List α) :
    (maskFrom op ks off xs).take n = maskFrom op ks off (xs.take n) := by
  induction n generalizing off xs with
  | zero => rfl
  | succ n ih =>
      cases xs with
      | nil => rfl
      | cons a as => simp only [maskFrom, List.take_succ_cons, ih]

/-- A masked text, cut: dropping `n` symbols moves the position. -/
theorem maskFrom_drop (off n : Nat) (xs : List α) :
    (maskFrom op ks off xs).drop n
      = maskFrom op ks (off + n) (xs.drop n) := by
  induction n generalizing off xs with
  | zero => rfl
  | succ n ih =>
      cases xs with
      | nil => simp
      | cons a as =>
          simp only [maskFrom, List.drop_succ_cons, ih]
          rw [show off + 1 + n = off + (n + 1) by omega]

/-- The stage form: state is the keystream position. -/
def maskStage (off : Nat) (xs : List α) : List α × Nat :=
  (maskFrom op ks off xs, off + xs.length)

/-- A keystream cannot see where the text was cut. -/
theorem maskStage_hom : ChunkHom (maskStage op ks) where
  nil _ := rfl
  append s a b := by
    simp only [maskStage, maskFrom_append, List.length_append,
      Nat.add_assoc]

end Wrtg.Lib
