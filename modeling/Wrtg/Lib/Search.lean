/-
The first occurrence of a pattern in a list.
-/
import Mathlib.Data.List.Basic

namespace Wrtg.Lib

variable {α : Type} {pat xs ys : List α} {k : Nat}

/-- The pattern is in the list at `k`. -/
def At (pat xs : List α) (k : Nat) : Prop := pat <+: xs.drop k

theorem At.le (h : At pat xs k) (hne : pat ≠ []) :
    k + pat.length ≤ xs.length := by
  have hpos := List.length_pos_iff.mpr hne
  have hle := h.length_le
  rw [List.length_drop] at hle
  omega

/-- The `i`-th element of an occurrence. -/
theorem At.get (h : At pat xs k) {i : Nat} (hi : i < pat.length) :
    xs[k + i]? = pat[i]? := by
  obtain ⟨rest, hrest⟩ := h
  rw [← List.getElem?_drop, ← hrest, List.getElem?_append_left hi]

theorem At.tail {x : α} (h : At (x :: pat) xs k) : At pat xs (k + 1) := by
  obtain ⟨rest, hrest⟩ := h
  refine ⟨rest, ?_⟩
  rw [← List.drop_drop, ← hrest]
  rfl

theorem at_append_left (hk : k + pat.length ≤ xs.length) :
    At pat (xs ++ ys) k ↔ At pat xs k := by
  unfold At
  rw [List.drop_append_of_le_length (by omega)]
  constructor
  · intro h
    exact List.prefix_of_prefix_length_le h (List.prefix_append ..)
      (by rw [List.length_drop]; omega)
  · exact fun h => h.trans (List.prefix_append ..)

theorem at_append_right :
    At pat (xs ++ ys) (xs.length + k) ↔ At pat ys k := by
  unfold At
  rw [← List.drop_drop, List.drop_left]

theorem at_cons_succ {x : α} : At pat (x :: xs) (k + 1) ↔ At pat xs k :=
  Iff.rfl

/-- A longer pattern is where its beginning is. -/
theorem At.shorter {pre : List α} (hpre : pre <+: pat) (h : At pat xs k) :
    At pre xs k := hpre.trans h

-- ============================================================ skipping

/-- The pattern does not begin in `xs`, when `ys` comes behind. -/
def Skips (pat xs ys : List α) : Prop := ∀ k < xs.length, ¬At pat (xs ++ ys) k

theorem skips_nil : Skips pat [] ys := nofun

theorem skips_cons {x : α} :
    Skips pat (x :: xs) ys ↔ ¬pat <+: x :: (xs ++ ys) ∧ Skips pat xs ys := by
  constructor
  · intro h
    refine ⟨h 0 (Nat.succ_pos _), fun k hk => ?_⟩
    exact h (k + 1) (Nat.succ_lt_succ hk)
  · intro h k hk
    cases k with
    | zero => exact h.1
    | succ k => exact h.2 k (Nat.lt_of_succ_lt_succ hk)

theorem skips_append {zs : List α} :
    Skips pat (xs ++ ys) zs ↔ Skips pat xs (ys ++ zs) ∧ Skips pat ys zs := by
  induction xs with
  | nil => exact ⟨fun h => ⟨skips_nil, h⟩, fun h => h.2⟩
  | cons x xs ih =>
      rw [List.cons_append, skips_cons, ih, skips_cons, List.append_assoc,
        and_assoc]

/-- It does not begin where its first element is not. -/
theorem skips_of_not_mem {p : α} (h : p ∉ xs) : Skips (p :: pat) xs ys := by
  induction xs with
  | nil => exact skips_nil
  | cons x xs ih =>
      refine skips_cons.mpr ⟨fun hpre => h ?_, ih fun hp => h (by simp [hp])⟩
      rw [(List.cons_prefix_cons.mp hpre).1]
      exact List.mem_cons_self

/-- The pattern is at no other place than `n`. -/
def OnlyAt (pat xs : List α) (n : Nat) : Prop := ∀ k, At pat xs k → k = n

/-- A pattern that begins neither before nor behind a place is there
only. -/
theorem onlyAt_of_skips {x : α} (hbefore : Skips pat xs (x :: ys))
    (hbehind : Skips pat ys []) (hne : pat ≠ []) :
    OnlyAt pat (xs ++ x :: ys) xs.length := by
  intro k hat
  have hle := hat.le hne
  have hpos := List.length_pos_iff.mpr hne
  rw [List.length_append, List.length_cons] at hle
  rcases Nat.lt_trichotomy k xs.length with hlt | heq | hlt
  · exact absurd hat (hbefore k hlt)
  · exact heq
  · obtain ⟨j, rfl⟩ := Nat.exists_eq_add_of_lt hlt
    have hj : At pat (x :: ys) (j + 1) := by
      rw [Nat.add_assoc] at hat
      exact at_append_right.mp hat
    refine absurd (at_cons_succ.mp hj) ?_
    have hskip := hbehind j (by omega)
    rwa [List.append_nil] at hskip

theorem OnlyAt.longer {pre : List α} {n : Nat} (h : OnlyAt pre xs n)
    (hpre : pre <+: pat) : OnlyAt pat xs n :=
  fun k hat => h k (hat.shorter hpre)

/-- What is in a part is in the whole. -/
theorem At.append {as bs : List α} (h : At pat xs k) (hne : pat ≠ []) :
    At pat (as ++ (xs ++ bs)) (as.length + k) :=
  at_append_right.mpr ((at_append_left (h.le hne)).mpr h)

/-- It is at no other place of what the list begins with, -/
theorem OnlyAt.cut {n : Nat} (h : OnlyAt pat ys n) (hpre : xs <+: ys)
    (hne : pat ≠ []) : OnlyAt pat xs n := by
  obtain ⟨bs, rfl⟩ := hpre
  intro k hat
  exact h k ((at_append_left (hat.le hne)).mpr hat)

/-- nor of what it ends with. -/
theorem OnlyAt.drop {as : List α} {n : Nat}
    (h : OnlyAt pat (as ++ xs) (as.length + n)) : OnlyAt pat xs n :=
  fun _ hat => Nat.add_left_cancel (h _ (at_append_right.mpr hat))

/-- It is not in a part that ends before it does. -/
theorem OnlyAt.not_before {n : Nat} (h : OnlyAt pat (xs ++ ys) n)
    (hn : xs.length < n + pat.length) (hne : pat ≠ []) : ¬At pat xs k := by
  intro hat
  have hle := hat.le hne
  have heq := h k ((at_append_left hle).mpr hat)
  omega

/-- It is not in a part that begins behind its place. -/
theorem OnlyAt.not_behind {n : Nat} (h : OnlyAt pat (xs ++ ys) n)
    (hn : n < xs.length) : ¬At pat ys k := by
  intro hat
  have heq := h _ (at_append_right.mpr hat)
  omega

/-- A pattern that is at one place is neither in front of it, -/
theorem OnlyAt.front (h : OnlyAt pat (xs ++ (pat ++ ys)) xs.length)
    (hne : pat ≠ []) : ¬At pat xs k :=
  h.not_before (Nat.lt_add_of_pos_right (List.length_pos_iff.mpr hne)) hne

/-- nor behind it. -/
theorem OnlyAt.back (h : OnlyAt pat (xs ++ (pat ++ ys)) xs.length)
    (hne : pat ≠ []) : ¬At pat ys k := by
  have hpos := List.length_pos_iff.mpr hne
  rw [← List.append_assoc] at h
  refine h.not_behind ?_
  rw [List.length_append]
  omega

theorem not_at_of_infix (hinf : xs <:+: ys) (hne : pat ≠ [])
    (h : ∀ k, ¬At pat ys k) : ¬At pat xs k := by
  obtain ⟨as, bs, rfl⟩ := hinf
  intro hat
  rw [List.append_assoc] at h
  exact h _ (hat.append hne)

variable [DecidableEq α]

/-- Where the pattern is first. -/
def position (pat : List α) : List α → Option Nat
  | [] => none
  | x :: xs =>
      if pat.isPrefixOf (x :: xs) then some 0
      else (position pat xs).map (· + 1)

theorem position_eq_some (h : position pat xs = some k) :
    At pat xs k ∧ ∀ j < k, ¬ At pat xs j := by
  induction xs generalizing k with
  | nil => cases h
  | cons x xs ih =>
      rw [position] at h
      split at h
      · next hpre =>
          cases h
          exact ⟨List.isPrefixOf_iff_prefix.mp hpre, fun j hj => by omega⟩
      · next hpre =>
          obtain ⟨k, hk, rfl⟩ := Option.map_eq_some_iff.mp h
          obtain ⟨hat, hbefore⟩ := ih hk
          refine ⟨hat, fun j hj => ?_⟩
          cases j with
          | zero => exact fun hat => hpre (List.isPrefixOf_iff_prefix.mpr hat)
          | succ j => exact hbefore j (by omega)

theorem position_eq_none (hne : pat ≠ []) :
    position pat xs = none ↔ ∀ k, ¬ At pat xs k := by
  induction xs with
  | nil =>
      refine ⟨fun _ k hat => ?_, fun _ => rfl⟩
      unfold At at hat
      rw [List.drop_nil] at hat
      exact hne (List.prefix_nil.mp hat)
  | cons x xs ih =>
      rw [position]
      split
      · next hpre =>
          refine ⟨nofun, fun h => absurd ?_ (h 0)⟩
          exact List.isPrefixOf_iff_prefix.mp hpre
      · next hpre =>
          rw [Option.map_eq_none_iff, ih]
          constructor
          · intro h k
            cases k with
            | zero =>
                exact fun hat => hpre (List.isPrefixOf_iff_prefix.mpr hat)
            | succ k => exact h k
          · exact fun h k => h (k + 1)

/-- The first occurrence, by what it is. -/
theorem position_first (hne : pat ≠ []) (hat : At pat xs k)
    (hbefore : ∀ j < k, ¬ At pat xs j) : position pat xs = some k := by
  cases hpos : position pat xs with
  | none => exact absurd hat ((position_eq_none hne).mp hpos k)
  | some i =>
      obtain ⟨hi, hfirst⟩ := position_eq_some hpos
      rcases Nat.lt_trichotomy i k with hlt | rfl | hlt
      · exact absurd hi (hbefore i hlt)
      · rfl
      · exact absurd hat (hfirst k hlt)

end Wrtg.Lib
