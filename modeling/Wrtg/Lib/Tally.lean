/-
Counting what a list of parties, or a keyed map, holds in all.

`tally_set`, `tally_eraseIdx` and `mapTally_insert` are the bookkeeping
laws: one party or one key changes what it holds, or leaves, and the
total changes by that.
A conservation invariant over such a state is then a linear equation
that each step keeps.
-/
import Mathlib.Algebra.GroupWithZero.Nat
import Mathlib.Data.List.AList

namespace Wrtg.Lib

variable {α β κ : Type}

/-- The sum of `f` over a list. -/
def tally (f : α → Nat) (l : List α) : Nat := (l.map f).sum

@[simp] theorem tally_nil (f : α → Nat) : tally f [] = 0 := rfl

@[simp] theorem tally_cons (f : α → Nat) (a : α) (l : List α) :
    tally f (a :: l) = f a + tally f l := rfl

@[simp] theorem tally_append (f : α → Nat) (l l' : List α) :
    tally f (l ++ l') = tally f l + tally f l' := by
  induction l with
  | nil => exact (Nat.zero_add _).symm
  | cons a l ih =>
      rw [List.cons_append, tally_cons, tally_cons, ih, Nat.add_assoc]

theorem tally_add (f g : α → Nat) (l : List α) :
    tally (fun a => f a + g a) l = tally f l + tally g l := by
  induction l with
  | nil => rfl
  | cons a l ih =>
      rw [tally_cons, tally_cons, tally_cons, ih]
      omega

/-- One member of the list is replaced. -/
theorem tally_set {f : α → Nat} {l : List α} {i : Nat} {a : α}
    (h : l[i]? = some a) (b : α) :
    tally f (l.set i b) + f a = tally f l + f b := by
  induction l generalizing i with
  | nil => cases h
  | cons c l ih =>
      cases i with
      | zero =>
          cases h
          rw [List.set_cons_zero, tally_cons, tally_cons]
          omega
      | succ i =>
          have := ih h
          rw [List.set_cons_succ, tally_cons, tally_cons]
          omega

/-- One member of the list leaves. -/
theorem tally_eraseIdx {f : α → Nat} {l : List α} {i : Nat} {a : α}
    (h : l[i]? = some a) : tally f (l.eraseIdx i) + f a = tally f l := by
  induction l generalizing i with
  | nil => cases h
  | cons c l ih =>
      cases i with
      | zero =>
          cases h
          rw [List.eraseIdx_cons_zero, tally_cons]
          omega
      | succ i =>
          have := ih h
          rw [List.eraseIdx_cons_succ, tally_cons, tally_cons]
          omega

/-- The sum of `f` over the values of a map. -/
def mapTally (f : β → Nat) (m : AList fun _ : κ => β) : Nat :=
  tally (fun e => f e.2) m.entries

variable [DecidableEq κ]

theorem tally_kerase (f : β → Nat) (k : κ) (l : List (Σ _ : κ, β)) :
    tally (fun e => f e.2) (l.kerase k) + ((l.dlookup k).map f).getD 0
      = tally (fun e => f e.2) l := by
  induction l with
  | nil => rfl
  | cons e l ih =>
      obtain ⟨k', b⟩ := e
      by_cases hk : k = k'
      · subst hk
        have hkerase : (⟨k, b⟩ :: l : List (Σ _ : κ, β)).kerase k = l :=
          List.kerase_cons_eq rfl
        have hlookup : (⟨k, b⟩ :: l : List (Σ _ : κ, β)).dlookup k = some b :=
          List.dlookup_cons_eq l k b
        rw [hkerase, hlookup, tally_cons]
        exact Nat.add_comm _ _
      · have hkerase : (⟨k', b⟩ :: l : List (Σ _ : κ, β)).kerase k
            = ⟨k', b⟩ :: l.kerase k := List.kerase_cons_ne hk
        have hlookup : (⟨k', b⟩ :: l : List (Σ _ : κ, β)).dlookup k
            = l.dlookup k := List.dlookup_cons_ne l ⟨k', b⟩ hk
        rw [hkerase, hlookup, tally_cons, tally_cons]
        omega

/-- One value of the map is put or replaced. -/
theorem mapTally_insert (f : β → Nat) (m : AList fun _ : κ => β) (k : κ)
    (b : β) :
    mapTally f (m.insert k b) + ((m.lookup k).map f).getD 0
      = mapTally f m + f b := by
  have h := tally_kerase f k m.entries
  unfold mapTally AList.lookup
  rw [AList.entries_insert, tally_cons]
  show f b + _ + _ = _
  omega

end Wrtg.Lib
