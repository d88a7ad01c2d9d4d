/-
Vectors on the wire: bytes behind their number, in big-endian bytes.

`Reads` is a vector at the head of a byte string. What a reader finds by
offsets, in the bytes of a buffer from `i` to `e`, is stated over
`sub data i e`.
-/
import Mathlib.Data.List.Induction
import Wrtg.Rust.Basic

namespace Wrtg.Lib

-- ========================================================== big-endian

theorem beNat_lt (bs : Bytes) : beNat bs < 256 ^ bs.length := by
  induction bs using List.reverseRecOn with
  | nil => decide
  | append_singleton bs b ih =>
      have hb := b.toNat_lt
      rw [beNat_append_singleton, List.length_append, List.length_singleton,
        Nat.pow_succ]
      omega

theorem beBytes_beNat (bs : Bytes) : beBytes bs.length (beNat bs) = bs := by
  induction bs using List.reverseRecOn with
  | nil => rfl
  | append_singleton bs b ih =>
      have hb := b.toNat_lt
      have hdiv : (beNat bs * 256 + b.toNat) / 256 = beNat bs := by omega
      have hmod : (beNat bs * 256 + b.toNat) % 256 = b.toNat := by omega
      rw [beNat_append_singleton, List.length_append, List.length_singleton,
        beBytes, hdiv, hmod, ih, UInt8.ofNat_toNat]

-- ============================================================= vectors

/-- A vector with `k` bytes of length. -/
def vec (k : Nat) (v : Bytes) : Bytes := beBytes k v.length ++ v

/-- `bs` starts with the vector of `v`, and goes on with `rest`. -/
def Reads (k : Nat) (bs v rest : Bytes) : Prop :=
  v.length < 256 ^ k ∧ bs = vec k v ++ rest

@[simp] theorem vec_length (k : Nat) (v : Bytes) :
    (vec k v).length = k + v.length := by
  unfold vec
  rw [List.length_append, beBytes_length]

theorem reads_vec {k : Nat} {v : Bytes} (h : v.length < 256 ^ k)
    (rest : Bytes) : Reads k (vec k v ++ rest) v rest :=
  ⟨h, rfl⟩

/-- What a reader of the length and of that many bytes sees. -/
theorem reads_iff {k : Nat} {bs v rest : Bytes} :
    Reads k bs v rest
      ↔ k ≤ bs.length ∧ beNat (bs.take k) = v.length
        ∧ bs.drop k = v ++ rest := by
  constructor
  · intro h
    obtain ⟨hfits, rfl⟩ := h
    have hlen := beBytes_length k v.length
    have htake : (vec k v ++ rest).take k = beBytes k v.length := by
      unfold vec
      rw [List.append_assoc, List.take_left' hlen]
    have hdrop : (vec k v ++ rest).drop k = v ++ rest := by
      unfold vec
      rw [List.append_assoc, List.drop_left' hlen]
    refine ⟨?_, ?_, hdrop⟩
    · rw [List.length_append, vec_length]
      omega
    · rw [htake, beNat_beBytes hfits]
  · intro h
    obtain ⟨hk, hn, hdrop⟩ := h
    have hlen : (bs.take k).length = k := List.length_take_of_le hk
    have hlt := beNat_lt (bs.take k)
    have hbytes := beBytes_beNat (bs.take k)
    rw [hlen, hn] at hlt hbytes
    refine ⟨hlt, ?_⟩
    unfold vec
    rw [hbytes, List.append_assoc, ← hdrop, List.take_append_drop]

theorem Reads.unique {k : Nat} {bs v v' rest rest' : Bytes}
    (h : Reads k bs v rest) (h' : Reads k bs v' rest') :
    v = v' ∧ rest = rest' := by
  obtain ⟨-, hn, hdrop⟩ := reads_iff.mp h
  obtain ⟨-, hn', hdrop'⟩ := reads_iff.mp h'
  exact List.append_inj (hdrop.symm.trans hdrop') (hn.symm.trans hn')

-- ====================================================== in a buffer

section Buffer

variable {data : Bytes} {i e k : Nat}

theorem sub_drop (data : Bytes) (i e n : Nat) :
    (sub data i e).drop n = sub data (i + n) e := by
  unfold sub
  rw [List.drop_take, List.drop_drop, Nat.sub_add_eq]

theorem sub_take {n : Nat} (h : i + n ≤ e) :
    (sub data i e).take n = sub data i (i + n) := by
  unfold sub
  rw [List.take_take, Nat.add_sub_cancel_left, Nat.min_eq_left (by omega)]

theorem sub_cons (hi : i < e) (he : e ≤ data.length) :
    sub data i e = data[i] :: sub data (i + 1) e := by
  unfold sub
  rw [List.drop_eq_getElem_cons (by omega), show e - i = e - (i + 1) + 1 by
    omega, List.take_succ_cons]

/-- A vector in a buffer, by its offsets. -/
theorem Reads.at {v rest : Bytes} (h : Reads k (sub data i e) v rest)
    (hi : i ≤ e) (he : e ≤ data.length) :
    i + k + v.length ≤ e ∧ beNat (sub data i (i + k)) = v.length
      ∧ sub data (i + k) (i + k + v.length) = v
      ∧ sub data (i + k + v.length) e = rest := by
  obtain ⟨hk, hn, hdrop⟩ := reads_iff.mp h
  have hlen := congrArg List.length hdrop
  rw [sub_length] at hk
  rw [List.length_drop, sub_length, List.length_append] at hlen
  rw [sub_drop] at hdrop
  have hend : i + k + v.length ≤ e := by omega
  rw [sub_take (by omega)] at hn
  refine ⟨hend, hn, ?_, ?_⟩
  · rw [← sub_take hend, hdrop, List.take_left]
  · rw [← sub_drop, hdrop, List.drop_left]

/-- There is a vector at `i` unless its length or its bytes go past the
end. -/
theorem reads_or (k : Nat) (hi : i ≤ e) (he : e ≤ data.length) :
    (∃ v rest, Reads k (sub data i e) v rest)
    ∨ (∀ v rest, ¬ Reads k (sub data i e) v rest)
      ∧ e < i + k + beNat (sub data i (i + k)) := by
  by_cases hfits : i + k + beNat (sub data i (i + k)) ≤ e
  · refine .inl ⟨sub data (i + k) (i + k + beNat (sub data i (i + k))),
      sub data (i + k + beNat (sub data i (i + k))) e, reads_iff.mpr ?_⟩
    refine ⟨?_, ?_, ?_⟩
    · rw [sub_length]
      omega
    · rw [sub_take (by omega), sub_length]
      omega
    · rw [sub_drop, ← sub_drop data (i + k) e, ← sub_take hfits,
        List.take_append_drop]
  · refine .inr ⟨?_, by omega⟩
    intro v rest h
    obtain ⟨hend, hn, -⟩ := h.at hi he
    omega

end Buffer

end Wrtg.Lib
