/-
Strings, patterns and integer Numbers of ECMAScript.

A string is a list of UTF-16 code units, which is what a pattern without
the `u` flag looks at. Numbers are integers here; below 2^53 their
arithmetic is exact. The bitwise operators see a Number modulo 2^32.
-/
import Mathlib.Computability.RegularExpressions
import Mathlib.Data.List.Induction

namespace Wrtg.Lib.Ecma

abbrev JsString := List UInt16

/-- A literal of characters in the basic plane. -/
def js (s : String) : JsString := s.toList.map fun c => .ofNat c.toNat

-- ============================================================ patterns

abbrev Pattern := RegularExpression UInt16

/-- `[lo-hi]`. -/
def charRange (lo hi : UInt16) : Pattern :=
  ((List.range' lo.toNat (hi.toNat + 1 - lo.toNat)).map
    fun n => RegularExpression.char (.ofNat n)).sum

/-- `r{lo,hi}`. -/
def counted (r : Pattern) (lo hi : Nat) : Pattern :=
  r ^ lo * (1 + r) ^ (hi - lo)

/-- `/^(r)$/.test(s)`. Without the flag `m`, `$` is the end of the string
and nothing else. -/
def test (r : Pattern) (s : JsString) : Bool := r.rmatch s

theorem mem_sum {rs : List Pattern} {s : JsString} :
    s ∈ rs.sum.matches' ↔ ∃ r ∈ rs, s ∈ r.matches' := by
  induction rs with
  | nil => simp [Language.notMem_zero]
  | cons r rs ih =>
      rw [List.sum_cons, RegularExpression.matches'_add, Language.mem_add, ih]
      simp

theorem mem_charRange {lo hi : UInt16} {s : JsString} :
    s ∈ (charRange lo hi).matches' ↔ ∃ c, lo ≤ c ∧ c ≤ hi ∧ s = [c] := by
  unfold charRange
  rw [mem_sum]
  constructor
  · intro h
    obtain ⟨r, hr, hs⟩ := h
    obtain ⟨n, hn, rfl⟩ := List.mem_map.mp hr
    have hhi := hi.toNat_lt
    rw [List.mem_range'_1] at hn
    have hc : (UInt16.ofNat n).toNat = n :=
      UInt16.toNat_ofNat_of_lt' (show n < 65536 by omega)
    refine ⟨.ofNat n, ?_, ?_, hs⟩
    · rw [UInt16.le_iff_toNat_le, hc]
      exact hn.1
    · rw [UInt16.le_iff_toNat_le, hc]
      omega
  · intro h
    obtain ⟨c, hlo, hhi, rfl⟩ := h
    rw [UInt16.le_iff_toNat_le] at hlo hhi
    refine ⟨.char c, ?_, rfl⟩
    refine List.mem_map.mpr ⟨c.toNat, ?_, by rw [UInt16.ofNat_toNat]⟩
    rw [List.mem_range'_1]
    omega

/-- All units of the string are in the class. -/
def AllIn (lo hi : UInt16) (s : JsString) : Prop := ∀ c ∈ s, lo ≤ c ∧ c ≤ hi

theorem mem_charRange_pow {lo hi : UInt16} {n : Nat} {s : JsString} :
    s ∈ ((charRange lo hi) ^ n).matches' ↔ s.length = n ∧ AllIn lo hi s := by
  rw [RegularExpression.matches'_pow]
  induction n generalizing s with
  | zero =>
      rw [pow_zero, Language.mem_one, List.length_eq_zero_iff]
      exact ⟨fun h => ⟨h, h ▸ nofun⟩, fun h => h.1⟩
  | succ n ih =>
      rw [pow_succ', Language.mem_mul]
      constructor
      · intro h
        obtain ⟨a, ha, b, hb, rfl⟩ := h
        obtain ⟨c, hlo, hhi, rfl⟩ := mem_charRange.mp ha
        obtain ⟨hlen, hall⟩ := ih.mp hb
        refine ⟨by simp [hlen], ?_⟩
        intro d hd
        rcases List.mem_cons.mp hd with rfl | hd
        · exact ⟨hlo, hhi⟩
        · exact hall d hd
      · intro h
        obtain ⟨hlen, hall⟩ := h
        cases s with
        | nil => cases hlen
        | cons c s =>
            obtain ⟨hlo, hhi⟩ := hall c (List.mem_cons_self ..)
            refine ⟨[c], mem_charRange.mpr ⟨c, hlo, hhi, rfl⟩, s, ?_, rfl⟩
            exact ih.mpr ⟨Nat.succ.inj hlen,
              fun d hd => hall d (List.mem_cons_of_mem c hd)⟩

theorem mem_optional_pow {lo hi : UInt16} {n : Nat} {s : JsString} :
    s ∈ ((1 + charRange lo hi) ^ n).matches'
      ↔ s.length ≤ n ∧ AllIn lo hi s := by
  rw [RegularExpression.matches'_pow]
  induction n generalizing s with
  | zero =>
      rw [pow_zero, Language.mem_one, Nat.le_zero, List.length_eq_zero_iff]
      exact ⟨fun h => ⟨h, h ▸ nofun⟩, fun h => h.1⟩
  | succ n ih =>
      rw [pow_succ', Language.mem_mul]
      constructor
      · intro h
        obtain ⟨a, ha, b, hb, rfl⟩ := h
        obtain ⟨hlen, hall⟩ := ih.mp hb
        rw [RegularExpression.matches'_add, Language.mem_add] at ha
        rcases ha with ha | ha
        · rw [RegularExpression.matches'_epsilon, Language.mem_one] at ha
          subst ha
          exact ⟨Nat.le_succ_of_le hlen, hall⟩
        · obtain ⟨c, hlo, hhi, rfl⟩ := mem_charRange.mp ha
          refine ⟨Nat.succ_le_succ hlen, ?_⟩
          intro d hd
          rcases List.mem_cons.mp hd with rfl | hd
          · exact ⟨hlo, hhi⟩
          · exact hall d hd
      · intro h
        obtain ⟨hlen, hall⟩ := h
        rw [RegularExpression.matches'_add]
        cases s with
        | nil =>
            exact ⟨[], .inl rfl, [], ih.mpr ⟨Nat.zero_le n, nofun⟩, rfl⟩
        | cons c s =>
            obtain ⟨hlo, hhi⟩ := hall c (List.mem_cons_self ..)
            refine ⟨[c], .inr (mem_charRange.mpr ⟨c, hlo, hhi, rfl⟩), s, ?_,
              rfl⟩
            exact ih.mpr ⟨Nat.le_of_succ_le_succ hlen,
              fun d hd => hall d (List.mem_cons_of_mem c hd)⟩

/-- `[lo-hi]{m,n}` matches `m` to `n` units of the class. -/
theorem mem_counted {lo hi : UInt16} {m n : Nat} (hmn : m ≤ n)
    {s : JsString} :
    s ∈ (counted (charRange lo hi) m n).matches'
      ↔ m ≤ s.length ∧ s.length ≤ n ∧ AllIn lo hi s := by
  unfold counted
  rw [RegularExpression.matches'_mul, Language.mem_mul]
  constructor
  · intro h
    obtain ⟨a, ha, b, hb, rfl⟩ := h
    obtain ⟨halen, ha⟩ := mem_charRange_pow.mp ha
    obtain ⟨hblen, hb⟩ := mem_optional_pow.mp hb
    rw [List.length_append]
    refine ⟨by omega, by omega, ?_⟩
    intro c hc
    exact (List.mem_append.mp hc).elim (ha c) (hb c)
  · intro h
    obtain ⟨hm, hn, hall⟩ := h
    refine ⟨s.take m, ?_, s.drop m, ?_, List.take_append_drop m s⟩
    · refine mem_charRange_pow.mpr ⟨List.length_take_of_le hm, ?_⟩
      exact fun c hc => hall c (List.mem_of_mem_take hc)
    · refine mem_optional_pow.mpr ⟨?_, ?_⟩
      · rw [List.length_drop]
        omega
      · exact fun c hc => hall c (List.mem_of_mem_drop hc)

theorem test_iff (r : Pattern) (s : JsString) :
    test r s = true ↔ s ∈ r.matches' :=
  RegularExpression.rmatch_iff_matches' r s

-- ============================================================ decimals

/-- A string of decimal digits. -/
abbrev Digits (s : JsString) : Prop := AllIn 0x30 0x39 s

/-- `Number(s)` of a string of decimal digits. -/
def decimalValue (s : JsString) : Nat :=
  s.foldl (fun n c => 10 * n + (c.toNat - 0x30)) 0

/-- `String(n)` of a natural number. -/
def decimalText (n : Nat) : JsString :=
  (Nat.toDigits 10 n).map fun c => .ofNat c.toNat

@[simp] theorem decimalValue_concat (s : JsString) (c : UInt16) :
    decimalValue (s ++ [c]) = 10 * decimalValue s + (c.toNat - 0x30) := by
  unfold decimalValue
  rw [List.foldl_append]
  rfl

theorem decimalText_of_lt {k : Nat} (h : k < 10) :
    decimalText k = [.ofNat (0x30 + k)] := by
  unfold decimalText
  rw [Nat.toDigits_of_lt_base h, List.map_singleton,
    Nat.toNat_digitChar_of_lt_ten h]

theorem decimalText_append {n k : Nat} (hn : 0 < n) (hk : k < 10) :
    decimalText (10 * n + k) = decimalText n ++ decimalText k := by
  unfold decimalText
  rw [← Nat.toDigits_append_toDigits (by decide) hn hk, List.map_append]

theorem digit_bounds {c : UInt16} (h : 0x30 ≤ c ∧ c ≤ 0x39) :
    0x30 ≤ c.toNat ∧ c.toNat ≤ 0x39 :=
  ⟨UInt16.le_iff_toNat_le.mp h.1, UInt16.le_iff_toNat_le.mp h.2⟩

theorem decimalText_digit {c : UInt16} (h : 0x30 ≤ c ∧ c ≤ 0x39) :
    decimalText (c.toNat - 0x30) = [c] := by
  obtain ⟨h₁, h₂⟩ := digit_bounds h
  rw [decimalText_of_lt (by omega), Nat.add_sub_cancel' h₁,
    UInt16.ofNat_toNat]

/-- A text without a leading zero is the text of its value. -/
theorem decimalText_value {s : JsString} (hs : Digits s) (hne : s ≠ [])
    (hhead : s.head? ≠ some 0x30) : decimalText (decimalValue s) = s := by
  induction s using List.reverseRecOn with
  | nil => exact absurd rfl hne
  | append_singleton s c ih =>
      have hc := hs c (List.mem_append_right s (List.mem_singleton_self c))
      have hs : Digits s := fun d hd => hs d (List.mem_append_left [c] hd)
      have hlt : c.toNat - 0x30 < 10 := by
        obtain ⟨-, h₂⟩ := digit_bounds hc
        omega
      rw [decimalValue_concat]
      by_cases hnil : s = []
      · subst hnil
        exact (congrArg decimalText (Nat.zero_add _)).trans
          (decimalText_digit hc)
      · rw [List.head?_append_of_ne_nil _ hnil] at hhead
        have ih := ih hs hnil hhead
        have hpos : 0 < decimalValue s := by
          refine Nat.pos_of_ne_zero ?_
          intro hzero
          rw [hzero] at ih
          exact hhead (ih ▸ rfl)
        rw [decimalText_append hpos hlt, ih, decimalText_digit hc]

/-- A text of digits only, with the value it was written for. -/
theorem decimalText_spec (n : Nat) :
    Digits (decimalText n) ∧ decimalValue (decimalText n) = n := by
  have hdigit : ∀ k < 10, Digits (decimalText k)
      ∧ decimalValue (decimalText k) = k := by
    intro k hk
    have hall : ∀ k < 10, (0x30 ≤ UInt16.ofNat (0x30 + k)
        ∧ UInt16.ofNat (0x30 + k) ≤ 0x39)
        ∧ decimalValue [UInt16.ofNat (0x30 + k)] = k := by decide
    rw [decimalText_of_lt hk]
    refine ⟨?_, (hall k hk).2⟩
    intro c hc
    rw [List.mem_singleton.mp hc]
    exact (hall k hk).1
  induction n using Nat.base_induction 10 (by decide) with
  | single k hk => exact hdigit k hk
  | digit n k hk hn ih =>
      have hk' := hdigit k hk
      rw [decimalText_append hn hk]
      refine ⟨?_, ?_⟩
      · intro c hc
        exact (List.mem_append.mp hc).elim (ih.1 c) (hk'.1 c)
      · rw [decimalText_of_lt hk] at hk' ⊢
        rw [decimalValue_concat, ih.2]
        have hone : decimalValue [UInt16.ofNat (0x30 + k)]
            = (UInt16.ofNat (0x30 + k)).toNat - 0x30 := Nat.zero_add _
        omega

-- ============================================================= bitwise

def toInt32 (x : Int) : BitVec 32 := .ofInt 32 x

/-- `x << n`. -/
def shiftLeft (x n : Int) : Int :=
  (toInt32 x <<< ((toInt32 n).toNat % 32)).toInt

/-- `x >>> n`. -/
def unsignedShiftRight (x n : Int) : Int :=
  (toInt32 x >>> ((toInt32 n).toNat % 32)).toNat

/-- `x & y`. -/
def bitAnd (x y : Int) : Int := (toInt32 x &&& toInt32 y).toInt

@[simp] theorem toInt32_toInt (v : BitVec 32) : toInt32 v.toInt = v :=
  BitVec.ofInt_toInt

@[simp] theorem toInt32_natCast (n : Nat) : toInt32 n = .ofNat 32 n :=
  BitVec.ofInt_natCast 32 n

theorem unsignedShiftRight_zero (x : Int) :
    unsignedShiftRight x 0 = (toInt32 x).toNat := by
  have hzero : (toInt32 0).toNat % 32 = 0 := by decide
  unfold unsignedShiftRight
  rw [hzero, BitVec.ushiftRight_zero]

/-- `x >>> 0` of a Number below 2^32. -/
theorem unsignedShiftRight_self {x : Nat} (h : x < 2 ^ 32) :
    unsignedShiftRight x 0 = x := by
  rw [unsignedShiftRight_zero, toInt32_natCast, BitVec.toNat_ofNat,
    Nat.mod_eq_of_lt h]

/-- `0xffffffff << k >>> 0` is the mask of the bits from `k` on. -/
theorem toInt32_mask {k : Nat} (h : k < 32) :
    toInt32 (unsignedShiftRight (shiftLeft 0xffffffff k) 0)
      = BitVec.allOnes 32 <<< k := by
  have hones : toInt32 0xffffffff = BitVec.allOnes 32 := by decide
  have hcount : (toInt32 k).toNat % 32 = k := by
    rw [toInt32_natCast, BitVec.toNat_ofNat]
    omega
  rw [unsignedShiftRight_zero, toInt32_natCast, BitVec.ofNat_toNat,
    BitVec.setWidth_eq]
  unfold shiftLeft
  rw [toInt32_toInt, hones, hcount]

/-- Two words agree under the mask when they agree above it. -/
theorem and_mask_iff (x y : BitVec 32) (k : Nat) :
    x &&& BitVec.allOnes 32 <<< k = y &&& BitVec.allOnes 32 <<< k
      ↔ x.toNat / 2 ^ k = y.toNat / 2 ^ k := by
  have hshift : ∀ v : BitVec 32, (v >>> k).toNat = v.toNat / 2 ^ k := by
    intro v
    rw [BitVec.toNat_ushiftRight, Nat.shiftRight_eq_div_pow]
  rw [← hshift, ← hshift, BitVec.toNat_inj]
  constructor
  · intro h
    refine BitVec.eq_of_getLsbD_eq fun i hi => ?_
    have hbit := congrArg (·.getLsbD (k + i)) h
    simp only [BitVec.getLsbD_and, BitVec.getLsbD_shiftLeft,
      BitVec.getLsbD_allOnes, BitVec.getLsbD_ushiftRight] at hbit ⊢
    by_cases hlt : k + i < 32
    · have hle : ¬ k + i < k := by omega
      simpa [hlt, hi, hle] using hbit
    · rw [BitVec.getLsbD_of_ge _ _ (by omega),
        BitVec.getLsbD_of_ge _ _ (by omega)]
  · intro h
    refine BitVec.eq_of_getLsbD_eq fun i hi => ?_
    simp only [BitVec.getLsbD_and, BitVec.getLsbD_shiftLeft,
      BitVec.getLsbD_allOnes]
    by_cases hlt : i < k
    · simp [hlt]
    · have hbit := congrArg (·.getLsbD (i - k)) h
      simp only [BitVec.getLsbD_ushiftRight,
        Nat.add_sub_cancel' (Nat.not_lt.mp hlt)] at hbit
      rw [hbit]

/-- Two Numbers agree under the mask when they agree above it. -/
theorem bitAnd_mask_iff {x y k : Nat} (hx : x < 2 ^ 32) (hy : y < 2 ^ 32)
    {mask : Int} (hmask : toInt32 mask = BitVec.allOnes 32 <<< k) :
    bitAnd x mask = bitAnd y mask ↔ x / 2 ^ k = y / 2 ^ k := by
  unfold bitAnd
  rw [BitVec.toInt_inj, hmask, toInt32_natCast, toInt32_natCast, and_mask_iff,
    BitVec.toNat_ofNat, BitVec.toNat_ofNat, Nat.mod_eq_of_lt hx,
    Nat.mod_eq_of_lt hy]

end Wrtg.Lib.Ecma
