/-
UTF-8 over lists of bytes, malformed ones included.

`decode` cuts a byte string into pieces: the bytes of a character, or a
maximal part of one that breaks off. A byte below 0x80 is a piece of its
own and no part of another, so a string falls apart before it
(`decode_append`), and before any other byte that continues nothing.
-/
import Mathlib.Algebra.Group.Nat.Defs
import Mathlib.Data.List.Basic

namespace Wrtg.Lib.Utf8

/-- The bytes of a character. -/
def encodeChar (c : Char) : List UInt8 :=
  let n := c.toNat
  if n < 0x80 then [.ofNat n]
  else if n < 0x800 then [.ofNat (0xC0 + n / 64), .ofNat (0x80 + n % 64)]
  else if n < 0x10000 then
    [.ofNat (0xE0 + n / 4096), .ofNat (0x80 + n / 64 % 64),
      .ofNat (0x80 + n % 64)]
  else
    [.ofNat (0xF0 + n / 262144), .ofNat (0x80 + n / 4096 % 64),
      .ofNat (0x80 + n / 64 % 64), .ofNat (0x80 + n % 64)]

def encode (t : List Char) : List UInt8 := t.flatMap encodeChar

/-- How many bytes follow a lead byte, and the least and the greatest
value of the first of them. -/
def lead (b : UInt8) : Option (Nat × Nat × Nat) :=
  let n := b.toNat
  if n < 0xC2 then none
  else if n ≤ 0xDF then some (1, 0x80, 0xBF)
  else if n = 0xE0 then some (2, 0xA0, 0xBF)
  else if n = 0xED then some (2, 0x80, 0x9F)
  else if n ≤ 0xEF then some (2, 0x80, 0xBF)
  else if n = 0xF0 then some (3, 0x90, 0xBF)
  else if n ≤ 0xF3 then some (3, 0x80, 0xBF)
  else if n = 0xF4 then some (3, 0x80, 0x8F)
  else none

/-- Up to `k` continuation bytes, the first of them from `lo` to `hi`. -/
def trail : Nat → Nat → Nat → List UInt8 → List UInt8
  | 0, _, _, _ => []
  | _, _, _, [] => []
  | k + 1, lo, hi, b :: bs =>
      if lo ≤ b.toNat ∧ b.toNat ≤ hi then b :: trail k 0x80 0xBF bs else []

/-- Bytes of the input, and the character they are, if any. -/
structure Piece where
  raw : List UInt8
  char : Option Char
  deriving DecidableEq

/-- The value of a lead byte and its `k` continuation bytes. -/
def charValue (b : UInt8) (bs : List UInt8) : Nat :=
  bs.foldl (fun n c => n * 64 + c.toNat % 64) (b.toNat % 2 ^ (6 - bs.length))

/-- The piece that starts with `b`. -/
def piece (b : UInt8) (bs : List UInt8) : Piece :=
  if b.toNat < 0x80 then { raw := [b], char := some (.ofNat b.toNat) }
  else match lead b with
    | none => { raw := [b], char := none }
    | some (k, lo, hi) =>
        let taken := trail k lo hi bs
        { raw := b :: taken
          char := if taken.length = k then some (.ofNat (charValue b taken))
            else none }

theorem piece_raw_ne_nil (b : UInt8) (bs : List UInt8) :
    (piece b bs).raw ≠ [] := by
  unfold piece
  split
  · simp
  · split <;> simp

def decode : List UInt8 → List Piece
  | [] => []
  | b :: bs => piece b bs :: decode ((b :: bs).drop (piece b bs).raw.length)
termination_by bs => bs.length
decreasing_by
  have hpos := List.length_pos_iff.mpr (piece_raw_ne_nil b bs)
  rw [List.length_drop, List.length_cons]
  omega

/-- The text of well-formed bytes. -/
def decode? (bs : List UInt8) : Option (List Char) :=
  (decode bs).mapM Piece.char

/-- A piece as text: U+FFFD if it is malformed. -/
def Piece.lossy (p : Piece) : Char := p.char.getD (.ofNat 0xFFFD)

/-- The text of any bytes. -/
def lossy (bs : List UInt8) : List Char := (decode bs).map Piece.lossy

/-- The byte length of a text. -/
def size : List Char → Nat
  | [] => 0
  | c :: t => c.utf8Size + size t

-- ============================================================== pieces

/-- The byte continues no character. -/
def Boundary (bs : List UInt8) : Prop :=
  ∀ b ∈ bs.head?, b.toNat < 0x80 ∨ 0xBF < b.toNat

/-- The lead bytes and their ranges. -/
theorem lead_cases {b : UInt8} {k lo hi : Nat}
    (h : lead b = some (k, lo, hi)) :
    (k = 1 ∧ 0xC2 ≤ b.toNat ∧ b.toNat ≤ 0xDF ∧ 0x80 ≤ lo ∧ hi ≤ 0xBF)
    ∨ (k = 2 ∧ 0xE0 ≤ b.toNat ∧ b.toNat ≤ 0xEF ∧ 0x80 ≤ lo ∧ hi ≤ 0xBF
      ∧ (b.toNat = 0xE0 → 0xA0 ≤ lo) ∧ (b.toNat = 0xED → hi ≤ 0x9F))
    ∨ (k = 3 ∧ 0xF0 ≤ b.toNat ∧ b.toNat ≤ 0xF4 ∧ 0x80 ≤ lo ∧ hi ≤ 0xBF
      ∧ (b.toNat = 0xF0 → 0x90 ≤ lo) ∧ (b.toNat = 0xF4 → hi ≤ 0x8F)) := by
  unfold lead at h
  simp only at h
  repeat' split at h
  all_goals cases h
  all_goals omega

/-- A lead byte's range is one of continuation bytes. -/
theorem lead_range {b : UInt8} {k lo hi : Nat}
    (h : lead b = some (k, lo, hi)) : 0x80 ≤ lo ∧ hi ≤ 0xBF := by
  rcases lead_cases h with h | h | h <;> omega

theorem trail_pre (k lo hi : Nat) (bs : List UInt8) :
    trail k lo hi bs <+: bs := by
  induction k generalizing lo hi bs with
  | zero =>
      rw [trail]
      exact List.nil_prefix
  | succ k ih =>
      cases bs with
      | nil => exact List.nil_prefix
      | cons b bs =>
          rw [trail]
          split
          · exact (List.prefix_cons_inj b).mpr (ih ..)
          · exact List.nil_prefix

/-- No piece takes anything from behind a boundary. -/
theorem trail_append {k lo hi : Nat} (hlo : 0x80 ≤ lo) (hhi : hi ≤ 0xBF)
    (as : List UInt8) {bs : List UInt8} (h : Boundary bs) :
    trail k lo hi (as ++ bs) = trail k lo hi as := by
  induction k generalizing lo hi as with
  | zero => rw [trail, trail]
  | succ k ih =>
      cases as with
      | nil =>
          cases bs with
          | nil => rfl
          | cons b bs =>
              have hb := h b rfl
              have hnone : trail (k + 1) lo hi (b :: bs) = [] := by
                rw [trail, if_neg (by omega)]
              exact hnone
      | cons a as =>
          rw [List.cons_append, trail, trail, ih (by decide) (by decide)]

theorem piece_append {b : UInt8} (as : List UInt8) {bs : List UInt8}
    (h : Boundary bs) : piece b (as ++ bs) = piece b as := by
  unfold piece
  split
  · rfl
  · split
    · rfl
    · next hlead =>
        obtain ⟨hlo, hhi⟩ := lead_range hlead
        simp only [trail_append hlo hhi as h]

theorem piece_pre (b : UInt8) (bs : List UInt8) :
    (piece b bs).raw <+: b :: bs := by
  have hone : [b] <+: b :: bs := (List.prefix_cons_inj b).mpr List.nil_prefix
  unfold piece
  split
  · exact hone
  · split
    · exact hone
    · exact (List.prefix_cons_inj b).mpr (trail_pre ..)

@[simp] theorem decode_nil : decode [] = [] := by rw [decode]

theorem decode_cons (b : UInt8) (bs : List UInt8) :
    decode (b :: bs)
      = piece b bs :: decode ((b :: bs).drop (piece b bs).raw.length) := by
  rw [decode]

theorem toNat_ofNat {n : Nat} (h : n.isValidChar) :
    (Char.ofNat n).toNat = n := by
  unfold Char.ofNat
  rw [dif_pos h]
  rfl

theorem trail_range {k lo hi : Nat} (hlo : 0x80 ≤ lo) (hhi : hi ≤ 0xBF)
    (bs : List UInt8) :
    (∀ c ∈ (trail k lo hi bs).head?, lo ≤ c.toNat ∧ c.toNat ≤ hi)
      ∧ ∀ c ∈ trail k lo hi bs, 0x80 ≤ c.toNat ∧ c.toNat ≤ 0xBF := by
  induction k generalizing lo hi bs with
  | zero => rw [trail]; exact ⟨nofun, nofun⟩
  | succ k ih =>
      cases bs with
      | nil => exact ⟨nofun, nofun⟩
      | cons b bs =>
          rw [trail]
          split
          · next hb =>
              refine ⟨fun c hc => ?_, fun c hc => ?_⟩
              · cases Option.some.inj hc
                exact hb
              · rcases List.mem_cons.mp hc with rfl | hc
                · omega
                · exact (ih (by decide) (by decide) bs).2 c hc
          · exact ⟨nofun, nofun⟩

/-- Well-formed bytes that start with a lead byte are a character past
ASCII. -/
theorem charValue_valid {b : UInt8} {k lo hi : Nat} {bs : List UInt8}
    (h : lead b = some (k, lo, hi))
    (hlen : (trail k lo hi bs).length = k) :
    (charValue b (trail k lo hi bs)).isValidChar
      ∧ 0x80 ≤ charValue b (trail k lo hi bs) := by
  obtain ⟨hlo, hhi⟩ := lead_range h
  obtain ⟨hhead, hall⟩ := trail_range hlo hhi bs (k := k)
  generalize trail k lo hi bs = taken at hlen hhead hall ⊢
  unfold Nat.isValidChar
  rcases lead_cases h with hb | hb | hb
  · obtain ⟨rfl, hb⟩ := hb
    obtain ⟨c, rfl⟩ := List.length_eq_one_iff.mp hlen
    have hc := hhead c rfl
    simp only [charValue, List.foldl_cons, List.foldl_nil, List.length_cons,
      List.length_nil]
    omega
  · obtain ⟨rfl, hb⟩ := hb
    obtain ⟨c, d, rfl⟩ := List.length_eq_two.mp hlen
    have hc := hhead c rfl
    have hd := hall d (by simp)
    simp only [charValue, List.foldl_cons, List.foldl_nil, List.length_cons,
      List.length_nil]
    omega
  · obtain ⟨rfl, hb⟩ := hb
    obtain ⟨c, d, e, rfl⟩ := List.length_eq_three.mp hlen
    have hc := hhead c rfl
    have hd := hall d (by simp)
    have he := hall e (by simp)
    simp only [charValue, List.foldl_cons, List.foldl_nil, List.length_cons,
      List.length_nil]
    omega

/-- An ASCII byte is a piece. -/
theorem piece_ascii {b : UInt8} (h : b.toNat < 0x80) (bs : List UInt8) :
    piece b bs = { raw := [b], char := some (.ofNat b.toNat) } := by
  unfold piece
  rw [if_pos h]

/-- Any other piece has no ASCII in it, before decoding and behind. -/
theorem piece_nonascii {b : UInt8} (h : 0x80 ≤ b.toNat) (bs : List UInt8) :
    0x80 ≤ (piece b bs).lossy.toNat
      ∧ ∀ c ∈ (piece b bs).raw, 0x80 ≤ c.toNat := by
  have hreplaced : 0x80 ≤ (Char.ofNat 0xFFFD).toNat := by decide
  have hone : ∀ c ∈ [b], 0x80 ≤ c.toNat := by simpa using h
  unfold piece Piece.lossy
  rw [if_neg (Nat.not_lt.mpr h)]
  split
  · exact ⟨hreplaced, hone⟩
  · next k lo hi hlead =>
      obtain ⟨hlo, hhi⟩ := lead_range hlead
      refine ⟨?_, ?_⟩
      · simp only
        split
        · next hlen =>
            obtain ⟨hvalid, hge⟩ := charValue_valid hlead hlen
            rw [Option.getD_some, toNat_ofNat hvalid]
            exact hge
        · exact hreplaced
      · intro c hc
        rcases List.mem_cons.mp hc with rfl | hc
        · exact h
        · exact ((trail_range hlo hhi bs).2 c hc).1

/-- A string falls apart at a boundary. -/
theorem decode_append (as : List UInt8) {bs : List UInt8} (h : Boundary bs) :
    decode (as ++ bs) = decode as ++ decode bs := by
  induction as using decode.induct with
  | case1 => rw [List.nil_append, decode_nil, List.nil_append]
  | case2 a as ih =>
      have hlen := (piece_pre a as).length_le
      rw [List.cons_append, decode_cons, decode_cons, piece_append as h,
        ← List.cons_append, List.drop_append_of_le_length hlen, ih,
        List.cons_append]

theorem lossy_append (as : List UInt8) {bs : List UInt8} (h : Boundary bs) :
    lossy (as ++ bs) = lossy as ++ lossy bs := by
  unfold lossy
  rw [decode_append as h, List.map_append]

@[simp] theorem lossy_nil : lossy [] = [] := by
  unfold lossy
  rw [decode_nil, List.map_nil]

theorem lossy_cons (b : UInt8) (bs : List UInt8) :
    lossy (b :: bs) = (piece b bs).lossy
      :: lossy ((b :: bs).drop (piece b bs).raw.length) := by
  unfold lossy
  rw [decode_cons, List.map_cons]

/-- An ASCII byte is its character. -/
theorem lossy_cons_ascii {b : UInt8} (h : b.toNat < 0x80) (bs : List UInt8) :
    lossy (b :: bs) = .ofNat b.toNat :: lossy bs := by
  rw [lossy_cons, piece_ascii h]
  rfl

theorem size_append (t u : List Char) : size (t ++ u) = size t + size u := by
  induction t with
  | nil => exact (Nat.zero_add _).symm
  | cons c t ih => rw [List.cons_append, size, size, ih, Nat.add_assoc]

-- ========================================================== characters

theorem toNat_byte {n : Nat} (h : n < 256) : (UInt8.ofNat n).toNat = n :=
  UInt8.toNat_ofNat_of_lt' h

/-- Continuation bytes in their ranges are taken, whatever follows. -/
theorem trail_taken {lo hi : Nat} {taken : List UInt8}
    (hhead : ∀ d ∈ taken.head?, lo ≤ d.toNat ∧ d.toNat ≤ hi)
    (hall : ∀ d ∈ taken, 0x80 ≤ d.toNat ∧ d.toNat ≤ 0xBF)
    (bs : List UInt8) :
    trail taken.length lo hi (taken ++ bs) = taken := by
  induction taken generalizing lo hi with
  | nil => rw [List.length_nil, trail]
  | cons d ds ih =>
      rw [List.length_cons, List.cons_append, trail, if_pos (hhead d rfl), ih]
      · intro e he
        exact hall e (List.mem_cons_of_mem d (List.mem_of_mem_head? he))
      · exact fun e he => hall e (List.mem_cons_of_mem d he)

/-- A lead byte and continuation bytes in their ranges are a piece. -/
theorem piece_of_lead {b : UInt8} {c : Char} {k lo hi : Nat}
    {taken : List UInt8} (hlead : lead b = some (k, lo, hi))
    (hlen : taken.length = k)
    (hhead : ∀ d ∈ taken.head?, lo ≤ d.toNat ∧ d.toNat ≤ hi)
    (hall : ∀ d ∈ taken, 0x80 ≤ d.toNat ∧ d.toNat ≤ 0xBF)
    (hvalue : charValue b taken = c.toNat) (bs : List UInt8) :
    piece b (taken ++ bs) = { raw := b :: taken, char := some c } := by
  have hb : ¬ b.toNat < 0x80 := by
    rcases lead_cases hlead with h | h | h <;> omega
  subst hlen
  unfold piece
  rw [if_neg hb, hlead]
  simp only [trail_taken hhead hall, if_true, hvalue, Char.ofNat_toNat]

theorem lead_two {n : Nat} (h1 : ¬ n < 0x80) (h2 : n < 0x800) :
    lead (.ofNat (0xC0 + n / 64)) = some (1, 0x80, 0xBF) := by
  have hb := toNat_byte (show 0xC0 + n / 64 < 256 by omega)
  unfold lead
  simp only [hb]
  rw [if_neg (by omega), if_pos (by omega)]

/-- No surrogates: the first of three bytes admits the second. -/
theorem lead_three {n : Nat} (h2 : ¬ n < 0x800) (h3 : n < 0x10000)
    (hvalid : n < 0xD800 ∨ 0xDFFF < n) :
    ∃ lo hi, lead (.ofNat (0xE0 + n / 4096)) = some (2, lo, hi)
      ∧ lo ≤ 0x80 + n / 64 % 64 ∧ 0x80 + n / 64 % 64 ≤ hi := by
  have hb := toNat_byte (show 0xE0 + n / 4096 < 256 by omega)
  unfold lead
  simp only [hb]
  rw [if_neg (by omega), if_neg (by omega)]
  by_cases hE0 : 0xE0 + n / 4096 = 0xE0
  · rw [if_pos hE0]
    exact ⟨_, _, rfl, by omega, by omega⟩
  rw [if_neg hE0]
  by_cases hED : 0xE0 + n / 4096 = 0xED
  · rw [if_pos hED]
    exact ⟨_, _, rfl, by omega, by omega⟩
  · rw [if_neg hED, if_pos (by omega)]
    exact ⟨_, _, rfl, by omega, by omega⟩

/-- Nothing above U+10FFFF: the first of four bytes admits the second. -/
theorem lead_four {n : Nat} (h3 : ¬ n < 0x10000) (hvalid : n < 0x110000) :
    ∃ lo hi, lead (.ofNat (0xF0 + n / 262144)) = some (3, lo, hi)
      ∧ lo ≤ 0x80 + n / 4096 % 64 ∧ 0x80 + n / 4096 % 64 ≤ hi := by
  have hb := toNat_byte (show 0xF0 + n / 262144 < 256 by omega)
  unfold lead
  simp only [hb]
  rw [if_neg (by omega), if_neg (by omega), if_neg (by omega),
    if_neg (by omega), if_neg (by omega)]
  by_cases hF0 : 0xF0 + n / 262144 = 0xF0
  · rw [if_pos hF0]
    exact ⟨_, _, rfl, by omega, by omega⟩
  rw [if_neg hF0]
  by_cases hF3 : 0xF0 + n / 262144 ≤ 0xF3
  · rw [if_pos hF3]
    exact ⟨_, _, rfl, by omega, by omega⟩
  · rw [if_neg hF3, if_pos (by omega)]
    exact ⟨_, _, rfl, by omega, by omega⟩

/-- The bytes of a character are a piece, whatever follows. -/
theorem piece_encodeChar (c : Char) (bs : List UInt8) :
    ∃ b taken, encodeChar c = b :: taken
      ∧ piece b (taken ++ bs) = { raw := b :: taken, char := some c } := by
  have hvalid : c.toNat < 0xD800 ∨ 0xDFFF < c.toNat ∧ c.toNat < 0x110000 :=
    c.valid
  have hchar := Char.ofNat_toNat c
  have hcont : ∀ m, (UInt8.ofNat (0x80 + m % 64)).toNat = 0x80 + m % 64 :=
    fun m => toNat_byte (by omega)
  unfold encodeChar
  simp only
  generalize hn : c.toNat = n at hvalid hchar
  by_cases h1 : n < 0x80
  · have hb := toNat_byte (show n < 256 by omega)
    refine ⟨_, [], if_pos h1, ?_⟩
    rw [List.nil_append, piece_ascii (by omega), hb, hchar]
  rw [if_neg h1]
  by_cases h2 : n < 0x800
  · have hb := toNat_byte (show 0xC0 + n / 64 < 256 by omega)
    refine ⟨_, _, if_pos h2, piece_of_lead (lead_two h1 h2) rfl ?_ ?_ ?_ bs⟩
    · simp only [List.head?_cons, Option.mem_some_iff, forall_eq', hcont]
      omega
    · simp only [List.mem_cons, List.not_mem_nil, or_false, forall_eq, hcont]
      omega
    · simp only [charValue, List.foldl_cons, List.foldl_nil,
        List.length_cons, List.length_nil, hb, hcont, hn]
      omega
  rw [if_neg h2]
  by_cases h3 : n < 0x10000
  · have hb := toNat_byte (show 0xE0 + n / 4096 < 256 by omega)
    obtain ⟨lo, hi, hlead, hlo, hhi⟩ := lead_three h2 h3 (by omega)
    refine ⟨_, _, if_pos h3, piece_of_lead hlead rfl ?_ ?_ ?_ bs⟩
    · simp only [List.head?_cons, Option.mem_some_iff, forall_eq', hcont]
      exact ⟨hlo, hhi⟩
    · simp only [List.mem_cons, List.not_mem_nil, or_false,
        forall_eq_or_imp, forall_eq, hcont]
      omega
    · simp only [charValue, List.foldl_cons, List.foldl_nil,
        List.length_cons, List.length_nil, hb, hcont, hn]
      omega
  · have hb := toNat_byte (show 0xF0 + n / 262144 < 256 by omega)
    obtain ⟨lo, hi, hlead, hlo, hhi⟩ := lead_four h3 (by omega)
    refine ⟨_, _, if_neg h3, piece_of_lead hlead rfl ?_ ?_ ?_ bs⟩
    · simp only [List.head?_cons, Option.mem_some_iff, forall_eq', hcont]
      exact ⟨hlo, hhi⟩
    · simp only [List.mem_cons, List.not_mem_nil, or_false,
        forall_eq_or_imp, forall_eq, hcont]
      omega
    · simp only [charValue, List.foldl_cons, List.foldl_nil,
        List.length_cons, List.length_nil, hb, hcont, hn]
      omega

theorem decode_encode (t : List Char) :
    decode (encode t)
      = t.map fun c => { raw := encodeChar c, char := some c } := by
  induction t with
  | nil => exact decode_nil
  | cons c t ih =>
      obtain ⟨b, taken, henc, hpiece⟩ := piece_encodeChar c (encode t)
      have hcons : encode (c :: t) = b :: (taken ++ encode t) := by
        show encodeChar c ++ encode t = _
        rw [henc]
        rfl
      rw [hcons, decode_cons, hpiece, ← List.cons_append, List.drop_left, ih,
        List.map_cons, henc]

/-- And whatever follows them. -/
theorem lossy_encode_append (t : List Char) (bs : List UInt8) :
    lossy (encode t ++ bs) = t ++ lossy bs := by
  induction t with
  | nil => rfl
  | cons c t ih =>
      obtain ⟨b, taken, henc, hpiece⟩ := piece_encodeChar c (encode t ++ bs)
      have hcons : encode (c :: t) ++ bs
          = b :: (taken ++ (encode t ++ bs)) := by
        show encodeChar c ++ encode t ++ bs = _
        rw [henc, List.append_assoc]
        rfl
      rw [hcons, lossy_cons, hpiece, ← List.cons_append, List.drop_left, ih]
      rfl

theorem lossy_encode (t : List Char) : lossy (encode t) = t := by
  unfold lossy
  rw [decode_encode, List.map_map]
  exact List.map_id t

/-- What was encoded decodes. -/
theorem decode?_encode (t : List Char) : decode? (encode t) = some t := by
  unfold decode?
  rw [decode_encode]
  induction t with
  | nil => rfl
  | cons c t ih =>
      rw [List.map_cons, List.mapM_cons, ih]
      rfl

end Wrtg.Lib.Utf8
