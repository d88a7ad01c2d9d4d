/-
Where the scan for a `Host` header is exact (`tls_sni.rs`).

The header is searched for in a lossily decoded, lower-cased copy, and
its value cut from the bytes at the offset in the copy. `headerAt` is
the header in the bytes, and `loweredLen` how long the copy of what is
before it is: the offset the copy has it at (`find_between`).
-/
import Wrtg.Proofs.TlsSni.Scan

namespace Wrtg.TlsSni

open Lib

-- ==================================================== in the bytes

/-- The bytes start with an ASCII text, its letters in either case. -/
def startsNoCase : Text → Bytes → Bool
  | [], _ => true
  | _ :: _, [] => false
  | c :: pat, b :: bs =>
      Text.toAsciiLowercase [.ofNat b.toNat] == [c] && startsNoCase pat bs

/-- The first line break before `host:`. -/
def headerAt : Bytes → Option Nat
  | [] => none
  | b :: bs =>
      if startsNoCase HOST_LINE (b :: bs) then some 0
      else (headerAt bs).map (· + 1)

/-- The text up to the end of the line, unless it is blank. -/
def lineText (bs : Bytes) : Option Text :=
  let host := Text.trim (Utf8.lossy (bs.takeWhile (!isLineEnd ·)))
  if host.isEmpty then none else some host

/-- What the header says. -/
def hostHeader (data : Bytes) : Option Text :=
  let data := data.take MAX
  match headerAt data with
  | none => none
  | some k => lineText (data.drop (k + 7))

/-- The length of the lower-cased copy of the first `k` bytes. -/
def loweredLen (low : Lowercase) (data : Bytes) (k : Nat) : Nat :=
  Utf8.size (low.between [] (Utf8.lossy (data.take k))
    (Utf8.lossy (data.drop k)))

theorem headerAt_eq_some {data : Bytes} {k : Nat} (h : headerAt data = some k) :
    startsNoCase HOST_LINE (data.drop k) = true
      ∧ ∀ j < k, startsNoCase HOST_LINE (data.drop j) = false := by
  induction data generalizing k with
  | nil => cases h
  | cons b bs ih =>
      rw [headerAt] at h
      split at h
      · next hstart =>
          cases h
          exact ⟨hstart, fun j hj => absurd hj (Nat.not_lt_zero j)⟩
      · next hstart =>
          obtain ⟨k, hk, rfl⟩ := Option.map_eq_some_iff.mp h
          obtain ⟨hat, hbefore⟩ := ih hk
          refine ⟨hat, fun j hj => ?_⟩
          cases j with
          | zero => exact Bool.eq_false_iff.mpr hstart
          | succ j => exact hbefore j (Nat.lt_of_succ_lt_succ hj)

theorem hostLine_ascii : ∀ c ∈ HOST_LINE, c.toNat < 0x80 := by
  have hall : HOST_LINE.all (·.toNat < 0x80) = true := by decide +kernel
  intro c hc
  exact of_decide_eq_true (List.all_eq_true.mp hall c hc)

theorem isUpper_iff {c : Char} :
    Text.isUpper c = true ↔ 0x41 ≤ c.toNat ∧ c.toNat ≤ 0x5A := by
  unfold Text.isUpper
  rw [Bool.and_eq_true, decide_eq_true_iff, decide_eq_true_iff]
  exact and_congr UInt32.le_iff_toNat_le UInt32.le_iff_toNat_le

/-- Other than ASCII is left as it is. -/
theorem toAsciiLowercase_nonascii {c : Char} (h : 0x80 ≤ c.toNat) :
    Text.toAsciiLowercase [c] = [c] := by
  unfold Text.toAsciiLowercase
  rw [List.map_singleton, if_neg]
  rw [isUpper_iff]
  omega

/-- A byte past ASCII is no part of the pattern. -/
theorem startsNoCase_nonascii {b : UInt8} (h : 0x80 ≤ b.toNat) {c : Char}
    (hc : c ∈ HOST_LINE) (pat : Text) (bs : Bytes) :
    startsNoCase (c :: pat) (b :: bs) = false := by
  have hvalue : (Char.ofNat b.toNat).toNat = b.toNat :=
    Utf8.toNat_ofNat (.inl (Nat.lt_trans b.toNat_lt (by decide)))
  have hne : Char.ofNat b.toNat ≠ c := by
    intro heq
    have hc := hostLine_ascii c hc
    rw [← heq, hvalue] at hc
    omega
  rw [startsNoCase, toAsciiLowercase_nonascii (by rw [hvalue]; exact h),
    beq_eq_false_iff_ne.mpr fun heq => hne (List.cons.inj heq).1,
    Bool.false_and]

theorem headerAt_nonascii {ws : Bytes} (h : ∀ b ∈ ws, 0x80 ≤ b.toNat)
    (bs : Bytes) :
    headerAt (ws ++ bs) = (headerAt bs).map (· + ws.length) := by
  induction ws with
  | nil =>
      rw [List.nil_append]
      cases headerAt bs <;> rfl
  | cons w ws ih =>
      have hw : startsNoCase HOST_LINE (w :: (ws ++ bs)) = false :=
        startsNoCase_nonascii (h w (List.mem_cons_self ..)) (by decide) _ _
      have ih := ih fun b hb => h b (List.mem_cons_of_mem _ hb)
      rw [List.cons_append, headerAt, hw, if_neg Bool.false_ne_true, ih,
        Option.map_map, List.length_cons]
      rfl

/-- A header starts behind whole characters. -/
theorem headerAt_boundary {data : Bytes} {k : Nat}
    (h : headerAt data = some k) : Utf8.Boundary (data.drop k) := by
  intro b hb
  obtain ⟨bs, hbs⟩ := List.head?_eq_some_iff.mp hb
  have hstart := (headerAt_eq_some h).1
  by_contra hno
  rw [hbs] at hstart
  have hfalse : startsNoCase HOST_LINE (b :: bs) = false :=
    startsNoCase_nonascii (by omega) (by decide) _ _
  rw [hfalse] at hstart
  cases hstart

-- ===================================================== in the copy

section

variable (low : Lowercase)

theorem lower_ascii {b : UInt8} (h : b.toNat < 0x80) (before after : Text) :
    ∃ c, low.lower before (.ofNat b.toNat) after = [c]
      ∧ Text.toAsciiLowercase [.ofNat b.toNat] = [c] ∧ c.utf8Size = 1 := by
  have hvalue : (Char.ofNat b.toNat).toNat = b.toNat :=
    Utf8.toNat_ofNat (.inl (by omega))
  have hsize : ∀ c : Char, c.toNat < 0x80 → c.utf8Size = 1 := by
    intro c hc
    exact Char.utf8Size_eq_one_iff.mpr (UInt32.le_iff_toNat_le.mpr
      (Nat.le_of_lt_succ hc))
  rw [low.ascii _ _ _ (by rw [hvalue]; exact h)]
  refine ⟨_, rfl, rfl, hsize _ ?_⟩
  dsimp only
  split
  · next hupper =>
      have hupper := isUpper_iff.mp hupper
      rw [Utf8.toNat_ofNat (.inl (by omega))]
      omega
  · rw [hvalue]
    exact h

/-- The copy starts with the pattern where the bytes do. -/
theorem isPrefixOf_between {pat : Text} (hpat : ∀ c ∈ pat, c ∈ HOST_LINE)
    (before : Text) (data : Bytes) :
    pat.isPrefixOf (low.between before (Utf8.lossy data) [])
      = startsNoCase pat data := by
  induction pat generalizing before data with
  | nil =>
      rw [startsNoCase]
      exact List.isPrefixOf_nil_left ..
  | cons c pat ih =>
      have hc := hpat c (List.mem_cons_self ..)
      have ih := ih fun c hc => hpat c (List.mem_cons_of_mem _ hc)
      cases data with
      | nil =>
          rw [Utf8.lossy_nil]
          rfl
      | cons b bs =>
          by_cases hb : b.toNat < 0x80
          · obtain ⟨x, hx, hascii, -⟩ :=
              lower_ascii low hb before (Utf8.lossy bs ++ [])
            rw [Utf8.lossy_cons_ascii hb, Lowercase.between, hx,
              List.singleton_append, List.isPrefixOf_cons_cons, ih,
              startsNoCase, hascii]
            congr 1
            rw [Bool.eq_iff_iff, beq_iff_eq, beq_iff_eq]
            exact ⟨fun h => by rw [h], fun h => (List.cons.inj h).1.symm⟩
          · obtain ⟨hchar, -⟩ := Utf8.piece_nonascii (Nat.not_lt.mp hb) bs
            rw [startsNoCase_nonascii (Nat.not_lt.mp hb) hc, Utf8.lossy_cons,
              Lowercase.between]
            obtain ⟨x, xs, hx⟩ := List.exists_cons_of_ne_nil
              (low.ne_nil before (Utf8.piece b bs).lossy
                (Utf8.lossy ((b :: bs).drop (Utf8.piece b bs).raw.length)
                  ++ []))
            have hother : x ∉ HOST_LINE :=
              low.other _ _ _ hchar x (hx ▸ List.mem_cons_self ..)
            have hne : c ≠ x := fun heq => hother (heq ▸ hc)
            rw [hx, List.cons_append, List.isPrefixOf_cons_cons,
              beq_eq_false_iff_ne.mpr hne, Bool.false_and]

/-- Characters that are not of the pattern are passed over. -/
theorem find_append {pat ws : Text} (hne : pat ≠ [])
    (h : ∀ c ∈ ws, c ∉ pat) (t : Text) :
    find pat (ws ++ t) = (find pat t).map (Utf8.size ws + ·) := by
  induction ws with
  | nil =>
      rw [List.nil_append]
      cases find pat t with
      | none => rfl
      | some i => exact congrArg some (Nat.zero_add i).symm
  | cons w ws ih =>
      have hw := h w (List.mem_cons_self ..)
      have ih := ih fun c hc => h c (List.mem_cons_of_mem _ hc)
      obtain ⟨c, pat', rfl⟩ := List.exists_cons_of_ne_nil hne
      have hcw : c ≠ w := fun heq => hw (heq ▸ List.mem_cons_self ..)
      rw [List.cons_append, find, List.isPrefixOf_cons_cons,
        beq_eq_false_iff_ne.mpr hcw, Bool.false_and,
        if_neg Bool.false_ne_true, ih, Option.map_map]
      congr 1
      funext i
      exact (Nat.add_assoc ..).symm

/-- The search in the copy comes to the header in the bytes. -/
theorem find_between (before : Text) (data : Bytes) :
    find HOST_LINE (low.between before (Utf8.lossy data) [])
      = (headerAt data).map fun k =>
        Utf8.size (low.between before (Utf8.lossy (data.take k))
          (Utf8.lossy (data.drop k))) := by
  induction data using Utf8.decode.induct generalizing before with
  | case1 =>
      rw [Utf8.lossy_nil]
      rfl
  | case2 b bs ih =>
      have hpre : HOST_LINE.isPrefixOf _ = _ :=
        isPrefixOf_between low (fun c hc => hc) before (b :: bs)
      by_cases hb : b.toNat < 0x80
      · obtain ⟨x, hx, hascii, hsize⟩ :=
          lower_ascii low hb before (Utf8.lossy bs ++ [])
        rw [Utf8.piece_ascii hb] at ih
        have ih : find HOST_LINE (low.between (before ++ [.ofNat b.toNat])
            (Utf8.lossy bs) []) = _ := ih (before ++ [.ofNat b.toNat])
        rw [Utf8.lossy_cons_ascii hb, Lowercase.between, hx,
          List.singleton_append] at hpre ⊢
        rw [find, hpre, headerAt]
        cases startsNoCase HOST_LINE (b :: bs) with
        | true =>
            have hzero : Utf8.lossy ((b :: bs).take 0) = [] := Utf8.lossy_nil
            rw [if_pos rfl, if_pos rfl, Option.map_some, hzero]
            rfl
        | false =>
            rw [if_neg Bool.false_ne_true, if_neg Bool.false_ne_true, ih,
              Option.map_map, Option.map_map]
            congr 1
            funext k
            obtain ⟨y, hy, hyascii, -⟩ := lower_ascii low hb before
              (Utf8.lossy (bs.take k) ++ Utf8.lossy (bs.drop k))
            have hxy : [x] = [y] := hascii.symm.trans hyascii
            simp only [Function.comp_apply]
            rw [List.take_succ_cons, List.drop_succ_cons,
              Utf8.lossy_cons_ascii hb, Lowercase.between, hy, ← hxy,
              Utf8.size_append]
            rfl
      · obtain ⟨hchar, hraw⟩ := Utf8.piece_nonascii (Nat.not_lt.mp hb) bs
        have hother := fun after =>
          low.other before (Utf8.piece b bs).lossy after hchar
        have hcons := Utf8.lossy_cons b bs
        obtain ⟨tail, hsplit⟩ := Utf8.piece_pre b bs
        have hdrop : (b :: bs).drop (Utf8.piece b bs).raw.length = tail := by
          rw [← hsplit, List.drop_left]
        generalize Utf8.piece b bs = p at ih hraw hother hcons hsplit hdrop
        rw [hdrop] at ih hcons
        rw [hcons, Lowercase.between, find_append (by decide) (hother _), ih,
          ← hsplit, headerAt_nonascii hraw, Option.map_map, Option.map_map]
        cases hk : headerAt tail with
        | none => rfl
        | some k =>
            have hbd := headerAt_boundary hk
            have htail := Utf8.lossy_append (tail.take k) hbd
            have hwhole := Utf8.lossy_append (p.raw ++ tail.take k) hbd
            rw [List.take_append_drop] at htail
            rw [List.append_assoc, List.take_append_drop, hsplit, hcons, htail,
              ← List.cons_append] at hwhole
            have htake := List.append_cancel_right hwhole
            simp only [Option.map_some, Function.comp_apply]
            rw [Nat.add_comm k, List.take_length_add_append,
              List.drop_length_add_append, ← htake, Lowercase.between,
              Utf8.size_append, List.append_nil, htail]

-- =========================================================== the value

/-- Blanks before a value are trimmed with it. -/
theorem trim_lossy_blanks {ws : Bytes} (h : ∀ b ∈ ws, isBlank b = true)
    (v : Bytes) :
    Text.trim (Utf8.lossy (ws ++ v)) = Text.trim (Utf8.lossy v) := by
  induction ws with
  | nil => rfl
  | cons w ws ih =>
      have hw := h w (List.mem_cons_self ..)
      have ih := ih fun b hb => h b (List.mem_cons_of_mem _ hb)
      have hblank : w.toNat < 0x80
          ∧ Text.isWhitespace (.ofNat w.toNat) = true := by
        unfold isBlank at hw
        rcases Bool.or_eq_true_iff.mp hw with hw | hw
        · cases beq_iff_eq.mp hw
          decide
        · cases beq_iff_eq.mp hw
          decide
      rw [List.cons_append, Utf8.lossy_cons_ascii hblank.1]
      unfold Text.trim Text.trimStart at ih ⊢
      rw [List.dropWhile_cons_of_pos hblank.2, ih]

/-- What is cut from the bytes behind the colon. -/
theorem value_eq (rest : Bytes) :
    (do
      let start := (rest.takeWhile isBlank).length
      let j := start + ((rest.drop start).takeWhile (!isLineEnd ·)).length
      if j = start then .ok none
      else
        let value ← slice rest start j
        let host := Text.trim (Utf8.lossy value)
        .ok (if host.isEmpty then none else some host) : Res (Option Text))
      = .ok (lineText rest) := by
  have hsplit := @List.takeWhile_append_dropWhile _ isBlank rest
  have hblanks : ∀ b ∈ rest.takeWhile isBlank, isBlank b = true :=
    fun b hb => List.mem_takeWhile_imp hb
  have hdrop := drop_takeWhile isBlank rest
  have hlen := congrArg List.length hsplit
  rw [List.length_append] at hlen
  unfold lineText
  rw [← takeWhile_blanks, trim_lossy_blanks hblanks]
  simp only [hdrop]
  have hpre :=
    List.takeWhile_prefix (!isLineEnd ·) (l := rest.dropWhile isBlank)
  generalize (rest.dropWhile isBlank).takeWhile (!isLineEnd ·) = v at hpre ⊢
  by_cases hv : v = []
  · subst hv
    rw [List.length_nil, Nat.add_zero, if_pos rfl, Utf8.lossy_nil]
    rfl
  · have hpos := List.length_pos_iff.mpr hv
    have hle := hpre.length_le
    have hsub : sub rest (rest.takeWhile isBlank).length
        ((rest.takeWhile isBlank).length + v.length) = v := by
      unfold sub
      rw [Nat.add_sub_cancel_left, hdrop]
      exact (List.prefix_iff_eq_take.mp hpre).symm
    rw [if_neg (by omega), slice_ok (by omega) (by omega), hsub]
    rfl

theorem sliceFrom_short {xs : Bytes} {a : Nat} (h : xs.length < a) :
    sliceFrom xs a = .error (.panic .outOfRange) := by
  unfold sliceFrom slice
  rw [if_neg (by omega)]

/-- The scan reads its value at the offset in the copy. -/
theorem httpHostRaw_eq (data : Bytes) :
    httpHostRaw low data = match headerAt (data.take MAX) with
      | none => .ok none
      | some k =>
          let i := loweredLen low (data.take MAX) k
          if i + 7 ≤ (data.take MAX).length then
            .ok (lineText ((data.take MAX).drop (i + 7)))
          else .error (.panic .outOfRange) := by
  have hcut : ∀ scan : Bytes → Res (Option Text),
      (if data.length > MAX then slice data 0 MAX >>= scan
        else Except.ok data >>= scan) = scan (data.take MAX) := by
    intro scan
    by_cases hlong : data.length > MAX
    · rw [if_pos hlong, slice_ok (Nat.zero_le _) (by omega)]
      rfl
    · rw [if_neg hlong, List.take_of_length_le (by omega)]
      rfl
  unfold httpHostRaw Lowercase.toLowercase
  dsimp only
  rw [hcut, find_between]
  cases hk : headerAt (data.take MAX) with
  | none => rfl
  | some k =>
      simp only [Option.map_some]
      by_cases hi :
          loweredLen low (data.take MAX) k + 7 ≤ (data.take MAX).length
      · rw [if_pos hi, ← value_eq]
        unfold loweredLen at hi ⊢
        rw [sliceFrom_ok hi]
        rfl
      · rw [if_neg hi]
        unfold loweredLen at hi
        have hpanic := sliceFrom_short (Nat.not_le.mp hi)
        rw [hpanic]
        rfl

end

-- ============================================================== exact

/-- The bytes of the header's value. -/
def hostValue (data : Bytes) (k : Nat) : Bytes :=
  (data.drop (k + 7)).takeWhile (!isLineEnd ·)

/-- The copy of what is before the header is as long as that is, or
longer by some white space which the value starts with. -/
def Aligned (low : Lowercase) (data : Bytes) : Prop :=
  ∀ k, headerAt (data.take MAX) = some k →
    ∃ ws : Text, (∀ c ∈ ws, Text.isWhitespace c = true)
      ∧ Utf8.encode ws <+: hostValue (data.take MAX) k
      ∧ loweredLen low (data.take MAX) k = k + (Utf8.encode ws).length

/-- The value is ASCII, and the copy does not lead to another line. -/
def OnLine (low : Lowercase) (data : Bytes) : Prop :=
  ∀ k, headerAt (data.take MAX) = some k →
    let i := loweredLen low (data.take MAX) k
    let value := hostValue (data.take MAX) k
    (∀ b ∈ value, b.toNat < 0x80)
      ∧ (k ≤ i ∧ i ≤ k + value.length ∨ (data.take MAX).length < i + 7)

/-- There is nothing but ASCII before the header. -/
def AsciiBefore (data : Bytes) : Prop :=
  ∀ k, headerAt (data.take MAX) = some k →
    ∀ b ∈ (data.take MAX).take k, b.toNat < 0x80

theorem headerAt_le {data : Bytes} {k : Nat} (h : headerAt data = some k) :
    k + 7 ≤ data.length := by
  have hlong : ∀ (pat : Text) (bs : Bytes), startsNoCase pat bs = true →
      pat.length ≤ bs.length := by
    intro pat bs hstart
    induction pat generalizing bs with
    | nil => exact Nat.zero_le _
    | cons c pat ih =>
        cases bs with
        | nil => cases hstart
        | cons b bs =>
            rw [startsNoCase, Bool.and_eq_true] at hstart
            exact Nat.succ_le_succ (ih bs hstart.2)
  have hlen := hlong _ _ (headerAt_eq_some h).1
  have hseven : HOST_LINE.length = 7 := by decide
  rw [List.length_drop, hseven] at hlen
  omega

/-- The text of a line without the white space it starts with. -/
theorem lineText_drop {bs : Bytes} {ws : Text}
    (hws : ∀ c ∈ ws, Text.isWhitespace c = true)
    (hpre : Utf8.encode ws <+: bs.takeWhile (!isLineEnd ·)) :
    lineText (bs.drop (Utf8.encode ws).length) = lineText bs := by
  obtain ⟨v, hv⟩ := hpre
  have hline : ∀ b ∈ Utf8.encode ws, (!isLineEnd b) = true := by
    intro b hb
    have hmem : b ∈ bs.takeWhile (!isLineEnd ·) :=
      hv ▸ List.mem_append_left v hb
    exact List.mem_takeWhile_imp (p := (!isLineEnd ·)) hmem
  have hbs : bs = Utf8.encode ws ++ bs.drop (Utf8.encode ws).length := by
    have hpre : Utf8.encode ws <+: bs :=
      (List.prefix_append _ v).trans (hv ▸ List.takeWhile_prefix _)
    exact List.prefix_iff_eq_append.mp hpre |>.symm
  have htext : bs.takeWhile (!isLineEnd ·) = Utf8.encode ws
      ++ (bs.drop (Utf8.encode ws).length).takeWhile (!isLineEnd ·) := by
    conv_lhs => rw [hbs]
    exact List.takeWhile_append_of_pos hline
  unfold lineText
  rw [htext, Utf8.lossy_encode_append, Text.trimStart_append hws]

/-- ASCII is decoded byte by byte. -/
theorem lossy_ascii {bs : Bytes} (h : ∀ b ∈ bs, b.toNat < 0x80) :
    Utf8.lossy bs = bs.map fun b => Char.ofNat b.toNat := by
  induction bs with
  | nil => exact Utf8.lossy_nil
  | cons b bs ih =>
      rw [Utf8.lossy_cons_ascii (h b (List.mem_cons_self ..)),
        ih fun d hd => h d (List.mem_cons_of_mem _ hd)]
      rfl

theorem trimEnd_length_le (t : Text) : (Text.trimEnd t).length ≤ t.length := by
  obtain ⟨w, -, heq⟩ := Text.eq_trimEnd_append t
  have hlen := congrArg List.length heq
  rw [List.length_append] at hlen
  omega

/-- What is left of a text by trimming it does not grow with less of it. -/
theorem trim_suffix_length {t u : Text} :
    (Text.trim u).length ≤ (Text.trimEnd (t ++ u)).length := by
  have hstart : (Text.trim u).length ≤ (Text.trimEnd u).length := by
    rw [← Text.trim_trimEnd]
    unfold Text.trim Text.trimStart
    exact (trimEnd_length_le _).trans (List.dropWhile_suffix _).length_le
  refine hstart.trans ?_
  unfold Text.trimEnd
  rw [List.length_reverse, List.length_reverse, List.reverse_append,
    List.dropWhile_append]
  split
  · next hnil =>
      rw [List.isEmpty_iff.mp hnil]
      exact Nat.zero_le _
  · rw [List.length_append]
    omega

/-- In ASCII only white space can be left out. -/
theorem skipped_blank {v : Bytes} (hv : ∀ b ∈ v, b.toNat < 0x80) {d : Nat}
    (h : Text.trim (Utf8.lossy (v.drop d)) = Text.trim (Utf8.lossy v)) :
    ∀ b ∈ v.take d, Text.isWhitespace (.ofNat b.toNat) = true := by
  induction v generalizing d with
  | nil =>
      intro b hb
      rw [List.take_nil] at hb
      cases hb
  | cons b v ih =>
      cases d with
      | zero =>
          intro b hb
          cases hb
      | succ d =>
          have hv' : ∀ b ∈ v, b.toNat < 0x80 :=
            fun b hb => hv b (List.mem_cons_of_mem _ hb)
          rw [List.drop_succ_cons,
            Utf8.lossy_cons_ascii (hv b (List.mem_cons_self ..))] at h
          cases hb : Text.isWhitespace (.ofNat b.toNat) with
          | true =>
              rw [show Text.trim (.ofNat b.toNat :: Utf8.lossy v)
                  = Text.trim (Utf8.lossy v) from
                Text.trimStart_append (w := [.ofNat b.toNat])
                  (by simpa using hb) _] at h
              intro e he
              rcases List.mem_cons.mp he with rfl | he
              · exact hb
              · exact ih hv' h e he
          | false =>
              -- a character is left that cannot come out of the rest
              exfalso
              have hsplit : Utf8.lossy v
                  = Utf8.lossy (v.take d) ++ Utf8.lossy (v.drop d) := by
                rw [lossy_ascii hv',
                  lossy_ascii fun b hb => hv' b (List.mem_of_mem_take hb),
                  lossy_ascii fun b hb => hv' b (List.mem_of_mem_drop hb),
                  ← List.map_append, List.take_append_drop]
              have hfirst : Text.trim (.ofNat b.toNat :: Utf8.lossy v)
                  = .ofNat b.toNat :: Text.trimEnd (Utf8.lossy v) := by
                unfold Text.trim Text.trimStart
                rw [List.dropWhile_cons_of_neg (by simp [hb])]
                exact Text.trimEnd_append_cons hb [] _
              have hle := trim_suffix_length (t := Utf8.lossy (v.take d))
                (u := Utf8.lossy (v.drop d))
              rw [← hsplit, h, hfirst, List.length_cons] at hle
              omega

/-- The skipped bytes are ASCII white space. -/
theorem encode_ascii {bs : Bytes} (h : ∀ b ∈ bs, b.toNat < 0x80) :
    Utf8.encode (bs.map fun b => Char.ofNat b.toNat) = bs := by
  induction bs with
  | nil => rfl
  | cons b bs ih =>
      have hb := h b (List.mem_cons_self ..)
      have hvalue : (Char.ofNat b.toNat).toNat = b.toNat :=
        Utf8.toNat_ofNat (.inl (by omega))
      have hone : Utf8.encodeChar (.ofNat b.toNat) = [b] := by
        unfold Utf8.encodeChar
        simp only [hvalue]
        rw [if_pos hb, UInt8.ofNat_toNat]
      show Utf8.encodeChar (.ofNat b.toNat) ++ Utf8.encode _ = _
      rw [hone, ih fun d hd => h d (List.mem_cons_of_mem _ hd)]
      rfl

theorem lineText_eq {bs cs : Bytes} (h : lineText bs = lineText cs) :
    Text.trim (Utf8.lossy (bs.takeWhile (!isLineEnd ·)))
      = Text.trim (Utf8.lossy (cs.takeWhile (!isLineEnd ·))) := by
  unfold lineText at h
  dsimp only at h
  split at h
  · next hb =>
      split at h
      · next hc => rw [List.isEmpty_iff.mp hb, List.isEmpty_iff.mp hc]
      · cases h
  · split at h
    · cases h
    · exact Option.some.inj h

/-- Further on in a line its text is shorter by as much. -/
theorem takeWhile_drop {p : UInt8 → Bool} {xs : Bytes} {d : Nat}
    (h : d ≤ (xs.takeWhile p).length) :
    (xs.drop d).takeWhile p = (xs.takeWhile p).drop d := by
  induction xs generalizing d with
  | nil => simp
  | cons x xs ih =>
      cases d with
      | zero => rfl
      | succ d =>
          cases hx : p x with
          | true =>
              rw [List.takeWhile_cons_of_pos hx, List.length_cons] at h
              rw [List.takeWhile_cons_of_pos hx, List.drop_succ_cons,
                List.drop_succ_cons, ih (Nat.le_of_succ_le_succ h)]
          | false =>
              rw [List.takeWhile_cons_of_neg (by simp [hx])] at h
              cases h

/-- Bytes of ASCII before the header are as long as their copy. -/
theorem loweredLen_ascii (low : Lowercase) {data : Bytes} {k : Nat}
    (hk : k ≤ data.length) (h : ∀ b ∈ data.take k, b.toNat < 0x80) :
    loweredLen low data k = k := by
  have hsize : ∀ (ws : Bytes) (before after : Text),
      (∀ b ∈ ws, b.toNat < 0x80) →
      Utf8.size (low.between before (Utf8.lossy ws) after) = ws.length := by
    intro ws before after hws
    induction ws generalizing before with
    | nil =>
        rw [Utf8.lossy_nil]
        rfl
    | cons w ws ih =>
        have hw := hws w (List.mem_cons_self ..)
        have ih := ih (before ++ [.ofNat w.toNat])
          fun b hb => hws b (List.mem_cons_of_mem _ hb)
        obtain ⟨c, hc, -, hone⟩ :=
          lower_ascii low hw before (Utf8.lossy ws ++ after)
        have hchar : Utf8.size [c] = 1 := hone
        rw [Utf8.lossy_cons_ascii hw, Lowercase.between, hc, Utf8.size_append,
          ih, hchar, List.length_cons, Nat.add_comm]
  unfold loweredLen
  rw [hsize _ _ _ h, List.length_take_of_le hk]

/-- Where the copy is aligned the scan returns what the header says; for
an ASCII value that the copy leads into, nowhere else; and the copy of
ASCII is aligned. -/
theorem http_host_exact (low : Lowercase) (data : Bytes) :
    (Aligned low data → httpHostRaw low data = .ok (hostHeader data))
    ∧ (OnLine low data →
      (httpHostRaw low data = .ok (hostHeader data) ↔ Aligned low data))
    ∧ (AsciiBefore data → Aligned low data) := by
  have henough : Aligned low data →
      httpHostRaw low data = .ok (hostHeader data) := by
    intro haligned
    rw [httpHostRaw_eq]
    unfold hostHeader
    dsimp only
    cases hk : headerAt (data.take MAX) with
    | none => rfl
    | some k =>
        obtain ⟨ws, hws, hpre, hlen⟩ := haligned k hk
        have hle := headerAt_le hk
        have hfits := (hpre.trans (List.takeWhile_prefix _)).length_le
        rw [List.length_drop] at hfits
        simp only [hlen]
        rw [if_pos (by omega), ← lineText_drop hws hpre, List.drop_drop]
        congr 3
        omega
  refine ⟨henough, fun hline => ⟨fun h k hk => ?_, henough⟩,
    fun hascii k hk => ?_⟩
  · obtain ⟨hvalue, hon⟩ := hline k hk
    rw [httpHostRaw_eq] at h
    unfold hostHeader at h
    simp only [hk] at h
    split at h
    · next hi =>
        have hle := headerAt_le hk
        rcases hon with ⟨hfrom, hto⟩ | hpast
        · obtain ⟨d, hd⟩ := Nat.exists_eq_add_of_le hfrom
          rw [hd] at h hto
          have hsame := lineText_eq (Except.ok.inj h)
          have hto : d ≤ (hostValue (data.take MAX) k).length := by omega
          rw [show k + d + 7 = k + 7 + d by omega, ← List.drop_drop,
            takeWhile_drop hto] at hsame
          have hblank := skipped_blank hvalue hsame
          refine ⟨((hostValue (data.take MAX) k).take d).map
            fun b => Char.ofNat b.toNat, ?_, ?_, ?_⟩
          · intro c hc
            obtain ⟨b, hb, rfl⟩ := List.mem_map.mp hc
            exact hblank b hb
          · rw [encode_ascii fun b hb => hvalue b (List.mem_of_mem_take hb)]
            exact List.take_prefix _ _
          · rw [encode_ascii fun b hb => hvalue b (List.mem_of_mem_take hb),
              List.length_take_of_le (by omega), hd]
        · omega
    · cases h
  · refine ⟨[], fun c hc => (List.not_mem_nil hc).elim, List.nil_prefix, ?_⟩
    exact loweredLen_ascii low (by have := headerAt_le hk; omega)
      (hascii k hk)

/-- A lower case that leaves all but ASCII as it is. -/
def asciiLower : Lowercase where
  lower _ c _ := Text.toAsciiLowercase [c]
  ascii _ _ _ _ := rfl
  ne_nil _ _ _ := List.cons_ne_nil _ _
  other := by
    intro _ c _ hc d hd hmem
    rw [toAsciiLowercase_nonascii hc, List.mem_singleton] at hd
    subst hd
    exact absurd (hostLine_ascii d hmem) (by omega)

/-- The two bytes that are skipped behind the colon are blank. -/
theorem http_host_exact_sample :
    let moved := 0xFF :: Utf8.encode "\r\nHost:  abc.de\r\n\r\n".toList
    httpHostRaw asciiLower moved = .ok (hostHeader moved)
      ∧ hostHeader moved = some "abc.de".toList := by
  refine ⟨(http_host_exact asciiLower _).1 ?_, by decide +kernel⟩
  intro k hk
  have hat : headerAt ((0xFF :: Utf8.encode
      "\r\nHost:  abc.de\r\n\r\n".toList).take MAX) = some 1 := by
    decide +kernel
  cases hat.symm.trans hk
  exact ⟨"  ".toList, List.all_eq_true.mp (by decide), by decide +kernel,
    by decide +kernel⟩

/-- A byte that is no UTF-8 before the header moves what is read by the
two bytes that U+FFFD is longer, which can be past the end. -/
theorem http_host_shifted :
    let moved := 0xFF :: Utf8.encode "\r\nHost:abc.de\r\n\r\n".toList
    httpHostRaw asciiLower moved = .ok (some "c.de".toList)
      ∧ hostHeader moved = some "abc.de".toList
      ∧ httpHostRaw asciiLower (0xFF :: Utf8.encode HOST_LINE)
        = .error (.panic .outOfRange) := by
  decide +kernel

-- ======================================================== passthrough

/-- The value is cut from inside the bytes. -/
def InRange (low : Lowercase) (data : Bytes) : Prop :=
  ∀ k, headerAt (data.take MAX) = some k →
    loweredLen low (data.take MAX) k + 7 ≤ (data.take MAX).length

theorem httpHostRaw_ok (low : Lowercase) (data : Bytes) :
    (∃ r, httpHostRaw low data = .ok r) ↔ InRange low data := by
  rw [httpHostRaw_eq]
  unfold InRange
  cases headerAt (data.take MAX) with
  | none => exact ⟨fun _ => nofun, fun _ => ⟨_, rfl⟩⟩
  | some k =>
      simp only [Option.some.injEq, forall_eq']
      by_cases hi : loweredLen low (data.take MAX) k + 7
          ≤ (data.take MAX).length
      · rw [if_pos hi]
        exact ⟨fun _ => hi, fun _ => ⟨_, rfl⟩⟩
      · rw [if_neg hi]
        exact ⟨nofun, fun h => absurd h hi⟩

theorem passthroughHost_ok (low : Lowercase) (data : Bytes) :
    (∃ r, passthroughHost low data = .ok r)
      ↔ ¬ ReachesShort data
        ∧ ((∃ host, FirstName (records data 0) host) ∨ InRange low data) := by
  unfold passthroughHost
  rcases parseTlsClientHelloSni_spec data with
    ⟨r, hr, hno, htells⟩ | ⟨hreach, herr⟩
  rotate_left
  · rw [herr]
    exact ⟨nofun, fun h => absurd hreach h.1⟩
  rw [hr]
  cases r with
  | some host =>
      exact ⟨fun _ => ⟨hno, .inl ⟨host, (htells host).mp rfl⟩⟩,
        fun _ => ⟨_, rfl⟩⟩
  | none =>
      have hnone : ¬ ∃ host, FirstName (records data 0) host :=
        fun ⟨host, h⟩ => nomatch (htells host).mpr h
      rw [← httpHostRaw_ok]
      unfold parseHttpHost
      cases hraw : httpHostRaw low data with
      | error e =>
          refine ⟨nofun, ?_⟩
          intro h
          obtain ⟨-, hnamed | ⟨r, hr⟩⟩ := h
          · exact absurd hnamed hnone
          · cases hr
      | ok host =>
          refine ⟨fun _ => ⟨hno, .inr ⟨host, rfl⟩⟩, fun _ => ?_⟩
          cases host with
          | none => exact ⟨_, rfl⟩
          | some host => exact ⟨_, rfl⟩

/-- Where each of the scans returns: everywhere but behind a ClientHello
of 34 bytes, and, of `passthrough_host`, a header the copy has past the
end. -/
theorem scan_in_bounds (low : Lowercase) (data : Bytes) :
    (∃ r, parseSniExtension data = .ok r)
    ∧ ((∃ r, sniFromClientHello data = .ok r) ↔ ¬ Short data)
    ∧ ((∃ r, parseTlsClientHelloSni data = .ok r) ↔ ¬ ReachesShort data)
    ∧ ((∃ r, passthroughHost low data = .ok r)
      ↔ ¬ ReachesShort data
        ∧ ((∃ host, FirstName (records data 0) host) ∨ InRange low data)) := by
  refine ⟨?_, ?_, ?_, passthroughHost_ok low data⟩
  · obtain ⟨r, hr, -⟩ := parseSniExtension_spec data
    exact ⟨r, hr⟩
  · rcases sniFromClientHello_spec data with ⟨r, hr, hno, -⟩ | ⟨hshort, herr⟩
    · exact ⟨fun _ => hno, fun _ => ⟨r, hr⟩⟩
    · rw [herr]
      exact ⟨nofun, fun h => absurd hshort h⟩
  · rcases parseTlsClientHelloSni_spec data with
      ⟨r, hr, hno, -⟩ | ⟨hreach, herr⟩
    · exact ⟨fun _ => hno, fun _ => ⟨r, hr⟩⟩
    · rw [herr]
      exact ⟨nofun, fun h => absurd hreach h⟩

/-- A record of one ClientHello that ends with its random. -/
theorem scan_out_of_bounds :
    let data := 0x16 :: 0x03 :: 0x01 :: vec 2
      (0x01 :: vec 3 (0x03 :: 0x03 :: List.replicate 32 0))
    parseTlsClientHelloSni data = .error (.panic .outOfRange)
      ∧ passthroughHost asciiLower data = .error (.panic .outOfRange) := by
  decide +kernel

end Wrtg.TlsSni
