/-
Which lines get past the CIDR filter (`lib.sh`).

The filter sees the fields and not what parts them: a line passes when
it is five numbers in range between any four separators
(`validRecord_iff`). It is a CIDR when these are three dots and a slash,
so the filter is exact on the texts without the other kind
(`OnlyDotted`). What is printed reads back as the same lines, so the
batch has what the filter let through.
-/
import Wrtg.Cidr

namespace Wrtg.Cidr

open Text

-- ============================================================ the form

/-- A non-empty string of digits of a value up to the bound. -/
def Numeral (bound : Nat) (t : Text) : Prop :=
  ∃ n, parseDigits t = some n ∧ n ≤ bound

/-- The five numbers of a network. -/
structure Network where
  a : Text
  b : Text
  c : Text
  d : Text
  p : Text
  octets : ∀ t ∈ [a, b, c, d], Numeral 255 t
  length : Numeral 32 p

/-- What stands between them. -/
structure Seps where
  s₁ : Char
  s₂ : Char
  s₃ : Char
  s₄ : Char
  sep : ∀ s ∈ [s₁, s₂, s₃, s₄], isSep s = true
  deriving DecidableEq

def Network.text (n : Network) (s : Seps) : Text :=
  n.a ++ s.s₁ :: (n.b ++ s.s₂ :: (n.c ++ s.s₃ :: (n.d ++ s.s₄ :: n.p)))

/-- Three dots and a slash. -/
def dotted : Seps := ⟨'.', '.', '.', '/', by simp [isSep]⟩

/-- The line has the form `a.b.c.d/p`. -/
def IsCidr (line : Text) : Prop := ∃ n : Network, line = n.text dotted

/-- No line has other separators between such numbers. -/
def OnlyDotted (t : Text) : Prop :=
  ∀ line ∈ records t, ∀ (n : Network) (s : Seps), line = n.text s → s = dotted

-- ========================================================== the fields

theorem inRange_iff (bound : Nat) (field : Text) :
    inRange bound field = true ↔ Numeral bound field := by
  unfold inRange Numeral
  cases h : parseDigits field with
  | none => simp
  | some n => simp

theorem isSep_of_digit {c : Char} (h : isDigit c = true) :
    isSep c = false := by
  by_contra hsep
  have hsep := eq_true_of_ne_false hsep
  simp only [isSep, Bool.or_eq_true, beq_iff_eq] at hsep
  rcases hsep with rfl | rfl
  · cases h
  · cases h

/-- A number is one field. -/
theorem Numeral.not_sep {bound : Nat} {t : Text} (h : Numeral bound t) :
    ∀ c ∈ t, isSep c = false := by
  obtain ⟨n, hn, -⟩ := h
  exact fun c hc => isSep_of_digit (parseDigits_all hn c hc)

theorem Numeral.filter {bound : Nat} {t : Text} (h : Numeral bound t) :
    t.filter isSep = [] := by
  rw [List.filter_eq_nil_iff]
  intro c hc
  rw [h.not_sep c hc]
  exact Bool.false_ne_true

theorem Seps.cons (s : Seps) :
    isSep s.s₁ = true ∧ isSep s.s₂ = true ∧ isSep s.s₃ = true
      ∧ isSep s.s₄ = true :=
  ⟨s.sep _ (by simp), s.sep _ (by simp), s.sep _ (by simp),
    s.sep _ (by simp)⟩

theorem Network.numerals (n : Network) :
    Numeral 255 n.a ∧ Numeral 255 n.b ∧ Numeral 255 n.c ∧ Numeral 255 n.d :=
  ⟨n.octets _ (by simp), n.octets _ (by simp), n.octets _ (by simp),
    n.octets _ (by simp)⟩

theorem Network.fields_text (n : Network) (s : Seps) :
    fields (n.text s) = [n.a, n.b, n.c, n.d, n.p] := by
  obtain ⟨h₁, h₂, h₃, h₄⟩ := s.cons
  obtain ⟨ha, hb, hc, hd⟩ := n.numerals
  have hne : n.text s ≠ [] := by simp [Network.text]
  unfold fields
  rw [if_neg (by rwa [List.isEmpty_iff]), Network.text,
    splitOn_append_cons h₁, splitOn_append_cons h₂, splitOn_append_cons h₃,
    splitOn_append_cons h₄, splitOn_of_not_sep ha.not_sep,
    splitOn_of_not_sep hb.not_sep, splitOn_of_not_sep hc.not_sep,
    splitOn_of_not_sep hd.not_sep, splitOn_of_not_sep n.length.not_sep]
  rfl

/-- The separators of a line show which it is. -/
theorem Network.filter_text (n : Network) (s : Seps) :
    (n.text s).filter isSep = [s.s₁, s.s₂, s.s₃, s.s₄] := by
  obtain ⟨h₁, h₂, h₃, h₄⟩ := s.cons
  obtain ⟨ha, hb, hc, hd⟩ := n.numerals
  simp only [Network.text, List.filter_append, List.filter_cons, ha.filter,
    hb.filter, hc.filter, hd.filter, n.length.filter, h₁, h₂, h₃, h₄,
    if_true, List.nil_append]

/-- A line passes when it is five numbers in range, with any
separators. -/
theorem validRecord_iff (line : Text) :
    validRecord line = true ↔ ∃ (n : Network) (s : Seps), line = n.text s := by
  constructor
  · intro h
    unfold validRecord at h
    split at h
    · next a b c d p hfields =>
        rw [Bool.and_eq_true, List.all_eq_true, inRange_iff] at h
        obtain ⟨hoctets, hp⟩ := h
        unfold fields at hfields
        split at hfields
        · cases hfields
        · obtain ⟨s₁, t, h₁, ht, hfields⟩ := splitOn_eq_cons hfields
          obtain ⟨s₂, u, h₂, hu, hfields⟩ := splitOn_eq_cons hfields
          obtain ⟨s₃, v, h₃, hv, hfields⟩ := splitOn_eq_cons hfields
          obtain ⟨s₄, w, h₄, hw, hfields⟩ := splitOn_eq_cons hfields
          refine ⟨⟨a, b, c, d, p, fun t ht => (inRange_iff _ _).mp
            (hoctets t ht), hp⟩, ⟨s₁, s₂, s₃, s₄, ?_⟩, ?_⟩
          · simp [h₁, h₂, h₃, h₄]
          · rw [ht, hu, hv, hw, eq_of_splitOn hfields]
            rfl
    · cases h
  · intro h
    obtain ⟨n, s, rfl⟩ := h
    unfold validRecord
    rw [n.fields_text]
    simp only [Bool.and_eq_true, List.all_eq_true, inRange_iff]
    exact ⟨n.octets, n.length⟩

theorem Seps.eq_dotted {s : Seps}
    (h : [s.s₁, s.s₂, s.s₃, s.s₄] = ['.', '.', '.', '/']) : s = dotted := by
  obtain ⟨s₁, s₂, s₃, s₄, hs⟩ := s
  injection h with h₁ h
  injection h with h₂ h
  injection h with h₃ h
  injection h with h₄
  subst h₁ h₂ h₃ h₄
  rfl

/-- A CIDR passes with its separators. -/
theorem isCidr_iff (line : Text) :
    IsCidr line ↔ validRecord line = true
      ∧ line.filter isSep = ['.', '.', '.', '/'] := by
  rw [validRecord_iff]
  constructor
  · intro h
    obtain ⟨n, rfl⟩ := h
    exact ⟨⟨n, dotted, rfl⟩, n.filter_text dotted⟩
  · intro h
    obtain ⟨⟨n, s, rfl⟩, hseps⟩ := h
    rw [n.filter_text] at hseps
    exact ⟨n, by rw [Seps.eq_dotted hseps]⟩

instance : DecidablePred IsCidr := fun line =>
  decidable_of_iff _ (isCidr_iff line).symm

-- =========================================================== the lines

/-- A line that passes is spelt with digits and separators. -/
theorem validRecord_chars {line : Text} (h : validRecord line = true) :
    ∀ c ∈ line, isDigit c = true ∨ isSep c = true := by
  obtain ⟨n, s, rfl⟩ := (validRecord_iff line).mp h
  have hfields := n.fields_text s
  have hsplit : splitOn isSep (n.text s) = [n.a, n.b, n.c, n.d, n.p] := by
    unfold fields at hfields
    split at hfields
    · cases hfields
    · exact hfields
  intro c hc
  rcases mem_splitOn isSep hc with hsep | ⟨w, hw, hcw⟩
  · exact .inr hsep
  · refine .inl ?_
    rw [hsplit] at hw
    have hnum : ∃ bound, Numeral bound w := by
      rcases List.mem_append.mp
        (show w ∈ [n.a, n.b, n.c, n.d] ++ [n.p] from hw) with hw | hw
      · exact ⟨255, n.octets w hw⟩
      · exact ⟨32, List.mem_singleton.mp hw ▸ n.length⟩
    obtain ⟨bound, m, hm, -⟩ := hnum
    exact parseDigits_all hm c hcw

/-- So the shell's white space is not in it. -/
theorem validRecord_not_blank {line : Text} (h : validRecord line = true) :
    ∀ c ∈ line, isBlank c = false ∧ (c == '\n') = false := by
  intro c hc
  rw [Bool.eq_false_iff, Bool.eq_false_iff]
  refine ⟨?_, ?_⟩
  · intro hblank
    simp only [isBlank, Bool.or_eq_true, beq_iff_eq] at hblank
    have hchar := validRecord_chars h c hc
    rcases hblank with rfl | rfl
    · revert hchar
      decide
    · revert hchar
      decide
  · intro hnewline
    have hchar := validRecord_chars h c hc
    rw [beq_iff_eq] at hnewline
    subst hnewline
    revert hchar
    decide

theorem validRecord_ne_nil {line : Text} (h : validRecord line = true) :
    line ≠ [] := by
  intro hnil
  subst hnil
  cases h

/-- Printed lines and what stands behind the last newline. -/
theorem splitOn_unlines {ls : List Text}
    (h : ∀ l ∈ ls, ∀ c ∈ l, (c == '\n') = false) :
    splitOn (· == '\n') (unlines ls) = ls ++ [[]] := by
  induction ls with
  | nil => rfl
  | cons l ls ih =>
      have htext : unlines (l :: ls) = l ++ '\n' :: unlines ls := by
        simp [unlines]
      rw [htext, splitOn_append_cons rfl,
        splitOn_of_not_sep (h l (List.mem_cons_self ..)),
        ih fun l hl => h l (List.mem_cons_of_mem _ hl)]
      rfl

/-- Printed lines are the records of their text. -/
theorem records_unlines {ls : List Text}
    (h : ∀ l ∈ ls, ∀ c ∈ l, (c == '\n') = false) :
    records (unlines ls) = ls := by
  unfold records
  simp only [splitOn_unlines h, List.getLast?_concat, if_true,
    List.dropLast_concat]

-- ============================================================ the list

theorem captured_unlines {ls : List Text} (hne : ls ≠ [])
    (h : ∀ l ∈ ls, validRecord l = true) :
    captured (unlines ls) ≠ []
      ∧ captured (unlines ls) ++ ['\n'] = unlines ls := by
  obtain ⟨init, l, rfl⟩ : ∃ init l, ls = init ++ [l] :=
    ⟨_, _, (List.dropLast_append_getLast hne).symm⟩
  have hl := h l (by simp)
  obtain ⟨m, c, rfl⟩ : ∃ m c, l = m ++ [c] :=
    ⟨_, _, (List.dropLast_append_getLast (validRecord_ne_nil hl)).symm⟩
  have htext : unlines (init ++ [m ++ [c]])
      = (unlines init ++ m ++ [c]) ++ ['\n'] := by
    simp [unlines]
  have hc := (validRecord_not_blank hl c (by simp)).2
  have hcaptured : captured (unlines (init ++ [m ++ [c]]))
      = unlines init ++ m ++ [c] := by
    rw [htext]
    unfold captured
    rw [List.rdropWhile_concat_pos _ _ _ rfl,
      List.rdropWhile_concat_neg _ _ _ (by simp [hc])]
  rw [hcaptured]
  exact ⟨by simp, htext.symm⟩

/-- What is loaded: lines that passed, or the built-in ones. -/
theorem loadCidrs_eq (cidrFile : Option Text) :
    ∃ ls, loadCidrs cidrFile = unlines ls ∧ ls ≠ []
      ∧ (ls = defaultNetworks
        ∨ ls = (records (cidrFile.getD [])).filter validRecord) := by
  have hdefault : defaultNetworks ≠ [] := by decide
  cases cidrFile with
  | none => exact ⟨_, rfl, hdefault, .inl rfl⟩
  | some content =>
      rw [loadCidrs]
      split
      · exact ⟨_, rfl, hdefault, .inl rfl⟩
      · by_cases hnil : (records content).filter validRecord = []
        · have hempty : captured (validIpv4Cidrs content) = [] := by
            rw [validIpv4Cidrs, hnil]
            rfl
          refine ⟨defaultNetworks, ?_, hdefault, .inl rfl⟩
          rw [hempty]
          rfl
        · obtain ⟨hne, htext⟩ := captured_unlines hnil
            fun l hl => (List.mem_filter.mp hl).2
          refine ⟨_, ?_, hnil, .inr rfl⟩
          have hempty : (captured (validIpv4Cidrs content)).isEmpty
              = false := by
            rwa [List.isEmpty_eq_false_iff]
          simp only [hempty, Bool.false_eq_true, if_false]
          exact htext

theorem defaultNetworks_valid :
    ∀ l ∈ defaultNetworks, validRecord l = true ∧ IsCidr l := by
  decide +kernel

-- ============================================================ the batch

/-- Lines that passed are read as they are. -/
theorem readLines_unlines {ls : List Text}
    (h : ∀ l ∈ ls, validRecord l = true) : readLines (unlines ls) = ls := by
  have hblank : ∀ l ∈ ls,
      (l.dropWhile isBlank).rdropWhile isBlank = l := by
    intro l hl
    have hno := validRecord_not_blank (h l hl)
    have hne := validRecord_ne_nil (h l hl)
    rw [List.dropWhile_eq_self_iff.mpr (fun hpos => by
        simp [(hno _ (List.getElem_mem hpos)).1]),
      List.rdropWhile_eq_self_iff.mpr (fun hne => by
        simp [(hno _ (List.getLast_mem hne)).1])]
  unfold readLines
  rw [splitOn_unlines fun l hl c hc => (validRecord_not_blank (h l hl) c hc).2,
    List.dropLast_concat]
  calc ls.map (fun l => (l.dropWhile isBlank).rdropWhile isBlank)
      = ls.map id := List.map_congr_left hblank
    _ = ls := List.map_id ls

/-- The comma behind the last element goes. -/
theorem dropLastComma_elements {ls : List Text} (hne : ls ≠ []) :
    dropLastComma (ls.flatMap (· ++ ", ".toList))
      = ", ".toList.intercalate ls := by
  have hsuffix : ls.flatMap (· ++ ", ".toList)
      = ", ".toList.intercalate ls ++ ", ".toList := by
    induction ls with
    | nil => exact absurd rfl hne
    | cons l ls ih =>
        cases ls with
        | nil => simp
        | cons l' ls =>
            rw [List.flatMap_cons, ih (List.cons_ne_nil l' ls)]
            simp [List.intercalate]
  unfold dropLastComma
  rw [hsuffix, if_pos (List.isSuffixOf_iff_suffix.mpr
    (List.suffix_append _ _)), List.length_append]
  exact List.take_left' (by simp)

/-- The batch has CIDRs, parted by commas. -/
def WellFormedBatch (cidrFile : Option Text) : Prop :=
  ∃ es : List Text, es ≠ []
    ∧ nftCidrInline cidrFile = ", ".toList.intercalate es
    ∧ ∀ e ∈ es, IsCidr e

theorem nftCidrInline_eq {cidrFile : Option Text} {ls : List Text}
    (hload : loadCidrs cidrFile = unlines ls) (hne : ls ≠ [])
    (h : ∀ l ∈ ls, validRecord l = true) :
    nftCidrInline cidrFile = ", ".toList.intercalate ls := by
  have hfull : ls.filter (fun cidr => !cidr.isEmpty) = ls := by
    rw [List.filter_eq_self]
    intro l hl
    simpa using validRecord_ne_nil (h l hl)
  unfold nftCidrInline
  rw [hload, readLines_unlines h, hfull, dropLastComma_elements hne]

theorem wellFormedBatch_of {cidrFile : Option Text}
    (h : ∀ l ∈ records (cidrFile.getD []), validRecord l = true → IsCidr l) :
    WellFormedBatch cidrFile := by
  obtain ⟨ls, hload, hne, hls⟩ := loadCidrs_eq cidrFile
  have hall : ∀ l ∈ ls, validRecord l = true ∧ IsCidr l := by
    rcases hls with rfl | rfl
    · exact defaultNetworks_valid
    · intro l hl
      obtain ⟨hmem, hvalid⟩ := List.mem_filter.mp hl
      exact ⟨hvalid, h l hmem hvalid⟩
  exact ⟨ls, hne, nftCidrInline_eq hload hne fun l hl => (hall l hl).1,
    fun l hl => (hall l hl).2⟩

-- ========================================================== the result

theorem onlyDotted_iff (t : Text) :
    OnlyDotted t
      ↔ ∀ l ∈ records t, validRecord l = true → IsCidr l := by
  constructor
  · intro h l hl hvalid
    obtain ⟨n, s, rfl⟩ := (validRecord_iff l).mp hvalid
    exact ⟨n, by rw [h _ hl n s rfl]⟩
  · intro h l hl n s hs
    have hvalid := (validRecord_iff l).mpr ⟨n, s, hs⟩
    have hseps := ((isCidr_iff l).mp (h l hl hvalid)).2
    rw [hs, n.filter_text] at hseps
    exact Seps.eq_dotted hseps

/-- The filter prints the CIDRs of a text, and the batch gets no other
element, exactly when no line has other separators. -/
theorem cidr_filter_exact (t : Text) :
    (validIpv4Cidrs t = unlines ((records t).filter IsCidr)
        ∧ WellFormedBatch none ∧ WellFormedBatch (some t))
      ↔ OnlyDotted t := by
  rw [onlyDotted_iff]
  constructor
  · intro h l hl hvalid
    have hprinted := congrArg records h.1
    unfold validIpv4Cidrs at hprinted
    have hcidr : ∀ l, IsCidr l → validRecord l = true := fun l hl =>
      ((isCidr_iff l).mp hl).1
    rw [records_unlines (fun l hl c hc => (validRecord_not_blank
        (List.mem_filter.mp hl).2 c hc).2),
      records_unlines (fun l hl c hc => (validRecord_not_blank
        (hcidr l (of_decide_eq_true (List.mem_filter.mp hl).2)) c hc).2)]
      at hprinted
    have hmem : l ∈ (records t).filter validRecord :=
      List.mem_filter.mpr ⟨hl, hvalid⟩
    rw [hprinted] at hmem
    exact of_decide_eq_true (List.mem_filter.mp hmem).2
  · intro h
    have hnone : WellFormedBatch none :=
      wellFormedBatch_of (by intro l hl; cases hl)
    refine ⟨?_, hnone, wellFormedBatch_of h⟩
    unfold validIpv4Cidrs
    congr 1
    refine List.filter_congr ?_
    intro l hl
    cases hvalid : validRecord l with
    | true => exact (decide_eq_true (h l hl hvalid)).symm
    | false =>
        refine (decide_eq_false ?_).symm
        intro hcidr
        rw [((isCidr_iff l).mp hcidr).1] at hvalid
        cases hvalid

/-- Four slashes. -/
theorem cidr_filter_slashes :
    ¬ ∀ t : Text, validIpv4Cidrs t = unlines ((records t).filter IsCidr)
      ∧ WellFormedBatch none ∧ WellFormedBatch (some t) := by
  intro h
  have hprinted := (h "1/2/3/4/5".toList).1
  have hline : validIpv4Cidrs "1/2/3/4/5".toList = "1/2/3/4/5\n".toList := by
    decide +kernel
  have hnone : unlines ((records "1/2/3/4/5".toList).filter IsCidr) = [] := by
    decide +kernel
  rw [hline, hnone] at hprinted
  cases hprinted

end Wrtg.Cidr
