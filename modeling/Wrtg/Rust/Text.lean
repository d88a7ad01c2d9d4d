/-
Text as the source handles it: a `&str` is the list of its characters,
and the `str` methods the daemon calls are functions on it.

Only the documented behaviour is here: Unicode white space for `trim`
and `split_whitespace`, `\n` and `\r\n` line ends for `lines`, optional
signs and the exact range for integer parsing, four dotted decimal
octets without leading zeros for `Ipv4Addr`.
-/
import Mathlib.Algebra.Group.Nat.Defs
import Mathlib.Data.List.Basic
import Mathlib.Data.Int.Basic
import Mathlib.Data.List.DropRight
import Mathlib.Data.List.TakeWhile
import Wrtg.Lib.Search

namespace Wrtg

abbrev Text := List Char

namespace Text

open Lib (At position position_first position_eq_none position_eq_some)

-- ============================================================ trimming

/-- `char::is_whitespace`: the Unicode `White_Space` property. -/
def isWhitespace (c : Char) : Bool :=
  let n := c.toNat
  (0x9 ≤ n && n ≤ 0xD) || n == 0x20 || n == 0x85 || n == 0xA0 || n == 0x1680
    || (0x2000 ≤ n && n ≤ 0x200A) || n == 0x2028 || n == 0x2029
    || n == 0x202F || n == 0x205F || n == 0x3000

def trimStart (t : Text) : Text := t.dropWhile isWhitespace

def trimEnd (t : Text) : Text := (t.reverse.dropWhile isWhitespace).reverse

def trim (t : Text) : Text := trimEnd (trimStart t)

/-- `trim_end_matches(c)`. -/
def trimEndMatches (c : Char) (t : Text) : Text :=
  (t.reverse.dropWhile (· == c)).reverse

/-- `trim_matches(c)`. -/
def trimMatches (c : Char) (t : Text) : Text :=
  trimEndMatches c (t.dropWhile (· == c))

private theorem dropWhile_of_head {t : Text}
    (h : ∀ c, t.head? = some c → isWhitespace c = false) :
    t.dropWhile isWhitespace = t := by
  cases t with
  | nil => rfl
  | cons c t => exact List.dropWhile_cons_of_neg (by simp [h c rfl])

/-- Text that starts and ends with other than white space is trimmed
already. -/
theorem trim_eq {t : Text}
    (hfirst : ∀ c, t.head? = some c → isWhitespace c = false)
    (hlast : ∀ c, t.getLast? = some c → isWhitespace c = false) :
    trim t = t := by
  rw [trim, trimStart, dropWhile_of_head hfirst, trimEnd,
    dropWhile_of_head (by simpa using hlast), List.reverse_reverse]

/-- Behind other than white space the end is trimmed by itself. -/
theorem trimEnd_append_cons {c : Char} (hc : isWhitespace c = false)
    (t u : Text) : trimEnd (t ++ c :: u) = t ++ c :: trimEnd u := by
  have hstop : (c :: t.reverse).dropWhile isWhitespace = c :: t.reverse :=
    List.dropWhile_cons_of_neg (by simp [hc])
  unfold trimEnd
  rw [List.reverse_append, List.reverse_cons, List.append_assoc,
    List.singleton_append, List.dropWhile_append]
  split
  · next hnil =>
      rw [List.isEmpty_iff.mp hnil, hstop]
      simp
  · simp

/-- Trimming takes off white space at the end. -/
theorem trimEnd_append {w : Text} (hw : ∀ c ∈ w, isWhitespace c = true)
    (t : Text) : trimEnd (t ++ w) = trimEnd t := by
  unfold trimEnd
  rw [List.reverse_append, List.dropWhile_append_of_pos fun c hc =>
    hw c (List.mem_reverse.mp hc)]

theorem trim_append {w : Text} (hw : ∀ c ∈ w, isWhitespace c = true)
    (t : Text) : trim (t ++ w) = trim t := by
  have hnil : w.dropWhile isWhitespace = [] :=
    List.dropWhile_eq_nil_iff.mpr hw
  unfold trim trimStart
  rw [List.dropWhile_append]
  split
  · next h => rw [hnil, List.isEmpty_iff.mp h]
  · exact trimEnd_append hw _

theorem eq_trimEnd_append (t : Text) :
    ∃ w, (∀ c ∈ w, isWhitespace c = true) ∧ t = trimEnd t ++ w := by
  refine ⟨(t.reverse.takeWhile isWhitespace).reverse, ?_, ?_⟩
  · intro c hc
    exact List.mem_takeWhile_imp (List.mem_reverse.mp hc)
  · unfold trimEnd
    rw [← List.reverse_append, List.takeWhile_append_dropWhile,
      List.reverse_reverse]

@[simp] theorem trim_trimEnd (t : Text) : trim (trimEnd t) = trim t := by
  obtain ⟨w, hw, heq⟩ := eq_trimEnd_append t
  conv_rhs => rw [heq, trim_append hw]

theorem mem_dropWhile_or {p : Char → Bool} {t : Text} {c : Char}
    (h : c ∈ t) : p c = true ∨ c ∈ t.dropWhile p := by
  induction t with
  | nil => cases h
  | cons d t ih =>
      by_cases hd : p d = true
      · rw [List.dropWhile_cons_of_pos hd]
        rcases List.mem_cons.mp h with rfl | h
        · exact .inl hd
        · exact ih h
      · rw [List.dropWhile_cons_of_neg hd]
        exact .inr h

/-- Trimming loses white space only. -/
theorem mem_trim_or {t : Text} {c : Char} (h : c ∈ t) :
    isWhitespace c = true ∨ c ∈ trim t := by
  unfold trim trimEnd trimStart
  rcases mem_dropWhile_or (p := isWhitespace) h with hw | h
  · exact .inl hw
  · rcases mem_dropWhile_or (p := isWhitespace) (List.mem_reverse.mpr h)
      with hw | h
    · exact .inl hw
    · exact .inr (List.mem_reverse.mpr h)

theorem mem_of_mem_trim {t : Text} {c : Char} (h : c ∈ trim t) : c ∈ t := by
  unfold trim trimEnd trimStart at h
  have h := (List.dropWhile_sublist _).subset (List.mem_reverse.mp h)
  exact (List.dropWhile_sublist _).subset (List.mem_reverse.mp h)

/-- `trim_matches(q)` loses nothing but `q`. -/
theorem mem_trimMatches_or {q : Char} {t : Text} {c : Char} (h : c ∈ t) :
    c = q ∨ c ∈ trimMatches q t := by
  unfold trimMatches trimEndMatches
  rcases mem_dropWhile_or (p := (· == q)) h with hq | h
  · exact .inl (by simpa using hq)
  · rcases mem_dropWhile_or (p := (· == q)) (List.mem_reverse.mpr h)
      with hq | h
    · exact .inl (by simpa using hq)
    · exact .inr (List.mem_reverse.mpr h)

theorem mem_of_mem_trimEndMatches {q : Char} {t : Text} {c : Char}
    (h : c ∈ trimEndMatches q t) : c ∈ t := by
  unfold trimEndMatches at h
  exact List.mem_reverse.mp
    ((List.dropWhile_sublist _).subset (List.mem_reverse.mp h))

theorem mem_of_mem_trimMatches {q : Char} {t : Text} {c : Char}
    (h : c ∈ trimMatches q t) : c ∈ t := by
  unfold trimMatches at h
  exact (List.dropWhile_sublist _).subset (mem_of_mem_trimEndMatches h)

theorem trimStart_append {w : Text} (hw : ∀ c ∈ w, isWhitespace c = true)
    (t : Text) : trim (w ++ t) = trim t := by
  unfold trim trimStart
  rw [List.dropWhile_append_of_pos hw]

/-- White space is trimmed with or without `trim_matches`. -/
theorem trim_trimMatches {q : Char} (hq : isWhitespace q = true) (t : Text) :
    trim (trimMatches q t) = trim t := by
  have hpre : ∀ c ∈ t.takeWhile (· == q), isWhitespace c = true := by
    intro c hc
    rw [beq_iff_eq.mp (List.mem_takeWhile_imp (p := (· == q)) hc)]
    exact hq
  have hpost : ∀ c ∈ ((t.dropWhile (· == q)).reverse.takeWhile
      (· == q)).reverse, isWhitespace c = true := by
    intro c hc
    rw [beq_iff_eq.mp (List.mem_takeWhile_imp (p := (· == q))
      (List.mem_reverse.mp hc))]
    exact hq
  have hcut : t = t.takeWhile (· == q) ++ (trimMatches q t
      ++ ((t.dropWhile (· == q)).reverse.takeWhile (· == q)).reverse) := by
    unfold trimMatches trimEndMatches
    rw [← List.reverse_append, List.takeWhile_append_dropWhile,
      List.reverse_reverse, List.takeWhile_append_dropWhile]
  conv_rhs => rw [hcut, trimStart_append hpre, trim_append hpost]

/-- Trimmed, a text does not end in white space. -/
theorem trimEnd_getLast? {t : Text} {c : Char}
    (h : (trimEnd t).getLast? = some c) : isWhitespace c = false := by
  unfold trimEnd at h
  rw [List.getLast?_reverse] at h
  cases hd : t.reverse.dropWhile isWhitespace with
  | nil =>
      rw [hd] at h
      cases h
  | cons d u =>
      rw [hd] at h
      cases h
      simpa [hd] using List.head_dropWhile_not isWhitespace (l := t.reverse)
        (by simp [hd])

theorem trimMatches_eq {q : Char} {t : Text} (hfirst : t.head? ≠ some q)
    (hlast : t.getLast? ≠ some q) : trimMatches q t = t := by
  have hdrop : ∀ u : Text, u.head? ≠ some q → u.dropWhile (· == q) = u := by
    intro u hu
    cases u with
    | nil => rfl
    | cons c u =>
        refine List.dropWhile_cons_of_neg ?_
        rw [beq_iff_eq]
        intro hc
        subst hc
        exact hu rfl
  unfold trimMatches trimEndMatches
  rw [hdrop t hfirst, hdrop t.reverse (by rwa [List.head?_reverse]),
    List.reverse_reverse]

-- =========================================================== splitting

/-- `split(p)`: the pieces between the separators, empty ones too. -/
def splitOn (sep : Char → Bool) : Text → List Text
  | [] => [[]]
  | c :: cs =>
      if sep c then [] :: splitOn sep cs
      else match splitOn sep cs with
        | [] => [[c]]
        | w :: ws => (c :: w) :: ws

/-- Every character is a separator or in a piece. -/
theorem mem_splitOn (sep : Char → Bool) {t : Text} {c : Char} (h : c ∈ t) :
    sep c = true ∨ ∃ w ∈ splitOn sep t, c ∈ w := by
  induction t with
  | nil => cases h
  | cons d t ih =>
      rw [splitOn]
      cases hd : sep d with
      | true =>
          rw [if_pos rfl]
          rcases List.mem_cons.mp h with rfl | h
          · exact .inl hd
          · rcases ih h with hs | ⟨w, hw, hc⟩
            · exact .inl hs
            · exact .inr ⟨w, List.mem_cons_of_mem _ hw, hc⟩
      | false =>
          rw [if_neg Bool.false_ne_true]
          cases hsp : splitOn sep t with
          | nil =>
              rcases List.mem_cons.mp h with rfl | h
              · exact .inr ⟨[c], List.mem_cons_self .., by simp⟩
              · rcases ih h with hs | ⟨w, hw, -⟩
                · exact .inl hs
                · rw [hsp] at hw
                  cases hw
          | cons w ws =>
              rcases List.mem_cons.mp h with rfl | h
              · exact .inr ⟨c :: w, List.mem_cons_self ..,
                  List.mem_cons_self ..⟩
              · rcases ih h with hs | ⟨v, hv, hc⟩
                · exact .inl hs
                · rw [hsp] at hv
                  rcases List.mem_cons.mp hv with rfl | hv
                  · exact .inr ⟨d :: v, List.mem_cons_self ..,
                      List.mem_cons_of_mem d hc⟩
                  · exact .inr ⟨v, List.mem_cons_of_mem _ hv, hc⟩

/-- A piece is spelt with the text's characters. -/
theorem mem_of_mem_splitOn {sep : Char → Bool} {t w : Text} {c : Char}
    (hw : w ∈ splitOn sep t) (hc : c ∈ w) : c ∈ t := by
  induction t generalizing w with
  | nil =>
      rw [splitOn, List.mem_singleton] at hw
      subst hw
      exact hc
  | cons d t ih =>
      rw [splitOn] at hw
      split at hw
      · rcases List.mem_cons.mp hw with rfl | hw
        · cases hc
        · exact List.mem_cons_of_mem d (ih hw hc)
      · split at hw
        · rw [List.mem_singleton] at hw
          subst hw
          exact List.mem_singleton.mp hc ▸ List.mem_cons_self ..
        · next v vs hsp =>
            rcases List.mem_cons.mp hw with rfl | hw
            · rcases List.mem_cons.mp hc with rfl | hc
              · exact List.mem_cons_self ..
              · refine List.mem_cons_of_mem d (ih ?_ hc)
                rw [hsp]
                exact List.mem_cons_self ..
            · refine List.mem_cons_of_mem d (ih ?_ hc)
              rw [hsp]
              exact List.mem_cons_of_mem v hw

/-- `splitOn` is the list library's. -/
theorem splitOn_eq (sep : Char → Bool) (t : Text) :
    splitOn sep t = List.splitOnP sep t := by
  induction t with
  | nil => rfl
  | cons c t ih =>
      rw [List.splitOnP_cons_eq_if_modifyHead, splitOn, ih]
      split
      · rfl
      · cases h : List.splitOnP sep t with
        | nil => exact absurd h (List.splitOnP_ne_nil sep t)
        | cons w ws => rfl

theorem splitOn_ne_nil (sep : Char → Bool) (t : Text) :
    splitOn sep t ≠ [] := by
  rw [splitOn_eq]
  exact List.splitOnP_ne_nil sep t

theorem splitOn_cons_sep {sep : Char → Bool} {c : Char}
    (hc : sep c = true) (t : Text) :
    splitOn sep (c :: t) = [] :: splitOn sep t := by
  rw [splitOn, if_pos hc]

/-- Other than a separator joins the first piece. -/
theorem splitOn_cons {sep : Char → Bool} {c : Char} (hc : sep c = false)
    {t w : Text} {ws : List Text} (h : splitOn sep t = w :: ws) :
    splitOn sep (c :: t) = (c :: w) :: ws := by
  rw [splitOn, if_neg (by simp [hc]), h]

/-- A separator parts the pieces on its two sides. -/
theorem splitOn_append_cons {sep : Char → Bool} {c : Char}
    (hc : sep c = true) (t u : Text) :
    splitOn sep (t ++ c :: u) = splitOn sep t ++ splitOn sep u := by
  rw [splitOn_eq, splitOn_eq, splitOn_eq, List.splitOnP_append_cons t u hc]

/-- A text without separators is one piece, -/
theorem splitOn_of_not_sep {sep : Char → Bool} {t : Text}
    (h : ∀ c ∈ t, sep c = false) : splitOn sep t = [t] := by
  induction t with
  | nil => rfl
  | cons c t ih =>
      exact splitOn_cons (h c (List.mem_cons_self ..))
        (ih fun d hd => h d (List.mem_cons_of_mem c hd))

/-- one piece is the text, -/
theorem eq_of_splitOn {sep : Char → Bool} {t w : Text}
    (h : splitOn sep t = [w]) : t = w := by
  induction t generalizing w with
  | nil =>
      cases h
      rfl
  | cons c t ih =>
      rw [splitOn] at h
      split at h
      · injection h with _ h
        exact absurd h (splitOn_ne_nil sep t)
      · split at h
        · next hsp => exact absurd hsp (splitOn_ne_nil sep t)
        · next v vs hsp =>
            cases h
            rw [ih hsp]

/-- and of two, a separator stands behind the first. -/
theorem splitOn_eq_cons {sep : Char → Bool} {t w w' : Text}
    {ws : List Text} (h : splitOn sep t = w :: w' :: ws) :
    ∃ c u, sep c = true ∧ t = w ++ c :: u ∧ splitOn sep u = w' :: ws := by
  induction t generalizing w with
  | nil => cases h
  | cons d t ih =>
      rw [splitOn] at h
      split at h
      · next hd =>
          injection h with hw h
          exact ⟨d, t, hd, hw ▸ rfl, h⟩
      · split at h
        · cases h
        · next v vs hsp =>
            injection h with hw h
            rw [h] at hsp
            obtain ⟨c, u, hc, ht, hu⟩ := ih hsp
            exact ⟨c, u, hc, by rw [ht, ← hw]; rfl, hu⟩

/-- No separator is in a piece. -/
theorem sep_of_mem_splitOn {sep : Char → Bool} {t w : Text} {c : Char}
    (hw : w ∈ splitOn sep t) (hc : c ∈ w) : sep c = false := by
  induction t generalizing w with
  | nil =>
      rw [splitOn, List.mem_singleton] at hw
      subst hw
      cases hc
  | cons d t ih =>
      rw [splitOn] at hw
      split at hw
      · rcases List.mem_cons.mp hw with rfl | hw
        · cases hc
        · exact ih hw hc
      · next hd =>
          split at hw
          · next hsp => exact absurd hsp (splitOn_ne_nil sep t)
          · next v vs hsp =>
              rw [hsp] at ih
              rcases List.mem_cons.mp hw with rfl | hw
              · rcases List.mem_cons.mp hc with rfl | hc
                · exact Bool.eq_false_iff.mpr hd
                · exact ih (List.mem_cons_self ..) hc
              · exact ih (List.mem_cons_of_mem v hw) hc

/-- Joining undoes splitting, -/
theorem intercalate_splitOn (c : Char) (t : Text) :
    [c].intercalate (splitOn (· == c) t) = t := by
  rw [splitOn_eq]
  exact List.intercalate_splitOn c

/-- and splitting undoes joining. -/
theorem splitOn_intercalate {c : Char} {ws : List Text} (hne : ws ≠ [])
    (h : ∀ w ∈ ws, c ∉ w) :
    splitOn (· == c) ([c].intercalate ws) = ws := by
  rw [splitOn_eq]
  exact List.splitOn_intercalate c h hne

/-- Leaving out other than separators is piecewise. -/
theorem splitOn_filter {sep p : Char → Bool}
    (h : ∀ c, sep c = true → p c = true) (t : Text) :
    splitOn sep (t.filter p) = (splitOn sep t).map (List.filter p) := by
  induction t with
  | nil => rfl
  | cons c t ih =>
      rw [splitOn]
      by_cases hsep : sep c = true
      · rw [if_pos hsep, List.filter_cons_of_pos (h c hsep), splitOn,
          if_pos hsep, ih]
        rfl
      · rw [if_neg hsep]
        cases hsp : splitOn sep t with
        | nil => exact absurd hsp (splitOn_ne_nil sep t)
        | cons w ws =>
            rw [hsp] at ih
            by_cases hp : p c = true
            · rw [List.filter_cons_of_pos hp, splitOn, if_neg hsep, ih]
              show (c :: w.filter p) :: ws.map (List.filter p) = _
              rw [List.map_cons, List.filter_cons_of_pos hp]
            · rw [List.filter_cons_of_neg hp, ih, List.map_cons,
                List.map_cons, List.filter_cons_of_neg hp]

/-- A character more at the end is one more in the last piece. -/
theorem splitOn_concat {sep : Char → Bool} {c : Char} (hc : sep c = false)
    (t : Text) : ∃ ws w, splitOn sep t = ws ++ [w]
      ∧ splitOn sep (t ++ [c]) = ws ++ [w ++ [c]] := by
  induction t with
  | nil => exact ⟨[], [], rfl, by simp [splitOn, hc]⟩
  | cons d t ih =>
      obtain ⟨ws, w, ht, htc⟩ := ih
      rw [List.cons_append, splitOn, splitOn, ht, htc]
      by_cases hd : sep d = true
      · rw [if_pos hd, if_pos hd]
        exact ⟨[] :: ws, w, rfl, rfl⟩
      · rw [if_neg hd, if_neg hd]
        cases ws with
        | nil => exact ⟨[], d :: w, rfl, rfl⟩
        | cons v vs => exact ⟨(d :: v) :: vs, w, rfl, rfl⟩

/-- `split(sep).next()`: what stands before the first separator. -/
def before (sep : Char) (t : Text) : Text := t.takeWhile (· ≠ sep)

theorem before_eq {sep : Char} {t : Text} (h : sep ∉ t) :
    before sep t = t := by
  unfold before
  rw [List.takeWhile_eq_self_iff]
  intro c hc
  simpa using fun he : c = sep => h (he ▸ hc)

theorem before_cons {sep c : Char} (h : c ≠ sep) (t : Text) :
    before sep (c :: t) = c :: before sep t :=
  List.takeWhile_cons_of_pos (by simpa using h)

@[simp] theorem before_cons_self (sep : Char) (t : Text) :
    before sep (sep :: t) = [] := List.takeWhile_cons_of_neg (by simp)

theorem before_append_of_not_mem {sep : Char} {t : Text} (h : sep ∉ t)
    (u : Text) : before sep (t ++ u) = t ++ before sep u := by
  unfold before
  refine List.takeWhile_append_of_pos fun c hc => ?_
  simpa using fun he : c = sep => h (he ▸ hc)

theorem before_append_of_mem {sep : Char} {t : Text} (h : sep ∈ t)
    (u : Text) : before sep (t ++ u) = before sep t := by
  induction t with
  | nil => cases h
  | cons c t ih =>
      rw [List.cons_append]
      by_cases hc : c = sep
      · subst hc
        rw [before_cons_self, before_cons_self]
      · rw [before_cons hc, before_cons hc,
          ih ((List.mem_cons.mp h).resolve_left (Ne.symm hc))]

theorem before_append_sep {sep : Char} (t u : Text) :
    before sep (t ++ sep :: u) = before sep t := by
  by_cases h : sep ∈ t
  · exact before_append_of_mem h _
  · rw [before_append_of_not_mem h, before_eq h, before_cons_self,
      List.append_nil]

theorem not_mem_before (sep : Char) (t : Text) : sep ∉ before sep t := by
  intro h
  simpa using List.mem_takeWhile_imp (p := (· ≠ sep)) h

theorem before_isPrefix (sep : Char) (t : Text) : before sep t <+: t :=
  List.takeWhile_prefix _

/-- What stands behind the last separator. -/
def behind (sep : Char) (t : Text) : Text := (before sep t.reverse).reverse

theorem behind_suffix (sep : Char) (t : Text) : behind sep t <:+ t := by
  unfold behind
  rw [← List.reverse_prefix, List.reverse_reverse]
  exact before_isPrefix sep _

theorem behind_append_of_not_mem {sep : Char} {u : Text} (h : sep ∉ u)
    (t : Text) : behind sep (t ++ u) = behind sep t ++ u := by
  unfold behind
  rw [List.reverse_append, before_append_of_not_mem (by simpa using h),
    List.reverse_append, List.reverse_reverse]

theorem behind_append_of_mem {sep : Char} {u : Text} (h : sep ∈ u)
    (t : Text) : behind sep (t ++ u) = behind sep u := by
  unfold behind
  rw [List.reverse_append, before_append_of_mem (by simpa using h)]

/-- The last separator, and what is behind it. -/
theorem eq_behind {sep : Char} {t : Text} (h : sep ∈ t) :
    ∃ u, t = u ++ sep :: behind sep t := by
  obtain ⟨as, bs, heq, hnot⟩ :=
    List.eq_append_cons_of_mem (List.mem_reverse.mpr h)
  have hbehind : behind sep t = as.reverse := by
    unfold behind
    rw [heq, before_append_sep, before_eq hnot]
  refine ⟨bs.reverse, ?_⟩
  rw [hbehind, ← List.reverse_inj, heq]
  simp

theorem not_mem_behind (sep : Char) (t : Text) : sep ∉ behind sep t := by
  unfold behind
  rw [List.mem_reverse]
  exact not_mem_before sep _

theorem behind_eq {sep : Char} {t : Text} (h : sep ∉ t) :
    behind sep t = t := by
  unfold behind
  rw [before_eq (by simpa using h), List.reverse_reverse]

theorem splitOn_of_not_mem {sep : Char} {t : Text} (h : sep ∉ t) :
    splitOn (· == sep) t = [t] :=
  splitOn_of_not_sep fun c hc => by
    simpa using fun he : c = sep => h (he ▸ hc)

/-- The first piece ends at the first separator. -/
theorem splitOn_eq_before (sep : Char) (t : Text) :
    splitOn (· == sep) t = before sep t :: (splitOn (· == sep) t).tail := by
  induction t with
  | nil => rfl
  | cons c t ih =>
      by_cases hc : c = sep
      · subst hc
        rw [splitOn_cons_sep (by simp), before_cons_self]
        rfl
      · rw [splitOn_cons (by simpa using hc) ih, before_cons hc]
        rfl

/-- A piece is a part of the text. -/
theorem infix_of_mem_splitOn {sep : Char} {t w : Text}
    (h : w ∈ splitOn (· == sep) t) : w <:+: t := by
  induction t with
  | nil =>
      rw [splitOn, List.mem_singleton] at h
      exact h ▸ List.nil_infix
  | cons c t ih =>
      by_cases hc : c = sep
      · rw [splitOn_cons_sep (by simpa using hc)] at h
        rcases List.mem_cons.mp h with rfl | h
        · exact List.nil_infix
        · exact List.infix_cons (ih h)
      · rw [splitOn_cons (by simpa using hc) (splitOn_eq_before sep t)] at h
        rcases List.mem_cons.mp h with rfl | h
        · exact (List.cons_prefix_cons.mpr
            ⟨rfl, before_isPrefix sep t⟩).isInfix
        · refine List.infix_cons (ih ?_)
          rw [splitOn_eq_before]
          exact List.mem_cons_of_mem _ h

theorem splitOn_append_of_not_mem {sep : Char} {t : Text} (h : sep ∉ t)
    (u : Text) : splitOn (· == sep) (t ++ u)
      = (t ++ before sep u) :: (splitOn (· == sep) u).tail := by
  induction t with
  | nil => exact splitOn_eq_before sep u
  | cons c t ih =>
      have hc : c ≠ sep := fun hc => h (hc ▸ List.mem_cons_self)
      exact splitOn_cons (by simpa using hc)
        (ih fun hm => h (List.mem_cons_of_mem c hm))

/-- The pieces of two texts: one of them goes over the seam. -/
theorem splitOn_append (sep : Char) (t u : Text) :
    splitOn (· == sep) (t ++ u) = (splitOn (· == sep) t).dropLast
      ++ (behind sep t ++ before sep u) :: (splitOn (· == sep) u).tail := by
  by_cases h : sep ∈ t
  · obtain ⟨v, hv⟩ := eq_behind h
    have hlast := splitOn_of_not_mem (not_mem_behind sep t)
    conv_lhs => rw [hv]
    conv_rhs => rw [hv]
    rw [List.append_assoc, List.cons_append,
      splitOn_append_cons (by simp), splitOn_append_cons (by simp), ← hv,
      hlast, List.dropLast_concat,
      splitOn_append_of_not_mem (not_mem_behind sep t)]
  · rw [splitOn_append_of_not_mem h, splitOn_of_not_mem h, behind_eq h]
    rfl

/-- `split_once(sep)`: what stands before and behind the first
separator. -/
def splitOnce (sep : Char) : Text → Option (Text × Text)
  | [] => none
  | c :: cs =>
      if c = sep then some ([], cs)
      else (splitOnce sep cs).map fun r => (c :: r.1, r.2)

/-- `split_once(pat)` for a non-empty string pattern. -/
def splitOnceStr (pat : Text) : Text → Option (Text × Text)
  | [] => none
  | c :: cs =>
      if pat.isPrefixOf (c :: cs) then some ([], (c :: cs).drop pat.length)
      else (splitOnceStr pat cs).map fun r => (c :: r.1, r.2)

theorem mem_of_splitOnceStr {pat t a b : Text} {c : Char}
    (h : splitOnceStr pat t = some (a, b)) (hc : c ∈ b) : c ∈ t := by
  induction t generalizing a with
  | nil => cases h
  | cons d t ih =>
      rw [splitOnceStr] at h
      split at h
      · cases h
        exact List.mem_of_mem_drop hc
      · obtain ⟨r, hr, he⟩ := Option.map_eq_some_iff.mp h
        cases he
        exact List.mem_cons_of_mem d (ih hr)

theorem splitOnceStr_eq (pat t : Text) :
    splitOnceStr pat t = (position pat t).map fun k =>
      (t.take k, t.drop (k + pat.length)) := by
  induction t with
  | nil => rfl
  | cons c t ih =>
      rw [splitOnceStr, position]
      split
      · simp
      · rw [ih, Option.map_map, Option.map_map]
        refine congrArg (Option.map · _) (funext fun k => ?_)
        simp [Nat.add_right_comm]

/-- What the pattern stands between. -/
theorem eq_of_splitOnceStr {pat t a b : Text}
    (h : splitOnceStr pat t = some (a, b)) : t = a ++ (pat ++ b) := by
  rw [splitOnceStr_eq] at h
  obtain ⟨k, hk, heq⟩ := Option.map_eq_some_iff.mp h
  obtain ⟨⟨rest, hrest⟩, -⟩ := position_eq_some hk
  injection heq with ha hb
  rw [← ha, ← hb, ← List.drop_drop, ← hrest, List.drop_left, hrest,
    List.take_append_drop]

theorem splitOnceStr_eq_none {pat t : Text} (hne : pat ≠ []) :
    splitOnceStr pat t = none ↔ ∀ k, ¬At pat t k := by
  rw [splitOnceStr_eq, Option.map_eq_none_iff, position_eq_none hne]

/-- A pattern that is at one place only splits there. -/
theorem splitOnceStr_unique {pat a b : Text} (hne : pat ≠ [])
    (h : ∀ k, At pat (a ++ (pat ++ b)) k → k = a.length) :
    splitOnceStr pat (a ++ (pat ++ b)) = some (a, b) := by
  have hat : At pat (a ++ (pat ++ b)) a.length := by
    unfold Lib.At
    rw [List.drop_left]
    exact List.prefix_append pat b
  rw [splitOnceStr_eq, position_first hne hat fun k hk hat =>
    absurd (h k hat) (Nat.ne_of_lt hk)]
  rw [Option.map_some, List.take_left, ← List.drop_drop, List.drop_left,
    List.drop_left]

/-- What comes behind does not move the first place. -/
theorem splitOnceStr_append {pat t a b : Text} (hne : pat ≠ [])
    (h : splitOnceStr pat t = some (a, b)) (u : Text) :
    splitOnceStr pat (t ++ u) = some (a, b ++ u) := by
  rw [splitOnceStr_eq] at h
  obtain ⟨k, hk, hab⟩ := Option.map_eq_some_iff.mp h
  obtain ⟨hat, hfirst⟩ := position_eq_some hk
  have hle := hat.le hne
  have hpos : position pat (t ++ u) = some k := by
    refine position_first hne ((Lib.at_append_left hle).mpr hat) ?_
    intro j hj hat
    exact hfirst j hj ((Lib.at_append_left (by omega)).mp hat)
  injection hab with ha hb
  rw [splitOnceStr_eq, hpos, Option.map_some,
    List.take_append_of_le_length (by omega),
    List.drop_append_of_le_length hle, ha, hb]

theorem splitOnce_append {sep : Char} {t : Text} (h : sep ∉ t) (u : Text) :
    splitOnce sep (t ++ sep :: u) = some (t, u) := by
  induction t with
  | nil => exact if_pos rfl
  | cons c t ih =>
      have hc : c ≠ sep := fun hc => h (hc ▸ List.mem_cons_self)
      rw [List.cons_append, splitOnce, if_neg hc,
        ih fun hm => h (List.mem_cons_of_mem c hm)]
      rfl

theorem splitOnce_eq_none {sep : Char} {t : Text} (h : sep ∉ t) :
    splitOnce sep t = none := by
  induction t with
  | nil => rfl
  | cons c t ih =>
      have hc : c ≠ sep := fun hc => h (hc ▸ List.mem_cons_self)
      rw [splitOnce, if_neg hc, ih fun hm => h (List.mem_cons_of_mem c hm)]
      rfl

/-- The word being read, and the rest of the text. -/
def splitWhitespaceGo : Text → Text → List Text
  | word, [] => if word.isEmpty then [] else [word]
  | word, c :: cs =>
      if isWhitespace c then
        if word.isEmpty then splitWhitespaceGo [] cs
        else word :: splitWhitespaceGo [] cs
      else splitWhitespaceGo (word ++ [c]) cs

def splitWhitespace (t : Text) : List Text := splitWhitespaceGo [] t

/-- A run of other than white space joins the word being read. -/
theorem splitWhitespaceGo_append {w : Text}
    (hw : ∀ c ∈ w, isWhitespace c = false) (word t : Text) :
    splitWhitespaceGo word (w ++ t) = splitWhitespaceGo (word ++ w) t := by
  induction w generalizing word with
  | nil => rw [List.append_nil, List.nil_append]
  | cons c w ih =>
      rw [List.cons_append, splitWhitespaceGo,
        if_neg (by simp [hw c (List.mem_cons_self ..)]),
        ih fun d hd => hw d (List.mem_cons_of_mem c hd), List.append_assoc]
      rfl

/-- What `split_whitespace` comes to first. -/
def firstWord (t : Text) : Text :=
  (t.dropWhile isWhitespace).takeWhile (!isWhitespace ·)

theorem splitWhitespaceGo_head {word : Text} (h : word ≠ []) (t : Text) :
    (splitWhitespaceGo word t).head?
      = some (word ++ t.takeWhile (!isWhitespace ·)) := by
  induction t generalizing word with
  | nil => simp [splitWhitespaceGo, h]
  | cons c t ih =>
      rw [splitWhitespaceGo]
      by_cases hc : isWhitespace c = true
      · rw [if_pos hc, if_neg (by simp [h])]
        simp [hc]
      · rw [if_neg hc, ih (by simp)]
        simp [hc]

theorem splitWhitespace_head (t : Text) :
    (splitWhitespace t).head?.getD [] = firstWord t := by
  unfold splitWhitespace firstWord
  induction t with
  | nil => rfl
  | cons c t ih =>
      rw [splitWhitespaceGo]
      by_cases hc : isWhitespace c = true
      · rw [if_pos hc, if_pos List.isEmpty_nil, List.dropWhile_cons_of_pos hc,
          ih]
      · rw [if_neg hc, List.nil_append, List.dropWhile_cons_of_neg hc,
          splitWhitespaceGo_head (List.cons_ne_nil c []),
          List.takeWhile_cons_of_pos (by simpa using hc)]
        rfl

theorem firstWord_append {w : Text} (hw : ∀ c ∈ w, isWhitespace c = true)
    (t : Text) : firstWord (t ++ w) = firstWord t := by
  have hnil : w.dropWhile isWhitespace = [] :=
    List.dropWhile_eq_nil_iff.mpr hw
  have hstop : w.takeWhile (!isWhitespace ·) = [] := by
    cases w with
    | nil => rfl
    | cons c w =>
        exact List.takeWhile_cons_of_neg (by
          simp [hw c (List.mem_cons_self ..)])
  unfold firstWord
  rw [List.dropWhile_append]
  split
  · next h => rw [hnil, List.isEmpty_iff.mp h]
  · rw [List.takeWhile_append]
    split
    · next h =>
        rw [hstop, List.append_nil]
        exact (List.IsPrefix.eq_of_length (List.takeWhile_prefix _) h).symm
    · rfl

/-- The first word does not depend on trimming. -/
@[simp] theorem firstWord_trim (t : Text) :
    firstWord (trim t) = firstWord t := by
  obtain ⟨w, hw, heq⟩ := eq_trimEnd_append (trimStart t)
  have hstart : firstWord (trimStart t) = firstWord t := by
    unfold firstWord trimStart
    rw [List.dropWhile_idempotent]
  rw [← hstart, heq, firstWord_append hw]
  rfl

theorem firstWord_head? (t : Text) :
    (firstWord t).head? = (t.dropWhile isWhitespace).head? := by
  unfold firstWord
  cases h : t.dropWhile isWhitespace with
  | nil => rfl
  | cons c u =>
      have hc : isWhitespace c = false := by
        simpa [h] using List.head_dropWhile_not isWhitespace (l := t)
          (by simp [h])
      rw [List.takeWhile_cons_of_pos (by simp [hc])]
      rfl

/-- Trimmed, a text starts with its first word. -/
theorem trim_head? (t : Text) : (trim t).head? = (firstWord t).head? := by
  rw [firstWord_head?]
  unfold trim trimStart
  cases h : t.dropWhile isWhitespace with
  | nil => rfl
  | cons c u =>
      have hc : isWhitespace c = false := by
        simpa [h] using List.head_dropWhile_not isWhitespace (l := t)
          (by simp [h])
      have htrim := trimEnd_append_cons hc [] u
      rw [List.nil_append, List.nil_append] at htrim
      rw [htrim]
      rfl

/-- Trimmed, a text has no white space to match at its ends. -/
theorem trimMatches_trim {q : Char} (hq : isWhitespace q = true) (t : Text) :
    trimMatches q (trim t) = trim t := by
  refine trimMatches_eq (fun h => ?_) (fun h => ?_)
  · rw [trim_head?] at h
    have hws := List.mem_takeWhile_imp (List.mem_of_mem_head? h)
    simp [hq] at hws
  · rw [trimEnd_getLast? h] at hq
    cases hq

@[simp] theorem trim_trim (t : Text) : trim (trim t) = trim t := by
  refine trim_eq (fun c hc => ?_) (fun c hc => trimEnd_getLast? hc)
  rw [trim_head?] at hc
  simpa using List.mem_takeWhile_imp (List.mem_of_mem_head? hc)

theorem firstWord_append_head? {t u : Text} {c : Char}
    (h : (firstWord (t ++ u)).head? = some c) :
    c ∈ t ∨ (firstWord u).head? = some c := by
  rw [firstWord_head?, List.dropWhile_append] at h
  split at h
  · exact .inr ((firstWord_head? u).trans h)
  · next hne =>
      refine .inl ((List.dropWhile_sublist isWhitespace).subset ?_)
      refine List.mem_of_mem_head? (?_ : (t.dropWhile isWhitespace).head? = _)
      cases hd : t.dropWhile isWhitespace with
      | nil => simp [hd] at hne
      | cons d v =>
          rw [hd] at h
          exact h

theorem firstWord_eq {w : Text} (hne : w ≠ [])
    (hw : ∀ c ∈ w, isWhitespace c = false) {t : Text}
    (ht : ∀ c, t.head? = some c → isWhitespace c = true) :
    firstWord (w ++ t) = w := by
  have hstop : t.takeWhile (!isWhitespace ·) = [] := by
    cases t with
    | nil => rfl
    | cons c t => exact List.takeWhile_cons_of_neg (by simp [ht c rfl])
  have hdrop : (w ++ t).dropWhile isWhitespace = w ++ t := by
    obtain ⟨c, w, rfl⟩ := List.exists_cons_of_ne_nil hne
    exact List.dropWhile_cons_of_neg (by
      simp [hw c (List.mem_cons_self ..)])
  unfold firstWord
  rw [hdrop, List.takeWhile_append_of_pos fun c hc => by simp [hw c hc],
    hstop, List.append_nil]

theorem isWhitespace_of_mem_firstWord {t : Text} {c : Char}
    (h : c ∈ firstWord t) : isWhitespace c = false := by
  simpa using List.mem_takeWhile_imp h

-- ============================================================== lines

def stripCr (line : Text) : Text :=
  if line.getLast? = some '\r' then line.dropLast else line

/-- The line being read, and the rest of the text. -/
def linesGo : Text → Text → List Text
  | line, [] => if line.isEmpty then [] else [line]
  | line, c :: cs =>
      if c = '\n' then stripCr line :: linesGo [] cs
      else linesGo (line ++ [c]) cs

/-- `str::lines`. -/
def lines (t : Text) : List Text := linesGo [] t

/-- Text whose next line starts afresh: nothing, or a line feed at the
end. -/
def Terminated (t : Text) : Prop := t = [] ∨ t.getLast? = some '\n'

instance (t : Text) : Decidable (Terminated t) :=
  inferInstanceAs (Decidable (_ ∨ _))

theorem linesGo_append_newline (line t u : Text) :
    linesGo line (t ++ '\n' :: u) = linesGo line (t ++ ['\n']) ++ lines u := by
  induction t generalizing line with
  | nil => rfl
  | cons c t ih =>
      rw [List.cons_append, List.cons_append, linesGo, linesGo]
      split
      · rw [ih, List.cons_append]
      · exact ih _

/-- Behind terminated text the lines are counted afresh. -/
theorem lines_append {t : Text} (h : Terminated t) (u : Text) :
    lines (t ++ u) = lines t ++ lines u := by
  rcases h with rfl | h
  · rfl
  · obtain ⟨m, rfl⟩ := List.getLast?_eq_some_iff.mp h
    rw [List.append_assoc]
    exact linesGo_append_newline [] m u

/-- A line up to its line feed. -/
theorem linesGo_line {l : Text} (hl : '\n' ∉ l) (line u : Text) :
    linesGo line (l ++ '\n' :: u) = stripCr (line ++ l) :: lines u := by
  induction l generalizing line with
  | nil => rw [List.append_nil]; rfl
  | cons c l ih =>
      have hc : c ≠ '\n' := fun hc => hl (hc ▸ List.mem_cons_self ..)
      rw [List.cons_append, linesGo, if_neg hc,
        ih fun hm => hl (List.mem_cons_of_mem c hm), List.append_assoc]
      rfl

/-- Behind terminated text comes one line, and terminated text again. -/
theorem lines_append_line {t l : Text} (h : Terminated t)
    (hl : '\n' ∉ l) (hcr : l.getLast? ≠ some '\r') :
    lines (t ++ (l ++ ['\n'])) = lines t ++ [l]
      ∧ Terminated (t ++ (l ++ ['\n'])) := by
  refine ⟨?_, .inr (by simp [← List.append_assoc])⟩
  have hgo : lines (l ++ ['\n']) = [stripCr l] := linesGo_line hl [] []
  rw [lines_append h, hgo, stripCr, if_neg hcr]

/-- What a reader makes of the lines of a text, it makes of its pieces
between the line feeds, if carriage returns and empty lines are nothing
to it. -/
theorem filterMap_lines {α : Type} {read : Text → Option α}
    (hnil : read [] = none) (hcr : ∀ l, read (stripCr l) = read l)
    (t : Text) :
    (lines t).filterMap read
      = (splitOn (· == '\n') t).filterMap read := by
  suffices h : ∀ line w ws, splitOn (· == '\n') t = w :: ws →
      (linesGo line t).filterMap read
        = ((line ++ w) :: ws).filterMap read by
    cases hsp : splitOn (· == '\n') t with
    | nil => exact absurd hsp (splitOn_ne_nil _ t)
    | cons w ws => exact h [] w ws hsp
  induction t with
  | nil =>
      intro line w ws hsp
      cases hsp
      rw [List.append_nil, linesGo]
      cases line with
      | nil => simp [hnil]
      | cons c line => rfl
  | cons c t ih =>
      intro line w ws hsp
      rw [splitOn] at hsp
      rw [linesGo]
      by_cases hc : c = '\n'
      · rw [if_pos (by simpa using hc)] at hsp
        cases hsp
        rw [if_pos hc, List.append_nil, List.filterMap_cons,
          List.filterMap_cons, hcr]
        cases hsp : splitOn (· == '\n') t with
        | nil => exact absurd hsp (splitOn_ne_nil _ t)
        | cons w ws => rw [ih [] w ws hsp, List.nil_append]
      · rw [if_neg (by simpa using hc)] at hsp
        rw [if_neg hc]
        cases hsp' : splitOn (· == '\n') t with
        | nil => exact absurd hsp' (splitOn_ne_nil _ t)
        | cons v vs =>
            rw [hsp'] at hsp
            cases hsp
            rw [ih (line ++ [c]) v _ hsp', List.append_assoc]
            rfl

-- ============================================================ numbers

def isDigit (c : Char) : Bool := '0' ≤ c && c ≤ '9'

/-- The value of a non-empty string of ASCII digits. -/
def parseDigits (t : Text) : Option Nat :=
  if t.isEmpty then none
  else if t.all isDigit then
    some (t.foldl (fun acc c => acc * 10 + (c.toNat - '0'.toNat)) 0)
  else none

/-- `parse::<i32>`. -/
def parseI32 (t : Text) : Option Int :=
  match t with
  | '-' :: ds =>
      (parseDigits ds).bind fun n =>
        if n ≤ 2 ^ 31 then some (-(n : Int)) else none
  | '+' :: ds =>
      (parseDigits ds).bind fun n => if n < 2 ^ 31 then some (n : Int) else none
  | ds =>
      (parseDigits ds).bind fun n => if n < 2 ^ 31 then some (n : Int) else none

/-- `parse::<u64>`. -/
def parseU64 (t : Text) : Option Nat :=
  let ds := match t with
    | '+' :: ds => ds
    | ds => ds
  (parseDigits ds).bind fun n => if n < 2 ^ 64 then some n else none

/-- `parse::<u16>`. -/
def parseU16 (t : Text) : Option Nat :=
  (parseU64 t).bind fun n => if n < 2 ^ 16 then some n else none

/-- `{}` of an integer. -/
def showInt (n : Int) : Text := (toString n).toList

/-- One octet of a dotted address: at most three digits, no leading
zero, at most 255. -/
def parseOctet (t : Text) : Option Nat :=
  if t.length ≤ 3 ∧ (t.length = 1 ∨ t.head? ≠ some '0') then
    (parseDigits t).bind fun n => if n ≤ 255 then some n else none
  else none

/-- `parse::<Ipv4Addr>`. -/
def parseIpv4Addr (t : Text) : Option (List Nat) :=
  match splitOn (· == '.') t with
  | [a, b, c, d] => [a, b, c, d].mapM parseOctet
  | _ => none

theorem parseDigits_all {t : Text} {n : Nat} (h : parseDigits t = some n) :
    ∀ c ∈ t, isDigit c = true := by
  unfold parseDigits at h
  split at h
  · cases h
  · split at h
    · next hall => exact List.all_eq_true.mp hall
    · cases h

theorem parseOctet_all {t : Text} {n : Nat} (h : parseOctet t = some n) :
    ∀ c ∈ t, isDigit c = true := by
  unfold parseOctet at h
  split at h
  · obtain ⟨m, hm, -⟩ := Option.bind_eq_some_iff.mp h
    exact parseDigits_all hm
  · cases h

/-- An address is spelt with digits and dots. -/
theorem parseIpv4Addr_chars {t : Text} {o : List Nat}
    (h : parseIpv4Addr t = some o) :
    ∀ c ∈ t, isDigit c = true ∨ c = '.' := by
  unfold parseIpv4Addr at h
  split at h
  · next a b c d hsp =>
      intro x hx
      rcases mem_splitOn (· == '.') hx with hs | ⟨w, hw, hxw⟩
      · exact .inr (by simpa using hs)
      · rw [hsp] at hw
        simp only [List.mapM_cons, List.mapM_nil, Option.bind_eq_bind,
          Option.bind_eq_some_iff] at h
        obtain ⟨na, ha, _, ⟨nb, hb, _, ⟨nc, hc, _, ⟨nd, hd, _⟩, _⟩, _⟩, _⟩ := h
        refine .inl ?_
        simp only [List.mem_cons, List.not_mem_nil, or_false] at hw
        rcases hw with rfl | rfl | rfl | rfl
        · exact parseOctet_all ha x hxw
        · exact parseOctet_all hb x hxw
        · exact parseOctet_all hc x hxw
        · exact parseOctet_all hd x hxw
  · cases h

theorem parseIpv4Addr_ne_nil {t : Text} {o : List Nat}
    (h : parseIpv4Addr t = some o) : t ≠ [] := by
  intro h
  subst h
  cases h

-- =============================================================== case

def isLower (c : Char) : Bool := 'a' ≤ c && c ≤ 'z'

def isUpper (c : Char) : Bool := 'A' ≤ c && c ≤ 'Z'

def isAlpha (c : Char) : Bool := isLower c || isUpper c

def isAlnum (c : Char) : Bool := isAlpha c || isDigit c

def toAsciiLowercase (t : Text) : Text :=
  t.map fun c => if isUpper c then Char.ofNat (c.toNat + 32) else c

def eqIgnoreAsciiCase (t u : Text) : Bool :=
  toAsciiLowercase t == toAsciiLowercase u

end Text

-- ============================================================== files

/-- What `read_to_string` finds: no file, text, or bytes it refuses. -/
inductive FileContent where
  | missing
  | text (t : Text)
  | binary
  deriving DecidableEq, Repr

/-- The lines a reader of the file goes through. -/
def FileContent.lines : FileContent → List Text
  | .text t => Text.lines t
  | _ => []

end Wrtg
