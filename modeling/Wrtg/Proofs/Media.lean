/-
When the `Host` header is all that is replaced (`media.rs`).

`rewritten` is the purpose: of the lines behind the request line, the
first that is named `Host` gets the new value. The scan looks for the
header in the whole buffer, before a line break first, and takes its
value to end at any carriage return. `Faithful` says when that makes no
difference; what was replaced once stays in any case.
-/
import Mathlib.Data.List.DropRight
import Wrtg.Media

namespace Wrtg.Media

open Lib

-- ========================================================= the purpose

/-- The header section, up to its empty line, and the body. -/
def splitHeaders (data : Bytes) : Option (Bytes × Bytes) :=
  (position [0x0D, 0x0A, 0x0D, 0x0A] data).map fun i =>
    (data.take (i + 4), data.drop (i + 4))

/-- The lines, each with its line feed. -/
def lines : Bytes → List Bytes
  | [] => []
  | b :: bs =>
      if b = 0x0A then [b] :: lines bs
      else match lines bs with
        | [] => [[b]]
        | l :: ls => (b :: l) :: ls

def isHostLine (line : Bytes) : Bool :=
  HOST.isPrefixOf (line.map toAsciiLowercase)

def lineEnding (line : Bytes) : Bytes :=
  if [0x0D, 0x0A].isSuffixOf line then [0x0D, 0x0A] else [0x0A]

/-- A space and the new host between the colon and the line's end. -/
def setHost (newHost line : Bytes) : Bytes :=
  line.take 5 ++ 0x20 :: newHost ++ lineEnding line

def setFirstHost (newHost : Bytes) : List Bytes → Option (List Bytes)
  | [] => none
  | l :: ls =>
      if isHostLine l then some (setHost newHost l :: ls)
      else (setFirstHost newHost ls).map (l :: ·)

/-- The input with its first `Host` line set, if it has one. -/
def rewritten (head body newHost : Bytes) : Option Bytes :=
  match lines head with
  | [] => none
  | request :: headers =>
      (setFirstHost newHost headers).map fun headers =>
        request ++ headers.flatten ++ body

-- =========================================================== the bytes

/-- Only a letter has another lower case. -/
theorem toAsciiLowercase_eq {b c : UInt8} (hc : ¬ (0x61 ≤ c ∧ c ≤ 0x7A))
    (h : toAsciiLowercase b = c) : b = c := by
  unfold toAsciiLowercase at h
  split at h
  · next hb =>
      subst h
      rw [UInt8.le_iff_toNat_le, UInt8.le_iff_toNat_le] at hb hc
      rw [UInt8.toNat_add] at hc
      have h0 : (0x41 : UInt8).toNat = 0x41 := rfl
      have h1 : (0x5A : UInt8).toNat = 0x5A := rfl
      have h2 : (0x61 : UInt8).toNat = 0x61 := rfl
      have h3 : (0x7A : UInt8).toNat = 0x7A := rfl
      have h4 : (0x20 : UInt8).toNat = 0x20 := rfl
      omega
  · exact h

/-- A header starts with four letters and a colon. -/
theorem host_cons {bs : Bytes} (h : HOST <+: bs.map toAsciiLowercase) :
    ∃ name tail, bs = name ++ 0x3A :: tail ∧ name.length = 4
      ∧ (name ++ [0x3A]).map toAsciiLowercase = HOST
      ∧ ∀ b ∈ name, b ≠ 0x3A ∧ b ≠ 0x0A ∧ b ≠ 0x0D := by
  have hlen := h.length_le
  rw [List.length_map] at hlen
  obtain ⟨b0, b1, b2, b3, b4, tail, rfl⟩ : ∃ b0 b1 b2 b3 b4 tail,
      bs = b0 :: b1 :: b2 :: b3 :: b4 :: tail := by
    match bs with
    | [] | [_] | [_, _] | [_, _, _] | [_, _, _, _] =>
        exact absurd hlen (by simp [HOST])
    | b0 :: b1 :: b2 :: b3 :: b4 :: tail =>
        exact ⟨b0, b1, b2, b3, b4, tail, rfl⟩
  simp only [HOST, List.map_cons, List.cons_prefix_cons] at h
  obtain ⟨h0, h1, h2, h3, h4, -⟩ := h
  cases toAsciiLowercase_eq (by decide) h4.symm
  refine ⟨[b0, b1, b2, b3], tail, rfl, rfl, ?_, ?_⟩
  · simp [HOST, ← h0, ← h1, ← h2, ← h3]
    decide
  · intro b hb
    have hlow : toAsciiLowercase b ∈ [0x68, 0x6F, 0x73, 0x74] := by
      simp only [List.mem_cons, List.not_mem_nil, or_false] at hb ⊢
      rcases hb with rfl | rfl | rfl | rfl
      · exact .inl h0.symm
      · exact .inr (.inl h1.symm)
      · exact .inr (.inr (.inl h2.symm))
      · exact .inr (.inr (.inr h3.symm))
    refine ⟨?_, ?_, ?_⟩
    · intro h
      subst h
      exact absurd hlow (by decide)
    · intro h
      subst h
      exact absurd hlow (by decide)
    · intro h
      subst h
      exact absurd hlow (by decide)

-- ========================================================== the lines

/-- A line with its line feed. -/
def Ended (l : Bytes) : Prop := ∃ t, l = t ++ [0x0A] ∧ (0x0A : UInt8) ∉ t

theorem lines_flatten (bs : Bytes) : (lines bs).flatten = bs := by
  induction bs with
  | nil => rfl
  | cons b bs ih =>
      rw [lines]
      split
      · rw [List.flatten_cons, ih]
        rfl
      · split
        · next hnil =>
            rw [hnil] at ih
            rw [← ih]
            rfl
        · next hcons =>
            rw [hcons, List.flatten_cons] at ih
            rw [List.flatten_cons, List.cons_append, ih]

/-- Every line is ended, if the last is. -/
theorem lines_ended {bs : Bytes} (h : ∀ b ∈ bs.getLast?, b = 0x0A) :
    ∀ l ∈ lines bs, Ended l := by
  induction bs with
  | nil => exact nofun
  | cons b bs ih =>
      rw [lines]
      cases bs with
      | nil =>
          cases h b rfl
          intro l hl
          cases List.mem_singleton.mp hl
          exact ⟨[], rfl, nofun⟩
      | cons c cs =>
          rw [List.getLast?_cons_cons] at h
          have ih := ih h
          split
          · next hb =>
              subst hb
              intro l hl
              rcases List.mem_cons.mp hl with rfl | hl
              · exact ⟨[], rfl, nofun⟩
              · exact ih l hl
          · next hb =>
              split
              · next hnil =>
                  have hflat := lines_flatten (c :: cs)
                  rw [hnil] at hflat
                  cases hflat
              · next l ls hcons =>
                  rw [hcons] at ih
                  intro m hm
                  rcases List.mem_cons.mp hm with rfl | hm
                  · obtain ⟨t, rfl, ht⟩ := ih l (List.mem_cons_self ..)
                    refine ⟨b :: t, rfl, fun hmem => ?_⟩
                    rcases List.mem_cons.mp hmem with heq | hmem
                    · exact hb heq.symm
                    · exact ht hmem
                  · exact ih m (List.mem_cons_of_mem _ hm)

/-- The lower-cased copy has its line ends where the bytes have. -/
theorem get_lower {c : UInt8} (hc : ¬ (0x61 ≤ c ∧ c ≤ 0x7A)) {bs : Bytes}
    {k : Nat} (h : (bs.map toAsciiLowercase)[k]? = some c) :
    bs[k]? = some c := by
  rw [List.getElem?_map] at h
  obtain ⟨b, hb, heq⟩ := Option.map_eq_some_iff.mp h
  cases toAsciiLowercase_eq hc heq
  exact hb

/-- Where a header can start behind a line: at the next line. -/
theorem at_line {t : Bytes} (ht : (0x0A : UInt8) ∉ t) (X : Bytes) (j : Nat) :
    At LF_HOST ((t ++ [0x0A] ++ X).map toAsciiLowercase) j
      ↔ j = t.length ∧ HOST <+: X.map toAsciiLowercase
        ∨ ∃ i, j = (t ++ [0x0A]).length + i
          ∧ At LF_HOST (X.map toAsciiLowercase) i := by
  have hlf : toAsciiLowercase 0x0A = 0x0A := by decide
  have hnext : At LF_HOST ((t ++ [0x0A] ++ X).map toAsciiLowercase) t.length
      ↔ HOST <+: X.map toAsciiLowercase := by
    unfold At
    rw [← List.map_drop, List.append_assoc, List.drop_left, List.map_append,
      List.map_singleton, hlf, List.singleton_append]
    exact List.prefix_cons_inj 0x0A
  constructor
  · intro hat
    rcases Nat.lt_trichotomy j t.length with hlt | rfl | hlt
    · have hget := get_lower (by decide) (hat.get (i := 0) (by decide))
      rw [Nat.add_zero, List.append_assoc,
        List.getElem?_append_left hlt] at hget
      exact absurd (List.mem_of_getElem? hget) ht
    · exact .inl ⟨rfl, hnext.mp hat⟩
    · obtain ⟨i, rfl⟩ := Nat.exists_eq_add_of_lt hlt
      refine .inr ⟨i, by rw [List.length_append, List.length_singleton]; omega,
        ?_⟩
      rw [List.map_append, show t.length + i + 1
        = ((t ++ [0x0A]).map toAsciiLowercase).length + i by
          rw [List.length_map, List.length_append, List.length_singleton]
          omega] at hat
      exact at_append_right.mp hat
  · intro h
    rcases h with ⟨rfl, hhost⟩ | ⟨i, rfl, hat⟩
    · exact hnext.mpr hhost
    · rw [List.map_append, ← List.length_map toAsciiLowercase]
      exact at_append_right.mpr hat

/-- A header does not go on behind its line. -/
theorem isHostLine_append {l : Bytes} (h : Ended l) (X : Bytes) :
    HOST <+: (l ++ X).map toAsciiLowercase ↔ isHostLine l = true := by
  unfold isHostLine
  rw [List.isPrefixOf_iff_prefix, List.map_append]
  constructor
  · intro hhost
    refine List.prefix_of_prefix_length_le hhost (List.prefix_append ..) ?_
    obtain ⟨t, rfl, ht⟩ := h
    rw [List.length_map, List.length_append, List.length_singleton]
    by_contra hshort
    have hlt : t.length < HOST.length := by omega
    rw [← List.map_append] at hhost
    have hget := At.get (k := 0) hhost hlt
    have hlf : ((t ++ [0x0A] ++ X).map toAsciiLowercase)[0 + t.length]?
        = some 0x0A := by
      rw [List.getElem?_map, Nat.zero_add, List.append_assoc,
        List.getElem?_append_right (Nat.le_refl _), Nat.sub_self]
      rfl
    exact absurd (List.mem_of_getElem? (hget.symm.trans hlf)) (by decide)
  · exact fun hhost => hhost.trans (List.prefix_append ..)

/-- The first header line is set, and no header starts before it. -/
theorem setFirstHost_spec (newHost : Bytes) {r : Bytes} (hr : Ended r)
    {ls : List Bytes} (hls : ∀ l ∈ ls, Ended l) :
    (setFirstHost newHost ls = none
      ∧ ∀ j, ¬ At LF_HOST ((r ++ ls.flatten).map toAsciiLowercase) j)
    ∨ ∃ before l after, ls = before ++ l :: after ∧ isHostLine l = true
      ∧ setFirstHost newHost ls = some (before ++ setHost newHost l :: after)
      ∧ ∀ j, j + 1 < (r ++ before.flatten).length →
        ¬ At LF_HOST ((r ++ ls.flatten).map toAsciiLowercase) j := by
  obtain ⟨t, rfl, ht⟩ := hr
  induction ls generalizing t with
  | nil =>
      refine .inl ⟨rfl, fun j hat => ?_⟩
      rcases (at_line ht _ j).mp hat with ⟨-, hhost⟩ | ⟨i, -, hat⟩
      · exact absurd hhost.length_le (by decide)
      · exact absurd (hat.le (by decide)) (by simp [LF_HOST])
  | cons l ls ih =>
      have hl := hls l (List.mem_cons_self ..)
      have hrest := fun m hm => hls m (List.mem_cons_of_mem l hm)
      have hhost := isHostLine_append hl ls.flatten
      have hstart := at_line ht (l :: ls).flatten
      rw [setFirstHost]
      rw [List.flatten_cons] at hstart ⊢
      by_cases his : isHostLine l = true
      · rw [if_pos his]
        refine .inr ⟨[], l, ls, rfl, his, rfl, fun j hj hat => ?_⟩
        rw [List.flatten_nil, List.append_nil, List.length_append,
          List.length_singleton] at hj
        rcases (hstart j).mp hat with ⟨rfl, -⟩ | ⟨i, rfl, -⟩
        · omega
        · rw [List.length_append, List.length_singleton] at hj
          omega
      · rw [if_neg his]
        obtain ⟨u, rfl, hu⟩ := hl
        have hno : ∀ j, At LF_HOST ((t ++ [0x0A] ++ (u ++ [0x0A]
            ++ ls.flatten)).map toAsciiLowercase) j →
            ∃ i, j = (t ++ [0x0A]).length + i ∧ At LF_HOST
              ((u ++ [0x0A] ++ ls.flatten).map toAsciiLowercase) i := by
          intro j hat
          rcases (hstart j).mp hat with ⟨-, hh⟩ | hlater
          · exact absurd (hhost.mp hh) his
          · exact hlater
        rcases ih hrest u hu with ⟨hnone, hall⟩ |
          ⟨before, m, after, rfl, hm, hset, hall⟩
        · refine .inl ⟨by rw [hnone]; rfl, fun j hat => ?_⟩
          obtain ⟨i, -, hi⟩ := hno j hat
          exact hall i hi
        · refine .inr ⟨(u ++ [0x0A]) :: before, m, after, rfl, hm,
            by rw [hset]; rfl, fun j hj hat => ?_⟩
          obtain ⟨i, rfl, hi⟩ := hno j hat
          refine hall i ?_ hi
          rw [List.flatten_cons] at hj
          simp only [List.length_append] at hj ⊢
          omega

/-- The first header line of a header section, cut at its colon and at
its end. -/
structure FirstHost (head : Bytes) where
  pre : Bytes
  name : Bytes
  value : Bytes
  ending : Bytes
  post : Bytes
  eq : head = pre ++ 0x0A :: (name ++ (value ++ (ending ++ post)))
  name_eq : name.map toAsciiLowercase = HOST
  value_line : (0x0A : UInt8) ∉ value
  ending_eq : ending = [0x0A] ∧ value.getLast? ≠ some 0x0D
    ∨ ending = [0x0D, 0x0A]
  first : ∀ j < pre.length, ¬ At LF_HOST (head.map toAsciiLowercase) j

/-- Ended lines end with a line feed. -/
theorem ended_flatten {r : Bytes} (hr : Ended r) {ls : List Bytes}
    (hls : ∀ l ∈ ls, Ended l) : ∃ pre, r ++ ls.flatten = pre ++ [0x0A] := by
  induction ls generalizing r with
  | nil =>
      obtain ⟨t, rfl, -⟩ := hr
      exact ⟨t, List.append_nil _⟩
  | cons l ls ih =>
      obtain ⟨pre, hpre⟩ := ih (hls l (List.mem_cons_self ..))
        fun m hm => hls m (List.mem_cons_of_mem l hm)
      refine ⟨r ++ pre, ?_⟩
      rw [List.flatten_cons, hpre, List.append_assoc]

/-- A header line, cut at its colon and at its end. -/
theorem setHost_eq {l : Bytes} (hl : Ended l) (his : isHostLine l = true) :
    ∃ name value ending, l = name ++ (value ++ ending)
      ∧ name.map toAsciiLowercase = HOST ∧ (0x0A : UInt8) ∉ value
      ∧ (ending = [0x0A] ∧ value.getLast? ≠ some 0x0D
        ∨ ending = [0x0D, 0x0A])
      ∧ ∀ newHost, setHost newHost l = name ++ (0x20 :: newHost ++ ending) := by
  obtain ⟨name, tail, hcons, hlen, hname, -⟩ :=
    host_cons (List.isPrefixOf_iff_prefix.mp his)
  obtain ⟨t, ht, hline⟩ := hl
  have hsplit : l = (name ++ [0x3A]) ++ tail := by
    rw [hcons, List.append_assoc]
    rfl
  have htake : l.take 5 = name ++ [0x3A] := by
    rw [hsplit, List.take_left' (by rw [List.length_append, hlen]; rfl)]
  obtain ⟨w, rfl⟩ : ∃ w, tail = w ++ [0x0A] := by
    rcases List.eq_nil_or_concat tail with rfl | ⟨w, b, rfl⟩
    · have hlast := congrArg List.getLast? (ht.symm.trans hsplit)
      rw [List.append_nil, List.getLast?_concat, List.getLast?_concat] at hlast
      cases hlast
    · have hlast := congrArg List.getLast? (ht.symm.trans hsplit)
      rw [List.concat_eq_append, ← List.append_assoc, List.getLast?_concat,
        List.getLast?_concat] at hlast
      cases hlast
      exact ⟨w, List.concat_eq_append⟩
  have hw : (0x0A : UInt8) ∉ w := by
    have hinit : t = (name ++ [0x3A]) ++ w := by
      rw [ht, ← List.append_assoc] at hsplit
      exact List.append_cancel_right hsplit
    intro hmem
    exact hline (hinit ▸ List.mem_append_right _ hmem)
  by_cases hcr : w.getLast? = some 0x0D
  · obtain ⟨v, rfl⟩ := List.getLast?_eq_some_iff.mp hcr
    have hl : l = (name ++ [0x3A]) ++ (v ++ [0x0D, 0x0A]) := by
      rw [hsplit, List.append_assoc v]
      rfl
    refine ⟨name ++ [0x3A], v, [0x0D, 0x0A], hl, hname, ?_, .inr rfl, ?_⟩
    · exact fun hmem => hw (List.mem_append_left _ hmem)
    · intro newHost
      have hsuffix : [0x0D, 0x0A] <:+ l :=
        ⟨name ++ [0x3A] ++ v, by rw [hl, ← List.append_assoc]⟩
      unfold setHost lineEnding
      rw [if_pos (List.isSuffixOf_iff_suffix.mpr hsuffix), htake,
        List.append_assoc]
  · refine ⟨name ++ [0x3A], w, [0x0A], hsplit, hname, hw, .inl ⟨rfl, hcr⟩, ?_⟩
    intro newHost
    have hsuffix : ¬ [0x0D, 0x0A] <:+ l := by
      intro h
      obtain ⟨s, hs⟩ := h
      rw [hsplit, ← List.append_assoc, show [(0x0D : UInt8), 0x0A]
        = [0x0D] ++ [0x0A] from rfl, ← List.append_assoc] at hs
      have hlast := congrArg List.getLast? (List.append_cancel_right hs)
      rw [List.getLast?_concat, List.getLast?_append] at hlast
      cases hwlast : w.getLast? with
      | none =>
          rw [hwlast, List.getLast?_concat] at hlast
          cases hlast
      | some b =>
          rw [hwlast] at hlast hcr
          exact hcr hlast.symm
    unfold setHost lineEnding
    rw [if_neg fun h => hsuffix (List.isSuffixOf_iff_suffix.mp h), htake,
      List.append_assoc]

/-- The purpose, on the bytes. -/
theorem rewritten_spec {head : Bytes} (hend : head.getLast? = some 0x0A)
    (body newHost : Bytes) :
    (rewritten head body newHost = none
      ∧ position LF_HOST (head.map toAsciiLowercase) = none)
    ∨ ∃ host : FirstHost head, rewritten head body newHost
      = some ((host.pre ++ 0x0A :: host.name)
        ++ (0x20 :: newHost ++ (host.ending ++ (host.post ++ body)))) := by
  have hended : ∀ l ∈ lines head, Ended l := by
    refine lines_ended fun b hb => ?_
    rw [hend] at hb
    exact (Option.some.inj hb).symm
  have hflat := lines_flatten head
  cases hlines : lines head with
  | nil =>
      rw [hlines] at hflat
      rw [← hflat] at hend
      cases hend
  | cons r ls =>
      have hred : rewritten head body newHost
          = (setFirstHost newHost ls).map fun headers =>
            r ++ headers.flatten ++ body := by
        unfold rewritten
        rw [hlines]
      rw [hlines] at hended hflat
      have hr := hended r (List.mem_cons_self ..)
      have hls := fun l hl => hended l (List.mem_cons_of_mem r hl)
      have hspec := setFirstHost_spec newHost hr hls
      rw [List.flatten_cons] at hflat
      rw [hflat] at hspec
      rcases hspec with ⟨hnone, hall⟩ | ⟨before, l, after, rfl, his, hset, hall⟩
      · rw [hnone] at hred
        exact .inl ⟨hred, (position_eq_none (by decide)).mpr hall⟩
      · have hl := hls l (List.mem_append_right _ (List.mem_cons_self ..))
        obtain ⟨pre, hpre⟩ := ended_flatten hr fun m hm =>
          hls m (List.mem_append_left (l :: after) hm)
        obtain ⟨name, value, ending, rfl, hname, hvalue, hending, hsetl⟩ :=
          setHost_eq hl his
        have hcut : ∀ m, r ++ (before ++ m :: after).flatten
            = pre ++ 0x0A :: (m ++ after.flatten) := by
          intro m
          rw [List.flatten_append, List.flatten_cons, ← List.append_assoc, hpre,
            List.append_assoc]
          rfl
        rw [hpre, List.length_append, List.length_singleton] at hall
        refine .inr ⟨⟨pre, name, value, ending, after.flatten, ?_, hname,
          hvalue, hending, fun j hj => hall j (by omega)⟩, ?_⟩
        · rw [← hflat, hcut]
          simp only [List.append_assoc]
        · rw [hred, hset, hsetl, Option.map_some, hcut]
          simp only [List.append_assoc, List.cons_append]

-- ============================================================ the scan

/-- The scan's line starts with a header. -/
theorem lineStart_host {data : Bytes} {start : Nat}
    (h : lineStart (data.map toAsciiLowercase) = some start) :
    HOST <+: (data.drop start).map toAsciiLowercase := by
  unfold lineStart at h
  rw [List.map_drop]
  split at h
  · next i hi =>
      cases h
      exact (position_eq_some hi).1.tail.tail
  · obtain ⟨i, hi, rfl⟩ := Option.map_eq_some_iff.mp h
    exact (position_eq_some hi).1.tail

/-- The new value for what is on a line up to a carriage return. -/
def putAt (data newHost : Bytes) (start : Nat) : Bytes :=
  data.take (start + 5) ++ (0x20 :: newHost
    ++ (data.drop (start + 5)).dropWhile (!isLineEnd ·))

/-- What the scan puts out. -/
theorem replaceHttpHost_eq (data newHost : Bytes) :
    replaceHttpHost data newHost
      = .ok ((lineStart (data.map toAsciiLowercase)).map
        (putAt data newHost)) := by
  unfold replaceHttpHost
  dsimp only
  cases hstart : lineStart (data.map toAsciiLowercase) with
  | none => rfl
  | some start =>
      obtain ⟨name, tail, hcons, hlen, -, hname⟩ :=
        host_cons (lineStart_host hstart)
      have hlong := congrArg List.length hcons
      rw [List.length_drop, List.length_append, List.length_cons, hlen] at hlong
      have hcolon : (data.drop start).findIdx? (· == 0x3A) = some 4 := by
        have hnone : name.findIdx? (· == 0x3A) = none :=
          List.findIdx?_eq_none_iff.mpr fun b hb =>
            beq_eq_false_iff_ne.mpr (hname b hb).1
        rw [hcons, List.findIdx?_append, hnone, hlen]
        rfl
      have htail : (data.drop start).drop (4 + 1) = tail := by
        rw [hcons, show name ++ 0x3A :: tail = (name ++ [0x3A]) ++ tail by
          rw [List.append_assoc]; rfl, List.drop_left' (by
            rw [List.length_append, hlen]; rfl)]
      have hend : (tail.takeWhile isBlank).length
          + ((tail.dropWhile isBlank).takeWhile (!isLineEnd ·)).length
          = (tail.takeWhile (!isLineEnd ·)).length := by
        rw [← takeWhile_blanks tail, List.length_append]
      have hfits := (List.takeWhile_prefix (!isLineEnd ·) (l := tail)).length_le
      have hrest := sliceFrom_ok (show start ≤ data.length by omega)
      simp only [hrest, bind, Except.bind, hcolon]
      have hdrop : ∀ n, (data.drop start).drop (4 + 1 + n) = tail.drop n := by
        intro n
        rw [← List.drop_drop, htail]
      rw [htail, hdrop, drop_takeWhile, Nat.add_assoc (4 + 1), hend,
        slice_ok (Nat.zero_le _) (show start ≤ data.length by omega),
        slice_ok (Nat.zero_le _) (by rw [List.length_drop]; omega),
        sliceFrom_ok (by rw [List.length_drop]; omega), hdrop, drop_takeWhile]
      have hbehind : data.drop (start + 5) = tail := by
        rw [← List.drop_drop]
        exact htail
      simp only [Option.map_some, putAt]
      rw [hbehind, List.take_add, List.append_assoc]
      rfl

theorem not_isLineEnd {b : UInt8} (hcr : b ≠ 0x0D) (hlf : b ≠ 0x0A) :
    (!isLineEnd b) = true := by
  unfold isLineEnd
  rw [beq_eq_false_iff_ne.mpr hcr, beq_eq_false_iff_ne.mpr hlf]
  rfl

/-- There is no line feed in a header's name. -/
theorem host_no_lf {data : Bytes} {j k : Nat}
    (hat : At LF_HOST (data.map toAsciiLowercase) j) (hj : j < k)
    (hk : k < j + 6) : data[k]? ≠ some 0x0A := by
  have hother : ∀ i < 6, 0 < i → LF_HOST[i]? ≠ some 0x0A := by decide
  have hsix : LF_HOST.length = 6 := rfl
  have hget := hat.get (show k - j < LF_HOST.length by omega)
  rw [Nat.add_sub_cancel' (Nat.le_of_lt hj), List.getElem?_map] at hget
  intro hlf
  rw [hlf] at hget
  exact hother (k - j) (by omega) (by omega) hget.symm

section Again

variable {data newHost : Bytes} {start : Nat}

theorem lineStart_le (h : lineStart (data.map toAsciiLowercase) = some start) :
    start + 5 ≤ data.length := by
  have hle := (lineStart_host h).length_le
  rw [List.length_map, List.length_drop] at hle
  have hfive : HOST.length = 5 := rfl
  omega

/-- What is before the new value is as it was. -/
theorem at_putAt (h : start + 5 ≤ data.length) (newHost : Bytes)
    {pat : Bytes} {k : Nat} (hk : k + pat.length ≤ start + 5) :
    At pat ((putAt data newHost start).map toAsciiLowercase) k
      ↔ At pat (data.map toAsciiLowercase) k := by
  have hlen : ((data.take (start + 5)).map toAsciiLowercase).length
      = start + 5 := by
    rw [List.length_map, List.length_take_of_le h]
  have hdata : data.map toAsciiLowercase
      = (data.take (start + 5)).map toAsciiLowercase
        ++ (data.drop (start + 5)).map toAsciiLowercase := by
    rw [← List.map_append, List.take_append_drop]
  unfold putAt
  rw [List.map_append, hdata, at_append_left (by omega),
    at_append_left (by omega)]

/-- No line break before a header is new. -/
theorem not_at_putAt (hcr : (0x0D : UInt8) ∉ newHost)
    (hlf : (0x0A : UInt8) ∉ newHost) {j : Nat} (hle : j + 1 + 5 ≤ data.length)
    (hj : position LF_HOST (data.map toAsciiLowercase) = some j)
    (hc : position CRLF_HOST (data.map toAsciiLowercase) = none) (k : Nat) :
    ¬ At CRLF_HOST ((putAt data newHost (j + 1)).map toAsciiLowercase) k := by
  have hno := (position_eq_none (by decide)).mp hc
  obtain ⟨hat, hfirst⟩ := position_eq_some hj
  have hseven : CRLF_HOST.length = 7 := rfl
  have hsix : LF_HOST.length = 6 := rfl
  intro hk
  have hlfk := hk.tail
  rcases Nat.lt_trichotomy (k + 1) j with hlt | heq | hlt
  · rw [at_putAt hle newHost (by omega)] at hlfk
    exact hfirst (k + 1) hlt hlfk
  · rw [at_putAt hle newHost (by omega)] at hk
    exact hno k hk
  -- the line feed is behind the header's own
  have hgetcr := get_lower (by decide) (hk.get (i := 0) (by decide))
  have hgetlf := get_lower (by decide) (hlfk.get (i := 0) (by decide))
  have hlen : (data.take (j + 1 + 5)).length = j + 1 + 5 :=
    List.length_take_of_le hle
  simp only [Nat.add_zero] at hgetcr hgetlf
  unfold putAt at hgetcr hgetlf hk
  by_cases hname : k + 1 < j + 1 + 5
  · -- in its name
    rw [List.getElem?_append_left (by omega), List.getElem?_take_of_lt hname]
      at hgetlf
    exact host_no_lf hat hlt (by omega) hgetlf
  by_cases hvalue : k + 1 < j + 1 + 5 + (0x20 :: newHost).length
  · -- in the new value
    rw [List.getElem?_append_right (by omega),
      List.getElem?_append_left (by omega)] at hgetlf
    rcases List.mem_cons.mp (List.mem_of_getElem? hgetlf) with h | h
    · cases h
    · exact hlf h
  have hpos : 0 < (0x20 :: newHost).length := Nat.succ_pos _
  by_cases hborder : k < j + 1 + 5 + (0x20 :: newHost).length
  · -- at its end
    rw [List.getElem?_append_right (by omega),
      List.getElem?_append_left (by omega)] at hgetcr
    rcases List.mem_cons.mp (List.mem_of_getElem? hgetcr) with h | h
    · cases h
    · exact hcr h
  · -- in what was kept
    have hkeep : data = (data.take (j + 1 + 5)
          ++ (data.drop (j + 1 + 5)).takeWhile (!isLineEnd ·))
        ++ (data.drop (j + 1 + 5)).dropWhile (!isLineEnd ·) := by
      rw [List.append_assoc, List.takeWhile_append_dropWhile,
        List.take_append_drop]
    obtain ⟨i, hi⟩ := Nat.exists_eq_add_of_le
      (show ((data.take (j + 1 + 5) ++ 0x20 :: newHost).map
        toAsciiLowercase).length ≤ k by
          rw [List.length_map, List.length_append]
          omega)
    rw [← List.append_assoc, List.map_append, hi] at hk
    rw [hkeep, List.map_append] at hno
    exact hno _ (at_append_right.mpr (at_append_right.mp hk))

/-- The line that was changed is found again. -/
theorem lineStart_putAt (hcr : (0x0D : UInt8) ∉ newHost)
    (hlf : (0x0A : UInt8) ∉ newHost)
    (h : lineStart (data.map toAsciiLowercase) = some start) :
    lineStart ((putAt data newHost start).map toAsciiLowercase)
      = some start := by
  have hle := lineStart_le h
  unfold lineStart at h
  cases hc : position CRLF_HOST (data.map toAsciiLowercase) with
  | some c =>
      rw [hc] at h
      cases h
      obtain ⟨hat, hfirst⟩ := position_eq_some hc
      have hagain : position CRLF_HOST
          ((putAt data newHost (c + 2)).map toAsciiLowercase) = some c := by
        refine position_first (by decide) ?_ fun j hj => ?_
        · exact (at_putAt hle newHost (by simp [CRLF_HOST, LF_HOST, HOST])).mpr
            hat
        · rw [at_putAt hle newHost (by simp [CRLF_HOST, LF_HOST, HOST]; omega)]
          exact hfirst j hj
      unfold lineStart
      rw [hagain]
  | none =>
      rw [hc] at h
      obtain ⟨j, hj, rfl⟩ := Option.map_eq_some_iff.mp h
      obtain ⟨hat, hfirst⟩ := position_eq_some hj
      have hagain : position LF_HOST
          ((putAt data newHost (j + 1)).map toAsciiLowercase) = some j := by
        refine position_first (by decide) ?_ fun i hi => ?_
        · exact (at_putAt hle newHost (by simp [LF_HOST, HOST])).mpr hat
        · rw [at_putAt hle newHost (by simp [LF_HOST, HOST]; omega)]
          exact hfirst i hi
      have hnone : position CRLF_HOST
          ((putAt data newHost (j + 1)).map toAsciiLowercase) = none := by
        exact (position_eq_none (by decide)).mpr
          (not_at_putAt hcr hlf hle hj hc)
      unfold lineStart
      rw [hnone, hagain]
      rfl

/-- What was replaced once stays. -/
theorem replaceHttpHost_again (hcr : (0x0D : UInt8) ∉ newHost)
    (hlf : (0x0A : UInt8) ∉ newHost) {out : Bytes}
    (h : replaceHttpHost data newHost = .ok (some out)) :
    replaceHttpHost out newHost = .ok (some out) := by
  rw [replaceHttpHost_eq] at h
  obtain ⟨start, hstart, rfl⟩ := Option.map_eq_some_iff.mp (Except.ok.inj h)
  have hlen : (data.take (start + 5)).length = start + 5 :=
    List.length_take_of_le (lineStart_le hstart)
  have hline : ∀ b ∈ 0x20 :: newHost, (!isLineEnd b) = true := by
    intro b hb
    rcases List.mem_cons.mp hb with rfl | hb
    · decide
    · exact not_isLineEnd (fun heq => hcr (heq ▸ hb)) fun heq => hlf (heq ▸ hb)
  rw [replaceHttpHost_eq, lineStart_putAt hcr hlf hstart, Option.map_some]
  congr 2
  conv_lhs => rw [putAt]
  unfold putAt
  rw [List.take_left' hlen, List.drop_left' hlen,
    List.dropWhile_append_of_pos hline, List.dropWhile_idempotent _ _]

end Again

-- ============================================================ faithful

/-- The text of a line, up to its line end. -/
def lineValue (bs : Bytes) : Bytes :=
  let text := bs.takeWhile (· != 0x0A)
  if text.getLast? = some 0x0D then text.dropLast else text

/-- The scan comes to the first header of the section and takes all of
its value, and to none if there is none: then there is no header in the
body either; else the first behind a line break, if any, is that one, and
its value has no carriage return. Two headers that both say the new host
already are as good. -/
def Faithful (head body newHost : Bytes) : Prop :=
  let lower := (head ++ body).map toAsciiLowercase
  match position LF_HOST (head.map toAsciiLowercase) with
  | none => position LF_HOST lower = none
  | some j =>
      let value := lineValue ((head ++ body).drop (j + 6))
      match position CRLF_HOST lower with
      | none => 0x0D ∉ value
      | some c =>
          c + 1 = j ∧ 0x0D ∉ value
          ∨ value = 0x20 :: newHost
            ∧ ((head ++ body).drop (c + 7)).takeWhile (!isLineEnd ·)
              = 0x20 :: newHost

theorem lineValue_append {v ending : Bytes} (hv : (0x0A : UInt8) ∉ v)
    (hending : ending = [0x0A] ∧ v.getLast? ≠ some 0x0D
      ∨ ending = [0x0D, 0x0A]) (rest : Bytes) :
    lineValue (v ++ (ending ++ rest)) = v := by
  have hvalue : ∀ b ∈ v, (b != 0x0A) = true :=
    fun b hb => bne_iff_ne.mpr fun heq => hv (heq ▸ hb)
  unfold lineValue
  rw [List.takeWhile_append_of_pos hvalue]
  rcases hending with ⟨rfl, hlast⟩ | rfl
  · have hnil : ([0x0A] ++ rest).takeWhile (· != 0x0A) = [] := rfl
    simp only [hnil, List.append_nil]
    rw [if_neg hlast]
  · have hcr : ([0x0D, 0x0A] ++ rest).takeWhile (· != 0x0A) = [0x0D] := rfl
    simp only [hcr]
    rw [if_pos List.getLast?_concat, List.dropLast_concat]

namespace FirstHost

variable {head : Bytes} (host : FirstHost head) (body : Bytes)

/-- The bytes, from the header's line feed on. -/
theorem data_eq : head ++ body = (host.pre ++ 0x0A :: host.name)
    ++ (host.value ++ (host.ending ++ (host.post ++ body))) := by
  conv_lhs => rw [host.eq]
  simp only [List.append_assoc, List.cons_append]

theorem name_length : host.name.length = 5 := by
  have hlen := congrArg List.length host.name_eq
  rw [List.length_map] at hlen
  exact hlen

theorem start_length :
    (host.pre ++ 0x0A :: host.name).length = host.pre.length + 6 := by
  rw [List.length_append, List.length_cons, host.name_length]

/-- It is the first header of all. -/
theorem position_eq : position LF_HOST ((head ++ body).map toAsciiLowercase)
    = some host.pre.length := by
  have hsix : LF_HOST.length = 6 := rfl
  refine position_first (by decide) ?_ fun j hj => ?_
  · have hlf : toAsciiLowercase 0x0A = 0x0A := by decide
    rw [host.data_eq, List.append_assoc, List.map_append,
      ← List.length_map toAsciiLowercase]
    refine at_append_right (k := 0).mpr ?_
    rw [List.cons_append, List.map_cons, hlf, List.map_append, host.name_eq]
    exact List.prefix_append ..
  · have hlen := congrArg List.length (host.data_eq [])
    rw [List.append_nil, List.length_append, host.start_length] at hlen
    rw [List.map_append, at_append_left (by rw [List.length_map]; omega)]
    exact host.first j hj

/-- A value without carriage return is cut where its line ends. -/
theorem dropWhile_eq :
    (host.value ++ (host.ending ++ (host.post ++ body))).dropWhile
        (!isLineEnd ·) = host.ending ++ (host.post ++ body)
      ↔ (0x0D : UInt8) ∉ host.value := by
  constructor
  · intro h hcr
    have hsplit := @List.takeWhile_append_dropWhile _ (!isLineEnd ·)
      (host.value ++ (host.ending ++ (host.post ++ body)))
    rw [h] at hsplit
    have htake := List.append_cancel_right hsplit
    rw [← htake] at hcr
    exact absurd (List.mem_takeWhile_imp hcr) (by decide)
  · intro hcr
    have hvalue : ∀ b ∈ host.value, (!isLineEnd b) = true := by
      intro b hb
      have hne : b ≠ 0x0D ∧ b ≠ 0x0A :=
        ⟨fun heq => hcr (heq ▸ hb), fun heq => host.value_line (heq ▸ hb)⟩
      exact not_isLineEnd hne.1 hne.2
    rw [List.dropWhile_append_of_pos hvalue]
    rcases host.ending_eq with ⟨hlf, -⟩ | hcrlf
    · rw [hlf]
      rfl
    · rw [hcrlf]
      rfl

/-- A header behind a line break is this one, or on a later line. -/
theorem later {c : Nat}
    (hc : position CRLF_HOST ((head ++ body).map toAsciiLowercase) = some c) :
    c + 1 = host.pre.length ∨ ∃ between name rest,
      host.post ++ body = between ++ (name ++ rest) ∧ name.length = 5
        ∧ c + 2 = (host.pre ++ 0x0A :: host.name).length + host.value.length
          + host.ending.length + between.length := by
  have hat := (position_eq_some hc).1
  have hlf := hat.tail
  have hget := get_lower (by decide) (hlf.get (i := 0) (by decide))
  have hstart := host.start_length
  have hfirst := (position_eq_some (host.position_eq body)).2
  rw [Nat.add_zero] at hget
  rcases Nat.lt_trichotomy (c + 1) host.pre.length with hlt | heq | hlt
  · exact absurd hlf (hfirst (c + 1) hlt)
  · exact .inl heq
  have hdata := host.data_eq body
  have hbehind : (host.pre ++ 0x0A :: host.name).length + host.value.length
      + host.ending.length ≤ c + 2 := by
    by_contra hno
    have hname := host_no_lf (position_eq_some (host.position_eq body)).1 hlt
    by_cases h1 : c + 1 < host.pre.length + 6
    · exact hname h1 hget
    rw [hdata, List.getElem?_append_right (by omega)] at hget
    by_cases h2 : c + 1 - (host.pre ++ 0x0A :: host.name).length
        < host.value.length
    · rw [List.getElem?_append_left h2] at hget
      exact host.value_line (List.mem_of_getElem? hget)
    rw [List.getElem?_append_right (by omega)] at hget
    rcases host.ending_eq with ⟨hend, -⟩ | hend
    · rw [hend, List.length_singleton] at hno
      omega
    · rw [hend, List.length_cons, List.length_singleton] at hno
      rw [hend, show c + 1 - (host.pre ++ 0x0A :: host.name).length
        - host.value.length = 0 by omega] at hget
      cases hget
  obtain ⟨z, hz⟩ := Nat.exists_eq_add_of_le hbehind
  have hdrop : (head ++ body).drop (c + 2) = (host.post ++ body).drop z := by
    rw [hdata, hz, ← List.append_assoc host.value, ← List.append_assoc,
      Nat.add_assoc (host.pre ++ 0x0A :: host.name).length,
      ← List.length_append, ← List.length_append, List.drop_length_add_append]
  have hhost : HOST <+: ((head ++ body).drop (c + 2)).map toAsciiLowercase := by
    rw [List.map_drop]
    exact hlf.tail
  obtain ⟨name, tail, hcons, hlen, -⟩ := host_cons hhost
  rw [hdrop] at hcons
  have hle := congrArg List.length hcons
  rw [List.length_drop, @List.length_append _ name, List.length_cons] at hle
  refine .inr ⟨(host.post ++ body).take z, name ++ [0x3A], tail, ?_, ?_, ?_⟩
  · rw [List.append_assoc, List.singleton_append, ← hcons,
      List.take_append_drop]
  · rw [List.length_append, hlen]
    rfl
  · rw [List.length_take_of_le (by omega)]
    exact hz

/-- Put in its line, the value is the purpose if it was cut where the
line ends. -/
theorem putAt_pre (newHost : Bytes) :
    putAt (head ++ body) newHost (host.pre.length + 1)
      = (host.pre ++ 0x0A :: host.name) ++ (0x20 :: newHost
        ++ (host.ending ++ (host.post ++ body)))
      ↔ (0x0D : UInt8) ∉ host.value := by
  have hstart := host.start_length
  rw [← host.dropWhile_eq body]
  unfold putAt
  rw [host.data_eq, List.take_left' hstart, List.drop_left' hstart,
    List.append_right_inj, List.append_right_inj]

/-- Put in a later line, the value is the purpose if both lines had it
already. -/
theorem putAt_later {newHost between name rest : Bytes} {start : Nat}
    (hcr : (0x0D : UInt8) ∉ newHost) (hlf : (0x0A : UInt8) ∉ newHost)
    (hpost : host.post ++ body = between ++ (name ++ rest))
    (hname : name.length = 5)
    (hstart : start = (host.pre ++ 0x0A :: host.name).length
      + host.value.length + host.ending.length + between.length) :
    (head ++ body).drop (start + 5) = rest
    ∧ (putAt (head ++ body) newHost start
        = (host.pre ++ 0x0A :: host.name) ++ (0x20 :: newHost
          ++ (host.ending ++ (host.post ++ body)))
      ↔ host.value = 0x20 :: newHost
        ∧ rest.takeWhile (!isLineEnd ·) = 0x20 :: newHost) := by
  have hdata := host.data_eq body
  rw [hpost] at hdata
  generalize host.pre ++ 0x0A :: host.name = front at hdata hstart ⊢
  have hcut : head ++ body
      = (front ++ (host.value ++ (host.ending ++ (between ++ name))))
        ++ rest := by
    rw [hdata]
    simp only [List.append_assoc]
  have hlen :
      (front ++ (host.value ++ (host.ending ++ (between ++ name)))).length
        = start + 5 := by
    simp only [List.length_append, hname]
    omega
  have hline : (0x0A : UInt8) ∉ 0x20 :: newHost := by
    intro h
    rcases h with _ | ⟨_, h⟩
    exact hlf h
  have hlast : (0x20 :: newHost).getLast? ≠ some 0x0D := by
    intro h
    rcases List.mem_cons.mp (List.mem_of_getLast? h) with h | h
    · cases h
    · exact hcr h
  have hending : host.ending = [0x0A] ∧ (0x20 :: newHost).getLast? ≠ some 0x0D
      ∨ host.ending = [0x0D, 0x0A] :=
    host.ending_eq.imp_left fun h => ⟨h.1, hlast⟩
  have hkeep := @List.takeWhile_append_dropWhile _ (!isLineEnd ·) rest
  refine ⟨by rw [hcut, List.drop_left' hlen], ?_⟩
  unfold putAt
  rw [hcut, List.take_left' hlen, List.drop_left' hlen, hpost,
    List.append_assoc, List.append_right_inj]
  simp only [List.append_assoc]
  constructor
  · intro h
    have hvalue := congrArg lineValue h
    rw [lineValue_append host.value_line host.ending_eq,
      lineValue_append hline hending] at hvalue
    rw [hvalue, List.append_right_inj, List.append_right_inj,
      List.append_right_inj, List.append_right_inj] at h
    exact ⟨hvalue, List.append_cancel_right (hkeep.trans h.symm)⟩
  · intro h
    obtain ⟨hvalue, hrest⟩ := h
    rw [hrest] at hkeep
    rw [hvalue, hkeep]

end FirstHost

/-- The section ends with its empty line. -/
theorem splitHeaders_eq {data head body : Bytes}
    (h : splitHeaders data = some (head, body)) :
    data = head ++ body ∧ head.getLast? = some 0x0A := by
  obtain ⟨i, hi, heq⟩ := Option.map_eq_some_iff.mp h
  obtain ⟨rfl, rfl⟩ := Prod.mk.inj heq
  obtain ⟨rest, hrest⟩ := (position_eq_some hi).1
  refine ⟨(List.take_append_drop ..).symm, ?_⟩
  have hfour : ([0x0D, 0x0A, 0x0D, 0x0A] ++ rest).take 4
      = [0x0D, 0x0A, 0x0D] ++ [0x0A] := rfl
  rw [List.take_add, ← hrest, hfour, ← List.append_assoc]
  exact List.getLast?_concat

/-- The header alone is replaced where the scan comes to it. -/
theorem replaceHttpHost_rewritten {head : Bytes}
    (hend : head.getLast? = some 0x0A) (body : Bytes) {newHost : Bytes}
    (hcr : (0x0D : UInt8) ∉ newHost) (hlf : (0x0A : UInt8) ∉ newHost) :
    replaceHttpHost (head ++ body) newHost
        = .ok (rewritten head body newHost)
      ↔ Faithful head body newHost := by
  rw [replaceHttpHost_eq, Except.ok.injEq]
  unfold Faithful
  rcases rewritten_spec hend body newHost with ⟨hnone, hno⟩ | ⟨host, hsome⟩
  · rw [hnone, hno, Option.map_eq_none_iff]
    unfold lineStart
    cases hc : position CRLF_HOST ((head ++ body).map toAsciiLowercase) with
    | none => exact Option.map_eq_none_iff
    | some c =>
        have hat := (position_eq_some hc).1.tail
        refine ⟨nofun, fun hlf => ?_⟩
        exact absurd hat ((position_eq_none (by decide)).mp hlf (c + 1))
  · have hpos := host.position_eq []
    rw [List.append_nil] at hpos
    have hvalue : lineValue ((head ++ body).drop (host.pre.length + 6))
        = host.value := by
      rw [host.data_eq, List.drop_left' host.start_length,
        lineValue_append host.value_line host.ending_eq]
    rw [hsome, hpos]
    simp only [hvalue]
    unfold lineStart
    cases hc : position CRLF_HOST ((head ++ body).map toAsciiLowercase) with
    | none =>
        rw [host.position_eq]
        simp only [Option.map_some, Option.some.injEq]
        exact host.putAt_pre body newHost
    | some c =>
        simp only [Option.map_some, Option.some.injEq]
        by_cases hpre : c + 1 = host.pre.length
        · rw [show c + 2 = host.pre.length + 1 by omega, host.putAt_pre]
          constructor
          · exact fun hvalue => .inl ⟨hpre, hvalue⟩
          · intro h
            rcases h with ⟨-, hvalue⟩ | ⟨hvalue, -⟩
            · exact hvalue
            · rw [hvalue]
              intro h
              rcases h with _ | ⟨_, hmem⟩
              exact hcr hmem
        · rcases host.later body hc with heq |
            ⟨between, name, rest, hpost, hname, hstart⟩
          · exact absurd heq hpre
          obtain ⟨hdrop, hput⟩ :=
            host.putAt_later body hcr hlf hpost hname hstart
          rw [hput, ← hdrop]
          constructor
          · exact .inr
          · intro h
            rcases h with ⟨heq, -⟩ | hboth
            · exact absurd heq hpre
            · exact hboth

/-- And what was replaced stays. -/
theorem replace_host_iff {data head body newHost : Bytes}
    (h : splitHeaders data = some (head, body))
    (hcr : (0x0D : UInt8) ∉ newHost) (hlf : (0x0A : UInt8) ∉ newHost) :
    (replaceHttpHost data newHost = .ok (rewritten head body newHost)
      ∧ ∀ out, replaceHttpHost data newHost = .ok (some out) →
        replaceHttpHost out newHost = .ok (some out))
      ↔ Faithful head body newHost := by
  obtain ⟨rfl, hend⟩ := splitHeaders_eq h
  rw [and_iff_left fun out hout => replaceHttpHost_again hcr hlf hout]
  exact replaceHttpHost_rewritten hend body hcr hlf

/-- A request of the source's tests. -/
def sampleHead : Bytes := Utf8.encode
  "POST /api HTTP/1.1\r\nHost: 149.154.175.211:80\r\n\r\n".toList

def sampleBody : Bytes := Utf8.encode "body".toList

def sampleHost : Bytes := Utf8.encode (mediaHttpHost 1)

theorem replace_host_sample :
    replaceHttpHost (sampleHead ++ sampleBody) sampleHost
        = .ok (rewritten sampleHead sampleBody sampleHost)
      ∧ ∀ out,
        replaceHttpHost (sampleHead ++ sampleBody) sampleHost
          = .ok (some out) →
        replaceHttpHost out sampleHost = .ok (some out) := by
  have hlf : position LF_HOST (sampleHead.map toAsciiLowercase) = some 19 := by
    decide +kernel
  have hcrlf : position CRLF_HOST
      ((sampleHead ++ sampleBody).map toAsciiLowercase) = some 18 := by
    decide +kernel
  refine (replace_host_iff (by decide +kernel) (by decide +kernel)
    (by decide +kernel)).mpr ?_
  unfold Faithful
  simp only [hlf, hcrlf]
  exact .inl ⟨trivial, by decide +kernel⟩

/-- A header in the body is replaced when the section has none, and when
the section's own is behind a bare line feed. -/
theorem replace_host_elsewhere :
    let bare := Utf8.encode "GET /\r\n\r\n".toList
    let mixed := Utf8.encode "GET /\nHost: a\r\n\r\n".toList
    let body := Utf8.encode "\r\nHost: a".toList
    (splitHeaders (bare ++ body) = some (bare, body)
      ∧ replaceHttpHost (bare ++ body) [0x62]
        = .ok (some (bare ++ Utf8.encode "\r\nHost: b".toList))
      ∧ rewritten bare body [0x62] = none)
    ∧ splitHeaders (mixed ++ body) = some (mixed, body)
      ∧ replaceHttpHost (mixed ++ body) [0x62]
        = .ok (some (mixed ++ Utf8.encode "\r\nHost: b".toList))
      ∧ rewritten mixed body [0x62]
        = some (Utf8.encode "GET /\nHost: b\r\n\r\n\r\nHost: a".toList) := by
  decide +kernel

-- =========================================================== the front

/-- Where the header is to be rewritten there is a host for it. -/
theorem httpFrontHost_ne_nil {learned : DcLearn.LearnMap} {origIp : Text}
    (h : needsHttpHostRewrite learned origIp = true) :
    httpFrontHost learned origIp 80 ≠ [] := by
  have hsome : ∃ dc isMedia,
      dcFromOrigDst learned origIp = some (dc, isMedia) := by
    unfold needsHttpHostRewrite at h
    split at h
    · next hcdn =>
        unfold isBlockedMediaCdn at hcdn
        unfold dcFromOrigDst Mtproto.dcFromHardcoded
        cases hentry : Mtproto.dcAltIps.lookup origIp with
        | none =>
            rw [hentry] at hcdn
            cases hcdn
        | some entry => exact ⟨entry.dc, entry.isMedia, rfl⟩
    · split at h
      · next dc isMedia heq => exact ⟨dc, isMedia, heq⟩
      · cases h
  obtain ⟨dc, isMedia, heq⟩ := hsome
  unfold httpFrontHost
  rw [if_neg (by decide), heq]
  cases isMedia <;> exact nofun

/-- The scan finds a header, and its text up to the first line end
character is not the new host behind a space. -/
def ReplacesHost (data newHost : Bytes) : Prop :=
  ∃ start, lineStart (data.map toAsciiLowercase) = some start
    ∧ (data.drop (start + 5)).takeWhile (!isLineEnd ·) ≠ 0x20 :: newHost

theorem putAt_eq_self (data newHost : Bytes) (start : Nat) :
    putAt data newHost start = data
      ↔ (data.drop (start + 5)).takeWhile (!isLineEnd ·)
        = 0x20 :: newHost := by
  have hdata : data = data.take (start + 5)
      ++ ((data.drop (start + 5)).takeWhile (!isLineEnd ·)
        ++ (data.drop (start + 5)).dropWhile (!isLineEnd ·)) := by
    rw [List.takeWhile_append_dropWhile, List.take_append_drop]
  constructor
  · intro h
    have h := h.trans hdata
    exact (List.append_cancel_right (List.append_cancel_left h)).symm
  · intro h
    rw [h] at hdata
    exact hdata.symm

/-- The bytes for the front: a rewriting on port 80, for media, of a
header that does not say the host yet. -/
theorem httpFrontPassthroughPayload_spec (learned : DcLearn.LearnMap)
    (data : Bytes) (origIp : Text) (origPort : Nat) :
    ∃ out, httpFrontPassthroughPayload learned data origIp origPort = .ok out
      ∧ (out = data ↔ ¬ (origPort = 80
          ∧ needsHttpHostRewrite learned origIp = true
          ∧ ReplacesHost data
            (Utf8.encode (httpFrontHost learned origIp origPort)))) := by
  unfold httpFrontPassthroughPayload
  by_cases hgo : origPort = 80 ∧ needsHttpHostRewrite learned origIp = true
  · obtain ⟨rfl, hneeds⟩ := hgo
    have hne := List.isEmpty_eq_false_iff.mpr (httpFrontHost_ne_nil hneeds)
    rw [if_neg (by simp [hneeds])]
    unfold rewriteHttpFrontHost
    simp only [hne, Bool.false_eq_true, if_false, replaceHttpHost_eq, bind,
      Except.bind]
    refine ⟨_, rfl, ?_⟩
    unfold ReplacesHost
    cases lineStart (data.map toAsciiLowercase) with
    | none => simp
    | some start => simp [putAt_eq_self, hneeds]
  · rw [if_pos (not_and_or.mp hgo)]
    refine ⟨data, rfl, fun _ h => hgo ⟨h.1, h.2.1⟩, fun _ => rfl⟩

end Wrtg.Media
