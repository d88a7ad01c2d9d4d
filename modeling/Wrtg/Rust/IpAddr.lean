/-
`parse::<IpAddr>`, as the parser of the standard library reads it, and
`Display` of an address.

A reader takes characters off the front of a text and returns what it
read and the rest. What it reads is as many octets or segments as an
address has, each in its range (`readIpv4Addr_spec`, `readIpv6Addr_spec`),
so that an `IpAddr` carries both facts. A dotted address is written as it
was read (`showIpv4_of_parse`).
-/
import Wrtg.Rust.Text

namespace Wrtg

namespace IpAddr

open Text

-- ===================================================== reading numbers

/-- `to_digit(radix)`. -/
def toDigit (radix : Nat) (c : Char) : Option Nat :=
  let n := c.toNat
  let digit :=
    if 0x30 ≤ n ∧ n ≤ 0x39 then some (n - 0x30)
    else if 0x61 ≤ n ∧ n ≤ 0x7A then some (n - 0x61 + 10)
    else if 0x41 ≤ n ∧ n ≤ 0x5A then some (n - 0x41 + 10)
    else none
  digit.filter fun d => decide (d < radix)

/-- The loop of `read_number`: the value and the count of the digits. -/
def readDigits (radix : Nat) : Nat → Nat → Text → Nat × Nat × Text
  | value, count, [] => (value, count, [])
  | value, count, c :: t =>
      match toDigit radix c with
      | some d => readDigits radix (value * radix + d) (count + 1) t
      | none => (value, count, c :: t)

/-- `read_number` of up to `maxDigits` digits and at most `max`. -/
def readNumber (radix maxDigits max : Nat) (allowZeroPrefix : Bool)
    (t : Text) : Option (Nat × Text) :=
  let hasLeadingZero := t.head? == some '0'
  let (value, count, rest) := readDigits radix 0 0 t
  if count > maxDigits then none
  else if max < value then none
  else if count = 0 then none
  else if !allowZeroPrefix && hasLeadingZero && count > 1 then none
  else some (value, rest)

theorem readNumber_le {radix maxDigits max n : Nat} {allow : Bool}
    {t rest : Text}
    (h : readNumber radix maxDigits max allow t = some (n, rest)) :
    n ≤ max := by
  simp only [readNumber, Option.ite_none_left_eq_some, Option.some.injEq,
    Prod.mk.injEq] at h
  obtain ⟨-, hmax, -, -, rfl, -⟩ := h
  exact Nat.not_lt.mp hmax

/-- `read_separator`: the separator before every part but the first. -/
def readSeparator {α : Type} (sep : Char) (index : Nat)
    (inner : Text → Option (α × Text)) (t : Text) : Option (α × Text) :=
  if index > 0 then
    match t with
    | c :: t => if c = sep then inner t else none
    | [] => none
  else inner t

/-- What is read behind a separator was read by `inner`. -/
theorem readSeparator_eq_some {α : Type} {sep : Char} {index : Nat}
    {inner : Text → Option (α × Text)} {t : Text} {r : α × Text}
    (h : readSeparator sep index inner t = some r) :
    ∃ u, inner u = some r := by
  unfold readSeparator at h
  split at h
  · split at h
    · split at h
      · exact ⟨_, h⟩
      · cases h
    · cases h
  · exact ⟨_, h⟩

def readOctet (index : Nat) : Text → Option (Nat × Text) :=
  readSeparator '.' index (readNumber 10 3 255 false)

theorem readOctet_lt {index n : Nat} {t rest : Text}
    (h : readOctet index t = some (n, rest)) : n < 256 := by
  obtain ⟨u, hu⟩ := readSeparator_eq_some h
  exact Nat.lt_succ_of_le (readNumber_le hu)

end IpAddr

-- =========================================================== addresses

structure Ipv4Addr where
  octets : List Nat
  len : octets.length = 4
  small : ∀ octet ∈ octets, octet < 256
  deriving DecidableEq, Repr

structure Ipv6Addr where
  segments : List Nat
  len : segments.length = 8
  small : ∀ segment ∈ segments, segment < 65536
  deriving DecidableEq, Repr

/-- `std::net::IpAddr`. -/
inductive IpAddr where
  | v4 (addr : Ipv4Addr)
  | v6 (addr : Ipv6Addr)
  deriving DecidableEq, Repr

namespace IpAddr

open Text

-- =================================================== reading addresses

def readIpv4Addr (t : Text) : Option (List Nat × Text) := do
  let (a, t) ← readOctet 0 t
  let (b, t) ← readOctet 1 t
  let (c, t) ← readOctet 2 t
  let (d, t) ← readOctet 3 t
  pure ([a, b, c, d], t)

theorem readIpv4Addr_spec {t rest : Text} {octets : List Nat}
    (h : readIpv4Addr t = some (octets, rest)) :
    octets.length = 4 ∧ ∀ octet ∈ octets, octet < 256 := by
  simp only [readIpv4Addr, Option.bind_eq_bind, Option.bind_eq_some_iff,
    Prod.exists] at h
  obtain ⟨a, _, ha, b, _, hb, c, _, hc, d, _, hd, heq⟩ := h
  cases heq
  refine ⟨rfl, ?_⟩
  simp [readOctet_lt ha, readOctet_lt hb, readOctet_lt hc, readOctet_lt hd]

/-- An IPv4 address as two groups. -/
def pairOctets : List Nat → List Nat
  | a :: b :: os => (a * 256 + b) :: pairOctets os
  | _ => []

theorem pairOctets_spec {t rest : Text} {octets : List Nat}
    (h : readIpv4Addr t = some (octets, rest)) :
    (pairOctets octets).length = 2
      ∧ ∀ group ∈ pairOctets octets, group < 65536 := by
  obtain ⟨hlen, hsmall⟩ := readIpv4Addr_spec h
  obtain ⟨a, b, c, d, rfl⟩ : ∃ a b c d, octets = [a, b, c, d] := by
    match octets, hlen with
    | [a, b, c, d], _ => exact ⟨a, b, c, d, rfl⟩
  have ha := hsmall a (by simp)
  have hb := hsmall b (by simp)
  have hc := hsmall c (by simp)
  have hd := hsmall d (by simp)
  refine ⟨rfl, ?_⟩
  simp only [pairOctets, List.mem_cons, List.not_mem_nil, or_false]
  omega

/-- `read_groups`, from group `i` of `limit` on: the groups, and whether
an IPv4 address ended them. -/
def readGroups (limit : Nat) : Nat → Nat → Text → (List Nat × Bool) × Text
  | 0, _, t => (([], false), t)
  | left + 1, i, t =>
      match if i + 1 < limit then readSeparator ':' i readIpv4Addr t
        else none with
      | some (octets, t) => ((pairOctets octets, true), t)
      | none =>
          match readSeparator ':' i (readNumber 16 4 0xFFFF true) t with
          | some (group, t) =>
              let ((groups, ipv4), t) := readGroups limit left (i + 1) t
              ((group :: groups, ipv4), t)
          | none => (([], false), t)

/-- No more groups than there was room for: an IPv4 address is read only
where two of them fit. -/
theorem readGroups_spec {limit left i : Nat} (t : Text)
    (hleft : i + left = limit) :
    (readGroups limit left i t).1.1.length ≤ left
      ∧ ∀ group ∈ (readGroups limit left i t).1.1, group < 65536 := by
  induction left generalizing i t with
  | zero => exact ⟨Nat.le_refl 0, nofun⟩
  | succ left ih =>
      rw [readGroups]
      split
      · next octets rest hread =>
          split at hread
          · next hroom =>
              obtain ⟨u, hu⟩ := readSeparator_eq_some hread
              obtain ⟨hlen, hsmall⟩ := pairOctets_spec hu
              refine ⟨?_, hsmall⟩
              simp only [hlen]
              omega
          · cases hread
      · split
        · next group rest hread =>
            obtain ⟨u, hu⟩ := readSeparator_eq_some hread
            have hgroup := readNumber_le hu
            have hleft' : i + 1 + left = limit := by omega
            obtain ⟨hlen, hsmall⟩ := ih rest hleft'
            refine ⟨Nat.succ_le_succ hlen, ?_⟩
            rintro g (_ | ⟨_, hg⟩)
            · omega
            · exact hsmall g hg
        · exact ⟨Nat.zero_le _, nofun⟩

def readIpv6Addr (t : Text) : Option (List Nat × Text) :=
  let ((head, headIpv4), t) := readGroups 8 8 0 t
  if head.length = 8 then some (head, t)
  else if headIpv4 then none
  else match t with
    | ':' :: ':' :: t =>
        let limit := 8 - (head.length + 1)
        let ((tail, _), t) := readGroups limit limit 0 t
        let zeros := List.replicate (8 - head.length - tail.length) 0
        some (head ++ zeros ++ tail, t)
    | _ => none

theorem readIpv6Addr_spec {t rest : Text} {segments : List Nat}
    (h : readIpv6Addr t = some (segments, rest)) :
    segments.length = 8 ∧ ∀ segment ∈ segments, segment < 65536 := by
  have hhead := readGroups_spec t (Nat.zero_add 8)
  unfold readIpv6Addr at h
  generalize readGroups 8 8 0 t = read at h hhead
  obtain ⟨⟨head, headIpv4⟩, u⟩ := read
  obtain ⟨hroom, hsmall⟩ := hhead
  simp only at h hroom hsmall
  split at h
  · next hfull =>
      cases h
      exact ⟨hfull, hsmall⟩
  · next hfull =>
      split at h
      · cases h
      · split at h
        · next v =>
            have htail := readGroups_spec v
              (Nat.zero_add (8 - (head.length + 1)))
            generalize readGroups (8 - (head.length + 1))
              (8 - (head.length + 1)) 0 v = read at h htail
            obtain ⟨⟨tail, tailIpv4⟩, u⟩ := read
            obtain ⟨hroom', hsmall'⟩ := htail
            simp only at hroom' hsmall'
            cases h
            refine ⟨?_, ?_⟩
            · simp only [List.length_append, List.length_replicate]
              omega
            · simp only [List.mem_append, List.mem_replicate]
              rintro segment ((hs | ⟨-, rfl⟩) | hs)
              · exact hsmall segment hs
              · decide
              · exact hsmall' segment hs
        · cases h

/-- `read_ip_addr`. -/
def readIpAddr (t : Text) : Option (IpAddr × Text) :=
  match h4 : readIpv4Addr t with
  | some (octets, rest) =>
      have spec := readIpv4Addr_spec h4
      some (.v4 { octets, len := spec.1, small := spec.2 }, rest)
  | none =>
      match h6 : readIpv6Addr t with
      | some (segments, rest) =>
          have spec := readIpv6Addr_spec h6
          some (.v6 { segments, len := spec.1, small := spec.2 }, rest)
      | none => none

/-- `parse::<IpAddr>`. -/
def parseIpAddr (t : Text) : Option IpAddr :=
  match readIpAddr t with
  | some (ip, rest) => if rest.isEmpty then some ip else none
  | none => none

/-- `parse::<IpAddr>().is_ok()`. -/
def isIpAddr (t : Text) : Bool := (parseIpAddr t).isSome

example : isIpAddr "149.154.175.53".toList = true
    ∧ isIpAddr "2001:67c:4e8:f002::a".toList = true
    ∧ isIpAddr "::ffff:149.154.175.53".toList = true
    ∧ isIpAddr "149.154.175.053".toList = false
    ∧ isIpAddr "web.telegram.org".toList = false := by
  decide +kernel

-- ============================================================= display

def showNat (n : Nat) : Text := Nat.toDigits 10 n

/-- `{:x}`. -/
def lowerHex (n : Nat) : Text := Nat.toDigits 16 n

def showIpv4 (octets : List Nat) : Text :=
  ['.'].intercalate (octets.map showNat)

structure Span where
  start : Nat
  len : Nat

/-- The longest run of zero segments, the first of them: the loop from
segment `i` on. -/
def zeroes (i : Nat) (longest current : Span) : List Nat → Span
  | [] => longest
  | segment :: segments =>
      if segment = 0 then
        let start := if current.len = 0 then i else current.start
        let current : Span := { start, len := current.len + 1 }
        let longest := if current.len > longest.len then current else longest
        zeroes (i + 1) longest current segments
      else zeroes (i + 1) longest { start := 0, len := 0 } segments

def fmtSubslice (segments : List Nat) : Text :=
  [':'].intercalate (segments.map lowerHex)

def showIpv6 (segments : List Nat) : Text :=
  match segments with
  | [0, 0, 0, 0, 0, 0xFFFF, ab, cd] =>
      "::ffff:".toList ++ showIpv4 [ab / 256, ab % 256, cd / 256, cd % 256]
  | _ =>
      let z := zeroes 0 { start := 0, len := 0 } { start := 0, len := 0 }
        segments
      if z.len > 1 then
        fmtSubslice (segments.take z.start) ++ "::".toList
          ++ fmtSubslice (segments.drop (z.start + z.len))
      else fmtSubslice segments

/-- `Display`. -/
def showIpAddr : IpAddr → Text
  | .v4 addr => showIpv4 addr.octets
  | .v6 addr => showIpv6 addr.segments

example : (parseIpAddr "2001:0DB8:0:0:1:0:0:1".toList).map showIpAddr
      = some "2001:db8::1:0:0:1".toList
    ∧ (parseIpAddr "::FFFF:149.154.175.53".toList).map showIpAddr
      = some "::ffff:149.154.175.53".toList := by
  decide +kernel

-- ======================================================= dotted octets

theorem toDigit_ten (c : Char) :
    toDigit 10 c = if isDigit c then some (c.toNat - '0'.toNat) else none := by
  have hdigit : isDigit c = decide (0x30 ≤ c.toNat ∧ c.toNat ≤ 0x39) := by
    unfold isDigit
    rw [Bool.decide_and]
    rfl
  have hzero : '0'.toNat = 0x30 := rfl
  unfold toDigit
  rw [hdigit, hzero]
  simp only [decide_eq_true_eq]
  by_cases hc : 0x30 ≤ c.toNat ∧ c.toNat ≤ 0x39
  · rw [if_pos hc, if_pos hc, Option.filter_some, if_pos]
    exact decide_eq_true (by omega)
  · rw [if_neg hc, if_neg hc]
    split
    · rw [Option.filter_some, if_neg]
      simp only [decide_eq_true_eq]
      omega
    · split
      · rw [Option.filter_some, if_neg]
        simp only [decide_eq_true_eq]
        omega
      · rfl

/-- The loop of `read_number` takes the digits in front. -/
theorem readDigits_ten (t : Text) (value count : Nat) :
    readDigits 10 value count t
      = ((t.takeWhile isDigit).foldl
          (fun acc c => acc * 10 + (c.toNat - '0'.toNat)) value,
        count + (t.takeWhile isDigit).length, t.dropWhile isDigit) := by
  induction t generalizing value count with
  | nil => rfl
  | cons c t ih =>
      rw [readDigits, toDigit_ten]
      by_cases hc : isDigit c = true
      · rw [if_pos hc, List.takeWhile_cons_of_pos hc,
          List.dropWhile_cons_of_pos hc]
        simp only
        rw [ih, List.length_cons, List.foldl_cons, Nat.add_assoc,
          Nat.add_comm 1]
      · rw [if_neg hc, List.takeWhile_cons_of_neg hc,
          List.dropWhile_cons_of_neg hc]
        rfl

theorem parseDigits_takeWhile (t : Text) :
    parseDigits (t.takeWhile isDigit)
      = if (t.takeWhile isDigit).isEmpty then none
        else some ((t.takeWhile isDigit).foldl
          (fun acc c => acc * 10 + (c.toNat - '0'.toNat)) 0) := by
  have hall : (t.takeWhile isDigit).all isDigit = true :=
    List.all_eq_true.mpr fun c hc => List.mem_takeWhile_imp hc
  unfold parseDigits
  rw [if_pos hall]

/-- An octet is read off the digits in front. -/
theorem readNumber_octet (t : Text) :
    readNumber 10 3 255 false t
      = (parseOctet (t.takeWhile isDigit)).map fun n =>
          (n, t.dropWhile isDigit) := by
  have hhead : (t.head? == some '0')
      = ((t.takeWhile isDigit).head? == some '0') := by
    cases t with
    | nil => rfl
    | cons c t =>
        by_cases hc : isDigit c = true
        · rw [List.takeWhile_cons_of_pos hc, List.head?_cons, List.head?_cons]
        · rw [List.takeWhile_cons_of_neg hc, List.head?_cons]
          have hne : c ≠ '0' := by
            intro h
            subst h
            exact hc rfl
          simp [hne]
  unfold readNumber parseOctet
  rw [readDigits_ten, parseDigits_takeWhile, hhead]
  simp only [Nat.zero_add]
  generalize t.takeWhile isDigit = ds
  generalize ds.foldl _ 0 = value
  by_cases hlen : ds.length > 3
  · rw [if_pos hlen, if_neg (by omega)]
    rfl
  by_cases hempty : ds = []
  · subst hempty
    simp
  have hpos := List.length_pos_iff.mpr hempty
  have hle : ds.length ≤ 3 := by omega
  have hne : ds.length ≠ 0 := by omega
  by_cases hmax : 255 < value
  · simp [hlen, hmax, hempty, Nat.not_le.mpr hmax]
  have hmax' : value ≤ 255 := by omega
  by_cases hzero : ds.head? = some '0'
  · by_cases hone : ds.length = 1
    · simp [hmax, hmax', hzero, hone, hempty]
    · simp [hlen, hmax, hzero, hone, show 1 < ds.length by omega]
  · simp [hlen, hle, hmax, hmax', hzero, hempty]

/-- The text does not go on with a digit. -/
def NoDigitHead (t : Text) : Prop := ∀ c, t.head? = some c → isDigit c = false

theorem readNumber_append {a : Text} {n : Nat} (h : parseOctet a = some n)
    {t : Text} (ht : NoDigitHead t) :
    readNumber 10 3 255 false (a ++ t) = some (n, t) := by
  have hall := parseOctet_all h
  have hnil : t.takeWhile isDigit = [] ∧ t.dropWhile isDigit = t := by
    cases t with
    | nil => exact ⟨rfl, rfl⟩
    | cons c t =>
        have hc := ht c rfl
        exact ⟨List.takeWhile_cons_of_neg (by simp [hc]),
          List.dropWhile_cons_of_neg (by simp [hc])⟩
  rw [readNumber_octet, List.takeWhile_append_of_pos hall,
    List.dropWhile_append_of_pos hall, hnil.1, hnil.2, List.append_nil, h]
  rfl

theorem readNumber_eq {t rest : Text} {n : Nat}
    (h : readNumber 10 3 255 false t = some (n, rest)) :
    ∃ a, parseOctet a = some n ∧ t = a ++ rest := by
  rw [readNumber_octet] at h
  obtain ⟨m, hm, heq⟩ := Option.map_eq_some_iff.mp h
  cases heq
  exact ⟨_, hm, List.takeWhile_append_dropWhile.symm⟩

theorem readOctet_succ {i n : Nat} {t rest : Text}
    (h : readOctet (i + 1) t = some (n, rest)) :
    ∃ a, parseOctet a = some n ∧ t = '.' :: (a ++ rest) := by
  unfold readOctet readSeparator at h
  rw [if_pos (Nat.succ_pos i)] at h
  split at h
  · split at h
    · next hc =>
        obtain ⟨a, ha, ht⟩ := readNumber_eq h
        exact ⟨a, ha, by rw [hc, ht]⟩
    · cases h
  · cases h

theorem readOctet_append {i n : Nat} {a t : Text}
    (h : parseOctet a = some n) (ht : NoDigitHead t) :
    readOctet (i + 1) ('.' :: (a ++ t)) = some (n, t) := by
  unfold readOctet readSeparator
  rw [if_pos (Nat.succ_pos i)]
  exact (if_pos rfl).trans (readNumber_append h ht)

theorem not_dot_of_parseOctet {a : Text} {n : Nat}
    (h : parseOctet a = some n) : '.' ∉ a :=
  fun hdot => absurd (parseOctet_all h '.' hdot) (by decide)

/-- The octets of a dotted address, and their texts. -/
theorem parseIpv4Addr_iff {t : Text} {octets : List Nat} :
    parseIpv4Addr t = some octets ↔ ∃ a b c d na nb nc nd,
      splitOn (· == '.') t = [a, b, c, d] ∧ octets = [na, nb, nc, nd]
        ∧ parseOctet a = some na ∧ parseOctet b = some nb
        ∧ parseOctet c = some nc ∧ parseOctet d = some nd := by
  constructor
  · intro h
    unfold parseIpv4Addr at h
    split at h
    · next a b c d hsplit =>
        simp only [List.mapM_cons, List.mapM_nil, Option.bind_eq_bind,
          Option.bind_eq_some_iff] at h
        obtain ⟨na, ha, _, ⟨nb, hb, _, ⟨nc, hc, _, ⟨nd, hd, _, hnil, hd'⟩,
          hc'⟩, hb'⟩, ha'⟩ := h
        cases hnil
        cases hd'
        cases hc'
        cases hb'
        cases ha'
        exact ⟨a, b, c, d, na, nb, nc, nd, hsplit, rfl, ha, hb, hc, hd⟩
    · cases h
  · intro h
    obtain ⟨a, b, c, d, na, nb, nc, nd, hsplit, rfl, ha, hb, hc, hd⟩ := h
    unfold parseIpv4Addr
    rw [hsplit]
    simp [ha, hb, hc, hd]

/-- What is read as an IPv4 address, with nothing behind it, is one. -/
theorem readIpv4Addr_iff {t : Text} {octets : List Nat} :
    readIpv4Addr t = some (octets, []) ↔ parseIpv4Addr t = some octets := by
  rw [parseIpv4Addr_iff]
  constructor
  · intro h
    simp only [readIpv4Addr, Option.bind_eq_bind, Option.bind_eq_some_iff,
      Prod.exists] at h
    obtain ⟨na, _, hna, nb, _, hnb, nc, _, hnc, nd, _, hnd, heq⟩ := h
    cases heq
    obtain ⟨a, ha, rfl⟩ := readNumber_eq hna
    obtain ⟨b, hb, rfl⟩ := readOctet_succ hnb
    obtain ⟨c, hc, rfl⟩ := readOctet_succ hnc
    obtain ⟨d, hd, rfl⟩ := readOctet_succ hnd
    refine ⟨a, b, c, d, na, nb, nc, nd, ?_, rfl, ha, hb, hc, hd⟩
    have hdot : splitOn (· == '.') (['.'].intercalate [a, b, c, d])
        = [a, b, c, d] :=
      splitOn_intercalate (by simp) (by
        simp [not_dot_of_parseOctet ha, not_dot_of_parseOctet hb,
          not_dot_of_parseOctet hc, not_dot_of_parseOctet hd])
    simpa [List.intercalate] using hdot
  · intro h
    obtain ⟨a, b, c, d, na, nb, nc, nd, hsplit, rfl, ha, hb, hc, hd⟩ := h
    have ht : t = a ++ '.' :: (b ++ '.' :: (c ++ '.' :: (d ++ []))) := by
      rw [← intercalate_splitOn '.' t, hsplit]
      simp [List.intercalate]
    have hdot : ∀ u, NoDigitHead ('.' :: u) := by
      intro u c hc
      cases hc
      rfl
    have hnil : NoDigitHead [] := nofun
    have hfirst : readOctet 0 = readNumber 10 3 255 false := rfl
    rw [ht]
    simp only [readIpv4Addr, hfirst, readNumber_append ha (hdot _),
      readOctet_append hb (hdot _), readOctet_append hc (hdot _),
      readOctet_append hd hnil, Option.bind_eq_bind, Option.bind_some]
    rfl

theorem readIpAddr_v4 {t rest : Text} {addr : Ipv4Addr} :
    readIpAddr t = some (.v4 addr, rest)
      ↔ readIpv4Addr t = some (addr.octets, rest) := by
  unfold readIpAddr
  split
  · next octets u h4 =>
      obtain ⟨octets', hlen, hsmall⟩ := addr
      simp [h4]
  · next h4 =>
      rw [h4]
      split
      · simp
      · simp

theorem parseIpAddr_v4 {t : Text} {addr : Ipv4Addr} :
    parseIpAddr t = some (.v4 addr) ↔ parseIpv4Addr t = some addr.octets := by
  rw [← readIpv4Addr_iff, ← readIpAddr_v4]
  unfold parseIpAddr
  cases readIpAddr t with
  | none => simp
  | some r => simp [Prod.ext_iff, and_comm]

/-- The octets of a dotted address are those of an address. -/
theorem octets_of_parse {t : Text} {octets : List Nat}
    (h : parseIpv4Addr t = some octets) :
    ∃ addr : Ipv4Addr, octets = addr.octets := by
  obtain ⟨hlen, hsmall⟩ := readIpv4Addr_spec (readIpv4Addr_iff.mpr h)
  exact ⟨{ octets, len := hlen, small := hsmall }, rfl⟩

/-- A digit is written as it is read. -/
theorem showNat_digit {c : Char} (h : isDigit c = true) :
    c.toNat - '0'.toNat < 10 ∧ showNat (c.toNat - '0'.toNat) = [c] := by
  have hzero : '0'.toNat = 0x30 := rfl
  have hbounds : 0x30 ≤ c.toNat ∧ c.toNat ≤ 0x39 := by
    unfold isDigit at h
    simp only [Bool.and_eq_true, decide_eq_true_eq] at h
    exact h
  have hlt : c.toNat - '0'.toNat < 10 := by omega
  refine ⟨hlt, ?_⟩
  unfold showNat
  rw [Nat.toDigits_of_lt_base hlt]
  have hchar : (c.toNat - '0'.toNat).digitChar.toNat = c.toNat := by
    rw [Nat.toNat_digitChar_of_lt_ten hlt]
    omega
  rw [Char.toNat_inj.mp hchar]

/-- The value that the digits are read for. -/
def digitsValue (ds : Text) : Nat :=
  ds.foldl (fun acc c => acc * 10 + (c.toNat - '0'.toNat)) 0

/-- Digits without a leading zero are written as they are read. -/
theorem showNat_digits {ds : Text} (hne : ds ≠ [])
    (hall : ∀ c ∈ ds, isDigit c = true)
    (hzero : ds.length = 1 ∨ ds.head? ≠ some '0') :
    showNat (digitsValue ds) = ds := by
  induction ds using List.reverseRecOn with
  | nil => exact absurd rfl hne
  | append_singleton ds c ih =>
      obtain ⟨hlt, hshow⟩ := showNat_digit (hall c (by simp))
      have hvalue : digitsValue (ds ++ [c])
          = digitsValue ds * 10 + (c.toNat - '0'.toNat) := by
        unfold digitsValue
        rw [List.foldl_append]
        rfl
      rw [hvalue]
      by_cases hnil : ds = []
      · subst hnil
        rw [show digitsValue [] = 0 from rfl, Nat.zero_mul, Nat.zero_add]
        exact hshow
      · have hlead : ds.head? ≠ some '0' := by
          rcases hzero with hone | hhead
          · simp [hnil] at hone
          · rwa [List.head?_append_of_ne_nil _ hnil] at hhead
        have ih := ih hnil (fun d hd => hall d (by simp [hd])) (.inr hlead)
        have hpos : 0 < digitsValue ds := by
          refine Nat.pos_of_ne_zero fun h => hlead ?_
          rw [h] at ih
          rw [← ih]
          rfl
        unfold showNat at ih hshow ⊢
        rw [Nat.mul_comm, ← Nat.toDigits_append_toDigits (by decide) hpos hlt,
          ih, hshow]

theorem showNat_of_parseOctet {a : Text} {n : Nat}
    (h : parseOctet a = some n) : showNat n = a := by
  unfold parseOctet at h
  split at h
  · next hform =>
      obtain ⟨m, hm, hmax⟩ := Option.bind_eq_some_iff.mp h
      split at hmax
      · cases hmax
        have hall := parseDigits_all hm
        unfold parseDigits at hm
        split at hm
        · cases hm
        · next hne =>
            split at hm
            · cases hm
              exact showNat_digits (by simpa using hne) hall hform.2
            · cases hm
      · cases hmax
  · cases h

/-- A dotted address is written as it was read. -/
theorem showIpv4_of_parse {t : Text} {octets : List Nat}
    (h : parseIpv4Addr t = some octets) : showIpv4 octets = t := by
  obtain ⟨a, b, c, d, na, nb, nc, nd, hsplit, rfl, ha, hb, hc, hd⟩ :=
    parseIpv4Addr_iff.mp h
  unfold showIpv4
  rw [List.map_cons, List.map_cons, List.map_cons, List.map_cons,
    List.map_nil, showNat_of_parseOctet ha, showNat_of_parseOctet hb,
    showNat_of_parseOctet hc, showNat_of_parseOctet hd, ← hsplit,
    intercalate_splitOn]

end IpAddr

end Wrtg
