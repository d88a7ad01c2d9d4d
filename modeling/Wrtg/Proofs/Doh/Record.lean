/-
What the scan makes of one record of the answer.

A record comes to `readArray` in pieces, cut at every `{`, and up to the
first `]` only. Its keys are at one place each (`first_onlyAt`,
`second_onlyAt`), so one piece at most is a record of type A for the code:
the one around the type (`pieces_window`). Whether the address is found
hangs on what stands between the two keys (`scan_typeFirst`,
`scan_dataFirst`).
-/
import Wrtg.DnsJson
import Wrtg.Doh

namespace Wrtg.Doh

open Lib (At OnlyAt not_at_of_infix)
open Lib.Json Text DnsJson

-- ============================================================ the marks

theorem typeMark_ne_nil : typeMark ≠ [] := by decide

theorem dataMark_ne_nil : dataMark ≠ [] := by decide

theorem typeMark_eq : typeMark = key "type".toList ++ ['1'] := rfl

theorem dataMark_eq : dataMark = key "data".toList ++ ['"'] := rfl

theorem key_isPrefix_dataMark : key "data".toList <+: dataMark :=
  dataMark_eq ▸ List.prefix_append _ _

/-- Without the mark a record is not of type A. -/
theorem recordIsTypeA_eq_false {w : Text} (h : ∀ k, ¬At typeMark w k) :
    recordIsTypeA w = false := by
  rw [recordIsTypeA]
  split
  · rfl
  · next hsplit =>
      rw [(splitOnceStr_eq_none typeMark_ne_nil).mpr h] at hsplit
      cases hsplit

/-- A record with one mark is of type A unless a digit comes behind. -/
theorem recordIsTypeA_onlyAt {a c : Text}
    (h : OnlyAt typeMark (a ++ (typeMark ++ c)) a.length) :
    recordIsTypeA (a ++ (typeMark ++ c)) = !c.head?.any isDigit := by
  have hsplit := splitOnceStr_unique typeMark_ne_nil h
  have hbehind : ∀ k, ¬At typeMark c k := fun _ => h.back typeMark_ne_nil
  rw [recordIsTypeA]
  split
  · next hnone =>
      rw [hsplit] at hnone
      cases hnone
  · next hsome =>
      rw [hsplit] at hsome
      cases hsome
      rw [recordIsTypeA_eq_false hbehind]
      cases c.head?.any isDigit with
      | true => rfl
      | false => rfl

/-- The trimmed text, if there is any. -/
def picked (data : Text) : Option Text :=
  let ip := trim data
  if ip.isEmpty then none else some ip

/-- The data of a record that is of type A. -/
def dataAddress (rec : Text) : Option Text :=
  match secondPiece dataMark rec with
  | some data => picked (before '"' data)
  | none => none

/-- An address is picked for a record of type A. -/
theorem recordAddress_eq (rec : Text) :
    recordAddress rec
      = if recordIsTypeA rec then dataAddress rec else none := rfl

/-- Without the mark there is no address, -/
theorem dataAddress_eq_none {w : Text} (h : ∀ k, ¬At dataMark w k) :
    dataAddress w = none := by
  unfold dataAddress secondPiece
  rw [(splitOnceStr_eq_none dataMark_ne_nil).mpr h]
  rfl

/-- and with one mark it is what stands behind that, up to a quote. -/
theorem dataAddress_onlyAt {a c : Text}
    (h : OnlyAt dataMark (a ++ (dataMark ++ c)) a.length) :
    dataAddress (a ++ (dataMark ++ c)) = picked (before '"' c) := by
  have hbehind : ∀ k, ¬At dataMark c k := fun _ => h.back dataMark_ne_nil
  unfold dataAddress secondPiece
  rw [splitOnceStr_unique dataMark_ne_nil h, Option.map_some]
  simp only [(splitOnceStr_eq_none dataMark_ne_nil).mpr hbehind]

-- =========================================================== the pieces

theorem recordAddress_eq_none {w : Text} (h : ∀ k, ¬At typeMark w k) :
    recordAddress w = none := by
  rw [recordAddress_eq, recordIsTypeA_eq_false h]
  rfl

/-- Without the mark there is no address, in any of the pieces. -/
theorem filterMap_pieces_eq_nil {t : Text} {ws : List Text}
    (ht : ∀ k, ¬At typeMark t k) (hws : ∀ w ∈ ws, w ∈ splitOn (· == '{') t) :
    ws.filterMap recordAddress = [] := by
  rw [List.filterMap_eq_nil_iff]
  intro w hw
  exact recordAddress_eq_none fun _ =>
    not_at_of_infix (infix_of_mem_splitOn (hws w hw)) typeMark_ne_nil ht

/-- A text without the mark of a type gives no address. -/
theorem pieces_eq_nil {t : Text} (h : ∀ k, ¬At typeMark t k) :
    (splitOn (· == '{') t).filterMap recordAddress = [] :=
  filterMap_pieces_eq_nil h fun _ hw => hw

/-- With one mark there is one piece to look at: from the last `{` in
front of it to the next one behind. -/
theorem pieces_window {a c : Text}
    (h : OnlyAt typeMark (a ++ (typeMark ++ c)) a.length) :
    (splitOn (· == '{') (a ++ (typeMark ++ c))).filterMap recordAddress
      = (recordAddress
          (behind '{' a ++ (typeMark ++ before '{' c))).toList := by
  have hfront : ∀ k, ¬At typeMark a k := fun _ => h.front typeMark_ne_nil
  have hback : ∀ k, ¬At typeMark c k := fun _ => h.back typeMark_ne_nil
  have hmark : '{' ∉ typeMark := by decide
  rw [splitOn_append, before_append_of_not_mem hmark,
    splitOn_append_of_not_mem hmark, List.tail_cons, List.filterMap_append,
    List.filterMap_cons]
  rw [filterMap_pieces_eq_nil hfront fun w hw => List.dropLast_subset _ hw,
    filterMap_pieces_eq_nil hback fun w hw => List.mem_of_mem_tail hw]
  cases recordAddress (behind '{' a ++ (typeMark ++ before '{' c)) with
  | none => rfl
  | some ip => rfl

-- ========================================================== the members

theorem number_digits (n : Nat) : ∀ c ∈ number n, isDigit c = true := by
  intro c hc
  have h := Nat.isDigit_of_mem_toDigits (by decide) (by decide) hc
  unfold Char.isDigit at h
  unfold isDigit
  exact h

theorem number_eq_one {n : Nat} (h : number n = ['1']) : n = 1 := by
  have hvalue := Nat.ofDigitChars_ten_toDigits (n := n)
  unfold number at h
  rw [h] at hvalue
  exact hvalue.symm

theorem number_ne_nil (n : Nat) : number n ≠ [] := Nat.toDigits_ne_nil

/-- A type that is written as 1 and a digit is no type A. -/
theorem number_cons {n : Nat} {ds : Text} (h : number n = '1' :: ds)
    (hn : n ≠ 1) : ∃ d ds', ds = d :: ds' ∧ isDigit d = true := by
  cases ds with
  | nil => exact absurd (number_eq_one h) hn
  | cons d ds =>
      exact ⟨d, ds, rfl, number_digits n d (by rw [h]; simp)⟩

/-- No key is in a number. -/
theorem number_skips (n : Nat) (k t : List Char) :
    Lib.Skips (key k) (number n) t := by
  refine Lib.skips_of_not_mem fun h => ?_
  exact absurd (number_digits n _ h) (by decide)

theorem isKey_type : IsKey "type".toList := ⟨by decide, by decide⟩

theorem isKey_data : IsKey "data".toList := ⟨by decide, by decide⟩

theorem isKey_name : IsKey "name".toList := ⟨by decide, by decide⟩

theorem isKey_ttl : IsKey "TTL".toList := ⟨by decide, by decide⟩

theorem typeMember_flat (r : Record) : r.typeMember.Flat where
  isKey := isKey_type
  skips k t _ _ := number_skips r.type k t

theorem dataMember_flat (r : Record) : r.dataMember.Flat where
  isKey := isKey_data
  skips _ _ hk ht := key_skips_literal hk r.data ht

/-- The other members are flat, and of other keys. -/
theorem other_flat (f : Other) : f.member.Flat
    ∧ "type".toList ≠ f.member.key ∧ "data".toList ≠ f.member.key := by
  have hkeys : ∀ k ∈ ["name".toList, "TTL".toList],
      "type".toList ≠ k ∧ "data".toList ≠ k := by decide
  cases f with
  | name s =>
      refine ⟨⟨isKey_name, fun _ _ hk ht => key_skips_literal hk s ht⟩, ?_⟩
      exact hkeys _ (by simp [Other.member])
  | ttl n =>
      refine ⟨⟨isKey_ttl, fun k t _ _ => number_skips n k t⟩, ?_⟩
      exact hkeys _ (by simp [Other.member])

/-- The other members are flat, and have neither key. -/
theorem others_flat (fs : List Other) {k : List Char}
    (hk : k = "type".toList ∨ k = "data".toList) :
    ∀ m ∈ fs.map Other.member, m.Flat ∧ k ≠ m.key := by
  intro m hm
  obtain ⟨f, -, rfl⟩ := List.mem_map.mp hm
  obtain ⟨hflat, htype, hdata⟩ := other_flat f
  rcases hk with rfl | rfl
  · exact ⟨hflat, htype⟩
  · exact ⟨hflat, hdata⟩

-- ============================================================ the scan

/-- The addresses in a text behind an opening brace, up to the first
closing bracket. -/
def scan (t : Text) : List Text :=
  (splitOn (· == '{') (before ']' t)).filterMap recordAddress

/-- A value's end outlasts a cut at what is no end. -/
theorem before_stops {t : Text} (ht : Stops t) (hne : t ≠ []) (sep : Char)
    (hcomma : sep ≠ ',') (hbrace : sep ≠ '}') :
    Stops (before sep t) ∧ before sep t ≠ [] := by
  obtain ⟨c, t, rfl⟩ := List.exists_cons_of_ne_nil hne
  have hc : c ≠ sep := by
    rcases ht c rfl with rfl | rfl
    · exact hcomma.symm
    · exact hbrace.symm
  rw [before_cons hc]
  exact ⟨fun d hd => ht d hd, List.cons_ne_nil _ _⟩

/-- The one place of a pattern, in the piece around it. -/
theorem onlyAt_window {pat a c : Text}
    (h : OnlyAt pat (a ++ (pat ++ c)) a.length) (hne : pat ≠ []) :
    OnlyAt pat (behind '{' a ++ (pat ++ before '{' c))
      (behind '{' a).length := by
  obtain ⟨x, hx⟩ := behind_suffix '{' a
  obtain ⟨y, hy⟩ := before_isPrefix '{' c
  generalize behind '{' a = a' at hx
  generalize before '{' c = c' at hy
  subst hx
  subst hy
  rw [List.length_append, List.append_assoc] at h
  exact h.drop.cut ⟨y, by simp⟩ hne

/-- What a record of another type than A gives: nothing. -/
theorem pieces_of_not_one {a z : Text} {n : Nat} (hn : n ≠ 1)
    (honly : OnlyAt typeMark
      (a ++ (key "type".toList ++ (number n ++ z))) a.length) :
    (splitOn (· == '{') (a ++ (key "type".toList ++ (number n ++ z)))).filterMap
      recordAddress = [] := by
  by_cases hat : At typeMark
      (a ++ (key "type".toList ++ (number n ++ z))) a.length
  · unfold Lib.At at hat
    rw [List.drop_left, typeMark_eq, List.prefix_append_right_inj] at hat
    obtain ⟨d, ds, hnum⟩ := List.exists_cons_of_ne_nil (number_ne_nil n)
    rw [hnum] at hat
    obtain ⟨d', ds', rfl, hdigit⟩ := number_cons
      (hnum.trans (by rw [(List.cons_prefix_cons.mp hat).1])) hn
    have htext : key "type".toList ++ (number n ++ z)
        = typeMark ++ (d' :: (ds' ++ z)) := by
      rw [hnum, ← (List.cons_prefix_cons.mp hat).1]
      rfl
    rw [htext] at honly ⊢
    have hne : d' ≠ '{' := by
      intro h
      subst h
      exact absurd hdigit (by decide)
    rw [pieces_window honly, recordAddress_eq,
      recordIsTypeA_onlyAt (onlyAt_window honly typeMark_ne_nil),
      before_cons hne]
    simp [hdigit]
  · refine pieces_eq_nil fun k hk => hat ?_
    rwa [honly k hk] at hk

/-- What a record of type A gives is in the piece around the mark. -/
theorem pieces_of_one {a z : Text}
    (honly : OnlyAt typeMark (a ++ (typeMark ++ z)) a.length)
    (hz : Stops z) (hne : z ≠ []) :
    (splitOn (· == '{') (a ++ (typeMark ++ z))).filterMap recordAddress
      = (dataAddress
          (behind '{' a ++ (typeMark ++ before '{' z))).toList := by
  obtain ⟨hstop, hne⟩ := before_stops hz hne '{' (by decide)
    (by decide)
  obtain ⟨c, u, hu⟩ := List.exists_cons_of_ne_nil hne
  have hhead : (before '{' z).head?.any isDigit = false := by
    rw [hu] at hstop ⊢
    rcases hstop c rfl with rfl | rfl
    · rfl
    · rfl
  rw [pieces_window honly, recordAddress_eq,
    recordIsTypeA_onlyAt (onlyAt_window honly typeMark_ne_nil), hhead]
  rfl

/-- The scan of a record, by what stands in front of its type and what
stands behind it. -/
theorem scan_of_type {a z : Text} {n : Nat}
    (honly : OnlyAt (key "type".toList)
      (a ++ (key "type".toList ++ (number n ++ z))) a.length)
    (hz : Stops z) (hne : z ≠ []) :
    scan (a ++ (key "type".toList ++ (number n ++ z)))
      = if n = 1 ∧ ']' ∉ a then
          (dataAddress (behind '{' a
            ++ (typeMark ++ before '{' (before ']' z)))).toList
        else [] := by
  have hmark : OnlyAt typeMark (a ++ (key "type".toList ++ (number n ++ z)))
      a.length := honly.longer (typeMark_eq ▸ List.prefix_append _ _)
  unfold scan
  by_cases hbracket : ']' ∈ a
  · rw [if_neg (by simp [hbracket]), before_append_of_mem hbracket]
    refine pieces_eq_nil fun k => ?_
    refine not_at_of_infix (before_isPrefix ']' a).isInfix typeMark_ne_nil ?_
    intro k
    refine hmark.not_before ?_ typeMark_ne_nil
    exact Nat.lt_add_of_pos_right (List.length_pos_iff.mpr typeMark_ne_nil)
  · have hkey : ']' ∉ key "type".toList := by decide
    have hnum : ']' ∉ number n :=
      fun h => absurd (number_digits n _ h) (by decide)
    have hcut := hmark.cut (before_isPrefix ']' _) typeMark_ne_nil
    rw [before_append_of_not_mem hbracket, before_append_of_not_mem hkey,
      before_append_of_not_mem hnum] at hcut ⊢
    by_cases hn : n = 1
    · subst hn
      obtain ⟨hstop, hne⟩ := before_stops hz hne ']' (by decide)
        (by decide)
      rw [if_pos ⟨rfl, hbracket⟩]
      exact pieces_of_one hcut hstop hne
    · rw [if_neg (by simp [hn])]
      exact pieces_of_not_one hn hcut

-- ========================================================== the record

/-- What is read of data: up to a quote, and to a brace or a bracket
that the text was cut at before. -/
def cut (t : Text) : Text := before '"' (before '{' (before ']' t))

/-- The cut is at a quote or before it. -/
theorem cut_append_quote (t u : Text) : cut (t ++ '"' :: u) = cut t := by
  have hstop : ∀ {p : Char → Bool}, p '"' = false → ∀ t u : Text,
      (t ++ '"' :: u).takeWhile p = t.takeWhile p := by
    intro p hp t u
    induction t with
    | nil => exact List.takeWhile_cons_of_neg (by simp [hp])
    | cons c t ih =>
        rw [List.cons_append, List.takeWhile_cons, List.takeWhile_cons, ih]
  unfold cut before
  rw [List.takeWhile_takeWhile, List.takeWhile_takeWhile,
    List.takeWhile_takeWhile, List.takeWhile_takeWhile]
  exact hstop (by simp) t u

/-- A record and what follows it, behind its opening brace. -/
def behindBrace (r : Record) (g : Gap) : Text := object r.members ++ '}' :: g.1

theorem gap_chars (g : Gap) {c : Char} (hc : isGap c = false) : c ∉ g.1 := by
  intro h
  rw [List.all_eq_true.mp g.2 c h] at hc
  cases hc

variable {r : Record} {g : Gap}

/-- The other members in front of the first key, and between the two. -/
def frontText (r : Record) : Text := leading (r.front.map Other.member)

/-- What stands between the two members. -/
def midText (r : Record) : Text := ',' :: leading (r.mid.map Other.member)

/-- What stands behind the type, if the data does. -/
def dataTail (r : Record) (g : Gap) : Text :=
  midText r ++ (dataMark ++ (spell r.data
    ++ '"' :: (trailing (r.back.map Other.member) ++ '}' :: g.1)))

/-- What stands in front of the type, if the data does. -/
def dataLead (r : Record) : Text :=
  frontText r ++ (dataMark ++ (spell r.data ++ '"' :: midText r))

/-- The text of a record that says its type first, -/
theorem typeFirst_text (h : r.dataFirst = false) :
    behindBrace r g = frontText r ++ (key "type".toList
      ++ (number r.type ++ dataTail r g)) := by
  unfold behindBrace Record.members
  rw [h]
  simp only [Bool.false_eq_true, if_false]
  rw [object_eq, trailing_append, trailing_cons]
  have hcomma := trailing_comma (r.mid.map Other.member)
  unfold dataTail midText
  rw [← hcomma]
  simp [frontText, Member.text, Record.typeMember, Record.dataMember,
    literal, dataMark_eq]

/-- and of one that says its data first. -/
theorem dataFirst_text (h : r.dataFirst = true) :
    behindBrace r g = dataLead r ++ (key "type".toList
      ++ (number r.type
        ++ (trailing (r.back.map Other.member) ++ '}' :: g.1))) := by
  unfold behindBrace Record.members
  rw [h]
  simp only [if_true]
  rw [← List.cons_append, ← List.append_assoc, object_eq, leading_append,
    leading_cons]
  simp [dataLead, midText, frontText, Member.text, Record.typeMember,
    Record.dataMember, literal, dataMark_eq]

/-- The first of the two members of a record is where its key is, -/
theorem first_onlyAt (r : Record) (g : Gap) {first second : Member}
    (hfirst : first.Flat) (hsecond : second.Flat)
    (hne : first.key ≠ second.key)
    (hk : first.key = "type".toList ∨ first.key = "data".toList) :
    OnlyAt (key first.key) (object (r.front.map Other.member
      ++ first :: (r.mid.map Other.member
        ++ second :: r.back.map Other.member)) ++ '}' :: g.1)
      (frontText r).length := by
  refine key_onlyAt hfirst (others_flat r.front hk) ?_
    (gap_chars g (by decide))
  intro m hm
  rcases List.mem_append.mp hm with hm | hm
  · exact others_flat r.mid hk m hm
  rcases List.mem_cons.mp hm with rfl | hm
  · exact ⟨hsecond, hne⟩
  · exact others_flat r.back hk m hm

/-- and so is the second. -/
theorem second_onlyAt (r : Record) (g : Gap) {first second : Member}
    (hfirst : first.Flat) (hsecond : second.Flat)
    (hne : second.key ≠ first.key)
    (hk : second.key = "type".toList ∨ second.key = "data".toList) :
    OnlyAt (key second.key) (object (r.front.map Other.member
      ++ first :: (r.mid.map Other.member
        ++ second :: r.back.map Other.member)) ++ '}' :: g.1)
      (frontText r ++ (first.text ++ midText r)).length := by
  have hlead : frontText r ++ (first.text ++ midText r)
      = leading (r.front.map Other.member
        ++ first :: r.mid.map Other.member) := by
    rw [leading_append, leading_cons]
    rfl
  rw [hlead, ← List.cons_append, ← List.append_assoc]
  refine key_onlyAt hsecond ?_ (others_flat r.back hk)
    (gap_chars g (by decide))
  intro m hm
  rcases List.mem_append.mp hm with hm | hm
  · exact others_flat r.front hk m hm
  rcases List.mem_cons.mp hm with rfl | hm
  · exact ⟨hfirst, hne⟩
  · exact others_flat r.mid hk m hm

theorem type_ne_data : "type".toList ≠ "data".toList := by decide

/-- What of a record of type A comes to the scan in one piece: from one
key to the other, and the data behind both. -/
structure Reached (r : Record) : Prop where
  front : ']' ∉ frontText r
  mid : '{' ∉ midText r ∧ ']' ∉ midText r
  data : r.dataFirst = true → '{' ∉ spell r.data ∧ ']' ∉ spell r.data

/-- Cut at a brace or a bracket, a text ends there. -/
theorem cut_isPrefix {m : Text} (h : ¬('{' ∉ m ∧ ']' ∉ m)) (t : Text) :
    before '{' (before ']' (m ++ t)) <+: m := by
  by_cases hbracket : ']' ∈ m
  · rw [before_append_of_mem hbracket]
    exact (before_isPrefix '{' _).trans (before_isPrefix ']' m)
  · have hbrace : '{' ∈ m := by
      by_contra hbrace
      exact h ⟨hbrace, hbracket⟩
    rw [before_append_of_not_mem hbracket, before_append_of_mem hbrace]
    exact before_isPrefix '{' m

theorem typeMember_text (hone : r.type = 1) :
    r.typeMember.text = typeMark := by
  unfold Member.text Record.typeMember
  rw [hone]
  rfl

section TypeFirst

variable (hfirst : r.dataFirst = false)
include hfirst

/-- What is picked of the one, -/
theorem scan_typeFirst : scan (behindBrace r g)
    = if r.type = 1 ∧ ']' ∉ frontText r then
        (dataAddress (behind '{' (frontText r)
          ++ (typeMark ++ before '{' (before ']' (dataTail r g))))).toList
      else [] := by
  have htype : OnlyAt (key "type".toList) (behindBrace r g)
      (frontText r).length := by
    unfold behindBrace Record.members
    rw [hfirst]
    exact first_onlyAt r g (typeMember_flat r) (dataMember_flat r)
      type_ne_data (.inl rfl)
  rw [typeFirst_text hfirst] at htype ⊢
  exact scan_of_type htype (stops_comma _) (by simp [dataTail, midText])

variable (hone : r.type = 1)
include hone

/-- Where the data is in a record with its type in front. -/
theorem typeFirst_data :
    behindBrace r g = frontText r ++ (typeMark ++ dataTail r g)
      ∧ OnlyAt dataMark (behindBrace r g)
        (frontText r ++ (typeMark ++ midText r)).length := by
  refine ⟨?_, ?_⟩
  · rw [typeFirst_text hfirst, hone]
    rfl
  · rw [← typeMember_text hone]
    refine OnlyAt.longer ?_ key_isPrefix_dataMark
    unfold behindBrace Record.members
    rw [hfirst]
    exact second_onlyAt r g (typeMember_flat r) (dataMember_flat r)
      type_ne_data.symm (.inr rfl)

/-- Where the search gets to the data, its text is picked, up to a quote. -/
theorem scan_typeFirst_reached (h : Reached r) :
    scan (behindBrace r g) = (picked (cut (spell r.data))).toList := by
  obtain ⟨htext, hdata⟩ := typeFirst_data (g := g) hfirst hone
  rw [scan_typeFirst hfirst, if_pos ⟨hone, h.front⟩]
  have hbrace : '{' ∉ dataMark := by decide
  have hbracket : ']' ∉ dataMark := by decide
  obtain ⟨x, hx⟩ := behind_suffix '{' (frontText r)
  unfold dataTail at htext ⊢
  rw [htext] at hdata
  rw [before_append_of_not_mem h.mid.2, before_append_of_not_mem hbracket,
    before_append_of_not_mem h.mid.1, before_append_of_not_mem hbrace]
  generalize hrest : spell r.data
    ++ '"' :: (trailing (r.back.map Other.member) ++ '}' :: g.1) = rest
    at hdata ⊢
  have hpre : before '{' (before ']' rest) <+: rest :=
    (before_isPrefix '{' _).trans (before_isPrefix ']' rest)
  have honly : OnlyAt dataMark
      (behind '{' (frontText r) ++ (typeMark ++ midText r)
        ++ (dataMark ++ before '{' (before ']' rest)))
      (behind '{' (frontText r) ++ (typeMark ++ midText r)).length := by
    obtain ⟨y, hy⟩ := hpre
    generalize behind '{' (frontText r) = a at hx
    rw [← hx, List.append_assoc, List.append_assoc, List.length_append]
      at hdata
    refine hdata.drop.cut ⟨y, ?_⟩ dataMark_ne_nil
    conv_rhs => rw [← hy]
    simp
  rw [← List.append_assoc typeMark, ← List.append_assoc,
    dataAddress_onlyAt honly, ← hrest]
  exact congrArg (fun t => (picked t).toList) (cut_append_quote _ _)

/-- Where it does not, nothing is. -/
theorem scan_typeFirst_of_not (h : ¬Reached r) :
    scan (behindBrace r g) = [] := by
  obtain ⟨htext, hdata⟩ := typeFirst_data (g := g) hfirst hone
  rw [scan_typeFirst hfirst]
  by_cases hfront : ']' ∈ frontText r
  · exact if_neg (by simp [hfront])
  have hmid : ¬('{' ∉ midText r ∧ ']' ∉ midText r) := by
    intro hmid
    exact h ⟨hfront, hmid, fun ht => by rw [hfirst] at ht; cases ht⟩
  rw [if_pos ⟨hone, hfront⟩]
  -- the piece ends between the keys, in front of the data
  have hnone : ∀ k, ¬At dataMark (behind '{' (frontText r)
      ++ (typeMark ++ before '{' (before ']' (dataTail r g)))) k := by
    intro k
    obtain ⟨x, hx⟩ := behind_suffix '{' (frontText r)
    obtain ⟨y, hy⟩ := cut_isPrefix hmid
      (dataMark ++ (spell r.data
        ++ '"' :: (trailing (r.back.map Other.member) ++ '}' :: g.1)))
    have hinf : behind '{' (frontText r)
          ++ (typeMark ++ before '{' (before ']' (dataTail r g)))
        <:+: frontText r ++ (typeMark ++ midText r) := by
      refine ⟨x, y, ?_⟩
      unfold dataTail
      conv_rhs => rw [← hx, ← hy]
      simp
    refine not_at_of_infix hinf dataMark_ne_nil fun k => ?_
    rw [htext] at hdata
    unfold dataTail at hdata
    rw [← List.append_assoc typeMark, ← List.append_assoc] at hdata
    exact hdata.front dataMark_ne_nil
  rw [dataAddress_eq_none hnone]
  rfl

end TypeFirst

section DataFirst

variable (hfirst : r.dataFirst = true)
include hfirst

/-- and of the other. -/
theorem scan_dataFirst : ∃ q, q <+: trailing (r.back.map Other.member)
      ++ '}' :: g.1
    ∧ scan (behindBrace r g)
      = if r.type = 1 ∧ ']' ∉ dataLead r then
          (dataAddress (behind '{' (dataLead r) ++ (typeMark ++ q))).toList
        else [] := by
  refine ⟨_, (before_isPrefix '{' _).trans (before_isPrefix ']' _), ?_⟩
  have htype : OnlyAt (key "type".toList) (behindBrace r g)
      (dataLead r).length := by
    have hlead : dataLead r
        = frontText r ++ (r.dataMember.text ++ midText r) := by
      simp [dataLead, Member.text, Record.dataMember, literal, dataMark_eq]
    rw [hlead]
    unfold behindBrace Record.members
    rw [hfirst]
    exact second_onlyAt r g (dataMember_flat r) (typeMember_flat r)
      type_ne_data (.inl rfl)
  rw [dataFirst_text hfirst] at htype ⊢
  exact scan_of_type htype (stops_trailing _ (stops_brace g.1)) (by simp)

variable (hone : r.type = 1)
include hone

/-- Where the data is in a record with its data in front. -/
theorem dataFirst_data :
    behindBrace r g = dataLead r ++ (typeMark
        ++ (trailing (r.back.map Other.member) ++ '}' :: g.1))
      ∧ OnlyAt dataMark (behindBrace r g) (frontText r).length := by
  refine ⟨?_, ?_⟩
  · rw [dataFirst_text hfirst, hone]
    rfl
  · refine OnlyAt.longer ?_ key_isPrefix_dataMark
    unfold behindBrace Record.members
    rw [hfirst]
    exact first_onlyAt r g (dataMember_flat r) (typeMember_flat r)
      type_ne_data.symm (.inr rfl)

theorem scan_dataFirst_reached (h : Reached r) :
    scan (behindBrace r g) = (picked (cut (spell r.data))).toList := by
  obtain ⟨htext, hdata⟩ := dataFirst_data (g := g) hfirst hone
  obtain ⟨q, hq, hscan⟩ := scan_dataFirst (g := g) hfirst
  obtain ⟨hbrace, hbracket⟩ := h.data hfirst
  have hlead : ']' ∉ dataLead r := by
    have hmark : ']' ∉ dataMark := by decide
    simp [dataLead, h.front, h.mid.2, hbracket, hmark]
  have hbehind : '{' ∉ dataMark ++ (spell r.data ++ '"' :: midText r) := by
    have hmark : '{' ∉ dataMark := by decide
    simp [h.mid.1, hbrace, hmark]
  rw [hscan, if_pos ⟨hone, hlead⟩]
  unfold dataLead at htext ⊢
  rw [behind_append_of_not_mem hbehind]
  have honly : OnlyAt dataMark (behind '{' (frontText r) ++ (dataMark
      ++ (spell r.data ++ '"' :: (midText r ++ (typeMark ++ q)))))
      (behind '{' (frontText r)).length := by
    obtain ⟨x, hx⟩ := behind_suffix '{' (frontText r)
    obtain ⟨y, hy⟩ := hq
    rw [htext] at hdata
    generalize behind '{' (frontText r) = a at hx
    rw [← hx, List.append_assoc, List.append_assoc, List.length_append]
      at hdata
    refine hdata.drop.cut ⟨y, ?_⟩ dataMark_ne_nil
    rw [← hy]
    simp
  have hcut : before '"' (spell r.data
      ++ '"' :: (midText r ++ (typeMark ++ q))) = cut (spell r.data) := by
    rw [before_append_sep]
    unfold cut
    rw [before_eq hbracket, before_eq hbrace]
  rw [← hcut, ← dataAddress_onlyAt honly]
  simp

theorem scan_dataFirst_of_not (h : ¬Reached r) :
    scan (behindBrace r g) = [] := by
  obtain ⟨htext, hdata⟩ := dataFirst_data (g := g) hfirst hone
  obtain ⟨q, ⟨y, hy⟩, hscan⟩ := scan_dataFirst (g := g) hfirst
  rw [hscan]
  by_cases hlead : ']' ∈ dataLead r
  · exact if_neg (by simp [hlead])
  rw [if_pos ⟨hone, hlead⟩]
  have hbrace : '{' ∈ spell r.data ++ '"' :: midText r := by
    by_contra hbrace
    simp only [dataLead, List.mem_append, List.mem_cons, not_or]
      at hlead hbrace
    obtain ⟨hfront, -, hspell, -, hmid⟩ := hlead
    exact h ⟨hfront, ⟨hbrace.2.2, hmid⟩, fun _ => ⟨hbrace.1, hspell⟩⟩
  -- the piece starts behind the data's key
  have hnone : ∀ k, ¬At dataMark
      (behind '{' (dataLead r) ++ (typeMark ++ q)) k := by
    intro k
    have hmem : '{' ∈ dataMark ++ (spell r.data ++ '"' :: midText r) :=
      List.mem_append_right _ hbrace
    obtain ⟨x, hx⟩ := behind_suffix '{' (spell r.data ++ '"' :: midText r)
    unfold dataLead at htext ⊢
    rw [behind_append_of_mem hmem, behind_append_of_mem hbrace]
    have hinf : behind '{' (spell r.data ++ '"' :: midText r)
          ++ (typeMark ++ q)
        <:+: (spell r.data ++ '"' :: midText r) ++ (typeMark
          ++ (trailing (r.back.map Other.member) ++ '}' :: g.1)) := by
      refine ⟨x, y, ?_⟩
      rw [← hy]
      conv_rhs => rw [← hx]
      simp
    refine not_at_of_infix hinf dataMark_ne_nil fun k => ?_
    rw [htext] at hdata
    simp only [List.append_assoc, List.cons_append] at hdata ⊢
    exact hdata.back dataMark_ne_nil
  rw [dataAddress_eq_none hnone]
  rfl

end DataFirst

/-- What the scan makes of a record: its data, as far as it reaches. -/
theorem scan_reached (hone : r.type = 1) (h : Reached r) :
    scan (behindBrace r g) = (picked (cut (spell r.data))).toList := by
  cases hfirst : r.dataFirst with
  | false => exact scan_typeFirst_reached hfirst hone h
  | true => exact scan_dataFirst_reached hfirst hone h

/-- Either way nothing is picked of a record that is not got to, -/
theorem scan_of_not_reached (hone : r.type = 1) (h : ¬Reached r) :
    scan (behindBrace r g) = [] := by
  cases hfirst : r.dataFirst with
  | false => exact scan_typeFirst_of_not hfirst hone h
  | true => exact scan_dataFirst_of_not hfirst hone h

/-- or is of another type. -/
theorem scan_of_other_type (hone : r.type ≠ 1) :
    scan (behindBrace r g) = [] := by
  cases hfirst : r.dataFirst with
  | false =>
      rw [scan_typeFirst hfirst]
      exact if_neg (by simp [hone])
  | true =>
      obtain ⟨q, -, hscan⟩ := scan_dataFirst (g := g) hfirst
      rw [hscan]
      exact if_neg (by simp [hone])

end Wrtg.Doh
