/-
What the scan makes of a whole response, and when it is what the response
answers.

Data is read as it is meant if it is spelt as itself (`picked_cut`); a
record of type A then gives its address if both keys are reached
(`legible_iff`, `scan_eq_iff`), and an answer gives those of all its
records if no closing bracket comes before one (`readAll_eq_iff`). A
record gives one address at most and none if it is not of type A, so that
nothing makes up for one that is lost.
-/
import Wrtg.Proofs.Doh.Record

namespace Wrtg.Doh

open Lib (At OnlyAt)
open Lib.Json Text DnsJson

-- =========================================================== the string

theorem not_mem_cut {t : Text} :
    '"' ∉ cut t ∧ '{' ∉ cut t ∧ ']' ∉ cut t := by
  unfold cut
  refine ⟨not_mem_before _ _, fun h => ?_, fun h => ?_⟩
  · exact not_mem_before '{' _ ((before_isPrefix '"' _).subset h)
  · exact not_mem_before ']' _ ((before_isPrefix '{' _).subset
      ((before_isPrefix '"' _).subset h))

theorem cut_eq {t : Text} (hquote : '"' ∉ t) (hbrace : '{' ∉ t)
    (hbracket : ']' ∉ t) : cut t = t := by
  unfold cut
  rw [before_eq hbracket, before_eq hbrace, before_eq hquote]

/-- What is no character of escapes is spelt as itself only. -/
theorem mem_value {c : Char} (hc : isEscapeChar c = false) {s : List Piece}
    (h : c ∈ spell s) : c ∈ value s := by
  obtain ⟨p, hp, hcp⟩ := List.mem_flatMap.mp h
  refine List.mem_map.mpr ⟨p, hp, ?_⟩
  cases p with
  | plain d hd => exact (List.mem_singleton.mp hcp).symm
  | escape e =>
      rcases List.mem_cons.mp hcp with rfl | hbody
      · exact absurd hc (by decide)
      · rw [(unescape_chars e.valid).2.1 c hbody] at hc
        cases hc

theorem quote_mem_value {s : List Piece} (h : '"' ∈ spell s) :
    '"' ∈ value s := by
  obtain ⟨p, hp, hcp⟩ := List.mem_flatMap.mp h
  refine List.mem_map.mpr ⟨p, hp, ?_⟩
  cases p with
  | plain d hd => exact (List.mem_singleton.mp hcp).symm
  | escape e =>
      have hbody : '"' ∈ e.body := by
        rcases List.mem_cons.mp hcp with h | h
        · exact absurd h (by decide)
        · exact h
      have hvalid := e.valid
      rw [(unescape_chars hvalid).2.2 hbody] at hvalid
      exact (Option.some.inj hvalid).symm

/-- How many characters there are other than white space. -/
def ink (t : Text) : Nat := t.countP (!isWhitespace ·)

theorem ink_trim (t : Text) : ink (trim t) = ink t := by
  have hdrop : ∀ t : Text, ink (t.dropWhile isWhitespace) = ink t := by
    intro t
    induction t with
    | nil => rfl
    | cons c t ih =>
        by_cases hc : isWhitespace c = true
        · rw [List.dropWhile_cons_of_pos hc, ih]
          exact (List.countP_cons_of_neg (by simp [hc])).symm
        · rw [List.dropWhile_cons_of_neg hc]
  unfold trim trimEnd trimStart
  rw [ink, List.countP_reverse]
  show ink (List.dropWhile _ _) = _
  rw [hdrop, ink, List.countP_reverse]
  exact hdrop t

theorem ink_escape {c : Char} (h : isEscapeChar c = true) :
    isWhitespace c = false := by
  have hrange : 0x21 ≤ c.toNat ∧ c.toNat ≤ 0x7E := by
    unfold isEscapeChar at h
    simp only [Bool.or_eq_true, Bool.and_eq_true, decide_eq_true_eq,
      beq_iff_eq] at h
    rcases h with ((((h | h) | h) | rfl) | rfl) | rfl
    · omega
    · omega
    · omega
    · decide
    · decide
    · decide
  unfold isWhitespace
  simp only [Bool.or_eq_false_iff, Bool.and_eq_false_iff,
    decide_eq_false_iff_not, beq_eq_false_iff_ne]
  omega

theorem ink_append (t u : Text) : ink (t ++ u) = ink t + ink u :=
  List.countP_append

/-- An escape takes more to spell than it stands for. -/
theorem ink_spelled (e : Escape) :
    ink [e.char] < ink (Piece.spelled (.escape e)) := by
  obtain ⟨hne, hchars, -⟩ := unescape_chars e.valid
  have hspelled : ink (Piece.spelled (.escape e)) = e.body.length + 1 := by
    show ink ('\\' :: e.body) = _
    unfold ink
    rw [List.countP_cons_of_pos (by decide), List.countP_eq_length.mpr]
    intro c hc
    rw [ink_escape (hchars c hc)]
    rfl
  have hone : ink [e.char] ≤ 1 := List.countP_le_length
  have hpos := List.length_pos_iff.mpr hne
  omega

theorem ink_value_le (s : List Piece) : ink (value s) ≤ ink (spell s) := by
  induction s with
  | nil => exact Nat.le_refl _
  | cons p s ih =>
      rw [spell_cons, value_cons, ← List.singleton_append, ink_append,
        ink_append]
      refine Nat.add_le_add ?_ ih
      cases p with
      | plain c hc => exact Nat.le_refl _
      | escape e => exact Nat.le_of_lt (ink_spelled e)

/-- A string that takes no more to spell than it says is spelt as
itself. -/
theorem spell_eq_value {s : List Piece} (h : ink (spell s) ≤ ink (value s)) :
    spell s = value s ∧ '"' ∉ spell s := by
  induction s with
  | nil => exact ⟨rfl, List.not_mem_nil⟩
  | cons p s ih =>
      have hle := ink_value_le s
      rw [spell_cons, value_cons, ← List.singleton_append, ink_append,
        ink_append] at h
      cases p with
      | plain c hc =>
          obtain ⟨heq, hquote⟩ := ih (by
            change ink [c] + _ ≤ ink [c] + _ at h
            omega)
          refine ⟨?_, ?_⟩
          · rw [spell_cons, value_cons, heq]
            rfl
          · rw [spell_cons, List.mem_append, not_or]
            exact ⟨by simpa [Piece.spelled] using (plain_ne hc).1.symm, hquote⟩
      | escape e =>
          have hlt := ink_spelled e
          change ink (Piece.spelled (.escape e)) + _ ≤ ink [e.char] + _ at h
          omega

/-- The data is read as it is meant if it is spelt as itself, and
nothing in it cuts it short. -/
theorem picked_cut {s : List Piece} :
    picked (cut (spell s)) = some (value s) ↔
      spell s = value s ∧ ('{' ∉ value s ∧ ']' ∉ value s)
        ∧ trim (value s) = value s ∧ value s ≠ [] := by
  constructor
  · intro h
    unfold picked at h
    simp only at h
    split at h
    · cases h
    · next hne =>
        have htrim : trim (cut (spell s)) = value s := Option.some.inj h
        rw [htrim] at hne
        have hsub : ∀ {c : Char}, c ∉ cut (spell s) → c ∉ value s := by
          intro c hc hv
          rw [← htrim] at hv
          exact hc (mem_of_mem_trim hv)
        obtain ⟨hquote, hbrace, hbracket⟩ := not_mem_cut (t := spell s)
        have hcut : cut (spell s) = spell s :=
          cut_eq (fun h => hsub hquote (quote_mem_value h))
            (fun h => hsub hbrace (mem_value (by decide) h))
            (fun h => hsub hbracket (mem_value (by decide) h))
        rw [hcut] at htrim
        have hink : ink (spell s) ≤ ink (value s) := by
          rw [← htrim, ink_trim]
        obtain ⟨heq, -⟩ := spell_eq_value hink
        refine ⟨heq, ⟨hsub hbrace, hsub hbracket⟩, ?_, by simpa using hne⟩
        rw [← heq] at htrim ⊢
        exact htrim
  · intro h
    obtain ⟨heq, ⟨hbrace, hbracket⟩, htrim, hne⟩ := h
    have hquote : '"' ∉ spell s :=
      (spell_eq_value (Nat.le_of_eq (by rw [heq]))).2
    rw [← heq] at hbrace hbracket
    unfold picked
    rw [cut_eq hquote hbrace hbracket, heq, htrim]
    exact if_neg (by simpa using hne)

-- ========================================================== the record

/-- A record whose address is read: no bracket in a string up to the
later of its two keys, no brace in one between them, and data that is
written as it is, without either, trimmed and not empty. -/
structure Legible (r : Record) : Prop where
  bracket : ∀ f ∈ r.front ++ r.mid, ']' ∉ f.member.value
  brace : ∀ f ∈ r.mid, '{' ∉ f.member.value
  spelled : spell r.data = value r.data
  marks : '{' ∉ value r.data ∧ ']' ∉ value r.data
  trimmed : trim (value r.data) = value r.data
  ne_nil : value r.data ≠ []

instance (r : Record) : Decidable (Legible r) :=
  decidable_of_iff ((∀ f ∈ r.front ++ r.mid, ']' ∉ f.member.value)
      ∧ (∀ f ∈ r.mid, '{' ∉ f.member.value)
      ∧ spell r.data = value r.data
      ∧ ('{' ∉ value r.data ∧ ']' ∉ value r.data)
      ∧ trim (value r.data) = value r.data ∧ value r.data ≠ [])
    ⟨fun h => ⟨h.1, h.2.1, h.2.2.1, h.2.2.2.1, h.2.2.2.2.1, h.2.2.2.2.2⟩,
      fun h => ⟨h.bracket, h.brace, h.spelled, h.marks, h.trimmed, h.ne_nil⟩⟩

theorem not_mem_key {k : List Char} (hk : IsKey k) {c : Char}
    (hc : c.isAlpha = false) (hquote : c ≠ '"') (hcolon : c ≠ ':') :
    c ∉ key k := by
  simp [key, hk.not_mem hc, hquote, hcolon]

/-- What stands in members stands in their values. -/
theorem mem_leading {fs : List Other} {c : Char}
    (hc : c = '{' ∨ c = ']') :
    c ∈ leading (fs.map Other.member) ↔ ∃ f ∈ fs, c ∈ f.member.value := by
  have hplain : c.isAlpha = false ∧ c ≠ '"' ∧ c ≠ ':' ∧ c ≠ ',' := by
    rcases hc with rfl | rfl
    · decide
    · decide
  obtain ⟨halpha, hquote, hcolon, hcomma⟩ := hplain
  have htext : ∀ f : Other, c ∈ f.member.text ++ [',']
      ↔ c ∈ f.member.value := by
    intro f
    have hkey := not_mem_key (other_flat f).1.isKey halpha hquote hcolon
    simp [Member.text, hkey, hcomma]
  simp only [leading, List.mem_flatMap, List.mem_map,
    exists_exists_and_eq_and, htext]

theorem legible_iff (r : Record) : Legible r ↔
    Reached r ∧ picked (cut (spell r.data)) = some (value r.data) := by
  have hfront : ']' ∉ frontText r
      ↔ ∀ f ∈ r.front, ']' ∉ f.member.value := by
    unfold frontText
    rw [mem_leading (.inr rfl)]
    simp
  have hmid : ∀ {c : Char}, c = '{' ∨ c = ']' →
      (c ∉ midText r ↔ ∀ f ∈ r.mid, c ∉ f.member.value) := by
    intro c hc
    have hcomma : c ≠ ',' := by
      rcases hc with rfl | rfl
      · decide
      · decide
    unfold midText
    rw [List.mem_cons, mem_leading hc]
    simp [hcomma]
  rw [picked_cut]
  constructor
  · intro h
    refine ⟨⟨hfront.mpr fun f hf => h.bracket f (by simp [hf]),
      ⟨(hmid (.inl rfl)).mpr h.brace,
        (hmid (.inr rfl)).mpr fun f hf => h.bracket f (by simp [hf])⟩,
      fun _ => ?_⟩, h.spelled, h.marks, h.trimmed, h.ne_nil⟩
    rw [h.spelled]
    exact h.marks
  · intro h
    obtain ⟨hreached, hspelled, hmarks, htrimmed, hne⟩ := h
    refine ⟨?_, (hmid (.inl rfl)).mp hreached.mid.1, hspelled, hmarks,
      htrimmed, hne⟩
    intro f hf
    rcases List.mem_append.mp hf with hf | hf
    · exact hfront.mp hreached.front f hf
    · exact (hmid (.inr rfl)).mp hreached.mid.2 f hf

theorem addresses_cons (r : Record) (rs : List Record) :
    addresses (r :: rs)
      = (if r.type = 1 then [value r.data] else []) ++ addresses rs := by
  unfold addresses
  by_cases hone : r.type = 1
  · rw [List.filter_cons_of_pos (by simp [hone]), if_pos hone]
    rfl
  · rw [List.filter_cons_of_neg (by simp [hone]), if_neg hone]
    rfl

/-- A record gives one address at most, and none but of type A. -/
theorem scan_length (r : Record) (g : Gap) :
    (scan (behindBrace r g)).length
      ≤ (if r.type = 1 then [value r.data] else []).length := by
  by_cases hone : r.type = 1
  · rw [if_pos hone]
    by_cases h : Reached r
    · rw [scan_reached hone h]
      cases picked (cut (spell r.data)) with
      | none => exact Nat.zero_le _
      | some ip => exact Nat.le_refl _
    · rw [scan_of_not_reached hone h]
      exact Nat.zero_le _
  · rw [scan_of_other_type hone]
    exact Nat.zero_le _

/-- The scan of a record gives its address if it is legible. -/
theorem scan_eq_iff (r : Record) (g : Gap) :
    scan (behindBrace r g) = (if r.type = 1 then [value r.data] else [])
      ↔ (r.type = 1 → Legible r) := by
  by_cases hone : r.type = 1
  · rw [if_pos hone, legible_iff]
    by_cases h : Reached r
    · rw [scan_reached hone h]
      cases picked (cut (spell r.data)) with
      | none => simp [hone]
      | some ip => simp [hone, h]
    · rw [scan_of_not_reached hone h]
      simp [hone, h]
  · rw [if_neg hone, scan_of_other_type hone]
    simp [hone]

-- =========================================================== the answer

/-- What is read of the records of an answer: nothing behind the first
closing bracket. -/
def readAll : List (Record × Gap) → List Text
  | [] => []
  | (r, g) :: rs =>
      scan (behindBrace r g)
        ++ (if ']' ∈ behindBrace r g then [] else readAll rs)

theorem recordsText_cons (r : Record) (g : Gap) (rs : List (Record × Gap))
    (t : Text) :
    recordsText ((r, g) :: rs) ++ t
      = '{' :: (behindBrace r g ++ (recordsText rs ++ t)) := by
  simp [recordsText, Record.text, behindBrace]

/-- The pieces of a text, and of one behind it that starts with a brace
if at all. -/
theorem splitOn_append_brace {t u : Text}
    (hu : u = [] ∨ ∃ v, u = '{' :: v) :
    splitOn (· == '{') (t ++ u)
      = splitOn (· == '{') t ++ (splitOn (· == '{') u).drop 1 := by
  rcases hu with rfl | ⟨v, rfl⟩
  · rw [List.append_nil]
    exact (List.append_nil _).symm
  · rw [splitOn_append_cons (by simp), splitOn_cons_sep (by simp)]
    rfl

/-- The array as the code reads it, record by record. -/
theorem readArray_eq (rs : List (Record × Gap)) (back : Text) {u : Text}
    (hbrace : '{' ∉ u) (hbracket : ']' ∉ u) :
    readArray (u ++ (recordsText rs ++ ']' :: back)) = readAll rs := by
  induction rs generalizing u with
  | nil =>
      unfold readArray
      rw [show recordsText [] = [] from rfl, List.nil_append,
        before_append_sep, before_eq hbracket]
      simp only [splitOn_of_not_mem hbrace]
      rfl
  | cons rg rs ih =>
      obtain ⟨r, g⟩ := rg
      have ih := ih (u := []) List.not_mem_nil List.not_mem_nil
      rw [List.nil_append] at ih
      have hpieces : ∀ t, splitOn (· == '{') (u ++ '{' :: t)
          = u :: splitOn (· == '{') t := by
        intro t
        rw [splitOn_append_cons (by simp), splitOn_of_not_mem hbrace]
        rfl
      have hopen : ∀ t, before ']' ('{' :: t) = '{' :: before ']' t :=
        before_cons (by decide)
      unfold readArray at ih ⊢
      rw [recordsText_cons, before_append_of_not_mem hbracket, hopen]
      simp only [hpieces, List.drop_succ_cons, List.drop_zero]
      rw [readAll]
      by_cases hm : ']' ∈ behindBrace r g
      · rw [if_pos hm, before_append_of_mem hm, List.append_nil]
        rfl
      · rw [if_neg hm, before_append_of_not_mem hm, ← ih,
          splitOn_append_brace, List.filterMap_append]
        · unfold scan
          rw [before_eq hm]
        · cases rs with
          | nil => exact .inl (before_cons_self ']' back)
          | cons rg' rs =>
              obtain ⟨r', g'⟩ := rg'
              exact .inr ⟨_, by rw [recordsText_cons, hopen]⟩

/-- An answer whose addresses are all read: every record of type A is
legible, and none stands behind a record with a bracket in it. -/
structure Clean (rs : List Record) : Prop where
  legible : ∀ r ∈ rs, r.type = 1 → Legible r
  unbroken : rs.Pairwise fun s r => r.type = 1 → ']' ∉ s.text

instance (rs : List Record) : Decidable (Clean rs) :=
  decidable_of_iff ((∀ r ∈ rs, r.type = 1 → Legible r)
      ∧ rs.Pairwise fun s r => r.type = 1 → ']' ∉ s.text)
    ⟨fun h => ⟨h.1, h.2⟩, fun h => ⟨h.legible, h.unbroken⟩⟩

theorem clean_cons {r : Record} {rs : List Record} :
    Clean (r :: rs) ↔ (r.type = 1 → Legible r)
      ∧ (∀ s ∈ rs, s.type = 1 → ']' ∉ r.text) ∧ Clean rs := by
  constructor
  · intro h
    obtain ⟨hlegible, hunbroken⟩ := h
    obtain ⟨hhead, htail⟩ := List.pairwise_cons.mp hunbroken
    exact ⟨hlegible r List.mem_cons_self, hhead,
      fun s hs => hlegible s (List.mem_cons_of_mem r hs), htail⟩
  · intro h
    obtain ⟨hr, hhead, hlegible, htail⟩ := h
    refine ⟨?_, List.pairwise_cons.mpr ⟨hhead, htail⟩⟩
    intro s hs
    rcases List.mem_cons.mp hs with rfl | hs
    · exact hr
    · exact hlegible s hs

theorem bracket_mem_text (r : Record) (g : Gap) :
    ']' ∈ behindBrace r g ↔ ']' ∈ r.text := by
  have hgap := gap_chars g (c := ']') (by decide)
  simp [behindBrace, Record.text, hgap]

theorem addresses_eq_nil {rs : List Record} :
    addresses rs = [] ↔ ∀ r ∈ rs, r.type ≠ 1 := by
  unfold addresses
  rw [List.map_eq_nil_iff, List.filter_eq_nil_iff]
  simp

theorem readAll_length (rs : List (Record × Gap)) :
    (readAll rs).length ≤ (addresses (rs.map Prod.fst)).length := by
  induction rs with
  | nil => exact Nat.le_refl _
  | cons rg rs ih =>
      obtain ⟨r, g⟩ := rg
      have hscan := scan_length r g
      rw [readAll, List.map_cons, addresses_cons, List.length_append,
        List.length_append]
      refine Nat.add_le_add hscan ?_
      split
      · exact Nat.zero_le _
      · exact ih

theorem append_eq_iff {α : Type} {as bs cs ds : List α}
    (hac : as.length ≤ cs.length) (hbd : bs.length ≤ ds.length) :
    as ++ bs = cs ++ ds ↔ as = cs ∧ bs = ds := by
  constructor
  · intro h
    have hlen := congrArg List.length h
    rw [List.length_append, List.length_append] at hlen
    exact List.append_inj h (by omega)
  · intro h
    rw [h.1, h.2]

/-- An answer is read as it is meant if it is clean. -/
theorem readAll_eq_iff (rs : List (Record × Gap)) :
    readAll rs = addresses (rs.map Prod.fst) ↔ Clean (rs.map Prod.fst) := by
  induction rs with
  | nil => exact ⟨fun _ => ⟨nofun, List.Pairwise.nil⟩, fun _ => rfl⟩
  | cons rg rs ih =>
      obtain ⟨r, g⟩ := rg
      have hle := readAll_length rs
      rw [readAll, List.map_cons, addresses_cons, clean_cons,
        ← scan_eq_iff r g]
      by_cases hm : ']' ∈ behindBrace r g
      · have htext := (bracket_mem_text r g).mp hm
        have hnone : (∀ s ∈ rs.map Prod.fst, s.type = 1 → ']' ∉ r.text)
            ↔ addresses (rs.map Prod.fst) = [] := by
          rw [addresses_eq_nil]
          exact ⟨fun h s hs hone => h s hs hone htext,
            fun h s hs hone => absurd hone (h s hs)⟩
        rw [if_pos hm, append_eq_iff (scan_length r g) (Nat.zero_le _), hnone,
          eq_comm (a := ([] : List Text))]
        refine and_congr_right fun _ => ⟨fun h => ⟨h, ?_⟩, fun h => h.1⟩
        rw [addresses_eq_nil] at h
        refine ⟨fun s hs hone => absurd hone (h s hs), ?_⟩
        exact List.pairwise_of_forall_mem_list fun s _ t ht hone =>
          absurd hone (h t ht)
      · have htext : ']' ∉ r.text := fun h => hm ((bracket_mem_text r g).mpr h)
        rw [if_neg hm, append_eq_iff (scan_length r g) hle, ih]
        exact and_congr_right fun _ => ⟨fun h => ⟨fun _ _ _ => htext, h⟩,
          fun h => h.2⟩

-- ========================================================= the response

/-- The bracket that the code opens is that of the array: the first one
behind the first `"Answer"`. -/
def Located (r : Response) : Prop :=
  ∀ x z, splitOnceStr answerMark r.head = some (x, z) → '[' ∉ z

theorem answerMark_ne_nil : answerMark ≠ [] := by decide

theorem parse_withAnswer {front back : Text} {a : Answer}
    (h : Located (.withAnswer front a back)) :
    parseDohARecords (Lib.Utf8.encode
      (Response.withAnswer front a back).text) = readAll a.records := by
  obtain ⟨x, z, hsplit⟩ : ∃ x z, splitOnceStr answerMark
      (Response.withAnswer front a back).head = some (x, z) := by
    cases hsplit : splitOnceStr answerMark
        (Response.withAnswer front a back).head with
    | some r => exact ⟨r.1, r.2, rfl⟩
    | none =>
        refine absurd ?_ ((splitOnceStr_eq_none answerMark_ne_nil).mp hsplit
          front.length)
        unfold Response.head Lib.At
        rw [List.drop_left]
        exact List.prefix_append _ _
  have harray : answerArray (Response.withAnswer front a back).text
      = some (a.opened.1 ++ (recordsText a.records ++ ']' :: back)) := by
    unfold answerArray Response.text
    rw [splitOnceStr_append answerMark_ne_nil hsplit, Option.bind_some]
    simp only
    rw [splitOnce_append (h x z hsplit)]
    rfl
  unfold parseDohARecords
  rw [Lib.Utf8.lossy_encode]
  simp only [harray]
  exact readArray_eq a.records back (gap_chars a.opened (by decide))
    (gap_chars a.opened (by decide))

theorem parse_without {t : Text} (h : Located (.without t)) :
    parseDohARecords (Lib.Utf8.encode (Response.without t).text) = [] := by
  have harray : answerArray t = none := by
    unfold answerArray
    cases hsplit : splitOnceStr answerMark t with
    | none => rfl
    | some r =>
        obtain ⟨x, z⟩ := r
        rw [Option.bind_some]
        simp only
        rw [splitOnce_eq_none (h x z hsplit)]
        rfl
  unfold parseDohARecords
  rw [Lib.Utf8.lossy_encode]
  simp only [Response.text, harray]

/-- Where the array is found, the addresses are found if it is clean. -/
theorem parse_eq_iff {r : Response} (h : Located r) :
    parseDohARecords (Lib.Utf8.encode r.text) = addresses r.records
      ↔ Clean r.records := by
  cases r with
  | without t =>
      rw [parse_without h]
      exact ⟨fun _ => ⟨nofun, List.Pairwise.nil⟩, fun _ => rfl⟩
  | withAnswer front a back =>
      rw [parse_withAnswer h]
      exact readAll_eq_iff a.records

-- ============================================================= the pick

/-- A dotted IPv4 address. -/
def isIpv4 (t : Text) : Bool := (parseIpv4Addr t).isSome

/-- The first IPv4 address among the candidates is picked, as it is
written. -/
theorem pickGo_eq {fallbackV6 : Option Text} {candidates : List Text}
    {ip : Text} (h : (candidates.map trim).find? isIpv4 = some ip) :
    pickGo fallbackV6 candidates = some ip := by
  induction candidates generalizing fallbackV6 with
  | nil => cases h
  | cons c candidates ih =>
      rw [List.map_cons, List.find?_cons] at h
      unfold pickGo
      cases hv4 : isIpv4 (trim c) with
      | true =>
          rw [hv4] at h
          obtain ⟨octets, hoctets⟩ := Option.isSome_iff_exists.mp hv4
          obtain ⟨addr, rfl⟩ := IpAddr.octets_of_parse hoctets
          rw [IpAddr.parseIpAddr_v4.mpr hoctets]
          simp only [IpAddr.showIpAddr]
          rw [IpAddr.showIpv4_of_parse hoctets]
          exact h
      | false =>
          rw [hv4] at h
          split
          · next addr hparse =>
              unfold isIpv4 at hv4
              rw [IpAddr.parseIpAddr_v4.mp hparse] at hv4
              cases hv4
          · split
            · exact ih h
            · exact ih h
          · exact ih h

theorem trim_of_mem_readArray {array ip : Text} (h : ip ∈ readArray array) :
    trim ip = ip := by
  obtain ⟨rec, -, hrec⟩ := List.mem_filterMap.mp h
  rw [recordAddress_eq] at hrec
  split at hrec
  · unfold dataAddress at hrec
    split at hrec
    · unfold picked at hrec
      simp only at hrec
      split at hrec
      · cases hrec
      · rw [← Option.some.inj hrec, trim_trim]
    · cases hrec
  · cases hrec

/-- What is parsed is trimmed. -/
theorem map_trim_parse (body : Bytes) :
    (parseDohARecords body).map trim = parseDohARecords body := by
  have htrim : ∀ ip ∈ parseDohARecords body, trim ip = ip := by
    intro ip hip
    unfold parseDohARecords at hip
    simp only at hip
    split at hip
    · cases hip
    · exact trim_of_mem_readArray hip
  rw [List.map_congr_left htrim, List.map_id']

/-- What the extraction is for: the data of the records of type A in
order, and the first IPv4 address among them picked. -/
structure Extracts (r : Response) : Prop where
  addresses : parseDohARecords (Lib.Utf8.encode r.text)
    = DnsJson.addresses r.records
  preferred : ∀ ip, (parseDohARecords (Lib.Utf8.encode r.text)).find? isIpv4
      = some ip →
    pickPreferredIp (parseDohARecords (Lib.Utf8.encode r.text)) = some ip

/-- Where the code opens the bracket of the array, it extracts what it is
for if and only if the answer is clean. -/
theorem extracts_iff_clean (r : Response) :
    (Located r ∧ Clean r.records → Extracts r)
      ∧ (Located r → Extracts r → Clean r.records) := by
  refine ⟨fun h => ⟨(parse_eq_iff h.1).mpr h.2, fun ip hip => ?_⟩,
    fun hloc h => (parse_eq_iff hloc).mp h.addresses⟩
  refine pickGo_eq ?_
  rw [map_trim_parse]
  exact hip

-- ============================================================== samples

/-- A text of plain characters, spelt as it is. -/
def plainly (t : Text) : List Piece :=
  t.filterMap fun c =>
    if h : isPlain c = true then some (.plain c h) else none

def sampleRecord (name : String) (type : Nat) (data : String) : Record where
  type := type
  data := plainly data.toList
  dataFirst := false
  front := [.name (plainly name.toList)]
  mid := [.ttl 300]
  back := []

/-- Records with a comma between them. -/
def withCommas : List Record → List (Record × Gap)
  | [] => []
  | [r] => [(r, ⟨[], rfl⟩)]
  | r :: rs => (r, ⟨[','], rfl⟩) :: withCommas rs

def sampleResponse (front : String) (rs : List Record) (back : String) :
    Response :=
  .withAnswer front.toList
    { space := ⟨[], rfl⟩, space' := ⟨[], rfl⟩, opened := ⟨[], rfl⟩
      records := withCommas rs } back.toList

/-- The question in front of an answer. -/
def sampleQuestion : String :=
  "\x7b\"Status\":0,\"Question\":[\x7b\"name\":\"x.co.uk\",\"type\":1\x7d],"

/-- An alias and its address, and another address behind the answer. -/
def aliasResponse : Response :=
  sampleResponse sampleQuestion
    [sampleRecord "x.co.uk" 5 "alias.example.",
      sampleRecord "alias.example." 1 "104.21.75.42"]
    (",\"Additional\":[\x7b\"name\":\"ns\",\"type\":1,"
      ++ "\"data\":\"198.51.100.9\"\x7d]\x7d")

theorem aliasResponse_located : Located aliasResponse := by
  intro x z h
  have heq : splitOnceStr answerMark aliasResponse.head
      = some (sampleQuestion.toList, [':']) := by decide +kernel
  rw [heq] at h
  cases h
  decide

theorem extracts_alias :
    Extracts aliasResponse
      ∧ addresses aliasResponse.records = ["104.21.75.42".toList] :=
  ⟨(extracts_iff_clean aliasResponse).1
    ⟨aliasResponse_located, by decide +kernel⟩, by decide +kernel⟩

/-- A text record with a bracket in it, and the address behind it. -/
def bracketResponse : Response :=
  sampleResponse "\x7b\"Status\":0,"
    [sampleRecord "x.co.uk" 16 "v=[1]", sampleRecord "x.co.uk" 1 "104.21.75.42"]
    "\x7d"

/-- No answer, but the word in another string, and an address of a name
server. -/
def commentResponse : Response :=
  .without ("\x7b\"Comment\":\"Answer\",\"Authority\":[\x7b\"name\":\"ns\","
    ++ "\"type\":1,\"TTL\":300,\"data\":\"198.51.100.9\"\x7d]\x7d").toList

/-- The address behind the bracket is lost, and the address that is none
of an answer is taken for one. -/
theorem doh_loses_and_leaks :
    bracketResponse.text
      = ("\x7b\"Status\":0,\"Answer\":[\x7b\"name\":\"x.co.uk\",\"type\":16,"
        ++ "\"TTL\":300,\"data\":\"v=[1]\"\x7d,\x7b\"name\":\"x.co.uk\","
        ++ "\"type\":1,\"TTL\":300,\"data\":\"104.21.75.42\"\x7d]\x7d").toList
    ∧ addresses bracketResponse.records = ["104.21.75.42".toList]
    ∧ parseDohARecords (Lib.Utf8.encode bracketResponse.text) = []
    ∧ addresses commentResponse.records = []
    ∧ parseDohARecords (Lib.Utf8.encode commentResponse.text)
      = ["198.51.100.9".toList]
    ∧ ¬Extracts bracketResponse ∧ ¬Extracts commentResponse := by
  have hlost : parseDohARecords (Lib.Utf8.encode bracketResponse.text)
      = [] := by
    unfold parseDohARecords
    rw [Lib.Utf8.lossy_encode]
    decide +kernel
  have hleak : parseDohARecords (Lib.Utf8.encode commentResponse.text)
      = ["198.51.100.9".toList] := by
    unfold parseDohARecords
    rw [Lib.Utf8.lossy_encode]
    decide +kernel
  refine ⟨by decide +kernel, by decide +kernel, hlost, rfl, hleak, ?_, ?_⟩
  · intro h
    have haddresses := h.addresses
    rw [hlost] at haddresses
    exact absurd haddresses (by decide +kernel)
  · intro h
    have haddresses := h.addresses
    rw [hleak] at haddresses
    exact absurd haddresses (by decide +kernel)

end Wrtg.Doh
