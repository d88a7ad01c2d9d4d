/-
JSON string literals as they are spelt, and member keys among them.

A literal is a list of pieces: a character that stands for itself, or an
escape. A quote inside a literal has a backslash before it and the
literal's own characters behind it, so that the text of a key, quotes and
colon included, is found at keys only (`key_skips_literal`,
`key_skips_key`).
-/
import Mathlib.Data.List.Basic
import Wrtg.Lib.Search

namespace Wrtg.Lib.Json

-- ============================================================= escapes

def hexDigit (c : Char) : Option Nat :=
  let n := c.toNat
  if 0x30 ≤ n ∧ n ≤ 0x39 then some (n - 0x30)
  else if 0x61 ≤ n ∧ n ≤ 0x66 then some (n - 0x61 + 10)
  else if 0x41 ≤ n ∧ n ≤ 0x46 then some (n - 0x41 + 10)
  else none

def hex4 (a b c d : Char) : Option Nat := do
  let a ← hexDigit a
  let b ← hexDigit b
  let c ← hexDigit c
  let d ← hexDigit d
  pure (((a * 16 + b) * 16 + c) * 16 + d)

def shortEscape : Char → Option Char
  | '"' => some '"'
  | '\\' => some '\\'
  | '/' => some '/'
  | 'b' => some (.ofNat 0x8)
  | 'f' => some (.ofNat 0xC)
  | 'n' => some '\n'
  | 'r' => some '\r'
  | 't' => some '\t'
  | _ => none

/-- The character that an escape stands for, its first backslash left
out. One above U+FFFF is a pair of surrogates. -/
def unescape : List Char → Option Char
  | [c] => shortEscape c
  | ['u', a, b, c, d] => do
      let n ← hex4 a b c d
      if 0xD800 ≤ n ∧ n ≤ 0xDFFF then none else some (.ofNat n)
  | ['u', a, b, c, d, '\\', 'u', a', b', c', d'] => do
      let high ← hex4 a b c d
      let low ← hex4 a' b' c' d'
      if (0xD800 ≤ high ∧ high ≤ 0xDBFF) ∧ (0xDC00 ≤ low ∧ low ≤ 0xDFFF) then
        some (.ofNat (0x10000 + (high - 0xD800) * 0x400 + (low - 0xDC00)))
      else none
  | _ => none

/-- The characters that escapes are spelt with. -/
def isEscapeChar (c : Char) : Bool :=
  let n := c.toNat
  (0x30 ≤ n && n ≤ 0x39) || (0x41 ≤ n && n ≤ 0x5A) || (0x61 ≤ n && n ≤ 0x7A)
    || c == '"' || c == '\\' || c == '/'

theorem hexDigit_chars {c : Char} {n : Nat} (h : hexDigit c = some n) :
    isEscapeChar c = true ∧ c ≠ '"' := by
  unfold hexDigit at h
  have hne : 0x30 ≤ c.toNat → c ≠ '"' := by
    intro hle hc
    subst hc
    exact absurd hle (by decide)
  unfold isEscapeChar
  simp only at h
  split at h
  · next hc => exact ⟨by simp [hc], hne hc.1⟩
  · split at h
    · next hc =>
        have hle : c.toNat ≤ 0x7A := by omega
        exact ⟨by simp [hc.1, hle], hne (by omega)⟩
    · split at h
      · next hc =>
          have hle : c.toNat ≤ 0x5A := by omega
          exact ⟨by simp [hc.1, hle], hne (by omega)⟩
      · cases h

theorem hex4_chars {a b c d : Char} {n : Nat} (h : hex4 a b c d = some n) :
    ∀ x ∈ [a, b, c, d], isEscapeChar x = true ∧ x ≠ '"' := by
  simp only [hex4, Option.bind_eq_bind, Option.bind_eq_some_iff] at h
  obtain ⟨_, ha, _, hb, _, hc, _, hd, -⟩ := h
  intro x hx
  simp only [List.mem_cons, List.not_mem_nil, or_false] at hx
  rcases hx with rfl | rfl | rfl | rfl
  · exact hexDigit_chars ha
  · exact hexDigit_chars hb
  · exact hexDigit_chars hc
  · exact hexDigit_chars hd

theorem shortEscape_chars {c v : Char} (h : shortEscape c = some v) :
    isEscapeChar c = true := by
  unfold shortEscape at h
  split at h
  all_goals first | rfl | cases h

/-- An escape is spelt with its characters, and a quote is an escape of
its own. -/
theorem unescape_chars {body : List Char} {v : Char}
    (h : unescape body = some v) :
    body ≠ [] ∧ (∀ c ∈ body, isEscapeChar c = true)
      ∧ ('"' ∈ body → body = ['"']) := by
  unfold unescape at h
  split at h
  · refine ⟨by simp, ?_, ?_⟩
    · intro x hx
      rw [List.mem_singleton.mp hx]
      exact shortEscape_chars h
    · intro hx
      rw [List.mem_singleton.mp hx]
  · next a b c d =>
      obtain ⟨n, hn, -⟩ := Option.bind_eq_some_iff.mp h
      have hx := hex4_chars hn
      refine ⟨by simp, ?_, ?_⟩
      · intro x hm
        rcases List.mem_cons.mp hm with rfl | hm
        · decide
        · exact (hx x hm).1
      · intro hm
        rcases List.mem_cons.mp hm with hu | hm
        · exact absurd hu (by decide)
        · exact absurd rfl (hx '"' hm).2
  · next a b c d a' b' c' d' =>
      obtain ⟨n, hn, h⟩ := Option.bind_eq_some_iff.mp h
      obtain ⟨m, hm, -⟩ := Option.bind_eq_some_iff.mp h
      have hmem : ∀ x ∈ ['u', a, b, c, d, '\\', 'u', a', b', c', d'],
          isEscapeChar x = true ∧ x ≠ '"' := by
        intro x hx
        rcases List.mem_cons.mp hx with rfl | hx
        · decide
        have hx : x ∈ [a, b, c, d] ++ '\\' :: 'u' :: [a', b', c', d'] := hx
        rcases List.mem_append.mp hx with hx | hx
        · exact hex4_chars hn x hx
        rcases List.mem_cons.mp hx with rfl | hx
        · decide
        rcases List.mem_cons.mp hx with rfl | hx
        · decide
        exact hex4_chars hm x hx
      exact ⟨by simp, fun x hx => (hmem x hx).1,
        fun hx => absurd rfl (hmem _ hx).2⟩
  · cases h

-- ============================================================ literals

/-- An escape, and what it stands for. -/
structure Escape where
  body : List Char
  char : Char
  valid : unescape body = some char

/-- A character that stands for itself. -/
def isPlain (c : Char) : Bool :=
  decide (0x20 ≤ c.toNat) && c != '"' && c != '\\'

inductive Piece where
  | plain (c : Char) (h : isPlain c = true)
  | escape (e : Escape)

def Piece.spelled : Piece → List Char
  | .plain c _ => [c]
  | .escape e => '\\' :: e.body

def Piece.char : Piece → Char
  | .plain c _ => c
  | .escape e => e.char

/-- A string as it is spelt between its quotes. -/
def spell (s : List Piece) : List Char := s.flatMap Piece.spelled

/-- The string itself. -/
def value (s : List Piece) : List Char := s.map Piece.char

def literal (s : List Piece) : List Char := '"' :: (spell s ++ ['"'])

theorem plain_ne {c : Char} (h : isPlain c = true) : c ≠ '"' ∧ c ≠ '\\' := by
  unfold isPlain at h
  simp only [Bool.and_eq_true, bne_iff_ne] at h
  exact ⟨h.1.2, h.2⟩

@[simp] theorem spell_nil : spell [] = [] := rfl

@[simp] theorem spell_cons (p : Piece) (s : List Piece) :
    spell (p :: s) = p.spelled ++ spell s := rfl

@[simp] theorem value_cons (p : Piece) (s : List Piece) :
    value (p :: s) = p.char :: value s := rfl

-- ================================================================ keys

/-- A member's key in its quotes, and the colon. -/
def key (k : List Char) : List Char := '"' :: (k ++ ['"', ':'])

/-- A key of letters only. -/
structure IsKey (k : List Char) : Prop where
  ne_nil : k ≠ []
  letters : k.all Char.isAlpha = true

/-- A value ends here: a comma or the closing brace. -/
def Stops (t : List Char) : Prop := ∀ c ∈ t.head?, c = ',' ∨ c = '}'

theorem stops_comma (t : List Char) : Stops (',' :: t) := by
  intro c hc
  cases hc
  exact .inl rfl

theorem stops_brace (t : List Char) : Stops ('}' :: t) := by
  intro c hc
  cases hc
  exact .inr rfl

theorem IsKey.not_mem {k : List Char} (hk : IsKey k) {c : Char}
    (hc : c.isAlpha = false) : c ∉ k := by
  intro hm
  rw [List.all_eq_true.mp hk.letters c hm] at hc
  cases hc

/-- A key does not begin at what is no letter. -/
theorem IsKey.not_isPrefix {k : List Char} (hk : IsKey k) (u : List Char)
    {t : List Char} (ht : ∀ c ∈ t.head?, c.isAlpha = false) :
    ¬k ++ u <+: t := by
  obtain ⟨c, k', rfl⟩ := List.exists_cons_of_ne_nil hk.ne_nil
  intro hpre
  obtain ⟨rest, rfl⟩ := hpre
  have halpha := List.all_eq_true.mp hk.letters c List.mem_cons_self
  rw [ht c rfl] at halpha
  cases halpha

theorem Stops.not_letter {t : List Char} (ht : Stops t) :
    ∀ c ∈ t.head?, c.isAlpha = false := by
  intro c hc
  rcases ht c hc with rfl | rfl
  · decide
  · decide

/-- What stands up to the next quote of a literal and its colon is the
rest of the literal, and a colon behind it. -/
theorem key_prefix_spell {k : List Char} (hq : '"' ∉ k) (hb : '\\' ∉ k)
    (s : List Piece) {t : List Char}
    (h : k ++ ['"', ':'] <+: spell s ++ '"' :: t) : t.head? = some ':' := by
  induction s generalizing k with
  | nil =>
      rw [spell_nil, List.nil_append] at h
      cases k with
      | nil =>
          obtain ⟨rest, hrest⟩ := (List.cons_prefix_cons.mp h).2
          rw [← hrest]
          rfl
      | cons c k =>
          rw [(List.cons_prefix_cons.mp h).1] at hq
          exact absurd List.mem_cons_self hq
  | cons p s ih =>
      cases p with
      | plain c hc =>
          cases k with
          | nil =>
              exact absurd (List.cons_prefix_cons.mp h).1.symm (plain_ne hc).1
          | cons d k =>
              exact ih (fun hm => hq (List.mem_cons_of_mem d hm))
                (fun hm => hb (List.mem_cons_of_mem d hm))
                (List.cons_prefix_cons.mp h).2
      | escape e =>
          cases k with
          | nil => exact absurd (List.cons_prefix_cons.mp h).1 (by decide)
          | cons d k =>
              rw [(List.cons_prefix_cons.mp h).1] at hb
              exact absurd List.mem_cons_self hb

theorem key_skips_spell {k : List Char} (hk : IsKey k) (s : List Piece)
    {t : List Char} (ht : t.head? ≠ some ':') :
    Skips (key k) (spell s) ('"' :: t) := by
  have hq := hk.not_mem (c := '"') (by decide)
  have hb := hk.not_mem (c := '\\') (by decide)
  induction s with
  | nil => exact skips_nil
  | cons p s ih =>
      rw [spell_cons, skips_append]
      refine ⟨?_, ih⟩
      cases p with
      | plain c hc =>
          exact skips_of_not_mem (by simpa [Piece.spelled] using
            (plain_ne hc).1.symm)
      | escape e =>
          obtain ⟨-, -, hquote⟩ := unescape_chars e.valid
          by_cases hm : '"' ∈ e.body
          · have hbody : Piece.spelled (.escape e) = ['\\', '"'] := by
              show '\\' :: e.body = _
              rw [hquote hm]
            rw [hbody, skips_cons, skips_cons]
            refine ⟨fun h => absurd (List.cons_prefix_cons.mp h).1
              (by decide), fun h => ?_, skips_nil⟩
            exact ht (key_prefix_spell hq hb s
              (List.cons_prefix_cons.mp h).2)
          · refine skips_of_not_mem ?_
            show '"' ∉ '\\' :: e.body
            simpa using hm

/-- No key is in a string that ends a member. -/
theorem key_skips_literal {k : List Char} (hk : IsKey k) (s : List Piece)
    {t : List Char} (ht : Stops t) : Skips (key k) (literal s) t := by
  have hcolon : t.head? ≠ some ':' := by
    intro h
    rcases ht ':' h with hc | hc
    · exact absurd hc (by decide)
    · exact absurd hc (by decide)
  have hq := hk.not_mem (c := '"') (by decide)
  have hb := hk.not_mem (c := '\\') (by decide)
  unfold literal
  rw [skips_cons, skips_append]
  refine ⟨fun h => ?_, key_skips_spell hk s hcolon, ?_⟩
  · rw [List.append_assoc] at h
    exact hcolon (key_prefix_spell hq hb s (List.cons_prefix_cons.mp h).2)
  · rw [skips_cons]
    exact ⟨fun h => hk.not_isPrefix _ ht.not_letter
      (List.cons_prefix_cons.mp h).2, skips_nil⟩

/-- Behind its first quote a key has no key. -/
theorem key_skips_tail {k k' : List Char} (hk : IsKey k) (hk' : IsKey k')
    (t : List Char) : Skips (key k) (k' ++ ['"', ':']) t := by
  rw [skips_append, skips_cons]
  refine ⟨skips_of_not_mem (hk'.not_mem (by decide)), fun h => ?_,
    skips_of_not_mem (by decide)⟩
  refine hk.not_isPrefix ['"', ':'] ?_ (List.cons_prefix_cons.mp h).2
  intro c hc
  cases hc
  decide

/-- A key is not in another one. -/
theorem key_skips_key {k k' : List Char} (hk : IsKey k) (hk' : IsKey k')
    (hne : k ≠ k') (t : List Char) : Skips (key k) (key k') t := by
  refine skips_cons.mpr ⟨fun h => hne ?_, key_skips_tail hk hk' t⟩
  obtain ⟨rest, hrest⟩ := (List.cons_prefix_cons.mp h).2
  have hcut : ∀ (a u : List Char), '"' ∉ a →
      (a ++ '"' :: u).takeWhile (· ≠ '"') = a := by
    intro a u ha
    rw [List.takeWhile_append_of_pos fun c hc => by
      simpa using fun he : c = '"' => ha (he ▸ hc),
      List.takeWhile_cons_of_neg (by simp), List.append_nil]
  rw [← hcut k (':' :: rest) (hk.not_mem (by decide)),
    ← hcut k' (':' :: t) (hk'.not_mem (by decide))]
  rw [List.append_assoc, List.append_assoc] at hrest
  exact congrArg _ hrest

-- ============================================================= members

/-- A member of an object: its key, and its value as it is written. -/
structure Member where
  key : List Char
  value : List Char

def Member.text (m : Member) : List Char := Json.key m.key ++ m.value

/-- The key is one, and no key is found in the value. -/
structure Member.Flat (m : Member) : Prop where
  isKey : IsKey m.key
  skips : ∀ k t, IsKey k → Stops t → Skips (Json.key k) m.value t

/-- The members between the braces. -/
def object (ms : List Member) : List Char :=
  [','].intercalate (ms.map Member.text)

/-- Members, each with the comma behind it, -/
def leading (ms : List Member) : List Char := ms.flatMap (·.text ++ [','])

/-- and each with the comma in front. -/
def trailing (ms : List Member) : List Char := ms.flatMap (',' :: ·.text)

@[simp] theorem leading_append (ms ms' : List Member) :
    leading (ms ++ ms') = leading ms ++ leading ms' := List.flatMap_append

@[simp] theorem leading_cons (m : Member) (ms : List Member) :
    leading (m :: ms) = m.text ++ ',' :: leading ms := by
  unfold leading
  rw [List.flatMap_cons, List.append_assoc]
  rfl

@[simp] theorem trailing_append (ms ms' : List Member) :
    trailing (ms ++ ms') = trailing ms ++ trailing ms' :=
  List.flatMap_append

@[simp] theorem trailing_cons (m : Member) (ms : List Member) :
    trailing (m :: ms) = ',' :: (m.text ++ trailing ms) := rfl

theorem trailing_comma (ms : List Member) :
    trailing ms ++ [','] = ',' :: leading ms := by
  induction ms with
  | nil => rfl
  | cons m ms ih =>
      rw [trailing_cons, leading_cons, List.cons_append, List.append_assoc, ih]

/-- An object around one of its members. -/
theorem object_eq (pre : List Member) (m : Member) (post : List Member) :
    object (pre ++ m :: post)
      = leading pre ++ (m.text ++ trailing post) := by
  have hbehind : ∀ (m : Member) (ms : List Member),
      object (m :: ms) = m.text ++ trailing ms := by
    intro m ms
    induction ms generalizing m with
    | nil => simp [object, trailing, List.intercalate]
    | cons m' ms ih =>
        rw [trailing_cons, ← ih m']
        simp [object, List.intercalate]
  induction pre with
  | nil => exact hbehind m post
  | cons m' pre ih =>
      rw [List.cons_append, hbehind, leading_cons, List.append_assoc,
        List.cons_append, ← ih]
      cases pre with
      | nil => rw [List.nil_append, trailing_cons, hbehind]
      | cons m'' pre => rw [List.cons_append, trailing_cons, hbehind]

theorem stops_trailing (ms : List Member) {t : List Char} (ht : Stops t) :
    Stops (trailing ms ++ t) := by
  cases ms with
  | nil => exact ht
  | cons m ms => exact stops_comma _

theorem Member.Flat.key_skips {m : Member} (hm : m.Flat) {k : List Char}
    (hk : IsKey k) (hne : k ≠ m.key) {t : List Char} (ht : Stops t) :
    Skips (Json.key k) m.text t :=
  skips_append.mpr ⟨key_skips_key hk hm.isKey hne _, hm.skips k t hk ht⟩

variable {k : List Char} {ms : List Member}

theorem key_skips_leading (hk : IsKey k) (hms : ∀ m ∈ ms, m.Flat)
    (hne : ∀ m ∈ ms, k ≠ m.key) (t : List Char) :
    Skips (key k) (leading ms) t := by
  induction ms with
  | nil => exact skips_nil
  | cons m ms ih =>
      have hrest := ih (fun m' hm' => hms m' (List.mem_cons_of_mem m hm'))
        (fun m' hm' => hne m' (List.mem_cons_of_mem m hm'))
      rw [leading_cons, ← List.singleton_append, skips_append, skips_append]
      exact ⟨(hms m List.mem_cons_self).key_skips hk
        (hne m List.mem_cons_self) (stops_comma _),
        skips_of_not_mem (by decide), hrest⟩

theorem key_skips_trailing (hk : IsKey k) (hms : ∀ m ∈ ms, m.Flat)
    (hne : ∀ m ∈ ms, k ≠ m.key) {t : List Char} (ht : Stops t) :
    Skips (key k) (trailing ms) t := by
  induction ms with
  | nil => exact skips_nil
  | cons m ms ih =>
      have hms' : ∀ m' ∈ ms, m'.Flat :=
        fun m' hm' => hms m' (List.mem_cons_of_mem m hm')
      have hne' : ∀ m' ∈ ms, k ≠ m'.key :=
        fun m' hm' => hne m' (List.mem_cons_of_mem m hm')
      rw [trailing_cons, ← List.singleton_append, skips_append, skips_append]
      exact ⟨skips_of_not_mem (by decide),
        (hms m List.mem_cons_self).key_skips hk (hne m List.mem_cons_self)
          (stops_trailing ms ht), ih hms' hne'⟩

/-- A key is where its member is, and nowhere else in the object. -/
theorem key_onlyAt {pre post : List Member} {m : Member} (hm : m.Flat)
    (hpre : ∀ m' ∈ pre, m'.Flat ∧ m.key ≠ m'.key)
    (hpost : ∀ m' ∈ post, m'.Flat ∧ m.key ≠ m'.key) {g : List Char}
    (hg : '"' ∉ g) :
    OnlyAt (key m.key) (object (pre ++ m :: post) ++ '}' :: g)
      (leading pre).length := by
  have hbehind : Skips (key m.key)
      (m.key ++ ['"', ':'] ++ (m.value ++ (trailing post ++ '}' :: g))) [] := by
    refine skips_append.mpr ⟨key_skips_tail hm.isKey hm.isKey _,
      skips_append.mpr ⟨?_, skips_append.mpr ⟨?_, ?_⟩⟩⟩
    · rw [List.append_nil]
      exact hm.skips _ _ hm.isKey (stops_trailing post (stops_brace g))
    · rw [List.append_nil]
      exact key_skips_trailing hm.isKey (fun m' hm' => (hpost m' hm').1)
        (fun m' hm' => (hpost m' hm').2) (stops_brace g)
    · exact skips_of_not_mem (by simpa using hg)
  have htext : object (pre ++ m :: post) ++ '}' :: g
      = leading pre ++ '"' :: (m.key ++ ['"', ':']
        ++ (m.value ++ (trailing post ++ '}' :: g))) := by
    rw [object_eq]
    simp [Member.text, key]
  rw [htext]
  exact onlyAt_of_skips (key_skips_leading hm.isKey
    (fun m' hm' => (hpre m' hm').1) (fun m' hm' => (hpre m' hm').2) _)
    hbehind (List.cons_ne_nil _ _)

end Wrtg.Lib.Json
