/-
From the published list to the pool (`cf_proxy_domains.rs`, `https.rs`).

# The list

The list hides its domains: `.co.uk` is written `.com`, and the letters
of a name are turned forward by as many places as it has letters, which
leaves that number as it is, so they can be turned back
(`decode_encode`). An `Entry` is a line of the file; a reader of lines
makes of it what was put in (`readDomainLine_text`).

# The pool

What is read is normalised: `normalize_domain_pool` keeps the valid
domains, each where it is met first (`mem_normalizeFrom`,
`normalizeFrom_sublist`), and the pool is replaced by them or left alone.
-/
import Wrtg.CfProxyFetch
import Wrtg.Proofs.CfBalancer

namespace Wrtg.CfProxyFetch

open Lib CfBalancer CfProxyDomains

-- ============================================================ encoding

/-- A letter turned forward by `shift` places in its alphabet. -/
def turn (base : Char) (shift : Nat) (c : Char) : Char :=
  Char.ofNat (base.toNat + (c.toNat - base.toNat + shift) % 26)

/-- A name as the list has it. -/
def encodeName (name : Text) : Text :=
  let shift := name.countP Text.isAlpha
  name.map fun c =>
    if Text.isLower c then turn 'a' shift c
    else if Text.isUpper c then turn 'A' shift c
    else c

theorem isLower_iff (c : Char) :
    Text.isLower c = true ↔ 97 ≤ c.toNat ∧ c.toNat ≤ 122 := by
  unfold Text.isLower
  rw [Bool.and_eq_true, decide_eq_true_iff, decide_eq_true_iff, Char.le_def,
    Char.le_def, UInt32.le_iff_toNat_le, UInt32.le_iff_toNat_le]
  rfl

theorem isUpper_iff (c : Char) :
    Text.isUpper c = true ↔ 65 ≤ c.toNat ∧ c.toNat ≤ 90 := by
  unfold Text.isUpper
  rw [Bool.and_eq_true, decide_eq_true_iff, decide_eq_true_iff, Char.le_def,
    Char.le_def, UInt32.le_iff_toNat_le, UInt32.le_iff_toNat_le]
  rfl

/-- The value of a letter that is turned. -/
theorem toNat_turn {base c : Char} (hbase : base.toNat ≤ 97) (shift : Nat) :
    (turn base shift c).toNat
      = base.toNat + (c.toNat - base.toNat + shift) % 26 := by
  have hlt := Nat.mod_lt (c.toNat - base.toNat + shift) (by decide : 0 < 26)
  refine Utf8.toNat_ofNat (.inl ?_)
  omega

/-- Turning back undoes it. -/
theorem unshift_turn (base : Char) {c : Char} (hbase : base.toNat ≤ 97)
    (hlo : base.toNat ≤ c.toNat) (hhi : c.toNat < base.toNat + 26)
    (shift : Nat) : unshift base shift (turn base shift c) = c := by
  have hoff : (((turn base shift c).toNat : Int) - base.toNat - shift) % 26
      = (c.toNat - base.toNat : Nat) := by
    rw [toNat_turn hbase]
    omega
  unfold unshift
  simp only
  rw [hoff, Int.toNat_natCast, Nat.add_sub_cancel' hlo, Char.ofNat_toNat]

/-- A letter stays one of its case. -/
theorem turn_case {c : Char} (shift : Nat) :
    (Text.isLower c = true → Text.isLower (turn 'a' shift c) = true)
      ∧ (Text.isUpper c = true → Text.isUpper (turn 'A' shift c) = true
        ∧ Text.isLower (turn 'A' shift c) = false) := by
  have hlower := toNat_turn (c := c) (show 'a'.toNat ≤ 97 by decide) shift
  have hupper := toNat_turn (c := c) (show 'A'.toNat ≤ 97 by decide) shift
  have hmod := Nat.mod_lt (c.toNat - 'a'.toNat + shift) (by decide : 0 < 26)
  have hmod' := Nat.mod_lt (c.toNat - 'A'.toNat + shift) (by decide : 0 < 26)
  have ha : 'a'.toNat = 97 := rfl
  have hA : 'A'.toNat = 65 := rfl
  refine ⟨fun _ => (isLower_iff _).mpr (by omega), fun _ => ⟨?_, ?_⟩⟩
  · exact (isUpper_iff _).mpr (by omega)
  · rw [Bool.eq_false_iff]
    intro h
    have := (isLower_iff _).mp h
    omega

/-- A letter is turned, anything else stays. -/
def encodeChar (shift : Nat) (c : Char) : Char :=
  if Text.isLower c then turn 'a' shift c
  else if Text.isUpper c then turn 'A' shift c
  else c

theorem isAlpha_encodeChar (shift : Nat) (c : Char) :
    Text.isAlpha (encodeChar shift c) = Text.isAlpha c := by
  obtain ⟨hlower, hupper⟩ := turn_case (c := c) shift
  unfold encodeChar Text.isAlpha
  split
  · next h => rw [hlower h, h, Bool.true_or, Bool.true_or]
  · split
    · next h => rw [(hupper h).1, h, Bool.or_true, Bool.or_true]
    · rfl

/-- The shift can be read off the hidden name. -/
theorem countP_encodeName (name : Text) :
    (encodeName name).countP Text.isAlpha = name.countP Text.isAlpha := by
  show ((name.map (encodeChar _)).countP _) = _
  rw [List.countP_map]
  congr 1
  funext c
  exact isAlpha_encodeChar _ c

/-- What the list hides is found again. -/
theorem decode_encode (name : Text) :
    decodeCfproxyDomain (encodeName name ++ ".com".toList)
      = name ++ DOMAIN_SUFFIX := by
  have hsuffix : ".com".toList.isSuffixOf (encodeName name ++ ".com".toList)
      = true := List.isSuffixOf_iff_suffix.mpr (List.suffix_append ..)
  have hbody : (encodeName name ++ ".com".toList).take
      ((encodeName name ++ ".com".toList).length - 4) = encodeName name := by
    rw [List.length_append]
    exact List.take_left' rfl
  have hdecode : ∀ shift (c : Char),
      (if Text.isLower (encodeChar shift c) then
          unshift 'a' shift (encodeChar shift c)
        else if Text.isUpper (encodeChar shift c) then
          unshift 'A' shift (encodeChar shift c)
        else encodeChar shift c) = c := by
    intro shift c
    obtain ⟨hlower, hupper⟩ := turn_case (c := c) shift
    unfold encodeChar
    split
    · next h =>
      have hc := (isLower_iff c).mp h
      rw [if_pos (hlower h)]
      exact unshift_turn 'a' (by decide) hc.1
        (Nat.lt_succ_of_le hc.2) shift
    · next hnl =>
      split
      · next h =>
        have hc := (isUpper_iff c).mp h
        rw [(hupper h).2, if_neg Bool.false_ne_true, if_pos (hupper h).1]
        exact unshift_turn 'A' (by decide) hc.1
          (Nat.lt_succ_of_le hc.2) shift
      · rfl
  unfold decodeCfproxyDomain
  rw [hsuffix, Bool.not_true, if_neg Bool.false_ne_true]
  simp only
  rw [hbody, countP_encodeName]
  congr 1
  show (name.map (encodeChar _)).map _ = name
  rw [List.map_map]
  conv_rhs => rw [← List.map_id name]
  refine List.map_congr_left ?_
  intro c _
  exact hdecode _ c

-- =============================================================== lines

/-- What a line of the list says. -/
inductive Listed where
  | comment (text : Text)
  | blank
  | hidden (name : Text)
  | plain (domain : Text)

/-- How the file has it. -/
def Listed.text : Listed → Text
  | .comment text => '#' :: text
  | .blank => []
  | .hidden name => encodeName name ++ ".com".toList
  | .plain domain => domain

/-- The domain that is published. -/
def Listed.domain : Listed → Option Text
  | .comment _ => none
  | .blank => none
  | .hidden name => some (name ++ DOMAIN_SUFFIX)
  | .plain domain => some domain

/-- Letters, digits, hyphens and dots. -/
def domainChar (c : Char) : Bool := Text.isAlnum c || c == '-' || c == '.'

/-- Names are spelt as domains are; a plain one is not taken for a hidden
one. -/
def Listed.Fit : Listed → Prop
  | .comment text => '\n' ∉ text
  | .blank => True
  | .hidden name => name.all domainChar = true
  | .plain domain => domain ≠ [] ∧ domain.all domainChar = true
      ∧ ".com".toList.isSuffixOf domain = false

/-- A line: what it says, and white space around it. -/
structure Entry where
  lead : Text
  item : Listed
  trail : Text

def Entry.text (e : Entry) : Text := e.lead ++ e.item.text ++ e.trail

/-- White space within a line. -/
def Blank (t : Text) : Prop :=
  ∀ c ∈ t, Text.isWhitespace c = true ∧ c ≠ '\n'

/-- The lines a list is made of. -/
structure Entry.Fit (e : Entry) : Prop where
  lead : Blank e.lead
  item : e.item.Fit
  trail : Blank e.trail

theorem isWhitespace_domainChar {c : Char} (h : domainChar c = true) :
    Text.isWhitespace c = false := by
  unfold domainChar at h
  rw [Bool.or_eq_true, Bool.or_eq_true, beq_iff_eq, beq_iff_eq] at h
  refine Text.isWhitespace_of_isAlnum ?_
  rcases h with (h | h) | h
  · exact .inl h
  · exact .inr (.inl h)
  · exact .inr (.inr h)

theorem domainChar_encodeChar {c : Char} (h : domainChar c = true)
    (shift : Nat) : domainChar (encodeChar shift c) = true := by
  by_cases halpha : Text.isAlpha c = true
  · unfold domainChar Text.isAlnum
    rw [isAlpha_encodeChar, halpha, Bool.true_or, Bool.true_or, Bool.true_or]
  · unfold Text.isAlpha at halpha
    rw [Bool.or_eq_true, not_or] at halpha
    unfold encodeChar
    rw [if_neg halpha.1, if_neg halpha.2]
    exact h

theorem Listed.all_domainChar {name : Text} (h : name.all domainChar = true) :
    (encodeName name ++ ".com".toList).all domainChar = true := by
  rw [List.all_append]
  refine Bool.and_eq_true_iff.mpr ⟨?_, by decide⟩
  show (name.map (encodeChar _)).all _ = true
  rw [List.all_map, List.all_eq_true]
  intro c hc
  exact domainChar_encodeChar (List.all_eq_true.mp h c hc) _

/-- A domain on a line of its own is read as it stands. -/
theorem readDomainLine_domain {t : Text} (hne : t ≠ [])
    (h : t.all domainChar = true) :
    readDomainLine t = some (decodeCfproxyDomain t) := by
  have hws := fun c hc => isWhitespace_domainChar (List.all_eq_true.mp h c hc)
  have htrim : Text.trim t = t := by
    refine Text.trim_eq ?_ ?_
    · exact fun c hc => hws c (List.mem_of_mem_head? hc)
    · exact fun c hc => hws c (List.mem_of_mem_getLast? hc)
  have hhash : t.head? ≠ some '#' := by
    intro hc
    have hc := List.all_eq_true.mp h _ (List.mem_of_mem_head? hc)
    revert hc
    decide
  unfold readDomainLine
  simp only [htrim]
  rw [if_neg]
  rw [Bool.or_eq_true, not_or]
  exact ⟨fun hnil => hne (List.isEmpty_iff.mp hnil),
    fun hc => hhash (beq_iff_eq.mp hc)⟩

/-- White space around a line does not matter, -/
theorem readDomainLine_trim {t u : Text} (h : Text.trim t = Text.trim u) :
    readDomainLine t = readDomainLine u := by
  unfold readDomainLine
  rw [h]

/-- A line is read as what it says. -/
theorem readDomainLine_text {e : Entry} (h : e.Fit) :
    readDomainLine e.text = e.item.domain := by
  have htrim : readDomainLine e.text = readDomainLine e.item.text := by
    refine readDomainLine_trim ?_
    unfold Entry.text
    rw [Text.trim_append fun c hc => (h.trail c hc).1,
      Text.trimStart_append fun c hc => (h.lead c hc).1]
  rw [htrim]
  have hitem := h.item
  cases hlisted : e.item with
  | comment text =>
      have hhead : (Text.trim ('#' :: text)).head? = some '#' := by
        rw [Text.trim_head?]
        unfold Text.firstWord
        rw [List.dropWhile_cons_of_neg (by decide),
          List.takeWhile_cons_of_pos (by decide)]
        rfl
      unfold Listed.text readDomainLine
      simp only [hhead]
      rw [if_pos (by rw [Bool.or_eq_true]; exact .inr rfl)]
      rfl
  | blank => rfl
  | hidden name =>
      rw [hlisted] at hitem
      unfold Listed.text Listed.domain
      rw [readDomainLine_domain _ (Listed.all_domainChar hitem), decode_encode]
      simp
  | plain domain =>
      rw [hlisted] at hitem
      obtain ⟨hne, hchars, hsuffix⟩ := hitem
      unfold Listed.text Listed.domain
      rw [readDomainLine_domain hne hchars]
      unfold decodeCfproxyDomain
      rw [hsuffix]
      rfl

/-- No line has an end inside it. -/
theorem newline_not_mem_text {e : Entry} (h : e.Fit) : '\n' ∉ e.text := by
  have hdomain : ∀ {t : Text}, t.all domainChar = true → '\n' ∉ t := by
    intro t ht hc
    have hc := List.all_eq_true.mp ht _ hc
    revert hc
    decide
  have hitem : '\n' ∉ e.item.text := by
    have hfit := h.item
    cases hlisted : e.item with
    | comment text =>
        rw [hlisted] at hfit
        intro hc
        rcases List.mem_cons.mp hc with hc | hc
        · revert hc
          decide
        · exact hfit hc
    | blank => exact List.not_mem_nil
    | hidden name =>
        rw [hlisted] at hfit
        exact hdomain (Listed.all_domainChar hfit)
    | plain domain =>
        rw [hlisted] at hfit
        exact hdomain hfit.2.1
  unfold Entry.text
  rw [List.mem_append, List.mem_append, not_or, not_or]
  exact ⟨⟨fun hc => (h.lead _ hc).2 rfl, hitem⟩,
    fun hc => (h.trail _ hc).2 rfl⟩

-- =============================================================== files

/-- The file: its lines with line feeds between them. -/
def fileText (file : List Entry) : Text :=
  ['\n'].intercalate (file.map Entry.text)

/-- The domains a file publishes. -/
def published (file : List Entry) : List Text :=
  file.filterMap fun e => e.item.domain

/-- and neither does a carriage return at its end. -/
theorem readDomainLine_stripCr (l : Text) :
    readDomainLine (Text.stripCr l) = readDomainLine l := by
  unfold Text.stripCr
  split
  · next hlast =>
    obtain ⟨m, rfl⟩ := List.getLast?_eq_some_iff.mp hlast
    rw [List.dropLast_concat]
    refine readDomainLine_trim (Text.trim_append ?_ m).symm
    intro c hc
    rw [List.mem_singleton.mp hc]
    decide
  · rfl

/-- A file is read as what it publishes. -/
theorem readLines_file {file : List Entry} (h : ∀ e ∈ file, e.Fit) :
    (Text.lines (fileText file)).filterMap readDomainLine = published file := by
  rw [Text.filterMap_lines rfl readDomainLine_stripCr]
  unfold fileText published
  cases file with
  | nil => rfl
  | cons e file =>
      have hne : (e :: file).map Entry.text ≠ [] := List.cons_ne_nil _ _
      have hlines : ∀ w ∈ (e :: file).map Entry.text, '\n' ∉ w := by
        intro w hw
        obtain ⟨x, hx, rfl⟩ := List.mem_map.mp hw
        exact newline_not_mem_text (h x hx)
      rw [Text.splitOn_intercalate hne hlines, List.filterMap_map]
      refine List.filterMap_congr ?_
      intro x hx
      exact readDomainLine_text (h x hx)

-- ================================================================ pool

/-- The pool's members are the valid domains of the list. -/
theorem mem_normalizeFrom {d : Text} (out domains : List Text) :
    d ∈ normalizeFrom out domains
      ↔ d ∈ out ∨ ∃ x ∈ domains, Text.toAsciiLowercase (Text.trim x) = d
        ∧ isValidDomain d = true := by
  induction domains generalizing out with
  | nil =>
      rw [normalizeFrom]
      refine ⟨.inl, ?_⟩
      rintro (h | ⟨x, hx, _⟩)
      · exact h
      · exact (List.not_mem_nil hx).elim
  | cons x domains ih =>
      rw [normalizeFrom]
      split
      · next hskip =>
        rw [ih]
        constructor
        · rintro (h | ⟨y, hy, h⟩)
          · exact .inl h
          · exact .inr ⟨y, List.mem_cons_of_mem x hy, h⟩
        · rintro (h | ⟨y, hy, hd, hvalid⟩)
          · exact .inl h
          rcases List.mem_cons.mp hy with rfl | hy
          · rw [Bool.or_eq_true, hd, hvalid, Bool.not_true] at hskip
            exact .inl (List.contains_iff_mem.mp
              (hskip.resolve_left Bool.false_ne_true))
          · exact .inr ⟨y, hy, hd, hvalid⟩
      · next hkeep =>
        rw [Bool.or_eq_true, not_or, Bool.not_eq_true', Bool.not_eq_false]
          at hkeep
        rw [ih, List.mem_append, List.mem_singleton]
        constructor
        · rintro ((h | rfl) | ⟨y, hy, h⟩)
          · exact .inl h
          · exact .inr ⟨x, List.mem_cons_self, rfl, hkeep.1⟩
          · exact .inr ⟨y, List.mem_cons_of_mem x hy, h⟩
        · rintro (h | ⟨y, hy, hd, hvalid⟩)
          · exact .inl (.inl h)
          rcases List.mem_cons.mp hy with rfl | hy
          · exact .inl (.inr hd.symm)
          · exact .inr ⟨y, hy, hd, hvalid⟩

/-- They stand in the list's order. -/
theorem normalizeFrom_sublist (out domains : List Text) :
    ∃ pool, normalizeFrom out domains = out ++ pool
      ∧ pool.Sublist (domains.map fun x =>
        Text.toAsciiLowercase (Text.trim x)) := by
  induction domains generalizing out with
  | nil => exact ⟨[], (List.append_nil out).symm, .refl _⟩
  | cons x domains ih =>
      rw [normalizeFrom, List.map_cons]
      split
      · obtain ⟨pool, hpool, hsub⟩ := ih out
        exact ⟨pool, hpool, hsub.cons _⟩
      · obtain ⟨pool, hpool, hsub⟩ :=
          ih (out ++ [Text.toAsciiLowercase (Text.trim x)])
        refine ⟨_ :: pool, ?_, hsub.cons_cons _⟩
        rw [hpool, List.append_assoc, List.singleton_append]

/-- A well-formed answer gives its body. -/
theorem getOver_body {maxBody : Nat} {head body : Bytes}
    (hfirst : ∀ k, At Https.headEnd (head ++ (Https.headEnd ++ body)) k →
      head.length ≤ k)
    (hstatus : Https.statusOk head = true)
    (hsize : (head ++ (Https.headEnd ++ body)).length ≤ maxBody) :
    Https.getOver maxBody
        { bytes := head ++ (Https.headEnd ++ body), closed := true }
      = some body := by
  have hlen : Https.headEnd.length = 4 := rfl
  have hat : At Https.headEnd (head ++ (Https.headEnd ++ body))
      head.length := by
    unfold Lib.At
    rw [List.drop_left]
    exact List.prefix_append ..
  have hne : Https.headEnd ≠ [] := List.cons_ne_nil _ _
  have hpos := position_first hne hat fun j hj h =>
    absurd (hfirst j h) (by omega)
  unfold Https.getOver
  simp only [Bool.not_true, Bool.false_and, Bool.false_eq_true, if_false]
  rw [List.take_of_length_le (by omega), if_neg (by omega), hpos]
  simp only
  rw [List.take_left, hstatus, if_pos rfl, ← hlen, ← List.drop_drop,
    List.drop_left, List.drop_left]

/-- The head is the bytes up to the first blank line. -/
def HeadIs (head rest : Bytes) : Prop :=
  ∀ k < head.length, ¬ At Https.headEnd (head ++ (Https.headEnd ++ rest)) k

/-- The answer of a server that sends a file and closes. -/
def answer (head : Bytes) (file : List Entry) : Https.Served where
  bytes := head ++ (Https.headEnd ++ Utf8.encode (fileText file))
  closed := true

/-- The shared pool is what is published. An answer of status 200 that
carries a list is read as the list's domains, hidden or plain, and the
pool becomes the valid ones among them, each once, in the list's order,
if there are three; and whatever a server sends, the pool it leaves is
the old one or at least three distinct valid domains. Nothing else of the
balancer is touched. -/
theorem published_pool (env : Getter) (b : Pools)
    (hauto : cfproxyAutoEnabled env = true) :
    (∀ (file : List Entry) (head : Bytes), (∀ e ∈ file, e.Fit) →
      HeadIs head (Utf8.encode (fileText file)) →
      Https.statusOk head = true →
      (answer head file).bytes.length ≤ MAX_HTTP_RESPONSE →
      ∃ pool : List Text, pool.Nodup
        ∧ pool.Sublist ((published file).map fun x =>
          Text.toAsciiLowercase (Text.trim x))
        ∧ (∀ d, d ∈ pool ↔ isValidDomain d = true
          ∧ ∃ x ∈ published file, Text.toAsciiLowercase (Text.trim x) = d)
        ∧ refreshCfproxyDomains env (fetchCfproxyDomains (answer head file)) b
          = if 3 ≤ pool.length then { b with proxyDomains := pool } else b)
    ∧ ∀ served, ∃ pool : List Text,
        refreshCfproxyDomains env (fetchCfproxyDomains served) b
            = { b with proxyDomains := pool }
          ∧ (pool = b.proxyDomains ∨ pool.Nodup ∧ 3 ≤ pool.length
            ∧ ∀ d ∈ pool, isValidDomain d = true) := by
  have hrefresh : ∀ fetched, refreshCfproxyDomains env fetched b
      = if 3 ≤ (normalizeDomainPool fetched).length then
          { b with proxyDomains := normalizeDomainPool fetched }
        else b := by
    intro fetched
    unfold refreshCfproxyDomains MIN_VALID_DOMAINS
    rw [hauto, Bool.not_true, if_neg Bool.false_ne_true]
    rfl
  have hmem : ∀ fetched d, d ∈ normalizeDomainPool fetched
      ↔ isValidDomain d = true
        ∧ ∃ x ∈ fetched, Text.toAsciiLowercase (Text.trim x) = d := by
    intro fetched d
    unfold normalizeDomainPool
    rw [mem_normalizeFrom]
    constructor
    · rintro (h | ⟨x, hx, hd, hvalid⟩)
      · cases h
      · exact ⟨hvalid, x, hx, hd⟩
    · rintro ⟨hvalid, x, hx, hd⟩
      exact .inr ⟨x, hx, hd, hvalid⟩
  constructor
  · intro file head hfit hhead hstatus hsize
    have hfetched : fetchCfproxyDomains (answer head file)
        = published file := by
      unfold fetchCfproxyDomains answer
      rw [getOver_body
        (fun k hk => Nat.le_of_not_lt fun hlt => hhead k hlt hk) hstatus hsize]
      simp only
      rw [Utf8.lossy_encode, readLines_file hfit]
    obtain ⟨pool, hpool, hsub⟩ := normalizeFrom_sublist [] (published file)
    rw [List.nil_append] at hpool
    refine ⟨normalizeDomainPool (published file),
      normalizeDomainPool_nodup _, ?_, hmem _, ?_⟩
    · unfold normalizeDomainPool
      rw [hpool]
      exact hsub
    · rw [hfetched, hrefresh]
  · intro served
    rw [hrefresh]
    split
    · next hlen =>
      exact ⟨_, rfl, .inr ⟨normalizeDomainPool_nodup _, hlen,
        fun d hd => ((hmem _ d).mp hd).1⟩⟩
    · exact ⟨_, rfl, .inl rfl⟩

-- ============================================================== sample

/-- A comment, two hidden domains, a blank line and a plain one. -/
def sampleFile : List Entry :=
  [⟨[], .comment " domains".toList, []⟩,
    ⟨[], .hidden "first".toList, ['\r']⟩,
    ⟨[' '], .hidden "Second-2".toList, []⟩, ⟨[], .blank, []⟩,
    ⟨[], .plain "third.example".toList, []⟩]

def sampleHead : Bytes := Utf8.encode "HTTP/1.1 200 OK\r\nA: b".toList

theorem sampleFile_fit : ∀ e ∈ sampleFile, e.Fit := by
  intro e he
  simp only [sampleFile, List.mem_cons, List.not_mem_nil, or_false] at he
  have hnone : Blank [] := fun _ hc => nomatch hc
  rcases he with rfl | rfl | rfl | rfl | rfl
  · exact ⟨hnone, show '\n' ∉ " domains".toList by decide, hnone⟩
  · exact ⟨hnone, show "first".toList.all domainChar = true by decide,
      List.forall_mem_singleton.mpr (by decide)⟩
  · exact ⟨List.forall_mem_singleton.mpr (by decide),
      show "Second-2".toList.all domainChar = true by decide, hnone⟩
  · exact ⟨hnone, trivial, hnone⟩
  · have hfit : (Listed.plain "third.example".toList).Fit :=
      ⟨by decide, by decide, by decide⟩
    exact ⟨hnone, hfit, hnone⟩

/-- The three domains of the file are the new pool. -/
theorem published_pool_sample :
    ∃ pool : List Text, pool.Nodup ∧ 3 ≤ pool.length
      ∧ "second-2.co.uk".toList ∈ pool
      ∧ refreshCfproxyDomains (fun _ => none)
          (fetchCfproxyDomains (answer sampleHead sampleFile)) Pools.empty
        = { Pools.empty with proxyDomains := pool } := by
  obtain ⟨pool, hnodup, -, hmem, hrefresh⟩ :=
    (published_pool (fun _ => none) Pools.empty (by decide)).1 sampleFile
      sampleHead sampleFile_fit (by unfold HeadIs Lib.At; decide +kernel)
      (by decide +kernel) (by decide +kernel)
  have hthree : ∀ d ∈ ["first.co.uk".toList, "second-2.co.uk".toList,
      "third.example".toList], d ∈ pool := by
    intro d hd
    simp only [List.mem_cons, List.not_mem_nil, or_false] at hd
    rw [hmem]
    rcases hd with rfl | rfl | rfl <;> decide +kernel
  have hlen : 3 ≤ pool.length :=
    (List.subperm_of_subset (by decide) hthree).length_le
  rw [if_pos hlen] at hrefresh
  exact ⟨pool, hnodup, hlen, hthree _ (by decide), hrefresh⟩

end Wrtg.CfProxyFetch
