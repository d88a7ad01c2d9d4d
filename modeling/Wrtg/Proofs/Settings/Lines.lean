/-
The lines of the config file (`config.ut`, `lib.sh`, `config.rs`): what
the settings page writes, and what the two readers make of it.

The shell undoes the page's backslashes and stops at what it would
expand (`word_escape`); the daemon takes the text between the quotes as
it stands (`parseKvLine_quoted`). Of a whole text either reader replays
the assignments it finds (`loadConfig_eq`, `importConfigFile_eq`).
-/
import Wrtg.Proofs.CfBalancer
import Wrtg.Settings

namespace Wrtg.Settings

open Lib Config

-- ============================================================ the lines

/-- A blank line, or a comment. -/
inductive Quiet : Text → Prop where
  | blank {l : Text} (h : ∀ c ∈ l, Shell.isBlank c = true ∨ c = '\r') :
      Quiet l
  | comment {indent text : Text}
      (h : ∀ c ∈ indent, Shell.isBlank c = true) :
      Quiet (indent ++ '#' :: text)

theorem Quiet.nil : Quiet [] := .blank fun _ hm => by cases hm

/-- No backslash, quote, dollar sign or backquote. -/
def isPlain (c : Char) : Bool := !"\\\"$\x60".toList.contains c

inductive ConfigLine : Text → Prop where
  | quiet {l : Text} (h : Quiet l) : ConfigLine l
  | assign {key value : Text} (hkey : Shell.isName key = true)
      (hvalue : ∀ c ∈ value, isPlain c = true) :
      ConfigLine (quotedLine key value)

/-- A backquote, or a dollar sign that introduces an expansion. -/
def expands (sh : Shell) : Text → Bool
  | [] => false
  | c :: cs => c == '\x60' || (c == '$' && sh.expandsAt cs) || expands sh cs

-- ============================================================ the page

theorem isWhitespace_of_isName {key : Text} (h : Shell.isName key = true) :
    ∀ c ∈ key, Text.isWhitespace c = false := by
  intro c hc
  rcases Shell.isName_chars h c hc with ha | rfl
  · exact Text.isWhitespace_of_isAlnum (.inl ha)
  · decide

/-- What the page writes for a character of a value. -/
def escape (c : Char) : Text :=
  if c = '\\' ∨ c = '"' then ['\\', c] else [c]

theorem cString_eq {t : Text} (h : '\x00' ∉ t) : cString t = t := by
  unfold cString
  rw [List.takeWhile_eq_self_iff]
  intro c hc
  simpa using fun he : c = '\x00' => h (he ▸ hc)

theorem not_mem_cString (t : Text) : '\x00' ∉ cString t := by
  intro h
  simpa using List.mem_takeWhile_imp h

theorem cString_subset {t : Text} {c : Char} (h : c ∈ cString t) : c ∈ t :=
  (List.takeWhile_sublist _).subset h

/-- A replacement that brings in no NUL leaves a C string. -/
theorem not_mem_replace {p : Char → Bool} {new : Text}
    (hnew : '\x00' ∉ new) (t : Text) : '\x00' ∉ replace p new t := by
  intro h
  obtain ⟨c, hc, hmem⟩ := List.mem_flatMap.mp h
  split at hmem
  · exact hnew hmem
  · rw [List.mem_singleton] at hmem
    exact not_mem_cString t (hmem ▸ hc)

/-- A value without line ends is escaped character by character, up to
its first NUL. -/
theorem cfgEscape_eq {v : Text} (hcr : '\r' ∉ v) (hlf : '\n' ∉ v) :
    cfgEscape v = (cString v).flatMap escape := by
  have hends : replace (fun c => c == '\r' || c == '\n') [] v = cString v := by
    unfold replace
    refine (List.flatMap_congr ?_).trans (List.flatMap_singleton' _)
    intro c hc
    have hc := cString_subset hc
    rw [if_neg]
    simp only [Bool.or_eq_true, beq_iff_eq]
    intro h
    rcases h with rfl | rfl
    · exact hcr hc
    · exact hlf hc
  have hnul : '\x00' ∉ replace (· == '\\') "\\\\".toList (cString v) :=
    not_mem_replace (by decide) (cString v)
  show replace _ _ (replace _ _ (replace _ _ v)) = _
  rw [hends]
  rw [replace, cString_eq hnul, replace, cString_eq (not_mem_cString v),
    List.flatMap_assoc]
  refine List.flatMap_congr ?_
  intro c _
  unfold escape
  by_cases hb : c = '\\'
  · subst hb
    rfl
  · by_cases hq : c = '"'
    · subst hq
      rfl
    · simp [hb, hq]

/-- Escaping brings in backslashes, and no other character. -/
theorem mem_or_eq_of_mem_escape {t : Text} {c : Char}
    (h : c ∈ t.flatMap escape) : c ∈ t ∨ c = '\\' := by
  obtain ⟨d, hd, hmem⟩ := List.mem_flatMap.mp h
  unfold escape at hmem
  split at hmem
  · rcases List.mem_cons.mp hmem with rfl | hmem
    · exact .inr rfl
    · rw [List.mem_singleton] at hmem
      exact .inl (hmem ▸ hd)
  · rw [List.mem_singleton] at hmem
    exact .inl (hmem ▸ hd)

theorem not_mem_cfgEscape {v : Text} (hcr : '\r' ∉ v) (hlf : '\n' ∉ v)
    {c : Char} (hc : c ≠ '\\') (h : c ∉ cString v) : c ∉ cfgEscape v := by
  rw [cfgEscape_eq hcr hlf]
  intro hmem
  rcases mem_or_eq_of_mem_escape hmem with hmem | rfl
  · exact h hmem
  · exact hc rfl

theorem length_le_escape (t : Text) :
    t.length ≤ (t.flatMap escape).length := by
  induction t with
  | nil => exact Nat.le_refl _
  | cons c t ih =>
      have hone : 1 ≤ (escape c).length := by
        unfold escape
        split <;> simp
      rw [List.flatMap_cons, List.length_append, List.length_cons]
      omega

/-- What escaping leaves as it was holds nothing that is escaped. -/
theorem escape_eq_self {t : Text} (h : t.flatMap escape = t) :
    '\\' ∉ t ∧ '"' ∉ t := by
  induction t with
  | nil => exact ⟨List.not_mem_nil, List.not_mem_nil⟩
  | cons c t ih =>
      rw [List.flatMap_cons] at h
      have hc : ¬(c = '\\' ∨ c = '"') := by
        intro hc
        rw [escape, if_pos hc] at h
        have hlen := congrArg List.length h
        have hle := length_le_escape t
        simp only [List.cons_append, List.nil_append, List.length_cons] at hlen
        omega
      rw [escape, if_neg hc] at h
      obtain ⟨hb, hq⟩ := ih (List.cons.inj h).2
      rw [not_or] at hc
      exact ⟨List.not_mem_cons_of_ne_of_not_mem (Ne.symm hc.1) hb,
        List.not_mem_cons_of_ne_of_not_mem (Ne.symm hc.2) hq⟩

theorem escape_of_not_mem {t : Text} (hb : '\\' ∉ t) (hq : '"' ∉ t) :
    t.flatMap escape = t := by
  refine (List.flatMap_congr ?_).trans
    (List.flatMap_singleton' _)
  intro c hc
  rw [escape, if_neg]
  intro h
  rcases h with rfl | rfl
  · exact hb hc
  · exact hq hc

/-- The page writes a value as it is where there is nothing to escape in
it, and no NUL. -/
theorem cfgEscape_eq_self {v : Text} (hcr : '\r' ∉ v) (hlf : '\n' ∉ v) :
    cfgEscape v = v ↔ '\\' ∉ v ∧ '"' ∉ v ∧ '\x00' ∉ v := by
  constructor
  · intro h
    have hnul : '\x00' ∉ v := by
      rw [← h]
      exact not_mem_cfgEscape hcr hlf (by decide) (not_mem_cString v)
    rw [cfgEscape_eq hcr hlf, cString_eq hnul] at h
    obtain ⟨hb, hq⟩ := escape_eq_self h
    exact ⟨hb, hq, hnul⟩
  · intro h
    obtain ⟨hb, hq, hnul⟩ := h
    rw [cfgEscape_eq hcr hlf, cString_eq hnul, escape_of_not_mem hb hq]

/-- A line the page writes is one line. -/
theorem not_mem_quotedLine {k v : Text} (hk : Shell.isName k = true)
    (hcr : '\r' ∉ v) (hlf : '\n' ∉ v) :
    '\n' ∉ quotedLine k (cfgEscape v) := by
  have hname : '\n' ∉ k := Shell.isName_not_mem hk rfl
  have hval : '\n' ∉ cfgEscape v :=
    not_mem_cfgEscape hcr hlf (by decide) fun hm => hlf (cString_subset hm)
  simp [quotedLine, hname, hval]

-- ======================================================= the two readers

theorem isName_eq_not_mem {key : Text} (h : Shell.isName key = true) :
    '=' ∉ key :=
  Shell.isName_not_mem h rfl

theorem isWhitespace_of_isBlank {c : Char} (h : Shell.isBlank c = true) :
    Text.isWhitespace c = true := by
  simp only [Shell.isBlank, Bool.or_eq_true, beq_iff_eq] at h
  rcases h with rfl | rfl <;> decide

theorem blanks_whitespace {t : Text}
    (h : ∀ c ∈ t, Shell.isBlank c = true) :
    ∀ c ∈ t, Text.isWhitespace c = true :=
  fun c hc => isWhitespace_of_isBlank (h c hc)

/-- A name has nothing to do with what the line starts with. -/
theorem name_head {key : Text} (hkey : Shell.isName key = true)
    (rest : Text) : ∃ c cs, key ++ rest = c :: cs ∧ c ∈ key := by
  obtain ⟨c, cs, rfl⟩ := List.exists_cons_of_ne_nil (Shell.isName_ne_nil hkey)
  exact ⟨c, cs ++ rest, rfl, List.mem_cons_self ..⟩

/-- The daemon trims what stands behind the equals sign. -/
theorem parseKvLine_key {indent key : Text}
    (hindent : ∀ c ∈ indent, Shell.isBlank c = true)
    (hkey : Shell.isName key = true) (rest : Text) :
    parseKvLine (indent ++ (key ++ '=' :: rest))
      = some (key, unquote (Text.trim rest)) := by
  obtain ⟨c, cs, hcs, hc⟩ := name_head hkey ('=' :: rest)
  have hstart : (indent ++ (key ++ '=' :: rest)).dropWhile Text.isWhitespace
      = key ++ '=' :: rest := by
    rw [List.dropWhile_append_of_pos (blanks_whitespace hindent), hcs]
    exact List.dropWhile_cons_of_neg (by
      simp [isWhitespace_of_isName hkey c hc])
  have htrim : Text.trim (indent ++ (key ++ '=' :: rest))
      = key ++ '=' :: Text.trimEnd rest := by
    unfold Text.trim Text.trimStart
    rw [hstart, Text.trimEnd_append_cons (by decide)]
  have hline : (key ++ '=' :: Text.trimEnd rest).isEmpty = false
      ∧ (key ++ '=' :: Text.trimEnd rest).head? ≠ some '#' := by
    obtain ⟨d, ds, hds, hd⟩ := name_head hkey ('=' :: Text.trimEnd rest)
    rw [hds]
    refine ⟨rfl, fun h => ?_⟩
    cases h
    exact Shell.isName_not_mem hkey rfl hd
  have hname : Text.trim key = key :=
    Text.trim_eq
      (fun c hc => isWhitespace_of_isName hkey c (List.mem_of_mem_head? hc))
      (fun c hc => isWhitespace_of_isName hkey c (List.mem_of_getLast? hc))
  have hall : key.all (fun c => Text.isAlnum c || c == '_') = true := by
    rw [List.all_eq_true]
    intro c hc
    simpa using Shell.isName_chars hkey c hc
  unfold parseKvLine
  rw [htrim, if_neg (by simpa [hline.1] using hline.2),
    Text.splitOnce_append (isName_eq_not_mem hkey), Option.bind_some]
  simp only [hname, hall, Text.trim_trimEnd]
  simp [Shell.isName_ne_nil hkey]

theorem unquote_quoted {q : Char} (hq : q = '"' ∨ q = '\'') (raw : Text) :
    unquote (q :: (raw ++ [q])) = raw := by
  unfold unquote
  rcases hq with rfl | rfl
  · rw [if_pos (by simp [List.getLast?_cons])]
    simp
  · rw [if_pos (by simp [List.getLast?_cons])]
    simp

/-- The daemon takes the text between the quotes as it stands. -/
theorem parseKvLine_quoted {key : Text} (hkey : Shell.isName key = true)
    (raw : Text) : parseKvLine (quotedLine key raw) = some (key, raw) := by
  have htrim : Text.trim ('"' :: (raw ++ ['"'])) = '"' :: (raw ++ ['"']) :=
    Text.trim_eq (fun c hc => by cases hc; decide)
      (fun c hc => by
        rw [← List.cons_append, List.getLast?_concat] at hc
        cases hc
        decide)
  have hline := parseKvLine_key (List.forall_mem_nil _) hkey
    ('"' :: (raw ++ ['"']))
  rw [htrim, unquote_quoted (.inl rfl), List.nil_append] at hline
  exact hline

/-- Trimmed, a comment starts with its hash. -/
theorem trim_comment {indent text : Text}
    (h : ∀ c ∈ indent, Shell.isBlank c = true) :
    (Text.trim (indent ++ '#' :: text)).head? = some '#' := by
  have hstart : Text.trimStart (indent ++ '#' :: text) = '#' :: text := by
    unfold Text.trimStart
    rw [List.dropWhile_append_of_pos fun c hc =>
      isWhitespace_of_isBlank (h c hc)]
    rfl
  rw [Text.trim, hstart, Text.trimEnd, List.head?_reverse,
    List.reverse_cons, List.dropWhile_append]
  split
  · rfl
  · rw [List.getLast?_concat]

/-- Blank lines and comments are nothing to the daemon. -/
theorem parseKvLine_quiet {l : Text} (h : Quiet l) :
    parseKvLine l = none := by
  cases h with
  | blank h =>
      have hstart : Text.trimStart l = [] := by
        rw [Text.trimStart, List.dropWhile_eq_nil_iff]
        intro c hc
        rcases h c hc with hb | rfl
        · exact isWhitespace_of_isBlank hb
        · decide
      unfold parseKvLine
      rw [Text.trim, hstart]
      rfl
  | comment h =>
      unfold parseKvLine
      rw [if_pos (by simp [trim_comment h])]

/-- Neither is a carriage return at the end of a line. -/
theorem parseKvLine_stripCr (l : Text) :
    parseKvLine (Text.stripCr l) = parseKvLine l := by
  suffices h : Text.trim (Text.stripCr l) = Text.trim l by
    unfold parseKvLine
    rw [h]
  unfold Text.stripCr
  split
  · next hlast =>
      obtain ⟨m, rfl⟩ := List.getLast?_eq_some_iff.mp hlast
      rw [List.dropLast_concat]
      unfold Text.trim Text.trimStart Text.trimEnd
      rw [List.dropWhile_append]
      split
      · next hnil =>
          rw [List.isEmpty_iff.mp hnil]
          rfl
      · rw [List.reverse_append]
        rfl
  · rfl

/-- The assignments a reader finds in a text. -/
def records (read : Text → Option (Text × Text)) (t : Text) :
    List (Text × Text) :=
  (Text.splitOn (· == '\n') t).filterMap read

/-- The daemon replays the assignments it finds. -/
theorem importConfigFile_eq (t : Text) :
    importConfigFile (.text t) = replay (records parseKvLine t) ∅ := by
  rw [records, ← Text.filterMap_lines (by decide) parseKvLine_stripCr, replay,
    List.foldl_filterMap]
  unfold importConfigFile FileContent.lines
  congr 1
  funext map line
  cases parseKvLine line <;> rfl

-- ============================================================ the shell

/-- What the page writes next does not change what a dollar sign
introduces. -/
theorem expandsAt_escape (sh : Shell) (t : Text) :
    sh.expandsAt (t.flatMap escape ++ ['"']) = sh.expandsAt t := by
  unfold Shell.expandsAt
  congr 1
  cases t with
  | nil => decide
  | cons c t =>
      rw [List.flatMap_cons]
      unfold escape
      split
      · next hesc =>
          rcases hesc with rfl | rfl
          · show Shell.introduces ('\\' :: _) = Shell.introduces ('\\' :: _)
            rfl
          · show Shell.introduces ('\\' :: _) = Shell.introduces ('"' :: _)
            rfl
      · rfl

theorem word_double (sh : Shell) {c : Char} (hb : c ≠ '\\') (hq : c ≠ '"')
    (cs : Text) :
    sh.word .double (c :: cs)
      = if c == '\x60' || (c == '$' && sh.expandsAt cs) then none
        else Shell.word.keep c (sh.word .double cs) := by
  rw [Shell.word.eq_def]
  simp [hb, hq]

/-- In double quotes the shell undoes the page's backslashes, and comes to
the closing quote where it finds nothing to expand. -/
theorem word_escape (sh : Shell) (t : Text) :
    sh.word .double (t.flatMap escape ++ ['"'])
      = if expands sh t then none else some (t, []) := by
  induction t with
  | nil => rfl
  | cons c t ih =>
      rw [List.flatMap_cons, List.append_assoc]
      by_cases hesc : c = '\\' ∨ c = '"'
      · have hexpands : expands sh (c :: t) = expands sh t := by
          rcases hesc with rfl | rfl <;> simp [expands]
        have hword : sh.word .double ('\\' :: c :: (t.flatMap escape ++ ['"']))
            = Shell.word.keep c
                (sh.word .double (t.flatMap escape ++ ['"'])) := by
          rcases hesc with rfl | rfl <;> simp [Shell.word, Shell.isEscapable]
        rw [escape, if_pos hesc, hexpands]
        show sh.word .double ('\\' :: c :: (t.flatMap escape ++ ['"'])) = _
        rw [hword, ih]
        split <;> rfl
      · rw [not_or] at hesc
        rw [escape, if_neg (not_or.mpr hesc)]
        show sh.word .double (c :: (t.flatMap escape ++ ['"'])) = _
        rw [word_double sh hesc.1 hesc.2, expandsAt_escape, ih, expands]
        by_cases hstop : (c == '\x60' || (c == '$' && sh.expandsAt t)) = true
        · rw [if_pos hstop, if_pos (by rw [hstop]; rfl)]
        · rw [if_neg hstop, Bool.eq_false_iff.mpr hstop, Bool.false_or]
          split <;> rfl

theorem isBlank_of_isName {key : Text} (hkey : Shell.isName key = true) :
    ∀ c ∈ key, Shell.isBlank c = false := by
  intro c hc
  by_contra hb
  have hw := isWhitespace_of_isBlank (Bool.not_eq_false _ ▸ hb)
  rw [isWhitespace_of_isName hkey c hc] at hw
  cases hw

/-- The shell assigns an escaped value, or stops at it. -/
theorem readLine_escape (sh : Shell) {key : Text}
    (hkey : Shell.isName key = true) (t : Text) :
    sh.readLine (quotedLine key (t.flatMap escape))
      = if expands sh t then none else some (some (key, t)) := by
  have hdrop : (quotedLine key (t.flatMap escape)).dropWhile Shell.isBlank
      = quotedLine key (t.flatMap escape) := by
    obtain ⟨d, ds, rfl⟩ := List.exists_cons_of_ne_nil (Shell.isName_ne_nil hkey)
    exact List.dropWhile_cons_of_neg (by
      simp [isBlank_of_isName hkey d (List.mem_cons_self ..)])
  have hquiet : Shell.isQuiet (quotedLine key (t.flatMap escape)) = false := by
    unfold Shell.isQuiet
    rw [hdrop]
    obtain ⟨d, ds, rfl⟩ := List.exists_cons_of_ne_nil (Shell.isName_ne_nil hkey)
    have hd : d ≠ '#' := by
      intro h
      subst h
      exact Shell.isName_not_mem hkey rfl (List.mem_cons_self ..)
    simpa [quotedLine] using hd
  have hword : sh.word .bare ('"' :: (t.flatMap escape ++ ['"']))
      = sh.word .double (t.flatMap escape ++ ['"']) := by
    rw [Shell.word.eq_def]
    rfl
  unfold Shell.readLine
  rw [hquiet, if_neg Bool.false_ne_true, hdrop, quotedLine,
    Text.splitOnce_append (isName_eq_not_mem hkey)]
  simp only [hkey, hword, word_escape]
  by_cases hexp : expands sh t = true
  · rw [if_pos hexp, if_pos hexp]
    rfl
  · rw [if_neg hexp, if_neg hexp]
    rfl

theorem plain_not_mem {t : Text} (h : ∀ c ∈ t, isPlain c = true) {c : Char}
    (hc : isPlain c = false) : c ∉ t := by
  intro hmem
  rw [h c hmem] at hc
  cases hc

theorem plain_escape {t : Text} (h : ∀ c ∈ t, isPlain c = true) :
    t.flatMap escape = t :=
  escape_of_not_mem (plain_not_mem h rfl) (plain_not_mem h rfl)

theorem plain_expands {t : Text} (h : ∀ c ∈ t, isPlain c = true)
    (sh : Shell) : expands sh t = false := by
  induction t with
  | nil => rfl
  | cons c t ih =>
      have hbq : c ≠ '\x60' := by
        intro h
        subst h
        exact plain_not_mem h rfl (List.mem_cons_self ..)
      have hdollar : c ≠ '$' := by
        intro h
        subst h
        exact plain_not_mem h rfl (List.mem_cons_self ..)
      rw [expands, ih fun d hd => h d (List.mem_cons_of_mem c hd)]
      simp [hbq, hdollar]

theorem deleteCr_eq {t : Text} (h : '\r' ∉ t) : deleteCr t = t := by
  rw [deleteCr, List.filter_eq_self]
  intro c hc
  simpa using fun he : c = '\r' => h (he ▸ hc)

theorem deleteCr_quotedLine {key : Text} (hkey : Shell.isName key = true)
    (raw : Text) :
    deleteCr (quotedLine key raw) = quotedLine key (deleteCr raw) := by
  have hk : deleteCr key = key := deleteCr_eq (Shell.isName_not_mem hkey rfl)
  unfold deleteCr at hk ⊢
  rw [quotedLine, List.filter_append, hk, List.filter_cons_of_pos (by decide),
    List.filter_cons_of_pos (by decide), List.filter_append]
  rfl

/-- The assignment the shell makes of a line, if it makes one. -/
def shellRead (sh : Shell) (l : Text) : Option (Text × Text) :=
  (sh.readLine (deleteCr l)).join

/-- Blank lines and comments are nothing to the shell. -/
theorem readLine_quiet (sh : Shell) {l : Text} (h : Quiet l) :
    sh.readLine (deleteCr l) = some none := by
  have hquiet : Shell.isQuiet (deleteCr l) = true := by
    cases h with
    | blank h =>
        have hdrop : (deleteCr l).dropWhile Shell.isBlank = [] := by
          rw [List.dropWhile_eq_nil_iff]
          intro c hc
          obtain ⟨hc, hcr⟩ := List.mem_filter.mp hc
          exact (h c hc).resolve_right (by simpa using hcr)
        rw [Shell.isQuiet, hdrop]
    | comment h =>
        rename_i indent text
        have hindent : '\r' ∉ indent := fun hm => absurd (h _ hm) (by decide)
        have hsplit : deleteCr (indent ++ '#' :: text)
            = indent ++ '#' :: deleteCr text := by
          have hi := deleteCr_eq hindent
          unfold deleteCr at hi ⊢
          rw [List.filter_append, hi]
          rfl
        rw [Shell.isQuiet, hsplit, List.dropWhile_append_of_pos h]
        rfl
  rw [Shell.readLine, if_pos hquiet]

/-- The shell assigns a plain value, without carriage returns. -/
theorem readLine_plain (sh : Shell) {key value : Text}
    (hkey : Shell.isName key = true) (hvalue : ∀ c ∈ value, isPlain c = true) :
    sh.readLine (deleteCr (quotedLine key value))
      = some (some (key, deleteCr value)) := by
  have hplain : ∀ c ∈ deleteCr value, isPlain c = true := fun c hc =>
    hvalue c (List.mem_filter.mp hc).1
  have hread := readLine_escape sh hkey (deleteCr value)
  rw [plain_escape hplain, plain_expands hplain] at hread
  rw [deleteCr_quotedLine hkey]
  exact hread

/-- The lines of what the shell is given. -/
theorem splitOn_deleteCr (t : Text) :
    Text.splitOn (· == '\n') (deleteCr t)
      = (Text.splitOn (· == '\n') t).map deleteCr := by
  refine Text.splitOn_filter ?_ t
  intro c hc
  rw [beq_iff_eq] at hc
  subst hc
  decide

/-- The shell replays the assignments it finds, where it can read every
line, -/
theorem loadConfig_eq {sh : Shell} {t : Text}
    (h : ∀ l ∈ Text.splitOn (· == '\n') t,
      sh.readLine (deleteCr l) = some (shellRead sh l))
    (defaults : Shell.Env) :
    loadConfig sh defaults t
      = some (replay (records (shellRead sh) t) defaults) := by
  have hlines : ∀ l ∈ Text.splitOn (· == '\n') (deleteCr t),
      sh.readLine l = some (sh.readLine l).join := by
    rw [splitOn_deleteCr]
    intro l hl
    obtain ⟨line, hline, rfl⟩ := List.mem_map.mp hl
    exact h line hline
  rw [loadConfig, Shell.source_eq hlines, splitOn_deleteCr,
    List.filterMap_map]
  rfl

/-- and comes to no end where it cannot. -/
theorem loadConfig_ne_some {sh : Shell} {t l : Text}
    (hl : l ∈ Text.splitOn (· == '\n') t)
    (h : sh.readLine (deleteCr l) = none) (defaults after : Shell.Env) :
    loadConfig sh defaults t ≠ some after := by
  refine Shell.source_ne_some (l := deleteCr l) ?_ h defaults after
  rw [splitOn_deleteCr]
  exact List.mem_map_of_mem hl

end Wrtg.Settings
