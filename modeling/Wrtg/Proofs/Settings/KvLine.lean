/-
One `KEY=VALUE` line as its two readers take it: the shell that sources
the file at service start, and `parse_kv_line` (`config.rs`), which a
reload uses.

`KvLine` is a line in the claimed form, with what its value is written
as and what follows it. The shell assigns the value as written
(`readLine_kvLine`); the daemon takes the first word, or what stands
between the first and the last quote (`unquote_written`). So the two
part where a comment follows other than a bare word, and where a bare
word holds white space that parts no words for the shell
(`kv_line_as_shell`).
-/
import Wrtg.Proofs.Settings.Lines

namespace Wrtg.Settings

open Lib Config

-- ============================================================ the form

/-- What is written for a value. -/
inductive Written where
  | empty
  | bare (word : Text)
  | quoted (quote : Char) (body : Text)
  deriving DecidableEq, Repr

/-- No metacharacter of the shell, and no line end. -/
def isBareChar (c : Char) : Bool :=
  !Shell.isBlank c && c != '\n' && !Shell.isSpecial c
    && !"'\"\\$\x60".toList.contains c

def Written.text : Written → Text
  | .empty => []
  | .bare word => word
  | .quoted quote body => quote :: (body ++ [quote])

/-- The value as written, without its quotes. -/
def Written.value : Written → Text
  | .empty => []
  | .bare word => word
  | .quoted _ body => body

def Written.WellFormed : Written → Prop
  | .empty => True
  | .bare word => word ≠ [] ∧ ∀ c ∈ word, isBareChar c = true
  | .quoted quote body => (quote = '"' ∨ quote = '\'')
      ∧ ∀ c ∈ body, c ≠ quote ∧ c ≠ '\\' ∧ c ≠ '$' ∧ c ≠ '\x60' ∧ c ≠ '\n'

/-- What follows a value: blanks, and a comment perhaps. -/
inductive Trailer where
  | blanks (gap : Text)
  | comment (gap text : Text)
  deriving DecidableEq, Repr

def Trailer.text : Trailer → Text
  | .blanks gap => gap
  | .comment gap text => gap ++ '#' :: text

def Trailer.WellFormed : Trailer → Prop
  | .blanks gap => ∀ c ∈ gap, Shell.isBlank c = true
  | .comment gap text =>
      (∀ c ∈ gap, Shell.isBlank c = true) ∧ gap ≠ [] ∧ '\n' ∉ text

/-- A `KEY=VALUE` line. -/
structure KvLine where
  indent : Text
  key : Text
  written : Written
  trailer : Trailer
  indent_blank : ∀ c ∈ indent, Shell.isBlank c = true
  key_name : Shell.isName key = true
  written_ok : written.WellFormed
  trailer_ok : trailer.WellFormed

def KvLine.text (l : KvLine) : Text :=
  l.indent ++ (l.key ++ '=' :: (l.written.text ++ l.trailer.text))

/-- The daemon reads the value that the shell assigns. -/
def KvLine.ReadAlike (sh : Shell) (l : KvLine) : Prop :=
  ∃ value, sh.readLine l.text = some (some (l.key, value))
    ∧ parseKvLine l.text = some (l.key, value)

/-- A comment follows nothing but a bare word, and no bare word holds
white space. -/
def KvLine.Simple (l : KvLine) : Prop :=
  match l.written, l.trailer with
  | .bare word, _ => ∀ c ∈ word, Text.isWhitespace c = false
  | _, .blanks .. => True
  | _, .comment .. => False

-- ============================================================ the shell

theorem word_bareChar (sh : Shell) {c : Char} (h : isBareChar c = true)
    (cs : Text) :
    sh.word .bare (c :: cs) = Shell.word.keep c (sh.word .bare cs) := by
  simp only [isBareChar, Bool.and_eq_true, Bool.not_eq_true', bne_iff_ne] at h
  obtain ⟨⟨⟨hblank, -⟩, hspecial⟩, hquotes⟩ := h
  have hnot : ∀ d ∈ "'\"\\$\x60".toList, c ≠ d := by
    intro d hd he
    subst he
    rw [List.contains_iff_mem.mpr hd] at hquotes
    cases hquotes
  rw [Shell.word.eq_def]
  simp [hblank, hspecial, hnot '\'' (by decide), hnot '"' (by decide),
    hnot '\\' (by decide), hnot '$' (by decide), hnot '\x60' (by decide)]

/-- In quotes, other than the quote and what expands stands for
itself. -/
theorem word_quotedChar (sh : Shell) {q c : Char} (hq : q = '"' ∨ q = '\'')
    (h : c ≠ q ∧ c ≠ '\\' ∧ c ≠ '$' ∧ c ≠ '\x60' ∧ c ≠ '\n') (cs : Text) :
    sh.word (if q = '"' then .double else .single) (c :: cs)
      = Shell.word.keep c
          (sh.word (if q = '"' then .double else .single) cs) := by
  obtain ⟨hne, hb, hd, hbq, -⟩ := h
  rcases hq with rfl | rfl
  · rw [if_pos rfl, word_double sh hb hne]
    simp [hd, hbq]
  · rw [if_neg (by decide), Shell.word.eq_def]
    simp [hne]

/-- A blank ends a word, and so does the end of the line. -/
theorem word_trailer (sh : Shell) {t : Text}
    (h : ∀ c, t.head? = some c → Shell.isBlank c = true) :
    sh.word .bare t = some ([], t) := by
  cases t with
  | nil => rfl
  | cons c t =>
      rw [Shell.word.eq_def]
      simp [h c rfl]

theorem Trailer.head_blank {t : Trailer} (h : t.WellFormed) (c : Char)
    (hc : t.text.head? = some c) : Shell.isBlank c = true := by
  cases t with
  | blanks gap => exact h c (List.mem_of_mem_head? hc)
  | comment gap text =>
      obtain ⟨hgap, hne, -⟩ := h
      obtain ⟨d, gap, rfl⟩ := List.exists_cons_of_ne_nil hne
      cases hc
      exact hgap c (List.mem_cons_self ..)

theorem Trailer.quiet {t : Trailer} (h : t.WellFormed) :
    Shell.isQuiet t.text = true := by
  unfold Shell.isQuiet
  cases t with
  | blanks gap => rw [Trailer.text, List.dropWhile_eq_nil_iff.mpr h]
  | comment gap text =>
      rw [Trailer.text, List.dropWhile_append_of_pos h.1]
      rfl

theorem word_bare (sh : Shell) {word t : Text}
    (hall : ∀ c ∈ word, isBareChar c = true)
    (ht : ∀ c, t.head? = some c → Shell.isBlank c = true) :
    sh.word .bare (word ++ t) = some (word, t) := by
  induction word with
  | nil => exact word_trailer sh ht
  | cons c word ih =>
      rw [List.cons_append,
        word_bareChar sh (hall c (List.mem_cons_self ..)),
        ih fun d hd => hall d (List.mem_cons_of_mem c hd)]
      rfl

theorem word_quoted (sh : Shell) {q : Char} (hq : q = '"' ∨ q = '\'')
    {body t : Text}
    (hall : ∀ c ∈ body, c ≠ q ∧ c ≠ '\\' ∧ c ≠ '$' ∧ c ≠ '\x60' ∧ c ≠ '\n')
    (ht : ∀ c, t.head? = some c → Shell.isBlank c = true) :
    sh.word (if q = '"' then .double else .single) (body ++ q :: t)
      = some (body, t) := by
  induction body with
  | nil =>
      have hclose : sh.word (if q = '"' then .double else .single) (q :: t)
          = sh.word .bare t := by
        rw [Shell.word.eq_def]
        rcases hq with rfl | rfl <;> rfl
      rw [List.nil_append, hclose, word_trailer sh ht]
  | cons c body ih =>
      rw [List.cons_append,
        word_quotedChar sh hq (hall c (List.mem_cons_self ..)),
        ih fun d hd => hall d (List.mem_cons_of_mem c hd)]
      rfl

/-- The word behind the equals sign is the value as written. -/
theorem word_written (sh : Shell) {w : Written} (hw : w.WellFormed)
    {t : Text} (ht : ∀ c, t.head? = some c → Shell.isBlank c = true) :
    sh.word .bare (w.text ++ t) = some (w.value, t) := by
  cases w with
  | empty => exact word_trailer sh ht
  | bare word => exact word_bare sh hw.2 ht
  | quoted q body =>
      obtain ⟨hq, hall⟩ := hw
      have hopen : sh.word .bare (q :: (body ++ [q]) ++ t)
          = sh.word (if q = '"' then .double else .single)
              (body ++ q :: t) := by
        rw [List.cons_append, List.append_assoc, Shell.word.eq_def]
        rcases hq with rfl | rfl <;> rfl
      exact hopen.trans (word_quoted sh hq hall ht)

theorem readLine_kvLine (sh : Shell) (l : KvLine) :
    sh.readLine l.text = some (some (l.key, l.written.value)) := by
  have hkey := l.key_name
  obtain ⟨c, cs, hcs, hc⟩ := name_head hkey
    ('=' :: (l.written.text ++ l.trailer.text))
  have hdrop : l.text.dropWhile Shell.isBlank
      = l.key ++ '=' :: (l.written.text ++ l.trailer.text) := by
    unfold KvLine.text
    rw [List.dropWhile_append_of_pos l.indent_blank, hcs]
    exact List.dropWhile_cons_of_neg (by simp [isBlank_of_isName hkey c hc])
  have hquiet : Shell.isQuiet l.text = false := by
    have hhash : c ≠ '#' := by
      intro h
      subst h
      exact Shell.isName_not_mem hkey rfl hc
    unfold Shell.isQuiet
    rw [hdrop, hcs]
    simpa using hhash
  unfold Shell.readLine
  rw [hquiet, if_neg Bool.false_ne_true, hdrop,
    Text.splitOnce_append (isName_eq_not_mem hkey)]
  simp only [hkey, word_written sh l.written_ok
    (Trailer.head_blank l.trailer_ok), Trailer.quiet l.trailer_ok, if_true]

-- ========================================================== the daemon

/-- Without a quote before it, the first word is the value. -/
theorem unquote_trim {t : Text}
    (h : ∀ q, (Text.firstWord t).head? = some q → q ≠ '"' ∧ q ≠ '\'') :
    unquote (Text.trim t) = Text.firstWord t := by
  have hquote : ∀ q, q = '"' ∨ q = '\'' →
      ((Text.trim t).head? == some q) = false := by
    intro q hq
    rw [beq_eq_false_iff_ne, Text.trim_head?]
    intro hhead
    rcases hq with rfl | rfl
    · exact (h _ hhead).1 rfl
    · exact (h _ hhead).2 rfl
  unfold unquote
  simp only [hquote '"' (.inl rfl), hquote '\'' (.inr rfl), Bool.false_and,
    Bool.or_false, Bool.and_false, Bool.false_eq_true, if_false]
  rw [Text.splitWhitespace_head, Text.firstWord_trim]

/-- Behind an opening quote the value is all up to a last quote, or the
first word with the quote. -/
theorem unquote_open {q : Char} (hq : q = '"' ∨ q = '\'') {body rest : Text}
    (hbody : q ∉ body) (hrest : rest ≠ []) :
    unquote (q :: (body ++ q :: rest)) ≠ body := by
  unfold unquote
  dsimp only
  split
  · intro h
    have hlen := congrArg List.length h
    have hpos := List.length_pos_of_ne_nil hrest
    simp only [List.drop_succ_cons, List.drop_zero, List.length_dropLast,
      List.length_append, List.length_cons] at hlen
    omega
  · rw [Text.splitWhitespace_head]
    have hws : Text.isWhitespace q = false := by
      rcases hq with rfl | rfl <;> decide
    unfold Text.firstWord
    rw [List.dropWhile_cons_of_neg (by simp [hws]),
      List.takeWhile_cons_of_pos (by simp [hws])]
    intro h
    exact hbody (h ▸ List.mem_cons_self ..)

theorem firstWord_blanks {gap : Text}
    (h : ∀ c ∈ gap, Shell.isBlank c = true) (t : Text) :
    Text.firstWord (gap ++ t) = Text.firstWord t := by
  unfold Text.firstWord
  rw [List.dropWhile_append_of_pos (blanks_whitespace h)]

/-- What the first word behind a value starts with. -/
def Trailer.mark : Trailer → Option Char
  | .blanks .. => none
  | .comment .. => some '#'

theorem Trailer.firstWord {t : Trailer} (h : t.WellFormed) :
    (Text.firstWord t.text).head? = t.mark := by
  cases t with
  | blanks gap =>
      have hnil := firstWord_blanks h []
      rw [List.append_nil] at hnil
      rw [Trailer.text, hnil]
      rfl
  | comment gap text =>
      rw [Trailer.text, firstWord_blanks h.1]
      rfl

theorem Trailer.mark_eq {t : Trailer} {c : Char} (h : t.mark = some c) :
    c = '#' := by
  cases t with
  | blanks gap => cases h
  | comment gap text =>
      cases h
      rfl

theorem not_quote_of_bare {c : Char} (h : isBareChar c = true) :
    c ≠ '"' ∧ c ≠ '\'' := by
  constructor
  · intro he
    subst he
    cases h
  · intro he
    subst he
    cases h

theorem unquote_empty {t : Trailer} (ht : t.WellFormed) :
    unquote (Text.trim t.text) = [] ↔ t.mark = none := by
  have hhead := Trailer.firstWord ht
  rw [unquote_trim, ← hhead, List.head?_eq_none_iff]
  intro q hq
  rw [Trailer.mark_eq (hhead.symm.trans hq)]
  decide

theorem unquote_bare {word : Text} (hne : word ≠ [])
    (hall : ∀ c ∈ word, isBareChar c = true) {t : Trailer}
    (ht : t.WellFormed) :
    unquote (Text.trim (word ++ t.text)) = word
      ↔ ∀ c ∈ word, Text.isWhitespace c = false := by
  rw [unquote_trim]
  · constructor
    · intro h c hc
      exact Text.isWhitespace_of_mem_firstWord (h ▸ hc)
    · intro h
      exact Text.firstWord_eq hne h fun c hc =>
        isWhitespace_of_isBlank (Trailer.head_blank ht c hc)
  · intro q hq
    rcases Text.firstWord_append_head? hq with hq | hq
    · exact not_quote_of_bare (hall q hq)
    · rw [Trailer.mark_eq ((Trailer.firstWord ht).symm.trans hq)]
      decide

theorem unquote_body {q : Char} (hq : q = '"' ∨ q = '\'') {body : Text}
    (hbody : q ∉ body) {t : Trailer} (ht : t.WellFormed) :
    unquote (Text.trim ((q :: (body ++ [q])) ++ t.text)) = body
      ↔ t.mark = none := by
  have hws : Text.isWhitespace q = false := by
    rcases hq with rfl | rfl <;> decide
  cases t with
  | blanks gap =>
      have htrim : Text.trim (q :: (body ++ [q])) = q :: (body ++ [q]) :=
        Text.trim_eq (fun c hc => by cases hc; exact hws)
          (fun c hc => by
            rw [← List.cons_append, List.getLast?_concat] at hc
            cases hc
            exact hws)
      rw [Trailer.text, Text.trim_append (blanks_whitespace ht), htrim,
        unquote_quoted hq]
      exact iff_of_true rfl rfl
  | comment gap text =>
      have htrim : Text.trim ((q :: (body ++ [q])) ++ (gap ++ '#' :: text))
          = q :: (body ++ q :: (gap ++ '#' :: Text.trimEnd text)) := by
        have hend := Text.trimEnd_append_cons (c := '#') (by decide)
          (q :: (body ++ q :: gap)) text
        unfold Text.trim Text.trimStart
        rw [List.cons_append, List.dropWhile_cons_of_neg (by simp [hws])]
        simpa using hend
      rw [Trailer.text, htrim]
      refine iff_of_false (unquote_open hq hbody (by simp)) fun h => ?_
      cases h

/-- The daemon reads the value as written if and only if the line is
simple. -/
theorem unquote_written (l : KvLine) :
    unquote (Text.trim (l.written.text ++ l.trailer.text)) = l.written.value
      ↔ l.Simple := by
  have ht := l.trailer_ok
  unfold KvLine.Simple
  cases hw : l.written with
  | empty =>
      refine (unquote_empty ht).trans ?_
      cases l.trailer <;> simp [Trailer.mark]
  | bare word =>
      obtain ⟨hne, hall⟩ := hw ▸ l.written_ok
      exact unquote_bare hne hall ht
  | quoted q body =>
      obtain ⟨hq, hall⟩ := hw ▸ l.written_ok
      refine (unquote_body hq (fun hm => (hall q hm).1 rfl) ht).trans ?_
      cases l.trailer <;> simp [Trailer.mark]

-- ======================================================== the two readers

/-- A line is read alike if and only if it is simple. -/
theorem kv_line_as_shell (sh : Shell) (l : KvLine) :
    l.ReadAlike sh ↔ l.Simple := by
  have hshell := readLine_kvLine sh l
  have hdaemon := parseKvLine_key l.indent_blank l.key_name
    (l.written.text ++ l.trailer.text)
  rw [← unquote_written l]
  constructor
  · intro h
    obtain ⟨value, hread, hparse⟩ := h
    have hsh := hread.symm.trans hshell
    have hd := hparse.symm.trans hdaemon
    cases hsh
    exact (Prod.mk.inj (Option.some.inj hd)).2.symm
  · intro h
    exact ⟨l.written.value, hshell, h ▸ hdaemon⟩

/-- `KEY="a" # b`, as the shipped file comments its values. -/
def sampleCommented : KvLine where
  indent := []
  key := "KEY".toList
  written := .quoted '"' "a".toList
  trailer := .comment " ".toList " b".toList
  indent_blank := by simp
  key_name := by decide
  written_ok := ⟨.inl rfl, by simp⟩
  trailer_ok := ⟨by simp [Shell.isBlank], by simp, by simp⟩

/-- The shell assigns `a`; the daemon keeps the quotes. -/
theorem kv_line_commented :
    ¬ ∀ (sh : Shell) (l : KvLine), l.ReadAlike sh := by
  intro h
  obtain ⟨value, hread, hparse⟩ := h { loneDollar := true } sampleCommented
  have hshell : Shell.readLine { loneDollar := true } sampleCommented.text
      = some (some ("KEY".toList, "a".toList)) := by decide
  have hdaemon : parseKvLine sampleCommented.text
      = some ("KEY".toList, "\"a\"".toList) := by decide
  cases hread.symm.trans hshell
  cases hparse.symm.trans hdaemon

end Wrtg.Settings
