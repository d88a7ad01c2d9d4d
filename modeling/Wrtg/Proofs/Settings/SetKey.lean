/-
Which settings survive the trip through the config file (`config.ut`,
`lib.sh`, `config.rs`).

# One writer, two readers

A config text is a log of assignments, and to each reader `set_key` is
an update of the log it reads (`records_setKey`): the lines of the key
are written over, or a line is added, and no other line is read
differently. What the two readers make of the value differs: only the
shell undoes the page's escaping, and only the shell expands. So a value
survives when there is nothing to escape and nothing to expand in it
(`survives_iff`).
-/
import Wrtg.Proofs.Settings.Lines

namespace Wrtg.Settings

open Lib Config

-- ======================================================== what is asked

/-- Blank lines, comments and assignments of plain quoted values. -/
structure ConfigText (t : Text) : Prop where
  text : '\x00' ∉ t
  lines : ∀ l ∈ Text.splitOn (· == '\n') t, ConfigLine l

/-- The key has the value, to the shell and to the daemon, and every
other key the one it had. -/
structure Survives (sh : Shell) (defaults : Shell.Env) (t k v : Text) :
    Prop where
  shell : ∃ before after, loadConfig sh defaults t = some before
    ∧ loadConfig sh defaults (setKey t k v) = some after
    ∧ after.lookup k = some v
    ∧ ∀ k', k' ≠ k → after.lookup k' = before.lookup k'
  daemon : (importConfigFile (.text (setKey t k v))).get k = some v
    ∧ ∀ k', k' ≠ k → (importConfigFile (.text (setKey t k v))).get k'
      = (importConfigFile (.text t)).get k'

/-- Nothing in the value that the page escapes, that the shell expands or
that ends a string. -/
structure Quotable (sh : Shell) (v : Text) : Prop where
  backslash : '\\' ∉ v
  quote : '"' ∉ v
  nul : '\x00' ∉ v
  expands : expands sh v = false

-- ============================================================ trimming

theorem isTrimmed_iff {c : Char} : isTrimmed c = true
    ↔ c = '\n' ∨ Shell.isBlank c = true ∨ c = '\r' := by
  simp [isTrimmed, Shell.isBlank]
  tauto

/-- Neither end of an assignment is trimmed. -/
theorem ends_quotedLine {key : Text} (hkey : Shell.isName key = true)
    (raw : Text) :
    (∃ d u, quotedLine key raw = d :: u ∧ isTrimmed d = false)
      ∧ ∃ u, quotedLine key raw = u ++ ['"'] := by
  constructor
  · obtain ⟨d, ds, rfl⟩ :=
      List.exists_cons_of_ne_nil (Shell.isName_ne_nil hkey)
    refine ⟨d, _, rfl, ?_⟩
    by_contra hd
    rw [Bool.not_eq_false] at hd
    have hmem : d ∈ d :: ds := List.mem_cons_self ..
    have hws := isWhitespace_of_isName hkey d hmem
    rcases isTrimmed_iff.mp hd with rfl | hb | rfl
    · exact absurd hws (by decide)
    · rw [isWhitespace_of_isBlank hb] at hws
      cases hws
    · exact absurd hws (by decide)
  · exact ⟨key ++ '=' :: '"' :: raw, by simp [quotedLine]⟩

/-- A line that starts with what is trimmed is quiet, and stays so. -/
theorem quiet_of_cons {c : Char} {l : Text} (h : ConfigLine (c :: l))
    (hc : Shell.isBlank c = true ∨ c = '\r') : Quiet (c :: l) ∧ Quiet l := by
  generalize hline : c :: l = line at h
  cases h with
  | quiet h =>
      refine ⟨h, ?_⟩
      cases h with
      | blank h =>
          subst hline
          exact .blank fun d hd => h d (List.mem_cons_of_mem c hd)
      | @comment indent text h =>
          cases indent with
          | nil =>
              cases hline
              exact absurd (isTrimmed_iff.mpr (.inr hc)) (by decide)
          | cons d indent =>
              cases hline
              exact .comment fun e he => h e (List.mem_cons_of_mem c he)
  | @assign key value hkey hvalue =>
      obtain ⟨⟨d, u, heq, hd⟩, -⟩ := ends_quotedLine hkey value
      rw [heq] at hline
      cases hline
      rw [isTrimmed_iff.mpr (.inr hc)] at hd
      cases hd

/-- So is one that ends with it. -/
theorem quiet_of_concat {c : Char} {l : Text} (h : ConfigLine (l ++ [c]))
    (hc : Shell.isBlank c = true ∨ c = '\r') :
    Quiet (l ++ [c]) ∧ Quiet l := by
  generalize hline : l ++ [c] = line at h
  cases h with
  | quiet h =>
      refine ⟨h, ?_⟩
      cases h with
      | blank h =>
          subst hline
          exact .blank fun d hd => h d (List.mem_append_left [c] hd)
      | @comment indent text h =>
          rcases List.eq_nil_or_concat' text with rfl | ⟨u, d, rfl⟩
          · obtain ⟨-, hchar⟩ := List.append_inj' hline rfl
            cases hchar
            exact absurd (isTrimmed_iff.mpr (.inr hc)) (by decide)
          · rw [← List.cons_append, ← List.append_assoc] at hline
            obtain ⟨rfl, -⟩ := List.append_inj' hline rfl
            exact .comment h
  | @assign key value hkey hvalue =>
      obtain ⟨-, u, heq⟩ := ends_quotedLine hkey value
      rw [heq] at hline
      obtain ⟨-, hchar⟩ := List.append_inj' hline rfl
      cases hchar
      exact absurd (isTrimmed_iff.mpr (.inr hc)) (by decide)

/-- A reader to which blank lines and comments are nothing. -/
def SkipsQuiet (read : Text → Option (Text × Text)) : Prop :=
  ∀ l, Quiet l → read l = none

variable {read : Text → Option (Text × Text)}

theorem configText_of_cons {c : Char} {t : Text} (hread : SkipsQuiet read)
    (h : ConfigText (c :: t)) (hc : isTrimmed c = true) :
    ConfigText t ∧ records read t = records read (c :: t) := by
  have hnul : '\x00' ∉ t := fun hm => h.text (List.mem_cons_of_mem c hm)
  have hlines := h.lines
  unfold records
  by_cases hlf : c = '\n'
  · subst hlf
    rw [Text.splitOn_cons_sep rfl] at hlines ⊢
    refine ⟨⟨hnul, fun l hl => hlines l (List.mem_cons_of_mem [] hl)⟩, ?_⟩
    rw [List.filterMap_cons, hread [] .nil]
  · have hc := (isTrimmed_iff.mp hc).resolve_left hlf
    obtain ⟨w, ws, hsp⟩ := List.exists_cons_of_ne_nil
      (Text.splitOn_ne_nil (· == '\n') t)
    rw [Text.splitOn_cons (by simpa using hlf) hsp] at hlines ⊢
    rw [hsp]
    obtain ⟨hq, hq'⟩ :=
      quiet_of_cons (hlines (c :: w) (List.mem_cons_self ..)) hc
    refine ⟨⟨hnul, ?_⟩, ?_⟩
    · intro l hl
      rw [hsp] at hl
      rcases List.mem_cons.mp hl with rfl | hl
      · exact .quiet hq'
      · exact hlines l (List.mem_cons_of_mem _ hl)
    · rw [List.filterMap_cons, List.filterMap_cons, hread _ hq, hread _ hq']

theorem configText_of_concat {c : Char} {t : Text} (hread : SkipsQuiet read)
    (h : ConfigText (t ++ [c])) (hc : isTrimmed c = true) :
    ConfigText t ∧ records read t = records read (t ++ [c]) := by
  have hnul : '\x00' ∉ t := fun hm => h.text (List.mem_append_left [c] hm)
  have hlines := h.lines
  unfold records
  by_cases hlf : c = '\n'
  · subst hlf
    rw [Text.splitOn_append_cons (by decide)] at hlines ⊢
    refine ⟨⟨hnul, fun l hl => hlines l (List.mem_append_left _ hl)⟩, ?_⟩
    have hnil : read [] = none := hread [] .nil
    simp [Text.splitOn, hnil]
  · have hc := (isTrimmed_iff.mp hc).resolve_left hlf
    obtain ⟨ws, w, ht, htc⟩ :=
      @Text.splitOn_concat (· == '\n') c (by simpa using hlf) t
    rw [htc] at hlines
    obtain ⟨hq, hq'⟩ := quiet_of_concat
      (hlines (w ++ [c]) (List.mem_append_right ws (List.mem_cons_self ..))) hc
    refine ⟨⟨hnul, ?_⟩, ?_⟩
    · intro l hl
      rw [ht] at hl
      rcases List.mem_append.mp hl with hl | hl
      · exact hlines l (List.mem_append_left _ hl)
      · rw [List.mem_singleton.mp hl]
        exact .quiet hq'
    · rw [ht, htc, List.filterMap_append, List.filterMap_append,
        List.filterMap_cons, List.filterMap_cons, hread _ hq, hread _ hq']

/-- Trimming a config text leaves the assignments as they are. -/
theorem configText_trim (hread : SkipsQuiet read) {t : Text}
    (h : ConfigText t) :
    ConfigText (trim t) ∧ records read (trim t) = records read t := by
  have hstart : ConfigText (t.dropWhile isTrimmed)
      ∧ records read (t.dropWhile isTrimmed) = records read t := by
    induction t with
    | nil => exact ⟨h, rfl⟩
    | cons c t ih =>
        by_cases hc : isTrimmed c = true
        · obtain ⟨ht, hrec⟩ := configText_of_cons hread h hc
          rw [List.dropWhile_cons_of_pos hc, ← hrec]
          exact ih ht
        · rw [List.dropWhile_cons_of_neg hc]
          exact ⟨h, rfl⟩
  unfold trim
  rw [← hstart.2]
  have hmid := hstart.1
  generalize t.dropWhile isTrimmed = u at hmid
  induction u using List.reverseRecOn with
  | nil => exact ⟨hmid, rfl⟩
  | append_singleton u c ih =>
      by_cases hc : isTrimmed c = true
      · obtain ⟨hu, hrec⟩ := configText_of_concat hread hmid hc
        rw [List.rdropWhile_concat_pos _ _ _ hc, ← hrec]
        exact ih hu
      · rw [List.rdropWhile_concat_neg _ _ _ hc]
        exact ⟨hmid, rfl⟩

-- ============================================================= set_key

/-- `set_key`'s test of a line. -/
def hasKey (k l : Text) : Bool :=
  (trim l).take (k ++ ['=']).length == k ++ ['=']

theorem hasKey_iff {k l : Text} :
    hasKey k l = true ↔ k ++ ['='] <+: trim l := by
  rw [hasKey, beq_iff_eq, List.prefix_iff_eq_take]
  exact eq_comm

/-- An assignment is found by its own key and by no other. -/
theorem hasKey_quotedLine {k key : Text} (hk : Shell.isName k = true)
    (hkey : Shell.isName key = true) (raw : Text) :
    hasKey k (quotedLine key raw) = true ↔ key = k := by
  have htrim : trim (quotedLine key raw) = quotedLine key raw := by
    obtain ⟨⟨d, u, hfirst, hd⟩, w, hlast⟩ := ends_quotedLine hkey raw
    rw [trim, hfirst, List.dropWhile_cons_of_neg (by simp [hd]), ← hfirst,
      hlast, List.rdropWhile_concat_neg _ _ _ (by decide)]
  rw [hasKey_iff, htrim]
  constructor
  · intro h
    obtain ⟨u, hu⟩ := h
    rw [List.append_assoc] at hu
    have hleft : Text.splitOnce '=' (k ++ '=' :: u) = some (k, u) :=
      Text.splitOnce_append (isName_eq_not_mem hk) _
    have hright : Text.splitOnce '=' (quotedLine key raw)
        = some (key, '"' :: (raw ++ ['"'])) :=
      Text.splitOnce_append (isName_eq_not_mem hkey) _
    rw [← hu] at hright
    have hboth := hright.symm.trans hleft
    simp only [Option.some.injEq, Prod.mk.injEq] at hboth
    exact hboth.1
  · intro h
    subst h
    exact ⟨'"' :: (raw ++ ['"']), by simp [quotedLine]⟩

/-- No key finds a blank line or a comment. -/
theorem hasKey_quiet {k l : Text} (hk : Shell.isName k = true)
    (h : Quiet l) : hasKey k l = false := by
  obtain ⟨d, ds, rfl⟩ := List.exists_cons_of_ne_nil (Shell.isName_ne_nil hk)
  by_contra hkey
  rw [Bool.not_eq_false, hasKey_iff] at hkey
  obtain ⟨u, hu⟩ := hkey
  cases h with
  | blank h =>
      have hnil : l.dropWhile isTrimmed = [] := by
        rw [List.dropWhile_eq_nil_iff]
        exact fun c hc => isTrimmed_iff.mpr (.inr (h c hc))
      rw [trim, hnil] at hu
      cases hu
  | @comment indent text h =>
      have hdrop : (indent ++ '#' :: text).dropWhile isTrimmed
          = '#' :: text := by
        rw [List.dropWhile_append_of_pos fun c hc =>
          isTrimmed_iff.mpr (.inr (.inl (h c hc)))]
        rfl
      obtain ⟨w, hw⟩ := List.rdropWhile_prefix isTrimmed (l := '#' :: text)
      rw [trim, hdrop] at hu
      rw [← hu] at hw
      cases hw
      exact Shell.isName_not_mem hk rfl (List.mem_cons_self ..)

section Writer

variable {t k v : Text}

/-- The lines `set_key` leaves: those of the key written over, or one
more behind the rest. -/
theorem setKey_lines (ht : ConfigText t) (hk : Shell.isName k = true)
    (hcr : '\r' ∉ v) (hlf : '\n' ∉ v) :
    ((∃ l ∈ Text.splitOn (· == '\n') t, hasKey k l = true)
      ∧ Text.splitOn (· == '\n') (setKey t k v)
        = (Text.splitOn (· == '\n') t).map fun l =>
            if hasKey k l then quotedLine k (cfgEscape v) else l)
    ∨ ((∀ l ∈ Text.splitOn (· == '\n') t, hasKey k l = false)
      ∧ Text.splitOn (· == '\n') (setKey t k v)
        = Text.splitOn (· == '\n') (trim t)
          ++ [quotedLine k (cfgEscape v), []]) := by
  have hnew := not_mem_quotedLine hk hcr hlf
  have hset : setKey t k v
      = if (Text.splitOn (· == '\n') t).any (hasKey k) then
          ['\n'].intercalate ((Text.splitOn (· == '\n') t).map fun l =>
            if hasKey k l then quotedLine k (cfgEscape v) else l)
        else trim (['\n'].intercalate ((Text.splitOn (· == '\n') t).map
            fun l => if hasKey k l then quotedLine k (cfgEscape v) else l))
          ++ '\n' :: (quotedLine k (cfgEscape v) ++ ['\n']) := by
    unfold setKey split
    rw [cString_eq ht.text]
    rfl
  rw [hset]
  by_cases hany : ∃ l ∈ Text.splitOn (· == '\n') t, hasKey k l = true
  · refine .inl ⟨hany, ?_⟩
    rw [if_pos (List.any_eq_true.mpr hany)]
    refine Text.splitOn_intercalate ?_ ?_
    · rw [Ne, List.map_eq_nil_iff]
      exact Text.splitOn_ne_nil _ t
    · intro l hl
      obtain ⟨line, hline, rfl⟩ := List.mem_map.mp hl
      split
      · exact hnew
      · exact fun hm => absurd (Text.sep_of_mem_splitOn hline hm) (by decide)
  · have hnone : ∀ l ∈ Text.splitOn (· == '\n') t, hasKey k l = false :=
      fun l hl => Bool.eq_false_iff.mpr fun hkey => hany ⟨l, hl, hkey⟩
    refine .inr ⟨hnone, ?_⟩
    have hsame : ((Text.splitOn (· == '\n') t).map fun l =>
        if hasKey k l then quotedLine k (cfgEscape v) else l)
        = Text.splitOn (· == '\n') t := by
      refine (List.map_congr_left ?_).trans (List.map_id' _)
      intro l hl
      rw [hnone l hl]
      rfl
    rw [if_neg (by rw [List.any_eq_true]; exact hany), hsame,
      Text.intercalate_splitOn, Text.splitOn_append_cons (by decide),
      Text.splitOn_append_cons (by decide)]
    have hone : Text.splitOn (· == '\n') (quotedLine k (cfgEscape v))
        = [quotedLine k (cfgEscape v)] := by
      have h := @Text.splitOn_intercalate '\n' [quotedLine k (cfgEscape v)]
        (by simp) (by simpa using hnew)
      rwa [List.intercalate_singleton] at h
    rw [hone]
    rfl

/-- A reader of config lines: blank lines and comments are nothing to it,
and an assignment is one of its key. -/
structure Reader (read : Text → Option (Text × Text)) : Prop where
  quiet : SkipsQuiet read
  assign : ∀ key value, Shell.isName key = true →
    (∀ c ∈ value, isPlain c = true) →
    ∃ x, read (quotedLine key value) = some (key, x)

/-- What a reader finds in a line is what `set_key` looks for. -/
theorem Reader.hasKey_iff {read : Text → Option (Text × Text)}
    (hread : Reader read) {l : Text} (h : ConfigLine l)
    (hk : Shell.isName k = true) :
    hasKey k l = true ↔ ∃ x, read l = some (k, x) := by
  cases h with
  | quiet h =>
      rw [hasKey_quiet hk h, hread.quiet l h]
      exact iff_of_false Bool.false_ne_true (fun ⟨x, hx⟩ => by cases hx)
  | @assign key value hkey hvalue =>
      obtain ⟨y, hy⟩ := hread.assign key value hkey hvalue
      rw [hasKey_quotedLine hk hkey, hy]
      constructor
      · intro h
        subst h
        exact ⟨y, rfl⟩
      · intro h
        obtain ⟨x, hx⟩ := h
        cases hx
        rfl

/-- To a reader that finds the new value `x` in the new line, `set_key`
sets the record of the key. -/
theorem records_setKey {read : Text → Option (Text × Text)}
    (hread : Reader read) (ht : ConfigText t) (hk : Shell.isName k = true)
    (hcr : '\r' ∉ v) (hlf : '\n' ∉ v) {x : Text}
    (hnew : read (quotedLine k (cfgEscape v)) = some (k, x)) :
    records read (setKey t k v) = setRecord k x (records read t) := by
  have hline : ∀ l ∈ Text.splitOn (· == '\n') t,
      read (if hasKey k l then quotedLine k (cfgEscape v) else l)
        = (read l).map fun r => if r.1 = k then (k, x) else r := by
    intro l hl
    have hiff := hread.hasKey_iff (ht.lines l hl) hk
    by_cases hkey : hasKey k l = true
    · obtain ⟨y, hy⟩ := hiff.mp hkey
      rw [if_pos hkey, hnew, hy, Option.map_some, if_pos rfl]
    · rw [if_neg hkey]
      cases hr : read l with
      | none => rfl
      | some r =>
          have hne : r.1 ≠ k := fun he =>
            hkey (hiff.mpr ⟨r.2, by rw [hr, ← he]⟩)
          rw [Option.map_some, if_neg hne]
  unfold setRecord
  rcases setKey_lines ht hk hcr hlf with ⟨⟨l, hl, hkey⟩, hset⟩ | ⟨hno, hset⟩
  · obtain ⟨y, hy⟩ := (hread.hasKey_iff (ht.lines l hl) hk).mp hkey
    rw [if_pos ⟨(k, y), List.mem_filterMap.mpr ⟨l, hl, hy⟩, rfl⟩, records,
      hset, List.filterMap_map, records, List.map_filterMap]
    exact List.filterMap_congr hline
  · have hnone : ¬∃ r ∈ records read t, r.1 = k := by
      intro h
      obtain ⟨r, hr, he⟩ := h
      obtain ⟨l, hl, hy⟩ := List.mem_filterMap.mp hr
      have hkey := (hread.hasKey_iff (ht.lines l hl) hk).mpr
        ⟨r.2, by rw [hy, ← he]⟩
      rw [hno l hl] at hkey
      cases hkey
    have hnil : read [] = none :=
      hread.quiet [] .nil
    rw [if_neg hnone, records, hset, List.filterMap_append, ← records,
      (configText_trim hread.quiet ht).2, List.filterMap_cons, hnew,
      List.filterMap_cons, hnil]
    rfl

/-- The new line is one of the lines. -/
theorem mem_setKey (ht : ConfigText t) (hk : Shell.isName k = true)
    (hcr : '\r' ∉ v) (hlf : '\n' ∉ v) :
    quotedLine k (cfgEscape v) ∈ Text.splitOn (· == '\n') (setKey t k v) := by
  rcases setKey_lines ht hk hcr hlf with ⟨⟨l, hl, hkey⟩, hset⟩ | ⟨-, hset⟩
  · rw [hset]
    exact List.mem_map.mpr ⟨l, hl, if_pos hkey⟩
  · rw [hset]
    exact List.mem_append_right _ (List.mem_cons_self ..)

/-- And the other lines are config lines. -/
theorem configLine_of_mem_setKey (ht : ConfigText t)
    (hk : Shell.isName k = true) (hcr : '\r' ∉ v) (hlf : '\n' ∉ v) {l : Text}
    (hl : l ∈ Text.splitOn (· == '\n') (setKey t k v)) :
    l = quotedLine k (cfgEscape v) ∨ ConfigLine l := by
  rcases setKey_lines ht hk hcr hlf with ⟨-, hset⟩ | ⟨-, hset⟩
  · rw [hset] at hl
    obtain ⟨line, hline, rfl⟩ := List.mem_map.mp hl
    by_cases hkey : hasKey k line = true
    · rw [if_pos hkey]
      exact .inl rfl
    · rw [if_neg hkey]
      exact .inr (ht.lines line hline)
  · rw [hset] at hl
    rcases List.mem_append.mp hl with hl | hl
    · exact .inr ((configText_trim
        (fun _ h => parseKvLine_quiet h) ht).1.lines l hl)
    · rcases List.mem_cons.mp hl with rfl | hl
      · exact .inl rfl
      · rw [List.mem_singleton.mp hl]
        exact .inr (.quiet .nil)

end Writer

-- ====================================================== both readers

theorem reader_daemon : Reader parseKvLine where
  quiet := fun _ h => parseKvLine_quiet h
  assign := fun _ value hkey _ => ⟨value, parseKvLine_quoted hkey value⟩

theorem reader_shell (sh : Shell) : Reader (shellRead sh) where
  quiet := fun l h => by rw [shellRead, readLine_quiet sh h]; rfl
  assign := fun key value hkey hvalue => by
    rw [shellRead, readLine_plain sh hkey hvalue]
    exact ⟨deleteCr value, rfl⟩

/-- The shell can read every line of a config text. -/
theorem readLine_configLine (sh : Shell) {l : Text} (h : ConfigLine l) :
    sh.readLine (deleteCr l) = some (shellRead sh l) := by
  unfold shellRead
  cases h with
  | quiet h =>
      rw [readLine_quiet sh h]
      rfl
  | assign hkey hvalue =>
      rw [readLine_plain sh hkey hvalue]
      rfl

/-- What the shell makes of the new line. -/
theorem readLine_new (sh : Shell) {k v : Text} (hk : Shell.isName k = true)
    (hcr : '\r' ∉ v) (hlf : '\n' ∉ v) :
    sh.readLine (deleteCr (quotedLine k (cfgEscape v)))
      = if expands sh (cString v) then none
        else some (some (k, cString v)) := by
  have hclean : '\r' ∉ cfgEscape v :=
    not_mem_cfgEscape hcr hlf (by decide) fun hm => hcr (cString_subset hm)
  rw [deleteCr_quotedLine hk, deleteCr_eq hclean, cfgEscape_eq hcr hlf,
    readLine_escape sh hk]

/-- A value set on the settings page survives the config file if and only
if it has nothing that the page escapes, the shell expands or ends a
string. -/
theorem survives_iff (sh : Shell) (defaults : Shell.Env) (t k v : Text)
    (ht : ConfigText t) (hk : Shell.isName k = true) (hcr : '\r' ∉ v)
    (hlf : '\n' ∉ v) : Survives sh defaults t k v ↔ Quotable sh v := by
  have hnew := readLine_new sh hk hcr hlf
  have hdaemon : records parseKvLine (setKey t k v)
      = setRecord k (cfgEscape v) (records parseKvLine t) :=
    records_setKey reader_daemon ht hk hcr hlf (parseKvLine_quoted hk _)
  constructor
  · intro h
    obtain ⟨⟨before, after, -, hafter, -, -⟩, hget, -⟩ := h
    have hsame : cfgEscape v = v := by
      rw [importConfigFile_eq, hdaemon] at hget
      exact Option.some.inj ((lookup_setRecord ..).symm.trans hget)
    obtain ⟨hb, hq, hnul⟩ := (cfgEscape_eq_self hcr hlf).mp hsame
    refine ⟨hb, hq, hnul, ?_⟩
    by_contra hexp
    rw [cString_eq hnul, if_pos (by simpa using hexp)] at hnew
    exact loadConfig_ne_some (mem_setKey ht hk hcr hlf) hnew defaults after
      hafter
  · intro h
    obtain ⟨hb, hq, hnul, hexp⟩ := h
    rw [cString_eq hnul, hexp, if_neg Bool.false_ne_true] at hnew
    have hshell : records (shellRead sh) (setKey t k v)
        = setRecord k v (records (shellRead sh) t) :=
      records_setKey (reader_shell sh) ht hk hcr hlf (by
        rw [shellRead, hnew]
        rfl)
    have hbefore := loadConfig_eq
      (fun l hl => readLine_configLine sh (ht.lines l hl)) defaults
    have hlines : ∀ l ∈ Text.splitOn (· == '\n') (setKey t k v),
        sh.readLine (deleteCr l) = some (shellRead sh l) := by
      intro l hl
      rcases configLine_of_mem_setKey ht hk hcr hlf hl with rfl | h
      · rw [shellRead, hnew]
        rfl
      · exact readLine_configLine sh h
    have hafter := loadConfig_eq hlines defaults
    rw [hshell] at hafter
    rw [(cfgEscape_eq_self hcr hlf).mpr ⟨hb, hq, hnul⟩] at hdaemon
    refine ⟨⟨_, _, hbefore, hafter, lookup_setRecord .., fun k' hne =>
      lookup_setRecord_ne hne ..⟩, ?_, ?_⟩
    · rw [importConfigFile_eq, hdaemon]
      exact lookup_setRecord ..
    · intro k' hne
      rw [importConfigFile_eq, importConfigFile_eq, hdaemon]
      exact lookup_setRecord_ne hne ..

/-- A router's config, without a token. -/
def sampleText : Text :=
  "# wrtg\n\nFRONT_IP=\"149.154.167.220\"\nWRTG_LANG=\"en\"\n".toList

theorem sampleText_config : ConfigText sampleText := by
  refine ⟨by decide +kernel, ?_⟩
  intro l hl
  have hlines : Text.splitOn (· == '\n') sampleText
      = [[] ++ '#' :: " wrtg".toList, [],
        quotedLine "FRONT_IP".toList "149.154.167.220".toList,
        quotedLine "WRTG_LANG".toList "en".toList, []] := by decide +kernel
  have hnil : ConfigLine [] := .quiet .nil
  rw [hlines] at hl
  simp only [List.mem_cons, List.not_mem_nil, or_false] at hl
  rcases hl with rfl | rfl | rfl | rfl | rfl
  · exact .quiet (.comment (fun _ hm => by cases hm))
  · exact hnil
  · exact .assign rfl (List.all_eq_true.mp rfl)
  · exact .assign rfl (List.all_eq_true.mp rfl)
  · exact hnil

/-- A token with blanks, a hash, quotes of the other kind and a dollar
sign at its end. -/
theorem survives_sample :
    Survives ⟨true⟩ ∅ sampleText "WRTG_CF_WORKER_TOKEN".toList
      "s3cret #1 'é' = 5$".toList :=
  (survives_iff ⟨true⟩ ∅ sampleText _ _ sampleText_config
    (by decide +kernel) (by decide +kernel) (by decide +kernel)).mpr
    ⟨by decide +kernel, by decide +kernel, by decide +kernel,
      by decide +kernel⟩

/-- A token with a command substitution: the shell does not just assign.
One with a quote, and one with a backslash: the daemon reads the page's
backslash too. -/
theorem survives_fails :
    ¬ Survives ⟨true⟩ ∅ sampleText "WRTG_CF_WORKER_TOKEN".toList
        "a$(reboot)".toList
      ∧ ¬ Survives ⟨true⟩ ∅ sampleText "WRTG_CF_WORKER_TOKEN".toList
        "a\"b".toList
      ∧ ¬ Survives ⟨true⟩ ∅ sampleText "WRTG_CF_WORKER_TOKEN".toList
        "a\\b".toList := by
  refine ⟨?_, ?_, ?_⟩
  · intro h
    obtain ⟨before, after, -, hafter, -, -⟩ := h.shell
    have hnone : (loadConfig ⟨true⟩ ∅ (setKey sampleText
        "WRTG_CF_WORKER_TOKEN".toList "a$(reboot)".toList)).isNone = true := by
      decide +kernel
    rw [hafter] at hnone
    cases hnone
  · intro h
    exact absurd h.daemon.1 (by decide +kernel)
  · intro h
    exact absurd h.daemon.1 (by decide +kernel)

end Wrtg.Settings
