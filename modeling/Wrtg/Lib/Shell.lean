/-
Assignments as a POSIX shell reads them: the part of its grammar that a
file of `NAME=value` lines is written in.

A word is read quote by quote. What would make the shell do more than
assign (an expansion, a command, an operator, a quote the line leaves
open) has no value here, and `source` stops at it: a file it comes
through assigns what is written and does nothing else. A dollar sign
that introduces no expansion stands for itself in the shells in use;
POSIX leaves it open, so it is a parameter.
-/
import Wrtg.Lib.Replay
import Wrtg.Rust.Text

namespace Wrtg.Lib

structure Shell where
  /-- A `$` that introduces no expansion stands for itself. -/
  loneDollar : Bool
  deriving DecidableEq, Repr

namespace Shell

/-- The blanks that part words. -/
def isBlank (c : Char) : Bool := c == ' ' || c == '\t'

/-- A valid name: letters, digits and underscores, no digit first. -/
def isName (t : Text) : Bool :=
  match t with
  | [] => false
  | c :: cs => (Text.isAlpha c || c == '_')
      && cs.all fun d => Text.isAlnum d || d == '_'

/-- A name is spelt with letters, digits and underscores. -/
theorem isName_chars {key : Text} (h : isName key = true) :
    ∀ c ∈ key, Text.isAlnum c = true ∨ c = '_' := by
  cases key with
  | nil => cases h
  | cons d key =>
      simp only [isName, Bool.and_eq_true, Bool.or_eq_true, beq_iff_eq,
        List.all_eq_true] at h
      intro c hc
      rcases List.mem_cons.mp hc with rfl | hc
      · exact h.1.imp_left fun ha => by simp [Text.isAlnum, ha]
      · exact h.2 c hc

theorem isName_not_mem {key : Text} (h : isName key = true) {c : Char}
    (hc : (Text.isAlnum c || c == '_') = false) : c ∉ key := by
  intro hmem
  have hname : (Text.isAlnum c || c == '_') = true := by
    simpa using isName_chars h c hmem
  rw [hc] at hname
  cases hname

theorem isName_ne_nil {key : Text} (h : isName key = true) : key ≠ [] := by
  intro h
  subst h
  cases h

-- ============================================================== words

/-- What a `$` is followed by where it introduces an expansion: a name, a
positional or special parameter, a brace or a parenthesis. -/
def introduces (t : Text) : Bool :=
  match t with
  | [] => false
  | c :: _ => Text.isAlnum c || c == '_' || "@*#?-$!\x7b(".toList.contains c

/-- The `$` before `t` is an expansion, or may be one. -/
def expandsAt (sh : Shell) (t : Text) : Bool :=
  !sh.loneDollar || introduces t

/-- Where a word is being read. -/
inductive Quote where
  | bare
  | single
  | double
  deriving DecidableEq, Repr

/-- Outside quotes: operators, and the tilde. -/
def isSpecial (c : Char) : Bool := "|&;<>()~".toList.contains c

/-- In double quotes a backslash escapes these. -/
def isEscapable (c : Char) : Bool := "$\x60\"\\".toList.contains c

/-- The value of a word and the text behind it. -/
def word (sh : Shell) : Quote → Text → Option (Text × Text)
  | .bare, [] => some ([], [])
  | .bare, c :: cs =>
      if isBlank c then some ([], c :: cs)
      else if c = '\'' then word sh .single cs
      else if c = '"' then word sh .double cs
      else if c = '\\' then match cs with
        | [] => none
        | d :: ds => keep d (word sh .bare ds)
      else if c = '\x60' || isSpecial c || (c = '$' && sh.expandsAt cs) then
        none
      else keep c (word sh .bare cs)
  | .single, [] => none
  | .single, c :: cs =>
      if c = '\'' then word sh .bare cs else keep c (word sh .single cs)
  | .double, [] => none
  | .double, c :: cs =>
      if c = '"' then word sh .bare cs
      else if c = '\\' then match cs with
        | [] => none
        | d :: ds =>
            if isEscapable d then keep d (word sh .double ds)
            else keep c (keep d (word sh .double ds))
      else if c = '\x60' || (c = '$' && sh.expandsAt cs) then none
      else keep c (word sh .double cs)
where
  /-- A character of the value, before the rest of the word. -/
  keep (c : Char) (r : Option (Text × Text)) : Option (Text × Text) :=
    r.map fun r => (c :: r.1, r.2)

-- ============================================================== lines

/-- Nothing but blanks and a comment. -/
def isQuiet (t : Text) : Bool :=
  match t.dropWhile isBlank with
  | [] => true
  | c :: _ => c == '#'

/-- The assignment a line makes, if it makes one. -/
def readLine (sh : Shell) (line : Text) : Option (Option (Text × Text)) :=
  if isQuiet line then some none
  else match Text.splitOnce '=' (line.dropWhile isBlank) with
    | none => none
    | some (name, raw) =>
        if isName name then match sh.word .bare raw with
          | some (value, rest) =>
              if isQuiet rest then some (some (name, value)) else none
          | none => none
        else none

abbrev Env := AList fun _ : Text => Text

/-- The environment behind a file of lines. -/
def source (sh : Shell) (env : Env) (text : Text) : Option Env :=
  ((Text.splitOn (· == '\n') text).mapM sh.readLine).map fun reads =>
    replay (reads.filterMap id) env

theorem mapM_eq_some {α β : Type} {f : α → Option β} {g : α → β}
    {as : List α} (h : ∀ a ∈ as, f a = some (g a)) :
    as.mapM f = some (as.map g) := by
  induction as with
  | nil => rfl
  | cons a as ih =>
      rw [List.mapM_cons, h a (List.mem_cons_self ..),
        ih fun b hb => h b (List.mem_cons_of_mem a hb)]
      rfl

theorem mapM_ne_some {α β : Type} {f : α → Option β} {as : List α}
    {a : α} (ha : a ∈ as) (h : f a = none) (bs : List β) :
    as.mapM f ≠ some bs := by
  induction as generalizing bs with
  | nil => cases ha
  | cons b as ih =>
      intro hsome
      rw [List.mapM_cons] at hsome
      obtain ⟨y, hy, hrest⟩ := Option.bind_eq_some_iff.mp hsome
      obtain ⟨ys, hys, -⟩ := Option.bind_eq_some_iff.mp hrest
      rcases List.mem_cons.mp ha with rfl | ha
      · rw [h] at hy
        cases hy
      · exact ih ha ys hys

/-- A file whose lines can all be read replays their assignments, -/
theorem source_eq {sh : Shell} {t : Text} {read : Text → Option (Text × Text)}
    (h : ∀ l ∈ Text.splitOn (· == '\n') t, sh.readLine l = some (read l))
    (env : Env) :
    sh.source env t
      = some (replay ((Text.splitOn (· == '\n') t).filterMap read) env) := by
  rw [source, mapM_eq_some h, Option.map_some, List.filterMap_map]
  rfl

/-- and one with a line that cannot be read comes to nothing. -/
theorem source_ne_some {sh : Shell} {t l : Text}
    (hl : l ∈ Text.splitOn (· == '\n') t) (h : sh.readLine l = none)
    (env after : Env) : sh.source env t ≠ some after := by
  intro hsome
  obtain ⟨reads, hreads, -⟩ := Option.map_eq_some_iff.mp hsome
  exact mapM_ne_some hl h reads hreads

end Shell

end Wrtg.Lib
