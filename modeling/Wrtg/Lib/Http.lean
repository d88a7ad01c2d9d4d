/-
The head of an HTTP/1.1 message: its start line and its fields.

`write` ends every line with CR LF; `read` also takes a bare LF, as
lenient receivers do. What is written from clean parts is read back, up
to the blanks around the values, and what follows the head is left
(`read_write`).
-/
import Mathlib.Data.List.Basic

namespace Wrtg.Lib.Http

/-- A name and a value. -/
abbrev Field := List Char × List Char

structure Head where
  start : List Char
  fields : List Field
  deriving DecidableEq, Repr

def crlf : List Char := ['\r', '\n']

def Field.line (f : Field) : List Char := f.1 ++ ':' :: ' ' :: f.2 ++ crlf

def Head.write (h : Head) : List Char :=
  h.start ++ crlf ++ h.fields.flatMap Field.line ++ crlf

-- ============================================================= reading

def isOws (c : Char) : Bool := c == ' ' || c == '\t'

/-- A value without the blanks around it. -/
def trimOws (t : List Char) : List Char :=
  ((t.dropWhile isOws).reverse.dropWhile isOws).reverse

/-- The next line, without its LF, and what is behind it. -/
def cutLine : List Char → Option (List Char × List Char)
  | [] => none
  | c :: cs =>
      if c = '\n' then some ([], cs)
      else (cutLine cs).map fun r => (c :: r.1, r.2)

def stripCr (line : List Char) : List Char :=
  if line.getLast? = some '\r' then line.dropLast else line

def readField : List Char → Option Field
  | [] => none
  | c :: cs =>
      if c = ':' then some ([], trimOws cs)
      else (readField cs).map fun f => (c :: f.1, f.2)

/-- The fields up to the empty line, and what is behind it. -/
def readFields : Nat → List Char → Option (List Field × List Char)
  | 0, _ => none
  | fuel + 1, s =>
      (cutLine s).bind fun r =>
        let line := stripCr r.1
        if line = [] then some ([], r.2)
        else (readField line).bind fun f =>
          (readFields fuel r.2).map fun fs => (f :: fs.1, fs.2)

def read (s : List Char) : Option (Head × List Char) :=
  (cutLine s).bind fun r =>
    (readFields (r.2.length + 1) r.2).map fun fs =>
      ({ start := stripCr r.1, fields := fs.1 }, fs.2)

-- ========================================================== round trip

/-- Without a line end. -/
def OneLine (t : List Char) : Prop := '\r' ∉ t ∧ '\n' ∉ t

/-- The name stays before the colon, and both in their line. -/
structure Field.Clean (f : Field) : Prop where
  name : OneLine f.1
  colon : ':' ∉ f.1
  value : OneLine f.2

theorem OneLine.append {t u : List Char} (ht : OneLine t) (hu : OneLine u) :
    OneLine (t ++ u) := by
  refine ⟨?_, ?_⟩
  · rw [List.mem_append, not_or]
    exact ⟨ht.1, hu.1⟩
  · rw [List.mem_append, not_or]
    exact ⟨ht.2, hu.2⟩

theorem OneLine.sep : OneLine [':', ' '] := by
  unfold OneLine
  decide

theorem cutLine_append {t : List Char} (h : '\n' ∉ t) (rest : List Char) :
    cutLine (t ++ '\n' :: rest) = some (t, rest) := by
  induction t with
  | nil => exact if_pos rfl
  | cons c t ih =>
      have hc : c ≠ '\n' := fun hc => h (hc ▸ List.mem_cons_self)
      rw [List.cons_append, cutLine, if_neg hc,
        ih fun hm => h (List.mem_cons_of_mem c hm)]
      rfl

/-- A line that was written is cut and stripped to what was put in. -/
theorem cutLine_crlf {t : List Char} (h : OneLine t) (rest : List Char) :
    cutLine (t ++ (crlf ++ rest)) = some (t ++ ['\r'], rest) := by
  have hcr : '\n' ∉ t ++ ['\r'] := by
    rw [List.mem_append, not_or]
    exact ⟨h.2, by decide⟩
  rw [← cutLine_append hcr rest]
  simp [crlf]

@[simp] theorem stripCr_concat (t : List Char) :
    stripCr (t ++ ['\r']) = t := by
  unfold stripCr
  rw [if_pos List.getLast?_concat, List.dropLast_concat]

theorem readField_append {name : List Char} (h : ':' ∉ name)
    (value : List Char) :
    readField (name ++ ':' :: value) = some (name, trimOws value) := by
  induction name with
  | nil => exact if_pos rfl
  | cons c name ih =>
      have hc : c ≠ ':' := fun hc => h (hc ▸ List.mem_cons_self)
      rw [List.cons_append, readField, if_neg hc,
        ih fun hm => h (List.mem_cons_of_mem c hm)]
      rfl

/-- The blank that is written before a value is no part of it. -/
theorem trimOws_blank (value : List Char) :
    trimOws (' ' :: value) = trimOws value := by
  unfold trimOws
  rw [List.dropWhile_cons_of_pos rfl]

/-- A field as it is read: its value without the blanks around it. -/
def Field.trimmed (f : Field) : Field := (f.1, trimOws f.2)

theorem readFields_write {fields : List Field}
    (h : ∀ f ∈ fields, f.Clean) {fuel : Nat} (hfuel : fields.length < fuel)
    (rest : List Char) :
    readFields fuel (fields.flatMap Field.line ++ crlf ++ rest)
      = some (fields.map Field.trimmed, rest) := by
  induction fields generalizing fuel with
  | nil =>
      obtain ⟨fuel, rfl⟩ : ∃ k, fuel = k + 1 :=
        ⟨fuel - 1, by rw [List.length_nil] at hfuel; omega⟩
      rfl
  | cons f fields ih =>
      obtain ⟨fuel, rfl⟩ : ∃ k, fuel = k + 1 :=
        ⟨fuel - 1, by rw [List.length_cons] at hfuel; omega⟩
      have hf := h f List.mem_cons_self
      have hline : OneLine (f.1 ++ ':' :: ' ' :: f.2) :=
        hf.name.append ((OneLine.sep : OneLine [':', ' ']).append hf.value)
      have hne : f.1 ++ ':' :: ' ' :: f.2 ≠ [] := by simp
      rw [List.length_cons] at hfuel
      rw [List.flatMap_cons, Field.line, List.append_assoc, List.append_assoc,
        List.append_assoc, readFields, cutLine_crlf hline, Option.bind_some,
        stripCr_concat, if_neg hne, readField_append hf.colon,
        Option.bind_some, trimOws_blank, ← List.append_assoc,
        ih (fun g hg => h g (List.mem_cons_of_mem f hg)) (by omega)]
      rfl

theorem length_le_flatMap_line (fields : List Field) :
    fields.length ≤ (fields.flatMap Field.line).length := by
  induction fields with
  | nil => exact Nat.le_refl 0
  | cons f fields ih =>
      rw [List.flatMap_cons, List.length_append, List.length_cons]
      have hpos : 0 < f.line.length :=
        List.length_pos_iff.mpr (by simp [Field.line])
      omega

/-- What was written is read, and nothing behind it. -/
theorem read_write {h : Head} (hstart : OneLine h.start)
    (hfields : ∀ f ∈ h.fields, f.Clean) (rest : List Char) :
    read (h.write ++ rest)
      = some ({ h with fields := h.fields.map Field.trimmed }, rest) := by
  have hlen := length_le_flatMap_line h.fields
  unfold read Head.write
  rw [List.append_assoc, List.append_assoc, List.append_assoc,
    cutLine_crlf hstart, Option.bind_some, stripCr_concat]
  simp only
  rw [← List.append_assoc,
    readFields_write hfields (by simp only [List.length_append]; omega)]
  rfl

end Wrtg.Lib.Http
