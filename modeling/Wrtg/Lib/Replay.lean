/-
Replaying a log of key–value records into a map, last record wins.

`lookup_replay` is the law of the fold: a key maps to its last record,
or to what it mapped to before. A log whose last record for a key is
the first observation of it therefore replays to that observation, and
appending the observation once more keeps it so.

Overwriting the records of one key (`setRecord`) is then an update of
the map: that key gets the new value, and no other notices.
-/
import Mathlib.Data.List.AList

namespace Wrtg.Lib

variable {κ β : Type} [DecidableEq κ]

/-- Insert the records of a log, in order. -/
def replay (log : List (κ × β)) (m : AList fun _ : κ => β) :
    AList fun _ : κ => β :=
  log.foldl (fun m r => m.insert r.1 r.2) m

/-- The records of a log for one key, in order. -/
def recordsOf (k : κ) (log : List (κ × β)) : List β :=
  log.filterMap fun r => if r.1 = k then some r.2 else none

theorem recordsOf_append (k : κ) (log log' : List (κ × β)) :
    recordsOf k (log ++ log') = recordsOf k log ++ recordsOf k log' :=
  List.filterMap_append

theorem recordsOf_cons (k : κ) (r : κ × β) (log : List (κ × β)) :
    recordsOf k (r :: log)
      = if r.1 = k then r.2 :: recordsOf k log else recordsOf k log := by
  unfold recordsOf
  rw [List.filterMap_cons]
  split
  · next h =>
      split at h
      · cases h
      · next hk => rw [if_neg hk]
  · next h =>
      split at h
      · next hk =>
          injection h with h
          rw [if_pos hk, h]
      · cases h

/-- A key maps to its last record, or to what it mapped to before. -/
theorem lookup_replay (k : κ) (log : List (κ × β))
    (m : AList fun _ : κ => β) :
    (replay log m).lookup k = (recordsOf k log).getLast?.or (m.lookup k) := by
  induction log generalizing m with
  | nil => rfl
  | cons r log ih =>
      show (replay log (m.insert r.1 r.2)).lookup k = _
      rw [ih, recordsOf_cons]
      by_cases hk : r.1 = k
      · subst hk
        rw [if_pos rfl, AList.lookup_insert]
        cases hl : recordsOf r.1 log with
        | nil => rfl
        | cons b bs => simp [List.getLast?_cons]
      · rw [if_neg hk, AList.lookup_insert_ne (Ne.symm hk)]

/-- A log without records for a key leaves it alone. -/
theorem lookup_replay_nil {k : κ} {log : List (κ × β)}
    (h : recordsOf k log = []) (m : AList fun _ : κ => β) :
    (replay log m).lookup k = m.lookup k := by
  rw [lookup_replay, h]
  rfl

-- ======================================================= overwriting

/-- Write `b` to every record of a key, or add a record of it. -/
def setRecord (k : κ) (b : β) (log : List (κ × β)) : List (κ × β) :=
  if ∃ r ∈ log, r.1 = k then
    log.map fun r => if r.1 = k then (k, b) else r
  else log ++ [(k, b)]

theorem recordsOf_overwrite (k : κ) (b : β) (log : List (κ × β)) :
    recordsOf k (log.map fun r => if r.1 = k then (k, b) else r)
      = (recordsOf k log).map fun _ => b := by
  induction log with
  | nil => rfl
  | cons r log ih =>
      rw [List.map_cons, recordsOf_cons, recordsOf_cons, ih]
      by_cases hk : r.1 = k
      · rw [if_pos hk, if_pos rfl, if_pos hk, List.map_cons]
      · rw [if_neg hk, if_neg hk, if_neg hk]

theorem recordsOf_overwrite_ne {k k' : κ} (h : k' ≠ k) (b : β)
    (log : List (κ × β)) :
    recordsOf k' (log.map fun r => if r.1 = k then (k, b) else r)
      = recordsOf k' log := by
  induction log with
  | nil => rfl
  | cons r log ih =>
      rw [List.map_cons, recordsOf_cons, recordsOf_cons, ih]
      by_cases hk : r.1 = k
      · rw [if_pos hk, if_neg (Ne.symm h), if_neg (hk ▸ Ne.symm h)]
      · rw [if_neg hk]

theorem recordsOf_ne_nil {k : κ} {log : List (κ × β)} {r : κ × β}
    (hr : r ∈ log) (hk : r.1 = k) : recordsOf k log ≠ [] := by
  refine List.ne_nil_of_mem (a := r.2) ?_
  exact List.mem_filterMap.mpr ⟨r, hr, if_pos hk⟩

/-- The key then maps to what was written, -/
theorem lookup_setRecord (k : κ) (b : β) (log : List (κ × β))
    (m : AList fun _ : κ => β) :
    (replay (setRecord k b log) m).lookup k = some b := by
  rw [lookup_replay, setRecord]
  split
  · next h =>
      obtain ⟨r, hr, hk⟩ := h
      rw [recordsOf_overwrite, List.getLast?_map,
        List.getLast?_eq_some_getLast (recordsOf_ne_nil hr hk)]
      rfl
  · rw [recordsOf_append, recordsOf_cons, if_pos rfl, List.getLast?_append]
    rfl

/-- and every other key to what it mapped to before. -/
theorem lookup_setRecord_ne {k k' : κ} (h : k' ≠ k) (b : β)
    (log : List (κ × β)) (m : AList fun _ : κ => β) :
    (replay (setRecord k b log) m).lookup k'
      = (replay log m).lookup k' := by
  rw [lookup_replay, lookup_replay, setRecord]
  split
  · rw [recordsOf_overwrite_ne h]
  · rw [recordsOf_append, recordsOf_cons, if_neg (Ne.symm h)]
    simp [recordsOf]

end Wrtg.Lib
