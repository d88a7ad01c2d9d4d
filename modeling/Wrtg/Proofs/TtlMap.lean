/-
What a trace of calls on a `TtlMap` can see of it.

The map drops an entry where it meets an expired one. `Deadlines` is the
reference: what each key was last given, and nothing is ever dropped.
The two look alike from any time on that no entry dropped had outlived
(`LooksLike`), so on a clock that does not go back no call tells them
apart, up to a deadline that no `Instant` can hold (`feed_eq_iff`): there
the map's call panics, where the reference has no end of time.

On the reference the life of a mark is plain: a key that is only marked
where it is absent, and asked for, keeps its deadline until it has
passed (`step_keeps`).
-/
import Wrtg.TtlMap
import Wrtg.Lib.Feed

namespace Wrtg.TtlMap

open Lib

variable {κ : Type} [DecidableEq κ]

-- ============================================================= the trace

inductive Op (κ : Type) where
  | mark (key : κ) (ttl : Nat)
  | markIfAbsent (key : κ) (ttl : Nat)
  | isActive (key : κ)
  | clear (key : κ)
  deriving DecidableEq, Repr

def Op.key : Op κ → κ
  | .mark key _ => key
  | .markIfAbsent key _ => key
  | .isActive key => key
  | .clear key => key

/-- What a caller gets: nothing, the answer of `is_active` or
`mark_if_absent`, or a panic. -/
inductive Outcome where
  | done
  | told (yes : Bool)
  | panicked
  deriving DecidableEq, Repr

/-- A call at a time. -/
def step (m : TtlMap κ) : Nat × Op κ → Outcome × TtlMap κ
  | (now, .mark key ttl) =>
      ((m.mark key ttl now).1.elim .panicked fun _ => .done,
        (m.mark key ttl now).2)
  | (now, .markIfAbsent key ttl) =>
      ((m.markIfAbsent key ttl now).1.elim .panicked .told,
        (m.markIfAbsent key ttl now).2)
  | (now, .isActive key) =>
      (.told (m.isActive key now).1, (m.isActive key now).2)
  | (_, .clear key) => (.done, (m.clear key).2)

theorem step_mark (m : TtlMap κ) (now : Nat) (key : κ) (ttl : Nat) :
    step m (now, .mark key ttl)
      = ((m.mark key ttl now).1.elim .panicked fun _ => .done,
        (m.mark key ttl now).2) := rfl

theorem step_markIfAbsent (m : TtlMap κ) (now : Nat) (key : κ)
    (ttl : Nat) :
    step m (now, .markIfAbsent key ttl)
      = ((m.markIfAbsent key ttl now).1.elim .panicked .told,
        (m.markIfAbsent key ttl now).2) := rfl

/-- The results of a trace on a new map. -/
def results (ops : List (Nat × Op κ)) : List Outcome :=
  (feed step (∅ : TtlMap κ) ops).1

-- ========================================================= the reference

/-- The latest deadline of each key, whatever it is. -/
abbrev Deadlines (κ : Type) := κ → Option Nat

namespace Deadlines

def activeAt (r : Deadlines κ) (key : κ) (now : Nat) : Bool :=
  match r key with
  | some deadline => decide (now < deadline)
  | none => false

def step (r : Deadlines κ) : Nat × Op κ → Outcome × Deadlines κ
  | (now, .mark key ttl) =>
      (.done, Function.update r key (some (now + ttl)))
  | (now, .markIfAbsent key ttl) =>
      if activeAt r key now then (.told false, r)
      else (.told true, Function.update r key (some (now + ttl)))
  | (now, .isActive key) => (.told (activeAt r key now), r)
  | (_, .clear key) => (.done, Function.update r key none)

/-- No deadline is set. -/
def start : Deadlines κ := fun _ => none

def results (ops : List (Nat × Op κ)) : List Outcome :=
  (feed step (start : Deadlines κ) ops).1

/-- A deadline that the call sets is one that an `Instant` can hold. -/
def Fits (r : Deadlines κ) : Nat × Op κ → Prop
  | (now, .mark _ ttl) => now + ttl < Instant.END
  | (now, .markIfAbsent key ttl) =>
      activeAt r key now = true ∨ now + ttl < Instant.END
  | _ => True

instance (r : Deadlines κ) : (o : Nat × Op κ) → Decidable (r.Fits o)
  | (now, .mark _ ttl) => inferInstanceAs (Decidable (now + ttl < Instant.END))
  | (now, .markIfAbsent key ttl) => inferInstanceAs
      (Decidable (activeAt r key now = true ∨ now + ttl < Instant.END))
  | (_, .isActive _) => inferInstanceAs (Decidable True)
  | (_, .clear _) => inferInstanceAs (Decidable True)

/-- Every deadline that a trace sets is one that an `Instant` can hold. -/
def AllFit : Deadlines κ → List (Nat × Op κ) → Prop
  | _, [] => True
  | r, o :: ops => r.Fits o ∧ AllFit (r.step o).2 ops

instance : (r : Deadlines κ) → (ops : List (Nat × Op κ)) →
    Decidable (AllFit r ops)
  | _, [] => inferInstanceAs (Decidable True)
  | r, o :: ops =>
      have : Decidable (AllFit (r.step o).2 ops) := instDecidableAllFit _ ops
      inferInstanceAs (Decidable (r.Fits o ∧ AllFit (r.step o).2 ops))

theorem step_active {r : Deadlines κ} {key : κ} {now : Nat} (ttl : Nat)
    (h : r.activeAt key now = true) :
    r.step (now, .markIfAbsent key ttl) = (.told false, r) := if_pos h

theorem step_absent {r : Deadlines κ} {key : κ} {now : Nat} (ttl : Nat)
    (h : r.activeAt key now = false) :
    r.step (now, .markIfAbsent key ttl)
      = (.told true, Function.update r key (some (now + ttl))) :=
  if_neg (by simp [h])

end Deadlines

-- ======================================================== unobservable

theorem activeAt_insert (m : TtlMap κ) (k : κ) (deadline : Nat) (key : κ)
    (now : Nat) :
    activeAt (m.insert k deadline) key now
      = if key = k then decide (now < deadline) else m.activeAt key now := by
  unfold activeAt
  by_cases hk : key = k
  · subst hk
    rw [if_pos rfl, AList.lookup_insert]
  · rw [if_neg hk, AList.lookup_insert_ne hk]

theorem activeAt_erase (m : TtlMap κ) (k key : κ) (now : Nat) :
    activeAt (m.erase k) key now
      = if key = k then false else m.activeAt key now := by
  unfold activeAt
  by_cases hk : key = k
  · subst hk
    rw [if_pos rfl, AList.lookup_erase]
  · rw [if_neg hk, AList.lookup_erase_ne hk]

theorem Deadlines.activeAt_update (r : Deadlines κ) (k : κ)
    (deadline : Option Nat) (key : κ) (now : Nat) :
    Deadlines.activeAt (Function.update r k deadline) key now
      = if key = k then (deadline.map fun d => decide (now < d)).getD false
        else r.activeAt key now := by
  unfold Deadlines.activeAt
  by_cases hk : key = k
  · subst hk
    rw [if_pos rfl, Function.update_self]
    cases deadline <;> rfl
  · rw [if_neg hk, Function.update_of_ne hk]

/-- The same keys are active from `now` on. -/
def LooksLike (now : Nat) (m : TtlMap κ) (r : Deadlines κ) : Prop :=
  ∀ key t, now ≤ t → m.activeAt key t = r.activeAt key t

variable {m : TtlMap κ} {r : Deadlines κ} {now : Nat}

theorem LooksLike.later {now' : Nat} (h : LooksLike now m r)
    (hle : now ≤ now') : LooksLike now' m r :=
  fun key t ht => h key t (Nat.le_trans hle ht)

theorem LooksLike.insert (h : LooksLike now m r) (k : κ) (deadline : Nat) :
    LooksLike now (m.insert k deadline)
      (Function.update r k (some deadline)) := by
  intro key t ht
  rw [activeAt_insert, Deadlines.activeAt_update, h key t ht]
  rfl

/-- An entry that is not active is not missed. -/
theorem LooksLike.erase (h : LooksLike now m r) {k : κ}
    (hk : r.activeAt k now = false) : LooksLike now (m.erase k) r := by
  intro key t ht
  rw [activeAt_erase]
  split
  · next heq =>
      subst heq
      unfold Deadlines.activeAt at hk ⊢
      cases hr : r key with
      | none => rfl
      | some deadline =>
          rw [hr] at hk
          have hge := of_decide_eq_false hk
          exact (decide_eq_false (by omega)).symm
  · exact h key t ht

/-- A mark of a key that is active says so and does nothing. -/
theorem markIfAbsent_active {key : κ} (ttl : Nat)
    (h : m.activeAt key now = true) :
    m.markIfAbsent key ttl now = (some false, m) := by
  unfold activeAt at h
  unfold markIfAbsent
  cases hl : m.lookup key with
  | none => rw [hl] at h; cases h
  | some expiry =>
      rw [hl] at h
      exact if_pos (of_decide_eq_true h)

/-- A mark of a key that is not drops what it has of it, and puts the new
deadline in if there is one. -/
theorem markIfAbsent_absent {key : κ} (ttl : Nat)
    (h : m.activeAt key now = false) :
    ∃ m', (m' = m ∨ m' = m.erase key)
      ∧ m.markIfAbsent key ttl now = match Instant.add now ttl with
        | some deadline => (some true, m'.insert key deadline)
        | none => (none, m') := by
  unfold activeAt at h
  unfold markIfAbsent
  cases hl : m.lookup key with
  | none => exact ⟨m, .inl rfl, rfl⟩
  | some expiry =>
      rw [hl] at h
      exact ⟨m.erase key, .inr rfl, if_neg (of_decide_eq_false h)⟩

theorem LooksLike.isActive (h : LooksLike now m r) (key : κ) :
    LooksLike now (m.isActive key now).2 r := by
  have hactive := h key now (Nat.le_refl now)
  unfold TtlMap.isActive
  unfold TtlMap.activeAt at hactive
  cases hl : m.lookup key with
  | none => exact h
  | some expiry =>
      rw [hl] at hactive
      simp only at hactive ⊢
      by_cases hlt : now < expiry
      · rw [if_pos hlt]
        exact h
      · rw [if_neg hlt]
        rw [decide_eq_false hlt] at hactive
        exact h.erase hactive.symm

/-- A call whose deadline fits is told what the reference says. -/
theorem step_looksLike (o : Nat × Op κ) (h : LooksLike o.1 m r)
    (hfits : r.Fits o) :
    (step m o).1 = (r.step o).1
      ∧ LooksLike o.1 (step m o).2 (r.step o).2 := by
  obtain ⟨now, op⟩ := o
  cases op with
  | mark key ttl =>
      rw [step_mark, TtlMap.mark, Instant.add_of_lt hfits]
      exact ⟨rfl, h.insert key _⟩
  | markIfAbsent key ttl =>
      have hsame := h key now (Nat.le_refl now)
      cases hr : r.activeAt key now with
      | true =>
          rw [Deadlines.step_active ttl hr, step_markIfAbsent,
            markIfAbsent_active ttl (hsame.trans hr)]
          exact ⟨rfl, h⟩
      | false =>
          have hlt : now + ttl < Instant.END :=
            hfits.resolve_left (by rw [hr]; exact Bool.false_ne_true)
          obtain ⟨m', hm', hmark⟩ :=
            markIfAbsent_absent ttl (hsame.trans hr)
          rw [Instant.add_of_lt hlt] at hmark
          rw [Deadlines.step_absent ttl hr, step_markIfAbsent, hmark]
          refine ⟨rfl, LooksLike.insert ?_ key _⟩
          rcases hm' with rfl | rfl
          · exact h
          · exact h.erase hr
  | isActive key =>
      refine ⟨?_, LooksLike.isActive h key⟩
      show Outcome.told (m.isActive key now).1 = .told (r.activeAt key now)
      rw [isActive_fst, h key now (Nat.le_refl now)]
  | clear key =>
      refine ⟨rfl, ?_⟩
      intro k t ht
      show activeAt (m.erase key) k t = _
      rw [activeAt_erase]
      show _ = Deadlines.activeAt (Function.update r key none) k t
      rw [Deadlines.activeAt_update, h k t ht]
      rfl

/-- A call whose deadline does not fit panics, and the reference does
not. -/
theorem step_panics (o : Nat × Op κ) (h : LooksLike o.1 m r)
    (hfits : ¬ r.Fits o) : (step m o).1 ≠ (r.step o).1 := by
  obtain ⟨now, op⟩ := o
  cases op with
  | mark key ttl =>
      rw [step_mark, TtlMap.mark, Instant.add_of_ge hfits]
      exact Outcome.noConfusion
  | markIfAbsent key ttl =>
      obtain ⟨hidle, hge⟩ := not_or.mp hfits
      have hr := Bool.eq_false_iff.mpr hidle
      obtain ⟨m', -, hmark⟩ := markIfAbsent_absent ttl
        ((h key now (Nat.le_refl now)).trans hr)
      rw [Instant.add_of_ge hge] at hmark
      rw [Deadlines.step_absent ttl hr, step_markIfAbsent, hmark]
      exact Outcome.noConfusion
  | isActive key => exact absurd trivial hfits
  | clear key => exact absurd trivial hfits

/-- The calls are told what the reference says, up to the first deadline
that does not fit. -/
theorem feed_eq_iff (ops : List (Nat × Op κ))
    (hsorted : (ops.map Prod.fst).Pairwise (· ≤ ·))
    (hnow : ∀ o ∈ ops, now ≤ o.1) (h : LooksLike now m r) :
    (feed step m ops).1 = (feed Deadlines.step r ops).1
      ↔ Deadlines.AllFit r ops := by
  induction ops generalizing now m r with
  | nil => exact ⟨fun _ => trivial, fun _ => rfl⟩
  | cons o ops ih =>
      obtain ⟨hle, hsorted⟩ := List.pairwise_cons.mp hsorted
      have h := h.later (hnow o List.mem_cons_self)
      rw [feed_cons, feed_cons]
      show _ :: _ = _ :: _ ↔ r.Fits o ∧ Deadlines.AllFit (r.step o).2 ops
      rw [List.cons_eq_cons]
      by_cases hfits : r.Fits o
      · obtain ⟨htold, hlooks⟩ := step_looksLike o h hfits
        rw [and_iff_right htold, and_iff_right hfits]
        exact ih hsorted (fun o' ho' => hle o'.1 (List.mem_map_of_mem ho'))
          hlooks
      · exact ⟨fun heq => absurd heq.1 (step_panics o h hfits),
          fun hall => absurd hall.1 hfits⟩

/-- No call sees that entries are dropped. -/
theorem results_eq_iff (ops : List (Nat × Op κ))
    (hsorted : (ops.map Prod.fst).Pairwise (· ≤ ·)) :
    results ops = Deadlines.results ops
      ↔ Deadlines.AllFit Deadlines.start ops :=
  feed_eq_iff ops hsorted (fun _ _ => Nat.zero_le _) fun _ _ _ => rfl

-- ======================================================== the interval

/-- The calls that touch the key mark it where it is absent, for `d`, or
ask for it. -/
def OnlyMarkedAbsent (key : κ) (d : Nat) (ops : List (Nat × Op κ)) : Prop :=
  ∀ o ∈ ops, o.2.key = key →
    o.2 = .markIfAbsent key d ∨ o.2 = .isActive key

/-- Call `i` marks the key at `t`, and says that it did. -/
def MarksAt (ops : List (Nat × Op κ)) (key : κ) (d i t : Nat) : Prop :=
  ops[i]? = some (t, .markIfAbsent key d)
    ∧ (results ops)[i]? = some (.told true)

/-- The deadlines before call `i` of a trace. -/
def Deadlines.before (ops : List (Nat × Op κ)) (i : Nat) : Deadlines κ :=
  (feed Deadlines.step (start : Deadlines κ) (ops.take i)).2

/-- A deadline stays that has not passed, or is not written over. -/
theorem Deadlines.step_keeps {r : Deadlines κ} {key : κ} {d deadline : Nat}
    {o : Nat × Op κ} (h : r key = some deadline)
    (honly : o.2.key = key →
      o.2 = .markIfAbsent key d ∨ o.2 = .isActive key)
    (hlive : o.1 < deadline ∨ o.2 ≠ .markIfAbsent key d
      ∨ (r.step o).1 ≠ .told true) :
    (r.step o).2 key = some deadline := by
  obtain ⟨now, op⟩ := o
  by_cases hkey : op.key = key
  · rcases honly hkey with hop | hop
    · simp only at hop hlive
      subst hop
      have hactive : r.activeAt key now = true := by
        by_contra hno
        have hno := Bool.eq_false_iff.mpr hno
        rcases hlive with hlt | hne | hfalse
        · unfold Deadlines.activeAt at hno
          rw [h] at hno
          exact absurd hlt (of_decide_eq_false hno)
        · exact hne rfl
        · exact hfalse (by rw [Deadlines.step_absent d hno])
      rw [Deadlines.step_active d hactive]
      exact h
    · simp only at hop
      subst hop
      exact h
  · -- another key's entry is left alone
    cases op with
    | mark k ttl => exact (Function.update_of_ne (Ne.symm hkey) ..).trans h
    | markIfAbsent k ttl =>
        unfold Deadlines.step
        simp only
        split
        · exact h
        · exact (Function.update_of_ne (Ne.symm hkey) ..).trans h
    | isActive k => exact h
    | clear k => exact (Function.update_of_ne (Ne.symm hkey) ..).trans h

theorem Deadlines.results_getElem? {ops : List (Nat × Op κ)} {i : Nat}
    {o : Nat × Op κ} (h : ops[i]? = some o) :
    (Deadlines.results ops)[i]? = some ((before ops i).step o).1 :=
  feed_getElem? Deadlines.step _ h

theorem Deadlines.before_succ {ops : List (Nat × Op κ)} {i : Nat}
    {o : Nat × Op κ} (h : ops[i]? = some o) :
    before ops (i + 1) = ((before ops i).step o).2 :=
  feed_take_succ Deadlines.step _ h

section Interval

variable {ops : List (Nat × Op κ)} {key : κ} {d i j t t' : Nat}

/-- The deadline that a mark sets stands at a later call, if no call in
between is late and marks the key again. -/
theorem deadline_before (heq : results ops = Deadlines.results ops)
    (honly : OnlyMarkedAbsent key d ops) (hmark : MarksAt ops key d i t)
    (hij : i < j) (hj : j ≤ ops.length)
    (hmid : ∀ l t'', i < l → l < j → t + d ≤ t'' →
      ¬ MarksAt ops key d l t'') :
    Deadlines.before ops j key = some (t + d) := by
  obtain ⟨hi, htrue⟩ := hmark
  induction j, hij using Nat.le_induction with
  | base =>
      rw [heq, Deadlines.results_getElem? hi] at htrue
      rw [Deadlines.before_succ hi]
      cases hr : (Deadlines.before ops i).activeAt key t with
      | true =>
          rw [Deadlines.step_active d hr] at htrue
          cases htrue
      | false =>
          rw [Deadlines.step_absent d hr]
          exact Function.update_self ..
  | succ l hil ih =>
      have hl : l < ops.length := by omega
      have hget : ops[l]? = some ops[l] := List.getElem?_eq_getElem hl
      have hbefore := ih (by omega) fun l' t'' h₁ h₂ =>
        hmid l' t'' h₁ (by omega)
      rw [Deadlines.before_succ hget]
      refine Deadlines.step_keeps (d := d) hbefore
        (honly _ (List.getElem_mem hl)) ?_
      by_contra hlate
      rw [not_or, not_or, not_not, not_not] at hlate
      obtain ⟨hge, hop, hres⟩ := hlate
      refine hmid l ops[l].1 hil (Nat.lt_succ_self l) (by omega) ⟨?_, ?_⟩
      · rw [hget, ← hop]
      · rw [heq, Deadlines.results_getElem? hget, hres]

/-- What a call on the key answers, by its deadline. -/
theorem answer_eq (heq : results ops = Deadlines.results ops)
    (hdeadline : Deadlines.before ops j key = some (t + d)) :
    (ops[j]? = some (t', .isActive key) →
        (results ops)[j]? = some (.told (decide (t' < t + d))))
      ∧ (ops[j]? = some (t', .markIfAbsent key d) →
        (results ops)[j]? = some (.told (!decide (t' < t + d)))) := by
  have hactive : (Deadlines.before ops j).activeAt key t'
      = decide (t' < t + d) := by
    unfold Deadlines.activeAt
    rw [hdeadline]
  rw [heq]
  constructor
  · intro hj
    rw [Deadlines.results_getElem? hj, ← hactive]
    rfl
  · intro hj
    rw [Deadlines.results_getElem? hj, ← hactive]
    cases hr : (Deadlines.before ops j).activeAt key t' with
    | true =>
        rw [Deadlines.step_active d hr]
        rfl
    | false =>
        rw [Deadlines.step_absent d hr]
        rfl

end Interval

/-- The mark of call `i` makes the key active at exactly the times from
`t` to before `t + d`: until then it is, and marks say they are not
needed; from then on, until a mark says it was, it is not. -/
structure ActiveFor (ops : List (Nat × Op κ)) (key : κ) (d i t : Nat) :
    Prop where
  within : ∀ j t', i < j → t' < t + d →
    (ops[j]? = some (t', .isActive key) →
        (results ops)[j]? = some (.told true))
      ∧ (ops[j]? = some (t', .markIfAbsent key d) →
        (results ops)[j]? = some (.told false))
  behind : ∀ j t', i < j → t + d ≤ t' →
    (∀ l t'', i < l → l < j → ¬ MarksAt ops key d l t'') →
    (ops[j]? = some (t', .isActive key) →
        (results ops)[j]? = some (.told false))
      ∧ (ops[j]? = some (t', .markIfAbsent key d) →
        (results ops)[j]? = some (.told true))

theorem activeFor {ops : List (Nat × Op κ)} {key : κ} {d i t : Nat}
    (hsorted : (ops.map Prod.fst).Pairwise (· ≤ ·))
    (heq : results ops = Deadlines.results ops)
    (honly : OnlyMarkedAbsent key d ops) (hmark : MarksAt ops key d i t) :
    ActiveFor ops key d i t := by
  have hdeadline : ∀ {j : Nat} {o : Nat × Op κ}, i < j → ops[j]? = some o →
      (∀ l t'', i < l → l < j → t + d ≤ t'' → ¬ MarksAt ops key d l t'') →
      Deadlines.before ops j key = some (t + d) := by
    intro j o hij hj hmid
    have hlen := (List.getElem?_eq_some_iff.mp hj).1
    exact deadline_before heq honly hmark hij (Nat.le_of_lt hlen) hmid
  refine ⟨?_, ?_⟩
  · intro j t' hij hlt
    have hmid : ∀ {op : Op κ}, ops[j]? = some (t', op) →
        ∀ l t'', i < l → l < j → t + d ≤ t'' → ¬ MarksAt ops key d l t'' := by
      intro op hj l t'' _ hlj hge hl
      have hle : t'' ≤ t' := time_le_of_sorted hsorted hl.1 hj hlj
      omega
    constructor
    · intro hj
      have h := (answer_eq heq (hdeadline hij hj (hmid hj))).1 hj
      rwa [decide_eq_true hlt] at h
    · intro hj
      have h := (answer_eq heq (hdeadline hij hj (hmid hj))).2 hj
      rwa [decide_eq_true hlt] at h
  · intro j t' hij hge hmid
    have hno : decide (t' < t + d) = false := decide_eq_false (by omega)
    constructor
    · intro hj
      have h := (answer_eq heq (hdeadline hij hj
        fun l t'' h₁ h₂ _ => hmid l t'' h₁ h₂)).1 hj
      rwa [hno] at h
    · intro hj
      have h := (answer_eq heq (hdeadline hij hj
        fun l t'' h₁ h₂ _ => hmid l t'' h₁ h₂)).2 hj
      rwa [hno] at h

/-- What is asked of a trace: no call sees that entries are dropped, and
marks do not pile up. A mark that says it was needed lasts for its time
to live, and no mark that arrives meanwhile extends it. -/
structure Unobservable (ops : List (Nat × Op κ)) : Prop where
  results : results ops = Deadlines.results ops
  marks : ∀ (key : κ) (d i t : Nat), OnlyMarkedAbsent key d ops →
    MarksAt ops key d i t → ActiveFor ops key d i t

/-- A trace on a clock that does not go back is as asked exactly if
`Instant` holds every deadline that it sets. -/
theorem pruning_unobservable (ops : List (Nat × Op κ))
    (hsorted : (ops.map Prod.fst).Pairwise (· ≤ ·)) :
    Unobservable ops ↔ Deadlines.AllFit Deadlines.start ops := by
  constructor
  · intro h
    exact (results_eq_iff ops hsorted).mp h.results
  · intro hfit
    have heq := (results_eq_iff ops hsorted).mpr hfit
    exact ⟨heq, fun _ _ _ _ honly hmark =>
      activeFor hsorted heq honly hmark⟩

/-- A mark, one that comes too early, and two looks at the key. -/
theorem pruning_unobservable_sample :
    Unobservable [(0, .markIfAbsent 'k' 10), (5, .markIfAbsent 'k' 10),
      (9, .isActive 'k'), (10, .isActive 'k')] :=
  (pruning_unobservable [(0, .markIfAbsent 'k' 10),
    (5, .markIfAbsent 'k' 10), (9, .isActive 'k'), (10, .isActive 'k')]
    (by decide)).mpr (by decide +kernel)

/-- A time to live of all the seconds of a `u64`: the mark panics, and the
key is not active. -/
theorem long_mark_panics :
    results [(0, .markIfAbsent 'k' (Duration.fromSecs (2 ^ 64 - 1))),
        (1, .isActive 'k')]
      = [.panicked, .told false]
    ∧ ¬ Unobservable
      [(0, .markIfAbsent 'k' (Duration.fromSecs (2 ^ 64 - 1))),
        (1, .isActive 'k')] := by
  refine ⟨by decide +kernel, fun h => ?_⟩
  have heq := h.results
  revert heq
  decide +kernel

end Wrtg.TtlMap
