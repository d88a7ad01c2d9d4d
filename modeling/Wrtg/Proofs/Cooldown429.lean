/-
What the cooldown map says of a key (`cooldown429.rs`).

An expired entry and no entry behave alike from then on, and `remaining`
forgets the one for the other. `Cooldown429.seen` is an entry up to that
difference: reading leaves it alone (`remaining_agree`), a mark changes
it for its own key only (`seen_marked_self`, `entry_marked_ne`), and it
decides whether the key is active (`isActive_fst`) and whether a mark
panics (`Agree.fits`).
-/
import Wrtg.Cooldown429

namespace Wrtg

open Ws

-- ============================================================ entries

/-- The cooldown of an entry is running. -/
def CooldownState.coolingAt (state : CooldownState) (now : Nat) : Bool :=
  match state.untilAt with
  | some u => decide (now < u)
  | none => false

/-- An entry, forgotten once it has expired. -/
def CooldownState.settled (state : CooldownState) (max : Nat)
    (now : Nat) : CooldownState :=
  if state.expired max now then .default else state

namespace CooldownState

variable {state : CooldownState} {max : Nat} {now now' : Nat}

theorem expired_mono (hle : now ≤ now') (h : state.expired max now = true) :
    state.expired max now' = true := by
  unfold expired at h ⊢
  cases hu : state.untilAt with
  | none => rfl
  | some u =>
      rw [hu] at h
      simp only [decide_eq_true_eq] at h ⊢
      omega

/-- A running cooldown has not expired. -/
theorem not_expired_of_coolingAt (max : Nat)
    (h : state.coolingAt now = true) :
    state.expired max now = false := by
  unfold coolingAt at h
  unfold expired
  cases hu : state.untilAt with
  | none => rw [hu] at h; cases h
  | some u =>
      rw [hu] at h
      simp only [decide_eq_true_eq, decide_eq_false_iff_not] at h ⊢
      omega

/-- A cooldown that has run out stays so. -/
theorem coolingAt_mono (hle : now ≤ now') (h : state.coolingAt now = false) :
    state.coolingAt now' = false := by
  unfold coolingAt at h ⊢
  cases hu : state.untilAt with
  | none => rfl
  | some u =>
      rw [hu] at h
      simp only [decide_eq_false_iff_not] at h ⊢
      omega

@[simp] theorem coolingAt_settled (hle : now ≤ now') :
    (state.settled max now).coolingAt now' = state.coolingAt now' := by
  unfold settled
  split
  · next h =>
      cases hc : state.coolingAt now' with
      | false => rfl
      | true =>
          have hx := not_expired_of_coolingAt max hc
          rw [expired_mono hle h] at hx
          cases hx
  · rfl

/-- Settling early and settling late is settling late. -/
theorem settled_settled (hle : now ≤ now') :
    (state.settled max now).settled max now' = state.settled max now' := by
  unfold settled
  by_cases h : state.expired max now = true
  · rw [if_pos h, if_pos (expired_mono hle h)]
    exact if_pos rfl
  · rw [if_neg h]

end CooldownState

-- ============================================================ strikes

variable {cd cd' : Cooldown429} {now now' : Nat} {retryAfter : Nat}

/-- The entry `mark_for` puts in place of `prev`, if it can. -/
def Cooldown429.struck (cd : Cooldown429) (prev : CooldownState)
    (retryAfter : Nat) (now : Nat) : CooldownState where
  untilAt := some (now + cd.nextDelay prev retryAfter now)
  strikes :=
    if prev.expired cd.max now then 1 else min (prev.strikes + 1) (2 ^ 32 - 1)

/-- A mark cannot tell an expired entry from none. -/
theorem Cooldown429.struck_settled {prev : CooldownState} :
    cd.struck (prev.settled cd.max now) retryAfter now
      = cd.struck prev retryAfter now := by
  unfold CooldownState.settled
  split
  · next h =>
      have hd : CooldownState.default.expired cd.max now = true := rfl
      unfold struck nextDelay
      simp only [h, hd, if_true]
  · rfl

theorem Cooldown429.struck_congr (hb : cd.base = cd'.base)
    (hm : cd.max = cd'.max) (prev : CooldownState) :
    cd.struck prev retryAfter now = cd'.struck prev retryAfter now := by
  unfold struck nextDelay
  rw [hb, hm]

/-- A mark is fresh when it is made. -/
theorem Cooldown429.settled_struck {prev : CooldownState} :
    (cd.struck prev retryAfter now).settled cd.max now
      = cd.struck prev retryAfter now := by
  unfold CooldownState.settled CooldownState.expired struck
  simp

/-- The doubling loop, in closed form. -/
theorem Cooldown429.doubled_eq (max strikes delay : Nat) :
    doubled max strikes delay = min (delay * 2 ^ strikes) max := by
  induction strikes generalizing delay with
  | zero => rw [doubled, Nat.pow_zero, Nat.mul_one]
  | succ strikes ih =>
      have hpow : delay * 2 ^ (strikes + 1) = delay * 2 * 2 ^ strikes := by
        rw [Nat.pow_succ, Nat.mul_comm (2 ^ strikes), Nat.mul_assoc]
      rw [doubled]
      by_cases hge : delay * 2 ≥ max
      · have hgrow : delay * 2 ≤ delay * 2 * 2 ^ strikes :=
          Nat.le_mul_of_pos_right _ (Nat.two_pow_pos strikes)
        rw [if_pos hge, hpow]
        omega
      · rw [if_neg hge, ih, hpow]

/-- A strike cools. -/
theorem Cooldown429.coolingAt_struck (hb : 0 < cd.base) (hm : 0 < cd.max)
    (prev : CooldownState) :
    (cd.struck prev retryAfter now).coolingAt now = true := by
  have hpos : 0 < cd.nextDelay prev retryAfter now := by
    unfold nextDelay
    split
    · next hretry => exact Nat.lt_min.mpr ⟨hretry, hm⟩
    · simp only [doubled_eq]
      exact Nat.lt_min.mpr ⟨Nat.mul_pos hb (Nat.two_pow_pos _), hm⟩
  exact decide_eq_true (by omega)

-- =========================================================== what is seen

/-- The entry of a key. -/
def Cooldown429.entry (cd : Cooldown429) (k : Text) : CooldownState :=
  (cd.inner.lookup k).getD .default

/-- The entry of a key as a reader at `now` or later can tell it. -/
def Cooldown429.seen (cd : Cooldown429) (k : Text) (now : Nat) :
    CooldownState :=
  (cd.entry k).settled cd.max now

/-- Two maps no reader at `now` or later can tell apart. -/
structure Cooldown429.Agree (now : Nat) (cd cd' : Cooldown429) : Prop where
  base : cd.base = cd'.base
  max : cd.max = cd'.max
  seen : ∀ k, cd.seen k now = cd'.seen k now

namespace Cooldown429

theorem Agree.refl (now : Nat) (cd : Cooldown429) : Agree now cd cd :=
  ⟨rfl, rfl, fun _ => rfl⟩

theorem Agree.trans {cd'' : Cooldown429} (h : Agree now cd cd')
    (h' : Agree now cd' cd'') : Agree now cd cd'' :=
  ⟨h.base.trans h'.base, h.max.trans h'.max,
    fun k => (h.seen k).trans (h'.seen k)⟩

theorem seen_later (hle : now ≤ now') (k : Text) :
    (cd.seen k now).settled cd.max now' = cd.seen k now' :=
  CooldownState.settled_settled hle

theorem coolingAt_seen (hle : now ≤ now') (k : Text) :
    (cd.seen k now).coolingAt now' = (cd.entry k).coolingAt now' :=
  CooldownState.coolingAt_settled hle

theorem Agree.coolingAt (h : Agree now cd cd') (k : Text) :
    (cd.entry k).coolingAt now = (cd'.entry k).coolingAt now := by
  rw [← coolingAt_seen (Nat.le_refl now), h.seen,
    coolingAt_seen (Nat.le_refl now)]

-- ============================================================= reading

/-- The time left on an entry. -/
def leftOn (state : CooldownState) (now : Nat) : Nat :=
  match state.untilAt with
  | none => 0
  | some u => u - now

theorem coolingAt_eq_leftOn (state : CooldownState) (now : Nat) :
    state.coolingAt now = decide (0 < leftOn state now) := by
  unfold CooldownState.coolingAt leftOn
  cases state.untilAt with
  | none => rfl
  | some u => exact decide_eq_decide.mpr Nat.sub_pos_iff_lt.symm

/-- An expired entry has no time left. -/
theorem leftOn_settled (state : CooldownState) (max : Nat)
    (hle : now ≤ now') :
    leftOn (state.settled max now) now' = leftOn state now' := by
  unfold CooldownState.settled
  split
  · next h =>
      unfold CooldownState.expired at h
      unfold leftOn CooldownState.default
      cases hu : state.untilAt with
      | none => rfl
      | some u =>
          rw [hu] at h
          have hlate : now - u > max := of_decide_eq_true h
          exact (Nat.sub_eq_zero_of_le (by omega)).symm
  · rfl

theorem leftOn_seen (hle : now ≤ now') (k : Text) :
    leftOn (cd.seen k now) now' = leftOn (cd.entry k) now' :=
  leftOn_settled _ _ hle

/-- What `remaining` answers is what is left on the entry. -/
theorem remaining_fst (cd : Cooldown429) (k : Text) (now : Nat) :
    (cd.remaining k now).1
      = if (key k).isEmpty then 0 else leftOn (cd.entry (key k)) now := by
  unfold remaining entry leftOn
  by_cases hk : (key k).isEmpty = true
  · rw [if_pos hk, if_pos hk]
  · rw [if_neg hk, if_neg hk]
    cases hl : cd.inner.lookup (key k) with
    | none => rfl
    | some state =>
        simp only [Option.getD_some]
        cases hu : state.untilAt with
        | none => rfl
        | some u =>
            simp only
            by_cases hle : u ≤ now
            · rw [if_pos hle, Nat.sub_eq_zero_of_le hle]
              split <;> rfl
            · rw [if_neg hle]

theorem Agree.symm (h : Agree now cd cd') : Agree now cd' cd :=
  ⟨h.base.symm, h.max.symm, fun k => (h.seen k).symm⟩

/-- What looks alike goes on to. -/
theorem Agree.mono (hle : now ≤ now') (h : Agree now cd cd') :
    Agree now' cd cd' :=
  ⟨h.base, h.max, fun k => by
    rw [← seen_later hle, h.seen, h.max, seen_later hle]⟩

theorem Agree.remaining_fst (h : Agree now cd cd') (k : Text) :
    (cd.remaining k now).1 = (cd'.remaining k now).1 := by
  rw [Cooldown429.remaining_fst, Cooldown429.remaining_fst,
    ← leftOn_seen (Nat.le_refl now), h.seen, leftOn_seen (Nat.le_refl now)]

/-- A key is active while the cooldown of its entry runs. -/
theorem isActive_fst (k : Text) (now : Nat) :
    (cd.isActive k now).1
      = (!(key k).isEmpty && (cd.entry (key k)).coolingAt now) := by
  unfold isActive
  simp only [remaining_fst, coolingAt_eq_leftOn]
  cases (key k).isEmpty <;> rfl

/-- Reading changes nothing that can be seen. -/
theorem remaining_agree (k : Text) (now : Nat) :
    Agree now (cd.remaining k now).2 cd := by
  unfold remaining
  by_cases hk : (key k).isEmpty = true
  · rw [if_pos hk]
    exact .refl now cd
  · rw [if_neg hk]
    cases hl : cd.inner.lookup (key k) with
    | none => exact .refl now cd
    | some state =>
        simp only
        cases hu : state.untilAt with
        | none => exact .refl now cd
        | some u =>
            simp only
            by_cases hle : u ≤ now
            · rw [if_pos hle]
              by_cases hmax : now - u > cd.max
              · rw [if_pos hmax]
                refine ⟨rfl, rfl, ?_⟩
                intro k'
                by_cases hk' : k' = key k
                · subst hk'
                  have hx : state.expired cd.max now = true := by
                    unfold CooldownState.expired
                    rw [hu]
                    exact decide_eq_true hmax
                  unfold seen entry
                  rw [AList.lookup_erase, hl]
                  show CooldownState.default.settled cd.max now
                    = state.settled cd.max now
                  unfold CooldownState.settled
                  rw [if_pos hx]
                  exact if_pos rfl
                · unfold seen entry
                  rw [AList.lookup_erase_ne hk']
              · rw [if_neg hmax]
                exact .refl now cd
            · rw [if_neg hle]
              exact .refl now cd

theorem isActive_agree (k : Text) (now : Nat) :
    Agree now (cd.isActive k now).2 cd :=
  remaining_agree k now

-- ============================================================= writing

/-- The delay a mark of a key brings: what the answer asks for, or else
the base, doubled for each strike of an entry that has not expired, and
no more than the maximum. -/
def delayFor (cd : Cooldown429) (k : Text) (retryAfter now : Nat) : Nat :=
  if retryAfter > 0 then min retryAfter cd.max
  else min (cd.base * 2 ^ (cd.seen (key k) now).strikes) cd.max

/-- `Instant` can hold the deadline of a mark at `now`. -/
def Fits (cd : Cooldown429) (k : Text) (retryAfter now : Nat) : Prop :=
  now + cd.delayFor k retryAfter now < Instant.END

instance (cd : Cooldown429) (k : Text) (retryAfter now : Nat) :
    Decidable (cd.Fits k retryAfter now) :=
  inferInstanceAs (Decidable (_ < _))

theorem nextDelay_entry (cd : Cooldown429) (k : Text)
    (retryAfter now : Nat) :
    cd.nextDelay (cd.entry (key k)) retryAfter now
      = cd.delayFor k retryAfter now := by
  unfold nextDelay delayFor seen CooldownState.settled
  simp only [doubled_eq]
  cases (cd.entry (key k)).expired cd.max now <;> rfl

theorem fits_of_max (k : Text) (retryAfter : Nat)
    (h : now + cd.max < Instant.END) : cd.Fits k retryAfter now := by
  have hle : cd.delayFor k retryAfter now ≤ cd.max := by
    unfold delayFor
    split <;> exact Nat.min_le_right ..
  exact Nat.lt_of_le_of_lt (Nat.add_le_add_left hle now) h

/-- Whether a mark fits is told by what is seen of its key. -/
theorem fits_congr {k : Text} (hb : cd.base = cd'.base)
    (hm : cd.max = cd'.max) (hseen : cd.seen (key k) now
      = cd'.seen (key k) now) :
    cd.Fits k retryAfter now ↔ cd'.Fits k retryAfter now := by
  unfold Fits delayFor
  rw [hb, hm, hseen]

theorem Agree.fits (h : Agree now cd cd') (k : Text) (retryAfter : Nat) :
    cd.Fits k retryAfter now ↔ cd'.Fits k retryAfter now :=
  fits_congr h.base h.max (h.seen _)

theorem fits_key {k k' : Text} (h : key k = key k') :
    cd.Fits k retryAfter now ↔ cd.Fits k' retryAfter now := by
  unfold Fits delayFor
  rw [h]

/-- The map behind a mark: where the mark panics, as it was. -/
def marked (cd : Cooldown429) (k : Text) (retryAfter now : Nat) :
    Cooldown429 :=
  (cd.markFor k retryAfter now).getD cd

/-- What a mark makes of a key that is not blank. -/
theorem markFor_eq (cd : Cooldown429) {k : Text} (retryAfter now : Nat)
    (hk : key k ≠ []) :
    cd.markFor k retryAfter now = if cd.Fits k retryAfter now then
      some { cd with inner := cd.inner.insert (key k)
                      (cd.struck (cd.entry (key k)) retryAfter now) }
    else none := by
  have hne : ¬ (key k).isEmpty = true := by simpa using hk
  unfold markFor
  rw [if_neg hne]
  show (Instant.add now (cd.nextDelay (cd.entry (key k)) retryAfter
    now)).map _ = _
  unfold struck
  rw [nextDelay_entry]
  by_cases h : cd.Fits k retryAfter now
  · rw [if_pos h, Instant.add_of_lt h]
    rfl
  · rw [if_neg h, Instant.add_of_ge h]
    rfl

/-- A blank key is not marked. -/
theorem markFor_blank (cd : Cooldown429) {k : Text} (retryAfter now : Nat)
    (hk : key k = []) : cd.markFor k retryAfter now = some cd :=
  if_pos (by simpa using hk)

/-- A mark does not panic if its deadline fits. -/
theorem markFor_eq_marked {k : Text}
    (h : key k = [] ∨ cd.Fits k retryAfter now) :
    cd.markFor k retryAfter now = some (cd.marked k retryAfter now) := by
  unfold marked
  by_cases hk : key k = []
  · rw [markFor_blank cd retryAfter now hk]
    rfl
  · rw [markFor_eq cd retryAfter now hk, if_pos (h.resolve_left hk)]
    rfl

/-- A mark panics if it does not. -/
theorem markFor_eq_none {k : Text} (hk : key k ≠ [])
    (h : ¬ cd.Fits k retryAfter now) : cd.markFor k retryAfter now = none := by
  rw [markFor_eq cd retryAfter now hk, if_neg h]

/-- A mark changes nothing, or strikes the entry of its key. -/
theorem marked_cases (cd : Cooldown429) (k : Text) (retryAfter now : Nat) :
    ((key k = [] ∨ ¬ cd.Fits k retryAfter now)
        ∧ cd.marked k retryAfter now = cd)
      ∨ (key k ≠ [] ∧ cd.Fits k retryAfter now
        ∧ cd.marked k retryAfter now =
          { cd with inner := cd.inner.insert (key k)
                      (cd.struck (cd.entry (key k)) retryAfter now) }) := by
  unfold marked
  by_cases hk : key k = []
  · rw [markFor_blank cd retryAfter now hk]
    exact .inl ⟨.inl hk, rfl⟩
  · rw [markFor_eq cd retryAfter now hk]
    split
    · next h => exact .inr ⟨hk, h, rfl⟩
    · next h => exact .inl ⟨.inr h, rfl⟩

/-- A mark that fits sets the entry of its key. -/
theorem entry_marked_self (cd : Cooldown429) {now retryAfter : Nat}
    {k : Text} (hk : key k ≠ []) (hfits : cd.Fits k retryAfter now) :
    (cd.marked k retryAfter now).entry (key k)
      = cd.struck (cd.entry (key k)) retryAfter now := by
  obtain ⟨hno, -⟩ | ⟨-, -, h⟩ := marked_cases cd k retryAfter now
  · exact absurd hfits (hno.resolve_left hk)
  · rw [h]
    show ((cd.inner.insert _ _).lookup _).getD .default = _
    rw [AList.lookup_insert, Option.getD_some]

@[simp] theorem base_marked (k : Text) :
    (cd.marked k retryAfter now).base = cd.base := by
  obtain ⟨-, h⟩ | ⟨-, -, h⟩ := marked_cases cd k retryAfter now <;> rw [h]

@[simp] theorem max_marked (k : Text) :
    (cd.marked k retryAfter now).max = cd.max := by
  obtain ⟨-, h⟩ | ⟨-, -, h⟩ := marked_cases cd k retryAfter now <;> rw [h]

theorem seen_marked_self (cd : Cooldown429) {now retryAfter : Nat}
    {k : Text} (hk : key k ≠ []) (hfits : cd.Fits k retryAfter now) :
    (cd.marked k retryAfter now).seen (key k) now
      = cd.struck (cd.seen (key k) now) retryAfter now := by
  unfold seen
  rw [entry_marked_self cd hk hfits, max_marked, struck_settled]
  exact settled_struck

theorem entry_marked_ne {k k' : Text} (h : k' ≠ key k) :
    (cd.marked k retryAfter now).entry k' = cd.entry k' := by
  obtain ⟨-, hm⟩ | ⟨-, -, hm⟩ := marked_cases cd k retryAfter now
  · rw [hm]
  · rw [hm]
    show ((cd.inner.insert _ _).lookup k').getD .default = _
    rw [AList.lookup_insert_ne h]
    rfl

/-- A clear changes nothing, or drops the entry of its key. -/
theorem clear_cases (cd : Cooldown429) (k : Text) :
    cd.clear k = cd
      ∨ cd.clear k = { cd with inner := cd.inner.erase (key k) } := by
  by_cases hk : (key k).isEmpty = true
  · exact .inl (if_pos hk)
  · exact .inr (if_neg hk)

/-- A cleared key has no entry. -/
theorem entry_clear_self (cd : Cooldown429) {k : Text} (hk : key k ≠ []) :
    (cd.clear k).entry (key k) = .default := by
  have hc : cd.clear k = { cd with inner := cd.inner.erase (key k) } :=
    if_neg (by simpa using hk)
  rw [hc]
  show ((cd.inner.erase _).lookup _).getD .default = _
  rw [AList.lookup_erase]
  rfl

theorem entry_clear_ne {k k' : Text} (h : k' ≠ key k) :
    (cd.clear k).entry k' = cd.entry k' := by
  obtain hc | hc := clear_cases cd k
  · rw [hc]
  · rw [hc]
    show ((cd.inner.erase _).lookup k').getD .default = _
    rw [AList.lookup_erase_ne h]
    rfl

@[simp] theorem base_clear (k : Text) : (cd.clear k).base = cd.base := by
  obtain h | h := clear_cases cd k <;> rw [h]

@[simp] theorem max_clear (k : Text) : (cd.clear k).max = cd.max := by
  obtain h | h := clear_cases cd k <;> rw [h]

end Cooldown429

end Wrtg
