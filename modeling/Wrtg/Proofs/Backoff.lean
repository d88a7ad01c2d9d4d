/-
The backoff of a rate-limited key over whole traces (`cooldown429.rs`).

# The streak

A `Streak` is the run of marks a key is in: how many marks it counts,
and the deadline the last one set. `streakOf` reads it off the trace of
calls alone. A clear ends the run, and a mark that comes more than `max`
behind the last deadline starts a new one; a read does not show in it.
The map follows the streak (`follows_feed`): a reader at or behind the
last call sees the streak's entry, whatever reads have collected.

# What follows

The deadline the `j`-th mark sets is then read off the streak
(`struck_streak`): the strikes are kept in a `u32`, but a delay that has
doubled that often is past every representable `max`
(`doubled_saturated`). That reads may be left out of a trace is
`feed_skip` for `Agree`.
-/
import Mathlib.Data.List.Infix
import Wrtg.Proofs.Cooldown429
import Wrtg.Lib.Feed

namespace Wrtg

namespace Cooldown429

open Lib

-- ============================================================ doubling

/-- Strikes enough to fill 94 bits reach every representable `max`. -/
theorem max_le_doubled {base max : Nat} (strikes : Nat) (hbase : 0 < base)
    (hmax : max ≤ Duration.MAX) (hs : 94 ≤ strikes) :
    max ≤ base * 2 ^ strikes := by
  have hcap : Duration.MAX ≤ 2 ^ 94 := by decide
  calc max ≤ 2 ^ 94 := Nat.le_trans hmax hcap
    _ ≤ 2 ^ strikes := Nat.pow_le_pow_right (by decide) hs
    _ ≤ base * 2 ^ strikes := Nat.le_mul_of_pos_left _ hbase

/-- The cap on the strike count does not show in the delay. -/
theorem doubled_saturated {base max : Nat} (marks : Nat) (hbase : 0 < base)
    (hmax : max ≤ Duration.MAX) :
    doubled max (min marks (2 ^ 32 - 1)) base
      = min (base * 2 ^ marks) max := by
  have h94 : 94 ≤ 2 ^ 32 - 1 := by decide
  rw [doubled_eq]
  generalize 2 ^ 32 - 1 = cap at h94 ⊢
  by_cases hle : marks ≤ cap
  · rw [Nat.min_eq_left hle]
  · have hcap := max_le_doubled cap hbase hmax h94
    have hmarks := max_le_doubled marks hbase hmax (by omega)
    rw [Nat.min_eq_right (Nat.le_of_not_le hle), Nat.min_eq_right hcap,
      Nat.min_eq_right hmarks]

-- ============================================================= streaks

/-- The run of marks a key is in. -/
structure Streak where
  marks : Nat
  deadline : Nat
  deriving DecidableEq, Repr

/-- Which mark of its run a mark at `now` is. -/
def markNo (max : Nat) (prev : Option Streak) (now : Nat) : Nat :=
  match prev with
  | none => 1
  | some s => if now - s.deadline > max then 1 else s.marks + 1

/-- The delay of the `j`-th mark of a run. -/
def delayOf (base max retryAfter j : Nat) : Nat :=
  if retryAfter > 0 then min retryAfter max
  else min (base * 2 ^ (j - 1)) max

/-- A mark starts a run or carries it on. -/
def Streak.mark (base max : Nat) (prev : Option Streak)
    (retryAfter now : Nat) : Streak where
  marks := markNo max prev now
  deadline := now + delayOf base max retryAfter (markNo max prev now)

/-- What a call does to the run of key `k`. -/
def streakStep (base max : Nat) (k : Text) (prev : Option Streak)
    (c : Call) : Option Streak :=
  match c.op with
  | .markFor key' retryAfter =>
      if key key' = k then some (Streak.mark base max prev retryAfter c.now)
      else prev
  | .clear key' => if key key' = k then none else prev
  | .remaining _ => prev
  | .isActive _ => prev

/-- The run key `k` is in behind a trace, from a fresh map on. -/
def streakOf (base max : Nat) (k : Text) (calls : List Call) :
    Option Streak :=
  calls.foldl (streakStep base max k) none

/-- The entry of a run. -/
def Streak.entry : Option Streak → CooldownState
  | none => .default
  | some s => { untilAt := some s.deadline
                strikes := min s.marks (2 ^ 32 - 1) }

variable {cd : Cooldown429}

/-- A mark strikes a run's entry into the entry of the run it leaves. -/
theorem struck_streak (hbase : 0 < cd.base) (hmax : cd.max ≤ Duration.MAX)
    (prev : Option Streak) (retryAfter now : Nat) :
    cd.struck (Streak.entry prev) retryAfter now
      = Streak.entry (some (Streak.mark cd.base cd.max prev retryAfter
          now)) := by
  have hcap : 1 ≤ 2 ^ 32 - 1 := by decide
  have hsat : ∀ marks, doubled cd.max (min marks (2 ^ 32 - 1)) cd.base
      = min (cd.base * 2 ^ marks) cd.max :=
    fun marks => doubled_saturated marks hbase hmax
  unfold struck nextDelay Streak.entry Streak.mark delayOf markNo
  generalize 2 ^ 32 - 1 = cap at hcap hsat ⊢
  have hone : doubled cd.max 0 cd.base = min (cd.base * 2 ^ 0) cd.max :=
    doubled_eq ..
  cases prev with
  | none =>
      have hx : CooldownState.default.expired cd.max now = true := rfl
      simp only [hx, if_true, hone, Nat.min_eq_left hcap, Nat.sub_self]
  | some s =>
      by_cases hlate : now - s.deadline > cd.max
      · simp only [CooldownState.expired, decide_eq_true hlate, if_pos hlate,
          if_true, hone, Nat.min_eq_left hcap, Nat.sub_self]
      · have hstrikes : min (min s.marks cap + 1) cap
            = min (s.marks + 1) cap := by omega
        simp only [CooldownState.expired, decide_eq_false hlate,
          if_neg hlate, Bool.false_eq_true, if_false, hsat, hstrikes,
          Nat.add_sub_cancel]

variable {cd' : Cooldown429} {now : Nat}

-- ============================================================= writing

/-- Marking two maps that look alike leaves such maps. -/
theorem Agree.marked (h : Agree now cd cd') (k : Text)
    (retryAfter : Nat) :
    Agree now (cd.marked k retryAfter now)
      (cd'.marked k retryAfter now) := by
  refine ⟨by simp [h.base], by simp [h.max], ?_⟩
  intro k'
  by_cases hself : k' = key k ∧ key k ≠ [] ∧ cd.Fits k retryAfter now
  · obtain ⟨rfl, hk, hfits⟩ := hself
    rw [seen_marked_self cd hk hfits,
      seen_marked_self cd' hk ((h.fits k _).mp hfits), h.seen,
      struck_congr h.base h.max]
  · -- the entry of `k'` is left alone in both
    have hkept : ∀ cd₁ : Cooldown429,
        (cd₁.Fits k retryAfter now ↔ cd.Fits k retryAfter now) →
        (cd₁.marked k retryAfter now).entry k' = cd₁.entry k' := by
      intro cd₁ hfits
      obtain ⟨-, hm⟩ | ⟨hk, hfit, -⟩ := marked_cases cd₁ k retryAfter now
      · rw [hm]
      · exact entry_marked_ne fun hk' => hself ⟨hk', hk, hfits.mp hfit⟩
    have hs : cd.seen k' now = cd'.seen k' now := h.seen k'
    unfold Cooldown429.seen at hs ⊢
    rw [hkept cd Iff.rfl, hkept cd' (h.fits k _).symm, max_marked, max_marked,
      hs]

/-- Of two maps that look alike, a mark panics in both or in none. -/
theorem Agree.markFor (h : Agree now cd cd') (k : Text)
    (retryAfter : Nat) :
    (cd.markFor k retryAfter now).isSome
      = (cd'.markFor k retryAfter now).isSome := by
  by_cases hk : key k = []
  · rw [markFor_blank cd _ _ hk, markFor_blank cd' _ _ hk]
    rfl
  · by_cases hfits : cd.Fits k retryAfter now
    · rw [markFor_eq_marked (.inr hfits),
        markFor_eq_marked (.inr ((h.fits k _).mp hfits))]
      rfl
    · rw [markFor_eq_none hk hfits,
        markFor_eq_none hk (mt (h.fits k _).mpr hfits)]

/-- A call that marks leaves the marked map, and panics if the mark
does. -/
theorem call_markFor (cd : Cooldown429) (k : Text) (retryAfter now : Nat) :
    cd.call ⟨.markFor k retryAfter, now⟩
      = (if (cd.markFor k retryAfter now).isSome then .done else .panicked,
        cd.marked k retryAfter now) := by
  unfold call marked
  simp only
  cases cd.markFor k retryAfter now <;> rfl

theorem clear_blank (cd : Cooldown429) {k : Text} (hk : key k = []) :
    cd.clear k = cd :=
  if_pos (by simpa using hk)

/-- Clearing two maps that look alike leaves such maps. -/
theorem Agree.clear (h : Agree now cd cd') (k : Text) :
    Agree now (cd.clear k) (cd'.clear k) := by
  refine ⟨by simp [h.base], by simp [h.max], ?_⟩
  intro k'
  by_cases hk : key k = []
  · rw [clear_blank cd hk, clear_blank cd' hk, h.seen]
  · by_cases hk' : k' = key k
    · subst hk'
      unfold Cooldown429.seen
      rw [entry_clear_self cd hk, entry_clear_self cd' hk, max_clear,
        max_clear, h.max]
    · have hs : cd.seen k' now = cd'.seen k' now := h.seen k'
      unfold Cooldown429.seen at hs ⊢
      rw [entry_clear_ne hk', entry_clear_ne hk', max_clear, max_clear, hs]

-- =============================================================== calls

/-- A call cannot tell apart maps that look alike, and leaves such
maps. -/
theorem Agree.call (c : Call) (h : Agree c.now cd cd') :
    (cd.call c).1 = (cd'.call c).1
      ∧ Agree c.now (cd.call c).2 (cd'.call c).2 := by
  obtain ⟨op, now⟩ := c
  have hread : ∀ k, Agree now (cd.remaining k now).2
      (cd'.remaining k now).2 := fun k =>
    (remaining_agree k now).trans (h.trans (remaining_agree k now).symm)
  cases op with
  | markFor k retryAfter =>
      rw [call_markFor, call_markFor, h.markFor k retryAfter]
      exact ⟨rfl, h.marked k retryAfter⟩
  | remaining k =>
      exact ⟨congrArg Outcome.left (h.remaining_fst k), hread k⟩
  | isActive k =>
      refine ⟨congrArg Outcome.active ?_, hread k⟩
      show decide ((cd.remaining k now).1 > 0) = _
      rw [h.remaining_fst k]
      rfl
  | clear k => exact ⟨rfl, h.clear k⟩

/-- A call that only asks leaves the map looking as it did. -/
theorem agree_call_read {c : Call} (h : c.op.isRead = true) :
    Agree c.now (cd.call c).2 cd := by
  obtain ⟨op, now⟩ := c
  cases op with
  | markFor k retryAfter => cases h
  | remaining k => exact remaining_agree k now
  | isActive k => exact isActive_agree k now
  | clear k => cases h

/-- The settings stay. -/
theorem call_config (cd : Cooldown429) (c : Call) :
    (cd.call c).2.base = cd.base ∧ (cd.call c).2.max = cd.max := by
  obtain ⟨op, now⟩ := c
  cases op with
  | markFor k retryAfter =>
      rw [call_markFor]
      exact ⟨base_marked k, max_marked k⟩
  | remaining k =>
      exact ⟨(remaining_agree k now).base, (remaining_agree k now).max⟩
  | isActive k =>
      exact ⟨(isActive_agree k now).base, (isActive_agree k now).max⟩
  | clear k => exact ⟨base_clear k, max_clear k⟩

-- ============================================================== traces

/-- The clock readings of a trace never go back. -/
def Timed (calls : List Call) : Prop :=
  (calls.map Call.now).Pairwise (· ≤ ·)

/-- `Instant` can hold every deadline that key `k` is given. -/
def Representable (base max : Nat) (k : Text) (calls : List Call) : Prop :=
  ∀ before ∈ calls.inits, ∀ s ∈ streakOf base max k before,
    s.deadline < Instant.END

instance (base max : Nat) (k : Text) (calls : List Call) :
    Decidable (Representable base max k calls) :=
  inferInstanceAs (Decidable (∀ before ∈ calls.inits,
    ∀ s ∈ streakOf base max k before, s.deadline < Instant.END))

/-- To a reader at `now` or later, the map holds the streak's entry for
key `k`. -/
structure Follows (base max : Nat) (k : Text) (now : Nat)
    (cd : Cooldown429) (prev : Option Streak) : Prop where
  base_eq : cd.base = base
  max_eq : cd.max = max
  seen_eq : cd.seen k now = (Streak.entry prev).settled max now

/-- A mark of a key strikes the entry of its run. -/
theorem Follows.struck {base max : Nat} {k : Text} {prev : Option Streak}
    (hbase : 0 < base) (hmax : max ≤ Duration.MAX)
    (h : Follows base max k now cd prev) (retryAfter : Nat) :
    cd.struck (cd.entry k) retryAfter now
      = Streak.entry (some (Streak.mark base max prev retryAfter now)) := by
  obtain ⟨rfl, rfl, hseen⟩ := h
  rw [← struck_streak hbase hmax, ← struck_settled, ← Cooldown429.seen,
    hseen, struck_settled]

/-- It does not panic if `Instant` can hold the deadline of the run. -/
theorem Follows.fits {base max : Nat} {k : Text} {prev : Option Streak}
    (hbase : 0 < base) (hmax : max ≤ Duration.MAX) {retryAfter : Nat}
    (h : Follows base max (key k) now cd prev)
    (hlt : (Streak.mark base max prev retryAfter now).deadline
      < Instant.END) : cd.Fits k retryAfter now := by
  have huntil := congrArg CooldownState.untilAt
    (h.struck hbase hmax retryAfter)
  unfold Fits
  rw [← nextDelay_entry, Option.some.inj huntil]
  exact hlt

/-- A call moves the map and the streak together. -/
theorem follows_call {base max : Nat} {k : Text} (hk : k ≠ [])
    (hbase : 0 < base) (hmax : max ≤ Duration.MAX) {prev : Option Streak}
    {c : Call} (h : Follows base max k c.now cd prev)
    (hfits : ∀ s ∈ streakStep base max k prev c, s.deadline < Instant.END) :
    Follows base max k c.now (cd.call c).2
      (streakStep base max k prev c) := by
  obtain ⟨hb, hm⟩ := call_config cd c
  refine ⟨hb.trans h.base_eq, hm.trans h.max_eq, ?_⟩
  have hseen := h.seen_eq
  obtain ⟨op, now⟩ := c
  cases op with
  | markFor k' retryAfter =>
      rw [call_markFor]
      show (cd.marked k' retryAfter now).seen k now
        = (Streak.entry (if key k' = k then _ else prev)).settled _ now
      by_cases hk' : key k' = k
      · subst hk'
        have hlt : (Streak.mark base max prev retryAfter now).deadline
            < Instant.END := hfits _ (if_pos rfl)
        rw [if_pos rfl, Cooldown429.seen, max_marked,
          entry_marked_self cd hk (h.fits hbase hmax hlt),
          h.struck hbase hmax, h.max_eq]
      · rw [if_neg hk', ← hseen]
        unfold Cooldown429.seen
        rw [entry_marked_ne (Ne.symm hk'), max_marked]
  | clear k' =>
      show (cd.clear k').seen k now
        = (Streak.entry (if key k' = k then none else prev)).settled _ now
      by_cases hk' : key k' = k
      · subst hk'
        rw [if_pos rfl]
        unfold Cooldown429.seen
        rw [entry_clear_self cd hk, max_clear, h.max_eq]
        rfl
      · rw [if_neg hk', ← hseen]
        unfold Cooldown429.seen
        rw [entry_clear_ne (Ne.symm hk'), max_clear]
  | remaining k' => exact ((remaining_agree k' now).seen k).trans hseen
  | isActive k' => exact ((isActive_agree k' now).seen k).trans hseen

/-- The map follows the streak through a whole trace. -/
theorem follows_feed {base max : Nat} {k : Text} (hk : k ≠ [])
    (hbase : 0 < base) (hmax : max ≤ Duration.MAX) (calls : List Call)
    {prev : Option Streak} {t now : Nat}
    (h : Follows base max k t cd prev) (htimed : Timed calls)
    (hfits : ∀ before ∈ calls.inits,
      ∀ s ∈ before.foldl (streakStep base max k) prev,
        s.deadline < Instant.END)
    (hfirst : ∀ c ∈ calls, t ≤ c.now) (hlast : ∀ c ∈ calls, c.now ≤ now)
    (hle : t ≤ now) :
    Follows base max k now (feed Cooldown429.call cd calls).2
      (calls.foldl (streakStep base max k) prev) := by
  have hlater : ∀ {cd : Cooldown429} {prev : Option Streak} {t t' : Nat},
      t ≤ t' → Follows base max k t cd prev →
      Follows base max k t' cd prev := by
    intro cd prev t t' hle h
    obtain ⟨rfl, rfl, hseen⟩ := h
    exact ⟨rfl, rfl, by rw [← seen_later hle, hseen,
      CooldownState.settled_settled hle]⟩
  induction calls generalizing cd prev t with
  | nil => exact hlater hle h
  | cons c cs ih =>
      obtain ⟨hc, hcs⟩ := List.pairwise_cons.mp htimed
      have hnow := hlater (hfirst c (List.mem_cons_self ..)) h
      have hrest : ∀ before ∈ cs.inits, ∀ s ∈ before.foldl
          (streakStep base max k) (streakStep base max k prev c),
          s.deadline < Instant.END := by
        intro before hbefore
        rw [List.mem_inits] at hbefore
        exact hfits (c :: before) ((List.mem_inits _ _).mpr
          (List.cons_prefix_cons.mpr ⟨rfl, hbefore⟩))
      rw [feed_cons, List.foldl_cons]
      exact ih (follows_call hk hbase hmax hnow
        (hrest [] ((List.mem_inits _ _).mpr List.nil_prefix))) hcs hrest
        (fun d hd => hc _ (List.mem_map_of_mem hd))
        (fun d hd => hlast d (List.mem_cons_of_mem c hd))
        (hlast c (List.mem_cons_self ..))

/-- A new map holds no entry, and every key is in no run. -/
theorem follows_new (base max : Nat) (k : Text) (now : Nat) :
    Follows base max k now (new base max) none :=
  ⟨rfl, rfl, rfl⟩

/-- No delay is zero, and none is past `max`. -/
theorem delayOf_bounds {base max : Nat} (retryAfter j : Nat)
    (hbase : 0 < base) (hpos : 0 < max) :
    0 < delayOf base max retryAfter j
      ∧ delayOf base max retryAfter j ≤ max := by
  have hpow : 0 < base * 2 ^ (j - 1) :=
    Nat.mul_pos hbase (Nat.two_pow_pos _)
  unfold delayOf
  split <;> omega

theorem Timed.split {calls : List Call} {c : Call}
    (h : Timed (calls ++ [c])) : Timed calls ∧ ∀ d ∈ calls, d.now ≤ c.now := by
  unfold Timed at h ⊢
  rw [List.map_append, List.pairwise_append] at h
  exact ⟨h.1, fun d hd =>
    h.2.2 _ (List.mem_map_of_mem hd) c.now (List.mem_singleton_self c.now)⟩

/-- What the last mark of a trace leaves of its key's cooldown. -/
theorem mark_feed {base max : Nat} (hbase : 0 < base)
    (hmax : max ≤ Duration.MAX) {calls : List Call} {k : Text}
    {retryAfter now : Nat}
    (htimed : Timed (calls ++ [⟨.markFor k retryAfter, now⟩]))
    (hk : key k ≠ [])
    (hfits : Representable base max (key k)
      (calls ++ [⟨.markFor k retryAfter, now⟩])) {after : Cooldown429}
    (hafter : after = (feed Cooldown429.call (new base max)
      (calls ++ [⟨.markFor k retryAfter, now⟩])).2) :
    (after.entry (key k)).untilAt
        = some (now + delayOf base max retryAfter
          (markNo max (streakOf base max (key k) calls) now))
      ∧ (after.remaining k now).1
        = delayOf base max retryAfter
          (markNo max (streakOf base max (key k) calls) now) := by
  have hfollow := follows_feed hk hbase hmax calls
    (follows_new base max (key k) 0) htimed.split.1
    (fun before hbefore => hfits before ((List.mem_inits _ _).mpr
      (((List.mem_inits _ _).mp hbefore).trans (List.prefix_append ..))))
    (fun _ _ => Nat.zero_le _) htimed.split.2 (Nat.zero_le now)
  have hmark : after = (feed Cooldown429.call (new base max)
      calls).2.marked k retryAfter now := by
    rw [hafter, feed_append, feed_cons, feed_nil, call_markFor]
  have hdeadline : (Streak.mark base max
      (streakOf base max (key k) calls) retryAfter now).deadline
        < Instant.END := by
    refine hfits _ ((List.mem_inits _ _).mpr (List.prefix_refl _)) _ ?_
    unfold streakOf
    rw [List.foldl_append]
    exact if_pos rfl
  have hentry : (after.entry (key k)).untilAt
      = some (now + delayOf base max retryAfter
        (markNo max (streakOf base max (key k) calls) now)) := by
    rw [hmark, entry_marked_self _ hk (hfollow.fits hbase hmax hdeadline),
      hfollow.struck hbase hmax]
    rfl
  refine ⟨hentry, ?_⟩
  rw [Cooldown429.remaining_fst, if_neg (by simpa using hk), leftOn, hentry]
  exact Nat.add_sub_cancel_left ..

/-- Leaving out reads changes the outcome of no other call. -/
theorem reads_skip (base max : Nat) {xs : List (Call × Bool)}
    (htimed : Timed (xs.map Prod.fst))
    (hreads : ∀ x ∈ xs, x.2 = false → x.1.op.isRead = true) :
    chosen ((feed Cooldown429.call (new base max)
        (xs.map Prod.fst)).1.zip (xs.map Prod.snd))
      = (feed Cooldown429.call (new base max) (chosen xs)).1 := by
  refine feed_skip (fun t => Agree t) Call.now
    (fun c => c.op.isRead = true)
    (fun _ _ _ _ hle h => h.mono hle) (fun c _ _ h => h.call c)
    (fun c _ _ hc h => (agree_call_read hc).trans h) xs hreads ?_
    (t := 0) (fun _ _ => Nat.zero_le _) (Agree.refl 0 _)
  unfold Timed at htimed
  rwa [List.map_map] at htimed

/-- Backoff escalates, and observing it disturbs nothing. In every
trace with a clock that never goes back, and deadlines of the key that
`Instant` can hold, the `j`-th mark of a key's run
sets, without Retry-After, the deadline `min (base * 2 ^ (j - 1)) max`
ahead, and any mark leaves a time in `(0, max]`. And leaving out reads
changes the outcome of no other call. -/
theorem backoff_escalates (base max : Nat) (hbase : 0 < base)
    (hpos : 0 < max) (hmax : max ≤ Duration.MAX) :
    (∀ (calls : List Call) (k : Text) (retryAfter now : Nat),
      Timed (calls ++ [⟨.markFor k retryAfter, now⟩]) → key k ≠ [] →
      Representable base max (key k)
        (calls ++ [⟨.markFor k retryAfter, now⟩]) →
      let j := markNo max (streakOf base max (key k) calls) now
      let after := (feed Cooldown429.call (new base max)
        (calls ++ [⟨.markFor k retryAfter, now⟩])).2
      (retryAfter = 0 → (after.entry (key k)).untilAt
          = some (now + min (base * 2 ^ (j - 1)) max))
        ∧ 0 < (after.remaining k now).1
        ∧ (after.remaining k now).1 ≤ max)
    ∧ ∀ xs : List (Call × Bool), Timed (xs.map Prod.fst) →
        (∀ x ∈ xs, x.2 = false → x.1.op.isRead = true) →
        chosen ((feed Cooldown429.call (new base max)
            (xs.map Prod.fst)).1.zip (xs.map Prod.snd))
          = (feed Cooldown429.call (new base max) (chosen xs)).1 := by
  constructor
  · intro calls k retryAfter now htimed hk hfits j after
    obtain ⟨hentry, hleft⟩ := mark_feed hbase hmax htimed hk hfits
      (show after = _ from rfl)
    obtain ⟨hlo, hhi⟩ := delayOf_bounds retryAfter j hbase hpos
    refine ⟨?_, ?_, ?_⟩
    · intro hzero
      rw [hentry, delayOf, if_neg (by omega)]
    · rw [hleft]
      exact hlo
    · rw [hleft]
      exact hhi
  · intro xs htimed hreads
    exact reads_skip base max htimed hreads

/-- Two marks of one key, the first read after its cooldown, and another
key cleared. -/
def sampleCalls : List Call :=
  [⟨.markFor " W.example".toList 0, 5⟩, ⟨.clear "v.example".toList, 6⟩,
    ⟨.isActive "w.example".toList, 40⟩, ⟨.markFor "w.example".toList 0, 50⟩,
    ⟨.remaining "w.example".toList, 120⟩]

/-- The third mark of the run stands for four times the base. -/
theorem backoff_escalates_sample :
    let after := (feed Cooldown429.call (new 30 600)
      (sampleCalls ++ [⟨.markFor "w.example".toList 0, 130⟩])).2
    (after.entry (key "w.example".toList)).untilAt = some (130 + 120)
      ∧ 0 < (after.remaining "w.example".toList 130).1
      ∧ (after.remaining "w.example".toList 130).1 ≤ 600 := by
  have h := (backoff_escalates 30 600 (by decide) (by decide)
    (by decide)).1 sampleCalls "w.example".toList 0 130
    (by unfold Timed; decide) (by decide +kernel) (by decide +kernel)
  exact ⟨h.1 rfl, h.2⟩

end Cooldown429

end Wrtg
