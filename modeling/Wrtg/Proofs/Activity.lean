/-
When the idle guard is sound and prompt (`bridge.rs`, `idle_reached`).

A sleep is set from the last touch it sees, so it ends at most 50 ms
behind the limit past that touch (`idleCheck_spec`), and later touches only put
that instant off (`Inv.wake`). A check that returns has seen the limit
pass since the last touch (`inv_check`). Both rest on the stored
milliseconds being the real ones: `Fits` keeps the reading of a check,
the last touch before it and the limit below the widths of the two
casts, and the guard is sound and prompt in the runs that stay there.
-/
import Wrtg.Activity
import Wrtg.Lib.Run

namespace Wrtg.Activity

open Lib

-- ======================================================= what is asked

/-- The session's clock at an instant, in milliseconds. -/
def State.millis (s : State) (t : Nat) : Nat :=
  Duration.asMillis (t - s.activity.base)

/-- The limit of the guard, in milliseconds. -/
def State.limit (s : State) : Nat := Duration.asMillis s.idle

/-- Where the guard has resolved, no touch came less than the limit
before, by the session's clock. -/
def Sound (s : State) : Prop :=
  ∀ t, s.guard = .resolved t → ∀ touch ∈ s.touches,
    s.millis touch + s.limit ≤ s.millis t

/-- The latest the guard may resolve. -/
def bound (limit last first : Nat) : Nat :=
  max (last + Duration.fromMillis limit) first + Duration.fromMillis 50

/-- If no touch came behind `last`, the guard has resolved in time or
there is time left. -/
def Prompt (s : State) : Prop :=
  ∀ last first, s.activity.base ≤ last → (∀ t ∈ s.touches, t ≤ last) →
    s.firstCheck = some first →
    (∀ t, s.guard = .resolved t → t ≤ bound s.limit last first)
      ∧ ((∀ t, s.guard ≠ .resolved t) → s.now ≤ bound s.limit last first)

/-- A check whose casts lose nothing: the limit and the session's age
fit 64 bits, and the touches so far the stored word. -/
def Fits (s : State) : Action → Prop
  | .check => s.limit < 2 ^ 64 ∧ s.millis s.now < 2 ^ 64
      ∧ ∀ t ∈ s.touches, s.millis t < s.word.size
  | _ => True

instance (s : State) (a : Action) : Decidable (Fits s a) :=
  match a with
  | .check => inferInstanceAs (Decidable (_ ∧ _ ∧ _))
  | .pass _ => .isTrue trivial
  | .touch => .isTrue trivial

-- ========================================================== one check

/-- The last touch, or the start of the session. -/
def State.last (s : State) : Nat := s.touches.head?.getD s.activity.base

/-- The limit is whole milliseconds. -/
theorem idleMs_eq {idle : Nat} (hpos : 0 < Duration.asMillis idle)
    (hfit : Duration.asMillis idle < 2 ^ 64) :
    idleMs idle = Duration.asMillis idle := by
  unfold idleMs asU64
  rw [Nat.mod_eq_of_lt hfit]
  omega

/-- A check that returns has seen the limit pass since the last
touch, and one that does not wakes at most 50 ms behind it. -/
theorem idleCheck_spec {a : Activity} {idle now last : Nat}
    (hpos : 0 < Duration.asMillis idle)
    (hlimit : Duration.asMillis idle < 2 ^ 64)
    (hnow : Duration.asMillis (now - a.base) < 2 ^ 64)
    (hlast : a.lastMs = Duration.asMillis (last - a.base))
    (hbase : a.base ≤ last) (hle : last ≤ now) :
    (a.idleCheck idle now = none →
        Duration.asMillis (last - a.base) + Duration.asMillis idle
          ≤ Duration.asMillis (now - a.base))
      ∧ ∀ nap, a.idleCheck idle now = some nap →
        now + nap ≤ last + Duration.fromMillis (Duration.asMillis idle)
          + Duration.fromMillis 50 := by
  unfold idleCheck elapsed
  rw [idleMs_eq hpos hlimit, asU64, Nat.mod_eq_of_lt hnow, hlast]
  unfold Duration.asMillis Duration.fromMillis at *
  by_cases hreached : (now - a.base) / 1000000 - (last - a.base) / 1000000
      ≥ idle / 1000000
  · rw [if_pos hreached]
    refine ⟨?_, fun nap hnap => (nomatch hnap)⟩
    intro _
    omega
  · rw [if_neg hreached]
    refine ⟨fun hnone => (nomatch hnone), ?_⟩
    intro nap hnap
    cases hnap
    omega

-- =========================================================== the steps

/-- The last touch is the latest, and stored as the width allows; a
sleep ends in time for it, and so did the guard. -/
structure Inv (s : State) : Prop where
  limit : 0 < s.limit
  base : s.activity.base ≤ s.last
  now : s.last ≤ s.now
  latest : ∀ t ∈ s.touches, t ≤ s.last
  stored : s.activity.lastMs = s.word.truncate (s.millis s.last)
  first : s.guard = .notStarted ↔ s.firstCheck = none
  wake : ∀ wake, s.guard = .sleeping wake → s.now ≤ wake
    ∧ wake ≤ s.last + Duration.fromMillis s.limit + Duration.fromMillis 50
  sound : Sound s
  ended : ∀ t first, s.guard = .resolved t → s.firstCheck = some first →
    t ≤ bound s.limit s.last first

variable {s s' : State}

/-- The clock moves on. -/
theorem inv_pass {duration : Nat} (h : apply (.pass duration) s = some s')
    (hi : Inv s) : Inv s' := by
  simp only [apply] at h
  split at h
  · next hmay =>
      cases h
      refine { hi with
        now := Nat.le_trans hi.now (Nat.le_add_right ..)
        wake := fun wake hw => ⟨?_, (hi.wake wake hw).2⟩ }
      have hw : s.guard = .sleeping wake := hw
      unfold State.mayPass at hmay
      rw [hw] at hmay
      exact of_decide_eq_true hmay
  · cases h

/-- A touch is stored, and a sleep ends in time for it too. -/
theorem inv_touch (h : apply .touch s = some s') (hi : Inv s) : Inv s' := by
  simp only [apply] at h
  have hopen : ∀ t, s.guard ≠ .resolved t := by
    intro t ht
    rw [ht] at h
    cases h
  have hs : s' = { s with activity := s.activity.touch s.word s.now
                          touches := s.now :: s.touches } := by
    cases hg : s.guard with
    | notStarted => rw [hg] at h; exact (Option.some.inj h).symm
    | sleeping wake => rw [hg] at h; exact (Option.some.inj h).symm
    | resolved t => exact absurd hg (hopen t)
  subst hs
  have hlast := hi.now
  refine ⟨hi.limit, Nat.le_trans hi.base hi.now, Nat.le_refl _, ?_, rfl,
    hi.first, ?_, ?_, ?_⟩
  · intro t ht
    rcases List.mem_cons.mp ht with rfl | ht
    · exact Nat.le_refl _
    · exact Nat.le_trans (hi.latest t ht) hi.now
  · intro wake hw
    obtain ⟨hnow, hlate⟩ := hi.wake wake hw
    refine ⟨hnow, Nat.le_trans hlate ?_⟩
    exact Nat.add_le_add_right (Nat.add_le_add_right hi.now _) _
  · intro t ht
    exact absurd ht (hopen t)
  · intro t first ht
    exact absurd ht (hopen t)

/-- The stored word is the last touch itself, if the touches fit. -/
theorem stored_eq (hi : Inv s)
    (htouches : ∀ t ∈ s.touches, s.millis t < s.word.size) :
    s.activity.lastMs
      = Duration.asMillis (s.last - s.activity.base) := by
  have hlast : s.millis s.last < s.word.size := by
    cases ht : s.touches with
    | nil =>
        have hbase : s.last = s.activity.base := by
          rw [State.last, ht]
          rfl
        rw [hbase, State.millis, Nat.sub_self]
        exact Nat.lt_of_lt_of_le (by decide) s.word.le_size
    | cons t ts =>
        have hmem : s.last ∈ s.touches := by
          rw [State.last, ht]
          exact List.mem_cons_self ..
        exact htouches _ hmem
  rw [hi.stored, Word.truncate, Nat.mod_eq_of_lt hlast]
  rfl

/-- A check is due at the latest when its sleep ends. -/
theorem now_le_bound (hi : Inv s) (hdue : s.due = true) (first : Nat)
    (hf : s.firstCheck.or (some s.now) = some first) :
    s.now ≤ bound s.limit s.last first := by
  unfold bound
  cases hg : s.guard with
  | notStarted =>
      rw [hi.first.mp hg] at hf
      cases hf
      omega
  | sleeping wake =>
      obtain ⟨-, hlate⟩ := hi.wake wake hg
      unfold State.due at hdue
      rw [hg] at hdue
      have hwake : wake ≤ s.now := of_decide_eq_true hdue
      have hnow := (hi.wake wake hg).1
      omega
  | resolved t =>
      unfold State.due at hdue
      rw [hg] at hdue
      cases hdue

/-- A check whose casts lose nothing. -/
theorem inv_check (h : apply .check s = some s') (hi : Inv s)
    (hfit : Fits s .check) : Inv s' := by
  obtain ⟨hlimit, hnow, htouches⟩ := hfit
  obtain ⟨hreturn, hnap⟩ := idleCheck_spec hi.limit hlimit hnow
    (stored_eq hi htouches) hi.base hi.now
  have hsome : s.firstCheck.or (some s.now) ≠ none := by
    cases s.firstCheck <;> exact fun hno => nomatch hno
  simp only [apply] at h
  split at h
  · next hdue =>
      cases hcheck : s.activity.idleCheck s.idle s.now with
      | none =>
          rw [hcheck] at h
          cases h
          refine ⟨hi.limit, hi.base, hi.now, hi.latest, hi.stored,
            iff_of_false (fun hno => nomatch hno) hsome,
            fun wake hw => (nomatch hw), ?_, ?_⟩
          · intro t ht touch hmem
            cases ht
            have hlast := hi.latest touch hmem
            have hmono : s.millis touch ≤ s.millis s.last :=
              Nat.div_le_div_right (Nat.sub_le_sub_right hlast _)
            exact Nat.le_trans (Nat.add_le_add_right hmono _)
              (hreturn hcheck)
          · intro t first ht hf
            cases ht
            exact now_le_bound hi hdue first hf
      | some nap =>
          rw [hcheck] at h
          cases h
          refine ⟨hi.limit, hi.base, hi.now, hi.latest, hi.stored,
            iff_of_false (fun hno => nomatch hno) hsome, ?_,
            fun t ht => (nomatch ht), fun t first ht => (nomatch ht)⟩
          intro wake hw
          cases hw
          exact ⟨Nat.le_add_right .., hnap nap hcheck⟩
  · cases h

-- ============================================================== runs

theorem inv_start (w : Word) (idle base : Nat)
    (hpos : 0 < Duration.asMillis idle) : Inv (start w idle base) := by
  refine ⟨hpos, Nat.le_refl _, Nat.le_refl _, fun _ h => (nomatch h), ?_,
    iff_of_true rfl rfl, fun _ h => (nomatch h), fun _ h => (nomatch h),
    fun _ _ h => (nomatch h)⟩
  show 0 = Duration.asMillis (base - base) % w.size
  rw [Nat.sub_self]
  exact (Nat.zero_mod _).symm

theorem inv_run {w : Word} {idle base : Nat} {xs : List Action}
    (hpos : 0 < Duration.asMillis idle)
    (hrun : run apply xs (start w idle base) = some s)
    (hok : StepsMeet apply Fits xs (start w idle base)) : Inv s :=
  run_invariant apply hrun hok (inv_start w idle base hpos)
    fun t a t' ht ha hstep => by
      cases a with
      | pass duration => exact inv_pass hstep ht
      | touch => exact inv_touch hstep ht
      | check => exact inv_check hstep ht ha

/-- Where the guard is in time for the last touch, it is in time for
every instant no touch comes behind. -/
theorem prompt_of_inv (hi : Inv s) : Prompt s := by
  intro last first hbase hlast hf
  have hle : s.last ≤ last := by
    cases ht : s.touches with
    | nil =>
        rw [State.last, ht]
        exact hbase
    | cons t ts =>
        have hmem : s.last ∈ s.touches := by
          rw [State.last, ht]
          exact List.mem_cons_self ..
        exact hlast _ hmem
  have hmono : bound s.limit s.last first ≤ bound s.limit last first := by
    unfold bound
    omega
  constructor
  · intro t ht
    exact Nat.le_trans (hi.ended t first ht hf) hmono
  · intro hopen
    refine Nat.le_trans ?_ hmono
    cases hg : s.guard with
    | notStarted =>
        rw [hi.first.mp hg] at hf
        cases hf
    | sleeping wake =>
        obtain ⟨hnow, hlate⟩ := hi.wake wake hg
        unfold bound
        omega
    | resolved t => exact absurd hg (hopen t)

/-- Whatever the word, the limit and the touches, the guard is sound and
prompt in every run whose checks read what was stored. -/
theorem idle_guard (w : Word) (idle base : Nat)
    (hpos : 0 < Duration.asMillis idle) (xs : List Action) (s : State)
    (hrun : run apply xs (start w idle base) = some s)
    (hok : StepsMeet apply Fits xs (start w idle base)) :
    Sound s ∧ Prompt s :=
  have hi := inv_run hpos hrun hok
  ⟨hi.sound, prompt_of_inv hi⟩

/-- Ten seconds of limit, a touch at four, and the guard at fourteen. -/
def sampleRun : List Action :=
  [.check, .pass (Duration.fromSecs 4), .touch, .pass (Duration.fromSecs 6),
    .check, .pass (Duration.fromSecs 4), .check]

theorem idle_guard_sample :
    ∃ s, run apply sampleRun (start .w32 (Duration.fromSecs 10) 7) = some s
      ∧ Sound s ∧ Prompt s :=
  ⟨_, rfl, idle_guard .w32 (Duration.fromSecs 10) 7 (by decide) sampleRun _
    rfl (stepsMeet_of_meets apply (by decide))⟩

/-- A limit of 4294968 s on a 32-bit target, and a touch 2^32 ms into
the session. -/
def wrappedRun : List Action :=
  [.check, .pass (Duration.fromMillis 4294967296), .touch,
    .pass (Duration.fromMillis 704), .check]

/-- A limit of 18446744073709552 s, which is past 64 bits of
milliseconds, and a touch in the first second. -/
def hugeRun : List Action :=
  [.check, .pass (Duration.fromMillis 100), .touch,
    .pass (Duration.fromMillis 284), .check,
    .pass (Duration.fromMillis 100), .check]

/-- The guard resolves 704 ms behind a touch whose stored time has
wrapped, and 384 ms behind a touch where the limit has. -/
theorem idle_guard_fails :
    (∃ s, run apply wrappedRun (start .w32 (Duration.fromSecs 4294968) 0)
        = some s ∧ ¬ Sound s)
      ∧ ∃ s, run apply hugeRun
          (start .w64 (Duration.fromSecs 18446744073709552) 0) = some s
        ∧ ¬ Sound s := by
  refine ⟨⟨_, rfl, ?_⟩, ⟨_, rfl, ?_⟩⟩
  · intro h
    exact absurd (h _ rfl (Duration.fromMillis 4294967296) (by decide))
      (by decide)
  · intro h
    exact absurd (h _ rfl (Duration.fromMillis 100) (by decide)) (by decide)

end Wrtg.Activity
