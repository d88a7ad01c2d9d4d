/-
When an idle slot stops being dialled (`conn_pool.rs`).

Once the sessions leave a slot alone, nobody but the refill task itself
stamps its `last_used`, so a sweep finds it active only within
`SLOT_IDLE_AFTER` of the last use or of an earlier sweep's refill of it.
Where no late sweep falls into such a window (`SweepSpaced`), no late
sweep dials the slot; where one does, the sweep's refill is the next
stamp, and the slot never becomes idle.

# Sections

* the refill a task is at
* what holds in every reachable state
* a slot the sessions have left
* the run
-/
import Wrtg.Lib.Run
import Wrtg.Proofs.ConnPool.Slots
import Wrtg.Proofs.ConnPool.Steps

namespace Wrtg.ConnPool

open Lib

variable {p : Pool} {s s' : State} {k : Key}

-- =============================================== the refill a task is at

/-- The slots a refill goes on to. -/
def Owner.rest : Owner → List Key
  | .scheduled => []
  | .warmup rest => rest
  | .sweep _ rest => rest

/-- When the sweep of a refill started, if it is one of a sweep. -/
def Owner.start : Owner → Option Nat
  | .sweep start _ => some start
  | _ => none

/-- The refill a task is at: for whom, and of which slot. -/
def Task.job : Task → Option (Owner × Key)
  | .refilling owner key _ => some (owner, key)
  | .connecting owner key _ _ => some (owner, key)
  | .dialling owner key _ _ => some (owner, key)
  | .filling owner key _ _ _ _ => some (owner, key)
  | .closing _ next => next.job
  | _ => none

/-- The slot a task is inside `fill` for. -/
def Task.fillKey : Task → Option Key
  | .connecting _ key _ _ => some key
  | .dialling _ key _ _ => some key
  | .filling _ key _ _ _ _ => some key
  | .closing _ next => next.fillKey
  | _ => none

/-- The slot a task is about to take a connection from. -/
def Task.acquireKey : Task → Option Key
  | .acquiring key => some key
  | .closing _ next => next.acquireKey
  | _ => none

theorem job_closeThen (conns : List Nat) (next : Task) :
    (closeThen conns next).job = next.job := by
  cases conns <;> rfl

theorem fillKey_closeThen (conns : List Nat) (next : Task) :
    (closeThen conns next).fillKey = next.fillKey := by
  cases conns <;> rfl

theorem acquireKey_closeThen (conns : List Nat) (next : Task) :
    (closeThen conns next).acquireKey = next.acquireKey := by
  cases conns <;> rfl

theorem acquireKey_next (owner : Owner) : owner.next.acquireKey = none := by
  cases owner with
  | scheduled => rfl
  | warmup rest => cases rest <;> rfl
  | sweep start rest => cases rest <;> rfl

theorem acquireKey_fill (owner : Owner) (key : Key) (hint : Text)
    (count : Nat) : (fill owner key hint count).acquireKey = none := by
  cases count with
  | zero => exact acquireKey_next owner
  | succ count => rfl

theorem fillKey_next (owner : Owner) : owner.next.fillKey = none := by
  cases owner with
  | scheduled => rfl
  | warmup rest => cases rest <;> rfl
  | sweep start rest => cases rest <;> rfl

theorem fillKey_fill {owner : Owner} {key key' : Key} {hint : Text}
    {count : Nat} (h : (fill owner key hint count).fillKey = some key') :
    key' = key := by
  cases count with
  | zero =>
      have h : owner.next.fillKey = some key' := h
      rw [fillKey_next] at h
      cases h
  | succ count =>
      cases h
      rfl

/-- A refill that another one leads to: for the same sweep, over no
other slots. -/
structure Inherits (j j' : Owner × Key) : Prop where
  slots : j'.2 :: j'.1.rest ⊆ j.2 :: j.1.rest
  start : j'.1.start = j.1.start

theorem Inherits.refl (j : Owner × Key) : Inherits j j :=
  ⟨fun _ h => h, rfl⟩

theorem next_job {owner : Owner} {j : Owner × Key}
    (h : owner.next.job = some j) :
    owner.rest = j.2 :: j.1.rest ∧ j.1.start = owner.start := by
  cases owner with
  | scheduled => cases h
  | warmup rest =>
      cases rest with
      | nil => cases h
      | cons key rest =>
          cases h
          exact ⟨rfl, rfl⟩
  | sweep start rest =>
      cases rest with
      | nil => cases h
      | cons key rest =>
          cases h
          exact ⟨rfl, rfl⟩

theorem inherits_next {owner : Owner} {j : Owner × Key} (key : Key)
    (h : owner.next.job = some j) : Inherits (owner, key) j := by
  obtain ⟨hrest, hstart⟩ := next_job h
  refine ⟨?_, hstart⟩
  rw [← hrest]
  exact List.subset_cons_self key owner.rest

theorem inherits_fill {owner : Owner} {key : Key} {hint : Text}
    {count : Nat} {j : Owner × Key}
    (h : (fill owner key hint count).job = some j) :
    Inherits (owner, key) j := by
  cases count with
  | zero => exact inherits_next key h
  | succ count =>
      cases h
      exact .refl _

/-- A task that goes on is at a refill that the one before leads to, or
has begun a sweep. -/
theorem TaskStep.inherits {a : Action} {i : Nat} {t t' : Task} {s₁ : State}
    (h : TaskStep p s i a t s₁ t') {j : Owner × Key} (hj : t'.job = some j) :
    (∃ j₀, t.job = some j₀ ∧ Inherits j₀ j)
      ∨ ∃ order, a = .lock i order ∧ t = .sweeping
          ∧ j.1.start = some s.now
          ∧ (activeLocked p s.now order s.slots).1.1 = j.2 :: j.1.rest := by
  cases h with
  | tick => cases hj
  | acquireNone => cases hj
  | acquire =>
      rw [job_closeThen] at hj
      cases hj
  | refill => exact .inl ⟨_, rfl, inherits_fill hj⟩
  | fillSpare =>
      rw [job_closeThen] at hj
      exact .inl ⟨_, rfl, inherits_next _ hj⟩
  | fillPushed =>
      rw [job_closeThen] at hj
      exact .inl ⟨_, rfl, inherits_fill hj⟩
  | @sweep order active expired slots hr =>
      rw [job_closeThen] at hj
      obtain ⟨hrest, hstart⟩ := next_job hj
      exact .inr ⟨order, rfl, rfl, hstart, by rw [hr]; exact hrest⟩
  | connect => exact .inl ⟨j, hj, .refl j⟩
  | refused => exact .inl ⟨_, rfl, inherits_fill hj⟩
  | connected => exact .inl ⟨j, hj, .refl j⟩
  | close =>
      rw [job_closeThen] at hj
      exact .inl ⟨j, hj, .refl j⟩

/-- The task is inside `fill` for a slot it was inside `fill` for, or has
put on the map. -/
theorem TaskStep.fills {a : Action} {i : Nat} {t t' : Task} {s₁ : State}
    (h : TaskStep p s i a t s₁ t') {key : Key} (hkey : t'.fillKey = some key) :
    t.fillKey = some key ∨ (used s₁.slots key).isSome = true := by
  cases h with
  | tick => cases hkey
  | acquireNone => cases hkey
  | acquire =>
      rw [fillKey_closeThen] at hkey
      cases hkey
  | @refill _ owner key₀ hint present slots hr =>
      cases fillKey_fill hkey
      have hused := refillLocked_used key s.now s.slots
      rw [hr] at hused
      exact .inr (by rw [hused]; rfl)
  | fillSpare =>
      rw [fillKey_closeThen, fillKey_next] at hkey
      cases hkey
  | fillPushed =>
      rw [fillKey_closeThen] at hkey
      exact .inl (congrArg some (fillKey_fill hkey).symm)
  | sweep =>
      rw [fillKey_closeThen, fillKey_next] at hkey
      cases hkey
  | connect => exact .inl hkey
  | refused => exact .inl (congrArg some (fillKey_fill hkey).symm)
  | connected => exact .inl hkey
  | close =>
      rw [fillKey_closeThen] at hkey
      exact .inl hkey

theorem TaskStep.acquires {a : Action} {i : Nat} {t t' : Task} {s₁ : State}
    (h : TaskStep p s i a t s₁ t') {key : Key}
    (hkey : t'.acquireKey = some key) : t.acquireKey = some key := by
  cases h with
  | close =>
      rw [acquireKey_closeThen] at hkey
      exact hkey
  | _ =>
      simp only [acquireKey_closeThen, acquireKey_fill, acquireKey_next,
        Task.acquireKey] at hkey
      cases hkey

theorem TaskStep.touches {a : Action} {i : Nat} {t t' : Task} {s₁ : State}
    (h : TaskStep p s i a t s₁ t') : Touches s.now s.slots s₁.slots := by
  cases h with
  | acquire hr => exact acquireLocked_touches hr
  | @refill _ owner key hint present slots hr =>
      have h := refillLocked_touches key s.now s.slots
      rw [hr] at h
      exact h
  | @fillSpare _ owner key hint count ws label expired slots hr
  | @fillPushed _ owner key hint count ws label expired slots hr =>
      have h := fillLocked_touches p key ws label s.now s.slots
      rw [hr] at h
      exact h
  | @sweep order active expired slots hr =>
      intro k
      have h := activeLocked_used p s.now s.slots order k
      rw [hr] at h
      exact .inl h
  | _ => exact fun k => .inl rfl

/-- A task of the state behind the step is the one that went on, or was
there before. -/
theorem TaskStep.mem_tasks {a : Action} {i : Nat} {t t' u : Task}
    {s₁ : State} (h : TaskStep p s i a t s₁ t')
    (hu : u ∈ (s₁.goes i t').tasks) : u = t' ∨ u ∈ s.tasks := by
  have hu : u ∈ s₁.tasks.set i t' := hu
  rw [h.frame.1] at hu
  exact (List.mem_or_eq_of_mem_set hu).symm

-- ================================= what holds in every reachable state

/-- Nothing is stamped or started in the future, and a slot being filled
is on the map. -/
structure Sane (s : State) : Prop where
  stamps : ∀ key u, used s.slots key = some u → u ≤ s.now
  present : ∀ t ∈ s.tasks, ∀ key, t.fillKey = some key →
    (used s.slots key).isSome = true
  started : ∀ t ∈ s.tasks, ∀ j, t.job = some j →
    ∀ u, j.1.start = some u → u ≤ s.now

theorem sane_start (now : Nat) : Sane (start now) := by
  refine ⟨?_, ?_, ?_⟩
  · intro key u hu
    have hnone : used (start now).slots key = none := by
      show ((∅ : Slots).lookup key).map Slot.lastUsed = none
      rw [AList.lookup_empty]
      rfl
    rw [hnone] at hu
    cases hu
  · intro t ht key hkey
    cases List.mem_singleton.mp ht
    cases hkey
  · intro t ht j hj
    cases List.mem_singleton.mp ht
    cases hj

/-- A task that no sweep started, and that is not inside `fill`. -/
theorem Sane.spawn {t : Task} (h : Sane s) (hfill : t.fillKey = none)
    (hjob : ∀ j, t.job = some j → j.1.start = none) : Sane (s.spawn t) := by
  refine ⟨h.stamps, ?_, ?_⟩
  · intro u hu key hkey
    rcases List.mem_append.mp hu with hu | hu
    · exact h.present u hu key hkey
    · cases List.mem_singleton.mp hu
      rw [hfill] at hkey
      cases hkey
  · intro u hu j hj v hv
    rcases List.mem_append.mp hu with hu | hu
    · exact h.started u hu j hj v hv
    · cases List.mem_singleton.mp hu
      rw [hjob j hj] at hv
      cases hv

theorem Sane.goes {a : Action} {i : Nat} {t t' : Task} {s₁ : State}
    (h : Sane s) (ht : s.tasks[i]? = some t)
    (hstep : TaskStep p s i a t s₁ t') : Sane (s₁.goes i t') := by
  have hmem := List.mem_of_getElem? ht
  have htouch := hstep.touches
  have hgrow : ∀ key, (used s.slots key).isSome = true →
      (used s₁.slots key).isSome = true := by
    intro key hkey
    rcases htouch key with hk | hk <;> rw [hk]
    · exact hkey
    · rfl
  refine ⟨?_, ?_, ?_⟩
  · intro key u hu
    show u ≤ s₁.now
    rw [hstep.frame.2]
    have hu : used s₁.slots key = some u := hu
    rcases htouch key with hk | hk <;> rw [hk] at hu
    · exact h.stamps key u hu
    · cases hu
      exact Nat.le_refl _
  · intro v hv key hkey
    show (used s₁.slots key).isSome = true
    rcases hstep.mem_tasks hv with rfl | hv
    · rcases hstep.fills hkey with hkey | hkey
      · exact hgrow key (h.present t hmem key hkey)
      · exact hkey
    · exact hgrow key (h.present v hv key hkey)
  · intro v hv j hj u hu
    show u ≤ s₁.now
    rw [hstep.frame.2]
    rcases hstep.mem_tasks hv with rfl | hv
    · rcases hstep.inherits hj with
        ⟨j₀, hj₀, hinh⟩ | ⟨order, -, -, hstart, -⟩
      · exact h.started t hmem j₀ hj₀ u (hinh.start ▸ hu)
      · rw [hstart] at hu
        cases hu
        exact Nat.le_refl _
    · exact h.started v hv j hj u hu

theorem Sane.step {a : Action} (h : Sane s)
    (hstep : apply p a s = some s') : Sane s' := by
  cases apply_cases hstep with
  | advance d =>
      exact ⟨fun key u hu => Nat.le_add_right_of_le (h.stamps key u hu),
        h.present,
        fun t ht j hj u hu => Nat.le_add_right_of_le (h.started t ht j hj u hu)⟩
  | idle => exact h
  | notServed key => exact h.spawn rfl nofun
  | acquire key => exact h.spawn rfl nofun
  | scheduleRefill key hint =>
      refine h.spawn rfl ?_
      intro j hj
      cases hj
      rfl
  | warmup seeds =>
      exact h.spawn (fillKey_next _) fun j hj => (next_job hj).2
  | goes ht hgo => exact h.goes ht hgo

theorem reachable_sane {now : Nat} {as : List Action}
    (h : run (apply p) as (start now) = some s) : Sane s :=
  run_invariant (apply p) (C := fun _ _ => True) h
    (fun _ _ _ _ _ _ => trivial) (sane_start now)
    fun _ _ _ ht _ hstep => ht.step hstep

-- ======================================== a slot the sessions have left

/-- The task is not about to use slot `k`, nor does a session's or a
warm-up's refill of it lie ahead: only a sweep's may. -/
def Task.QuietOn (k : Key) (t : Task) : Prop :=
  t.acquireKey ≠ some k
    ∧ ∀ j ∈ t.job, k ∈ j.2 :: j.1.rest → j.1.start.isSome = true

instance (k : Key) (t : Task) : Decidable (t.QuietOn k) :=
  inferInstanceAs (Decidable (_ ∧ ∀ j ∈ t.job, _))

/-- No session calls `acquire` or `schedule_refill` for slot `k`, and
`warmup` does not run. -/
def NoUse (k : Key) : Action → Prop
  | .acquire key => key ≠ k
  | .scheduleRefill key _ => key ≠ k
  | .warmup _ => False
  | _ => True

instance (k : Key) : (a : Action) → Decidable (NoUse k a)
  | .acquire key => inferInstanceAs (Decidable (key ≠ k))
  | .scheduleRefill key _ => inferInstanceAs (Decidable (key ≠ k))
  | .warmup _ => isFalse id
  | .advance _ | .tick _ _ | .lock _ _ | .connect _ | .connected _ _
  | .close _ => isTrue trivial

/-- If a sweep starts later than `T`, it starts more than
`SLOT_IDLE_AFTER` behind the last refill of `k` by a sweep. -/
def SweepSpaced (k : Key) (T : Nat) (s : State) : Action → Prop
  | .lock i _ => s.tasks[i]? = some .sweeping → T < s.now →
      ∀ u ∈ s.swept.lookup k, SLOT_IDLE_AFTER < s.now - u
  | _ => True

instance (k : Key) (T : Nat) (s : State) :
    (a : Action) → Decidable (SweepSpaced k T s a)
  | .lock i _ => inferInstanceAs (Decidable (s.tasks[i]? = some .sweeping →
      T < s.now → ∀ u ∈ s.swept.lookup k, SLOT_IDLE_AFTER < s.now - u))
  | .advance _ | .acquire _ | .scheduleRefill _ _ | .warmup _ | .tick _ _
  | .connect _ | .connected _ _ | .close _ => isTrue trivial

/-- A connect attempt of the refill task for slot `k` belongs to a sweep
that started no later than `T`. -/
def NoLateConnect (k : Key) (T : Nat) (s : State) (a : Action) : Prop :=
  ∀ i owner hint count u, a = .connect i →
    s.tasks[i]? = some (.connecting owner k hint count) →
    owner.start = some u → u ≤ T

/-- Since `t₀`, only sweeps that started by `T` deal with slot `k`, and
what stamps the slot got are theirs. -/
structure Left (k : Key) (t₀ T : Nat) (s : State) : Prop where
  acquire : ∀ t ∈ s.tasks, t.acquireKey ≠ some k
  jobs : ∀ t ∈ s.tasks, ∀ j, t.job = some j → k ∈ j.2 :: j.1.rest →
    ∃ u, j.1.start = some u ∧ u ≤ T
  stamp : ∀ u, used s.slots k = some u →
    u ≤ t₀ ∨ s.swept.lookup k = some u

variable {t₀ T : Nat}

/-- A refill that is one of a sweep keeps the record of the sweeps. -/
theorem stamp_lookup {owner : Owner} {key : Key} {now : Nat}
    {swept : AList fun _ : Key => Nat} (h : owner.start.isSome = true) :
    (owner.stamp key now swept).lookup key = some now := by
  cases owner with
  | sweep start rest => exact AList.lookup_insert swept
  | _ => cases h

theorem stamp_lookup_ne {owner : Owner} {key : Key} {now : Nat}
    {swept : AList fun _ : Key => Nat} (h : k ≠ key) :
    (owner.stamp key now swept).lookup k = swept.lookup k := by
  cases owner with
  | sweep start rest => exact AList.lookup_insert_ne h
  | _ => rfl

/-- The stamp of the slot, behind a step of a task. -/
theorem Left.stamp_goes {a : Action} {i : Nat} {t t' : Task} {s₁ : State}
    (h : Left k t₀ T s) (hsane : Sane s) (ht : s.tasks[i]? = some t)
    (hstep : TaskStep p s i a t s₁ t') {u : Nat}
    (hu : used s₁.slots k = some u) :
    u ≤ t₀ ∨ s₁.swept.lookup k = some u := by
  have hmem := List.mem_of_getElem? ht
  cases hstep with
  | @acquire _ key conn expired slots hr =>
      have hne : k ≠ key := by
        intro h
        subst h
        exact h.acquire _ hmem rfl
      rw [acquireLocked_used_ne hr hne] at hu
      exact h.stamp u hu
  | @refill _ owner key hint present slots hr =>
      by_cases hk : k = key
      · subst hk
        have hused := refillLocked_used k s.now s.slots
        rw [hr] at hused
        rw [hused] at hu
        cases hu
        obtain ⟨start, hstart, -⟩ :=
          h.jobs _ hmem _ rfl (List.mem_cons_self ..)
        exact .inr (stamp_lookup (by rw [hstart]; rfl))
      · have hused := refillLocked_used_ne s.now s.slots hk
        rw [hr] at hused
        rw [hused] at hu
        exact (h.stamp u hu).imp id fun hs =>
          (stamp_lookup_ne hk).trans hs
  | @fillSpare _ owner key hint count ws label expired slots hr
  | @fillPushed _ owner key hint count ws label expired slots hr =>
      have hkey := hsane.present _ hmem key rfl
      have hused := fillLocked_used p ws label s.now k
        (Option.isSome_map.symm.trans hkey)
      rw [hr] at hused
      rw [hused] at hu
      exact h.stamp u hu
  | @sweep order active expired slots hr =>
      have hused := activeLocked_used p s.now s.slots order k
      rw [hr] at hused
      rw [hused] at hu
      exact h.stamp u hu
  | _ => exact h.stamp u hu

/-- A step of a task: a late sweep does not find the slot active. -/
theorem Left.goes {a : Action} {i : Nat} {t t' : Task} {s₁ : State}
    (h : Left k t₀ T s) (hsane : Sane s) (hT : t₀ + SLOT_IDLE_AFTER ≤ T)
    (hspaced : SweepSpaced k T s a) (ht : s.tasks[i]? = some t)
    (hstep : TaskStep p s i a t s₁ t') : Left k t₀ T (s₁.goes i t') := by
  have hmem := List.mem_of_getElem? ht
  refine ⟨?_, ?_, fun u hu =>
    h.stamp_goes hsane ht hstep hu⟩
  · intro v hv hacq
    rcases hstep.mem_tasks hv with rfl | hv
    · exact h.acquire t hmem (hstep.acquires hacq)
    · exact h.acquire v hv hacq
  · intro v hv j hj hk
    rcases hstep.mem_tasks hv with rfl | hv
    · rcases hstep.inherits hj with
        ⟨j₀, hj₀, hinh⟩ | ⟨order, rfl, rfl, hstart, hactive⟩
      · obtain ⟨u, hu, hle⟩ := h.jobs t hmem j₀ hj₀ (hinh.slots hk)
        exact ⟨u, hinh.start.trans hu, hle⟩
      · refine ⟨s.now, hstart, ?_⟩
        by_contra hlate
        have hlate : T < s.now := by omega
        rw [← hactive] at hk
        obtain ⟨u, hu, hidle⟩ := activeLocked_active hk
        rcases h.stamp u hu with hle | hswept
        · omega
        · have := hspaced ht hlate u hswept
          omega
    · exact h.jobs v hv j hj hk

/-- A new task that does not deal with the slot. -/
theorem Left.spawn {t : Task} (h : Left k t₀ T s)
    (hacq : t.acquireKey ≠ some k)
    (hjob : ∀ j, t.job = some j → k ∉ j.2 :: j.1.rest) :
    Left k t₀ T (s.spawn t) := by
  refine ⟨?_, ?_, h.stamp⟩
  · intro u hu
    rcases List.mem_append.mp hu with hu | hu
    · exact h.acquire u hu
    · cases List.mem_singleton.mp hu
      exact hacq
  · intro u hu j hj hk
    rcases List.mem_append.mp hu with hu | hu
    · exact h.jobs u hu j hj hk
    · cases List.mem_singleton.mp hu
      exact absurd hk (hjob j hj)

theorem Left.step {a : Action} (h : Left k t₀ T s) (hsane : Sane s)
    (hT : t₀ + SLOT_IDLE_AFTER ≤ T) (huse : NoUse k a)
    (hspaced : SweepSpaced k T s a) (hstep : apply p a s = some s') :
    Left k t₀ T s' := by
  cases apply_cases hstep with
  | advance d => exact ⟨h.acquire, h.jobs, h.stamp⟩
  | idle => exact h
  | notServed key => exact h.spawn nofun nofun
  | acquire key =>
      refine h.spawn ?_ nofun
      intro he
      cases he
      exact huse rfl
  | scheduleRefill key hint =>
      refine h.spawn nofun ?_
      intro j hj hk
      cases hj
      exact huse (List.mem_singleton.mp hk).symm
  | warmup seeds => exact huse.elim
  | goes ht hgo => exact h.goes hsane hT hspaced ht hgo

-- =============================================================== the run

/-- A reachable state in which nobody but sweeps deals with the slot. -/
theorem left_start (hsane : Sane s) (hT : s.now ≤ T)
    (hquiet : ∀ t ∈ s.tasks, t.QuietOn k) : Left k s.now T s := by
  refine ⟨fun t ht => (hquiet t ht).1, ?_,
    fun u hu => .inl (hsane.stamps k u hu)⟩
  intro t ht j hj hk
  obtain ⟨u, hu⟩ := Option.isSome_iff_exists.mp ((hquiet t ht).2 j hj hk)
  exact ⟨u, hu, Nat.le_trans (hsane.started t ht j hj u hu) hT⟩

/-- From the state on in which the sessions have left slot `k`, no sweep
that starts more than `SLOT_IDLE_AFTER` and `L` later dials it, if no
such sweep starts within `SLOT_IDLE_AFTER` of an earlier sweep's refill
of the slot. -/
theorem idle_slot_not_dialled (p : Pool) (now : Nat) (as₀ as : List Action)
    (s₀ : State) (k : Key) (L : Nat)
    (hreach : run (apply p) as₀ (start now) = some s₀)
    (hquiet : ∀ t ∈ s₀.tasks, t.QuietOn k)
    (huse : ∀ a ∈ as, NoUse k a)
    (hspaced : StepsMeet (apply p)
      (SweepSpaced k (s₀.now + SLOT_IDLE_AFTER + L)) as s₀) :
    StepsMeet (apply p) (NoLateConnect k (s₀.now + SLOT_IDLE_AFTER + L))
      as s₀ := by
  have hsane := reachable_sane hreach
  intro pre a post t has hrun
  subst has
  have hboth : Sane t
      ∧ Left k s₀.now (s₀.now + SLOT_IDLE_AFTER + L) t := by
    refine run_invariant (apply p) (C := fun s a => NoUse k a
        ∧ SweepSpaced k (s₀.now + SLOT_IDLE_AFTER + L) s a)
      (P := fun s => Sane s
        ∧ Left k s₀.now (s₀.now + SLOT_IDLE_AFTER + L) s) hrun ?_
      ⟨hsane, left_start hsane (by omega) hquiet⟩ ?_
    · intro pre' b post' u hpre hu
      refine ⟨huse b ?_, StepsMeet.prefix_of _ hspaced pre' b post' u hpre hu⟩
      rw [hpre]
      simp
    · intro u b u' hu hb hstep
      exact ⟨hu.1.step hstep,
        hu.2.step hu.1 (by omega) hb.1 hb.2 hstep⟩
  intro i owner hint count u ha ht hu
  obtain ⟨v, hv, hle⟩ := hboth.2.jobs _ (List.mem_of_getElem? ht) (owner, k)
    rfl (List.mem_cons_self ..)
  rw [hu] at hv
  cases hv
  exact hle

/-- A session's refill of DC 2, whose connect fails. -/
def sampleUse : List Action :=
  [.scheduleRefill (2, false) [], .lock 1 [], .connect 1, .connected 1 none]

/-- The state it leaves, at time 0. -/
def sampleLeft : State where
  now := 0
  slots := AList.singleton (2, false) { conns := [], lastUsed := 0 }
  tasks := [.waiting, .done]
  established := []
  closed := []
  entered := []
  swept := ∅

/-- A sweep that starts `secs` after the last one and finds the slot
active; its connect fails too. -/
def sampleSweep (secs : Nat) : List Action :=
  [.advance (Duration.fromSecs secs), .tick 0 true, .lock 0 [(2, false)],
    .lock 0 [], .connect 0, .connected 0 none]

/-- One sweep that still finds the slot active, and one that finds it
idle. -/
def sampleSpaced : List Action :=
  sampleSweep 500
    ++ [.advance (Duration.fromSecs 700), .tick 0 true, .lock 0 [(2, false)]]

theorem idle_slot_not_dialled_sample :
    StepsMeet (apply samplePool)
      (NoLateConnect (2, false) (0 + SLOT_IDLE_AFTER + 0)) sampleSpaced
      sampleLeft :=
  idle_slot_not_dialled samplePool 0 sampleUse sampleSpaced sampleLeft
    (2, false) 0 rfl (by decide +kernel) (by decide +kernel)
    (stepsMeet_of_meets _ (by decide +kernel))

/-- Fourteen sweeps 45 s apart, and a fifteenth up to its connect. -/
def sampleSweeps : List Action :=
  (List.replicate 14 (sampleSweep 45)).flatten ++ (sampleSweep 45).take 4

private theorem sampleSweeps_run :
    (run (apply samplePool) sampleSweeps sampleLeft).isSome = true := by
  decide +kernel

/-- The sweeps alone keep the slot active: 675 s after its last use, a
sweep dials it still. -/
theorem idle_slot_still_dialled :
    run (apply samplePool) sampleUse (start 0) = some sampleLeft
      ∧ (∀ t ∈ sampleLeft.tasks, t.QuietOn (2, false))
      ∧ (∀ a ∈ sampleSweeps ++ [.connect 0], NoUse (2, false) a)
      ∧ ¬ StepsMeet (apply samplePool)
          (NoLateConnect (2, false)
            (0 + SLOT_IDLE_AFTER + Duration.fromSecs 45))
          (sampleSweeps ++ [.connect 0]) sampleLeft := by
  refine ⟨rfl, by decide +kernel, by decide +kernel, ?_⟩
  intro h
  have hlate := h sampleSweeps (.connect 0) [] _ rfl
    (Option.some_get sampleSweeps_run).symm 0
    (.sweep (Duration.fromSecs 675) []) [] 0 (Duration.fromSecs 675) rfl
    (by decide +kernel) rfl
  exact absurd hlate (by decide)

end Wrtg.ConnPool
