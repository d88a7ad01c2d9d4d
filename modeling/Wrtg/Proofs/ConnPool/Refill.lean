/-
What a `refill_one` leaves in its slot (`conn_pool.rs`).

`refill_one` counts what the slot has, the expired connections with the
others, and makes up the rest; `fill` drops the expired ones on the way.
`ToppingUp` is the slot meanwhile: what is left of the connections
counted, and one new connection for each attempt made. The count is full
in the end exactly when none of those counted has expired by then
(`refill_one_full_iff`).
-/
import Wrtg.Proofs.ConnPool.Slots
import Wrtg.Proofs.ConnPool.Steps
import Wrtg.Lib.Run

namespace Wrtg.ConnPool

open Lib

variable {p : Pool} {s s' : State} {i : Nat} {owner : Owner} {key : Key}
  {hint : Text} {had : List Pooled} {t₀ count : Nat}

-- ================================================= alone with the slot

/-- The connections slot `key` holds. -/
def State.conns (s : State) (key : Key) : List Pooled :=
  ((s.slots.lookup key).map Slot.conns).getD []

/-- A connection within its time. -/
def Pool.fresh (p : Pool) (now : Nat) (c : Pooled) : Bool :=
  decide (now - c.created ≤ p.ttl)

/-- The task that takes the step. -/
def Action.task : Action → Option Nat
  | .tick i _ => some i
  | .lock i _ => some i
  | .connect i => some i
  | .connected i _ => some i
  | .close i => some i
  | _ => none

/-- Task `i` is not at `next` yet, its dials succeed, and no other task
touches slot `key`. -/
def Alone (p : Pool) (i : Nat) (key : Key) (next : Task) (s : State)
    (a : Action) : Prop :=
  s.tasks[i]? ≠ some next ∧ a ≠ .connected i none
    ∧ (a.task = some i ∨ (apply p a s).map (fun s' => s'.slots.lookup key)
        = some (s.slots.lookup key))

instance (p : Pool) (i : Nat) (key : Key) (next : Task) (s : State)
    (a : Action) : Decidable (Alone p i key next s a) :=
  inferInstanceAs (Decidable (_ ∧ _ ∧ (_ ∨ _)))

/-- Task `i` runs a `refill_one` from its start to its return, alone with
its slot, and in less than the pool's `ttl`. -/
structure RefillRun (p : Pool) (i : Nat) (owner : Owner) (key : Key)
    (hint : Text) (as : List Action) (s s' : State) : Prop where
  ran : run (apply p) as s = some s'
  starts : s.tasks[i]? = some (.refilling owner key hint)
  returns : s'.tasks[i]? = some owner.next
  alone : StepsMeet (apply p) (Alone p i key owner.next) as s
  capacity : (s.conns key).length ≤ p.size
  soon : s'.now < s.now + p.ttl

/-- The slot is full, and nothing in it has expired. -/
def Full (p : Pool) (key : Key) (s : State) : Prop :=
  (s.conns key).length = p.size
    ∧ ∀ c ∈ s.conns key, p.fresh s.now c = true

-- =========================================================== filling

/-- The task is in the loop of `fill`, with `count` attempts to go. -/
inductive Filling (owner : Owner) (key : Key) : Nat → Task → Prop where
  | returned : Filling owner key 0 owner.next
  | connecting (hint : Text) (count : Nat) :
      Filling owner key (count + 1) (.connecting owner key hint count)
  | dialling (hint : Text) (count : Nat) :
      Filling owner key (count + 1) (.dialling owner key hint count)
  | filling (hint : Text) (count ws : Nat) (label : Text) :
      Filling owner key (count + 1) (.filling owner key hint count ws label)
  | closing (conns : List Nat) {count : Nat} {next : Task}
      (h : Filling owner key count next) :
      Filling owner key count (.closing conns next)

theorem filling_fill (owner : Owner) (key : Key) (hint : Text)
    (count : Nat) : Filling owner key count (fill owner key hint count) := by
  cases count with
  | zero => exact .returned
  | succ count => exact .connecting hint count

theorem Filling.closeThen {next : Task} (h : Filling owner key count next)
    (conns : List Nat) : Filling owner key count (closeThen conns next) := by
  cases conns with
  | nil => exact h
  | cons ws conns => exact .closing _ h

/-- Behind a `refill_one` there is an end, a pause, or the `refill_one` of
another owner. -/
theorem next_cases (owner : Owner) :
    owner.next = .done ∨ owner.next = .waiting
      ∨ ∃ owner' key, owner.next = .refilling owner' key []
          ∧ owner' ≠ owner := by
  cases owner with
  | scheduled => exact .inl rfl
  | warmup rest =>
      cases rest with
      | nil => exact .inl rfl
      | cons key rest =>
          refine .inr (.inr ⟨.warmup rest, key, rfl, ?_⟩)
          intro h
          have hlen := congrArg List.length (Owner.warmup.inj h)
          rw [List.length_cons] at hlen
          omega
  | sweep start rest =>
      cases rest with
      | nil => exact .inr (.inl rfl)
      | cons key rest =>
          refine .inr (.inr ⟨.sweep start rest, key, rfl, ?_⟩)
          intro h
          have hlen := congrArg List.length (Owner.sweep.inj h).2
          rw [List.length_cons] at hlen
          omega

theorem next_ne_refilling (owner : Owner) (key : Key) (hint : Text) :
    owner.next ≠ .refilling owner key hint := by
  intro h
  obtain hn | hn | ⟨owner', key', hn, hne⟩ := next_cases owner
  · rw [hn] at h
    cases h
  · rw [hn] at h
    cases h
  · rw [hn] at h
    exact hne (Task.refilling.inj h).1

/-- The loop has returned once its attempts are used up. -/
theorem Filling.next (h : Filling owner key count owner.next) :
    count = 0 := by
  generalize hn : owner.next = t at h
  cases h with
  | returned => rfl
  | _ =>
      obtain h | h | ⟨_, _, h, -⟩ := next_cases owner <;> rw [h] at hn <;>
        cases hn

/-- The slot had these connections at `t₀`, and is to get `count`
more. -/
def ToppingUp (p : Pool) (key : Key) (had : List Pooled) (t₀ count : Nat)
    (s : State) : Prop :=
  ∃ old new, s.conns key = old ++ new ∧ old.Sublist had
    ∧ (had.filter (p.fresh s.now)).Sublist old
    ∧ count + new.length + had.length = p.size
    ∧ ∀ c ∈ new, t₀ ≤ c.created

/-- Where the `refill_one` stands. -/
def Phase (p : Pool) (i : Nat) (owner : Owner) (key : Key)
    (had : List Pooled) (t₀ : Nat) (s : State) : Prop :=
  (∃ hint, s.tasks[i]? = some (.refilling owner key hint)
      ∧ s.conns key = had)
    ∨ ∃ count t, s.tasks[i]? = some t ∧ Filling owner key count t
        ∧ ToppingUp p key had t₀ count s

-- ====================================================== small lemmas

theorem fresh_mono {now now' : Nat} (hle : now ≤ now') {c : Pooled}
    (h : p.fresh now' c = true) : p.fresh now c = true := by
  unfold Pool.fresh at h ⊢
  rw [decide_eq_true_eq] at h ⊢
  omega

/-- A connection made since `t₀` is fresh for less than `ttl`. -/
theorem fresh_of_new {now : Nat} {c : Pooled} (hc : t₀ ≤ c.created)
    (h : now < t₀ + p.ttl) : p.fresh now c = true := by
  unfold Pool.fresh
  rw [decide_eq_true_eq]
  omega

theorem conns_orDefault (s : State) (key : Key) :
    (slotOrDefault s.slots key s.now).conns = s.conns key := by
  unfold slotOrDefault State.conns
  cases s.slots.lookup key <;> rfl

theorem conns_insert {slots : Slots} {slot : Slot}
    (h : s.slots = slots.insert key slot) : s.conns key = slot.conns := by
  unfold State.conns
  rw [h, AList.lookup_insert]
  rfl

theorem conns_congr (h : s'.slots.lookup key = s.slots.lookup key) :
    s'.conns key = s.conns key := by
  unfold State.conns
  rw [h]

theorem ToppingUp.frame (h : ToppingUp p key had t₀ count s)
    (hconns : s'.conns key = s.conns key) (hle : s.now ≤ s'.now) :
    ToppingUp p key had t₀ count s' := by
  obtain ⟨old, new, heq, hold, hkept, hcount, hnew⟩ := h
  refine ⟨old, new, hconns.trans heq, hold, ?_, hcount, hnew⟩
  refine List.Sublist.trans ?_ hkept
  exact List.monotone_filter_right had fun c => fresh_mono hle

/-- A new connection is put in, behind those still fresh. -/
theorem ToppingUp.pushed (h : ToppingUp p key had t₀ (count + 1) s)
    (hlt : s.now < t₀ + p.ttl) (hle : t₀ ≤ s.now) {ws : Nat} {label : Text}
    {r : (Bool × List Pooled) × Slots}
    (hr : fillLocked p key ws label s.now s.slots = r)
    (hs' : s'.slots = r.2) (hnow : s'.now = s.now) :
    r.1.1 = false ∧ ToppingUp p key had t₀ count s' := by
  obtain ⟨old, new, heq, hold, hkept, hcount, hnew⟩ := h
  obtain ⟨fresh, expired, htake, hfill⟩ :=
    fillLocked_eq p key ws label s.now s.slots
  have hfresh : fresh = old.filter (p.fresh s.now) ++ new := by
    rw [conns_orDefault, heq, takeExpired_eq, Prod.mk.injEq,
      List.filter_append] at htake
    rw [← htake.1]
    congr 1
    exact List.filter_eq_self.mpr fun c hc => fresh_of_new (hnew c hc) hlt
  have hroom : fresh.length < p.size := by
    have hold := hold.length_le
    have hfilter := List.length_filter_le (p.fresh s.now) old
    rw [hfresh, List.length_append]
    omega
  rw [if_neg (by omega)] at hfill
  rw [hfill] at hr
  subst hr
  refine ⟨rfl, old.filter (p.fresh s.now), new ++ [⟨ws, s.now, label⟩],
    ?_, ?_, ?_, ?_, ?_⟩
  · rw [conns_insert hs', hfresh, List.append_assoc]
  · exact List.filter_sublist.trans hold
  · rw [hnow]
    have hkept := hkept.filter (p.fresh s.now)
    rwa [List.filter_filter, funext fun c => Bool.and_self _] at hkept
  · rw [List.length_append]
    simp only [List.length_cons, List.length_nil]
    omega
  · intro c hc
    rw [List.mem_append, List.mem_singleton] at hc
    rcases hc with hc | rfl
    · exact hnew c hc
    · exact hle

-- ============================================================ one step

theorem TaskStep.task {a : Action} {t t' : Task} {s₁ : State}
    (h : TaskStep p s i a t s₁ t') : a.task = some i := by
  cases h <;> rfl

theorem apply_now_le {a : Action} (h : apply p a s = some s') :
    s.now ≤ s'.now := by
  cases apply_cases h with
  | advance d => exact Nat.le_add_right ..
  | goes ht hgo => exact hgo.frame.2.symm ▸ Nat.le_refl _
  | _ => exact Nat.le_refl _

/-- A step of no task, or of another, leaves task `i` where it stands. -/
theorem apply_tasks_ne {a : Action} {t : Task} (ht : s.tasks[i]? = some t)
    (ha : a.task ≠ some i) (h : apply p a s = some s') :
    s'.tasks[i]? = some t := by
  have hspawn : ∀ u, (s.spawn u).tasks[i]? = some t := by
    intro u
    obtain ⟨hlt, -⟩ := List.getElem?_eq_some_iff.mp ht
    show (s.tasks ++ [u])[i]? = _
    rw [List.getElem?_append_left hlt]
    exact ht
  cases apply_cases h with
  | advance d => exact ht
  | idle => exact ht
  | notServed key => exact hspawn _
  | acquire key => exact hspawn _
  | scheduleRefill key hint => exact hspawn _
  | warmup seeds => exact hspawn _
  | @goes _ j _ _ s₁ hj hgo =>
      have hne : j ≠ i := by
        intro h
        subst h
        exact ha hgo.task
      show (s₁.tasks.set j _)[i]? = _
      rw [hgo.frame.1, List.getElem?_set_ne hne]
      exact ht

theorem goes_tasks {s₁ : State} {t t' : Task} (ht : s.tasks[i]? = some t)
    (htasks : s₁.tasks = s.tasks) : (s₁.goes i t').tasks[i]? = some t' := by
  obtain ⟨hlt, -⟩ := List.getElem?_eq_some_iff.mp ht
  show (s₁.tasks.set i t')[i]? = _
  rw [htasks, List.getElem?_set_self hlt]

/-- A step of the task itself, from its start or in the loop. -/
theorem Phase.taskStep {a : Action} {t t' : Task} {s₁ : State}
    (h : Phase p i owner key had t₀ s) (ht : s.tasks[i]? = some t)
    (hout : t ≠ owner.next) (hdial : a ≠ .connected i none)
    (hcap : had.length ≤ p.size) (hlt : s.now < t₀ + p.ttl)
    (hle : t₀ ≤ s.now) (hstep : TaskStep p s i a t s₁ t') :
    Phase p i owner key had t₀ (s₁.goes i t') := by
  have htasks : (s₁.goes i t').tasks[i]? = some t' :=
    goes_tasks ht hstep.frame.1
  rcases h with ⟨hint, hr, hconns⟩ | ⟨count, u, hu, hfill, htop⟩
  · rw [ht] at hr
    cases hr
    cases hstep with
    | refill hr =>
        cases hr
        rw [conns_orDefault, hconns] at htasks ⊢
        refine .inr ⟨_, _, htasks, filling_fill .., had, [], ?_,
          List.Sublist.refl had, List.filter_sublist, ?_, nofun⟩
        · rw [List.append_nil, conns_insert (s := State.goes _ i _) rfl]
        · rw [List.length_nil]
          omega
  · rw [ht] at hu
    cases hu
    cases hfill with
    | returned => exact absurd rfl hout
    | connecting hint count =>
        cases hstep with
        | connect =>
            exact .inr ⟨_, _, htasks, .dialling hint count,
              htop.frame rfl (Nat.le_refl _)⟩
    | dialling hint count =>
        cases hstep with
        | refused => exact absurd rfl hdial
        | connected =>
            exact .inr ⟨_, _, htasks, .filling hint count _ _,
              htop.frame rfl (Nat.le_refl _)⟩
    | filling hint count ws label =>
        cases hstep with
        | fillSpare hr =>
            have hpush := htop.pushed hlt hle hr
              (rfl : ({ s with slots := _ } : State).slots = _) rfl
            cases hpush.1
        | fillPushed hr =>
            have hpush := htop.pushed hlt hle hr
              (rfl : ({ s with slots := _ } : State).slots = _) rfl
            exact .inr ⟨_, _, htasks, (filling_fill ..).closeThen _,
              hpush.2.frame rfl (Nat.le_refl _)⟩
    | closing conns hnext =>
        cases hstep with
        | close =>
            exact .inr ⟨_, _, htasks, hnext.closeThen _,
              htop.frame rfl (Nat.le_refl _)⟩

/-- A step of the run, while the time lasts. -/
theorem Phase.step {a : Action} (h : Phase p i owner key had t₀ s)
    (halone : Alone p i key owner.next s a) (hcap : had.length ≤ p.size)
    (hlt : s.now < t₀ + p.ttl) (hle : t₀ ≤ s.now)
    (hstep : apply p a s = some s') : Phase p i owner key had t₀ s' := by
  obtain ⟨hout, hdial, hothers⟩ := halone
  have hnow := apply_now_le hstep
  -- where neither the task nor the slot moves, nothing does
  have hframe : (∀ t, s.tasks[i]? = some t → s'.tasks[i]? = some t) →
      s'.conns key = s.conns key → Phase p i owner key had t₀ s' := by
    intro htasks hconns
    rcases h with ⟨hint, hr, hhad⟩ | ⟨count, t, ht, hfill, htop⟩
    · exact .inl ⟨hint, htasks _ hr, hconns.trans hhad⟩
    · exact .inr ⟨count, t, htasks t ht, hfill, htop.frame hconns hnow⟩
  by_cases ha : a.task = some i
  · cases apply_cases hstep with
    | @goes _ j t t' s₁ ht hgo =>
        have hj : j = i := Option.some.inj (hgo.task.symm.trans ha)
        subst hj
        refine h.taskStep ht ?_ hdial hcap hlt hle hgo
        intro h
        subst h
        exact hout ht
    | idle => exact h
    | _ => cases ha
  · obtain hothers := hothers.resolve_left ha
    rw [hstep, Option.map_some, Option.some.injEq] at hothers
    exact hframe (fun t ht => apply_tasks_ne ht ha hstep)
      (conns_congr hothers)

-- ============================================================= the run

/-- A run that goes wrong nowhere is, when it ends, done with its loop. -/
theorem RefillRun.toppedUp {as : List Action}
    (h : RefillRun p i owner key hint as s s') :
    ToppingUp p key (s.conns key) s.now 0 s' := by
  have hphase : s.now ≤ s'.now ∧ (s'.now < s.now + p.ttl →
      Phase p i owner key (s.conns key) s.now s') := by
    refine run_invariant (apply p) (P := fun t => s.now ≤ t.now
      ∧ (t.now < s.now + p.ttl → Phase p i owner key (s.conns key) s.now t))
      h.ran h.alone ⟨Nat.le_refl _, fun _ => .inl ⟨hint, h.starts, rfl⟩⟩ ?_
    intro t a t' ⟨hle, ht⟩ halone hstep
    have hnow := apply_now_le hstep
    refine ⟨Nat.le_trans hle hnow, ?_⟩
    intro hlt
    have hlt : t.now < s.now + p.ttl := by omega
    exact (ht hlt).step halone h.capacity hlt hle hstep
  rcases hphase.2 h.soon with ⟨hint, hr, -⟩ | ⟨count, t, ht, hfill, htop⟩
  · exact absurd (Option.some.inj (h.returns.symm.trans hr))
      (next_ne_refilling owner key hint)
  · cases Option.some.inj (h.returns.symm.trans ht)
    exact hfill.next ▸ htop

/-- A `refill_one` alone with its slot leaves it full exactly when none
of the connections it found there has expired when it returns. -/
theorem refill_one_full_iff {as : List Action}
    (h : RefillRun p i owner key hint as s s') :
    Full p key s' ↔ ∀ c ∈ s.conns key, p.fresh s'.now c = true := by
  obtain ⟨old, new, heq, hold, hkept, hcount, hnew⟩ := h.toppedUp
  have hnew : ∀ c ∈ new, p.fresh s'.now c = true :=
    fun c hc => fresh_of_new (hnew c hc) h.soon
  constructor
  · rintro ⟨hlen, hfresh⟩ c hc
    rw [heq, List.length_append] at hlen
    have hall : old = s.conns key := hold.eq_of_length (by omega)
    refine hfresh c ?_
    rw [heq, hall]
    exact List.mem_append_left new hc
  · intro hfresh
    rw [List.filter_eq_self.mpr hfresh] at hkept
    have hall : old = s.conns key := hold.antisymm hkept
    refine ⟨?_, ?_⟩
    · rw [heq, hall, List.length_append]
      omega
    · intro c hc
      rw [heq, hall, List.mem_append] at hc
      exact hc.elim (hfresh c) (hnew c)

/-- Two connections a slot. -/
def samplePair : Pool where
  size := 2
  ttl := Duration.fromSecs 120
  servesMedia := true

/-- A session's refill of DC 2 gets one connection of two, and another
session ends `secs` later. -/
def sampleEnds (secs : Nat) : List Action :=
  [.scheduleRefill (2, false) [], .lock 1 [], .connect 1,
    .connected 1 (some []), .lock 1 [], .connect 1, .connected 1 none,
    .advance (Duration.fromSecs secs), .scheduleRefill (2, false) []]

/-- The state this leads to. -/
def sampleEnded (secs : Nat) : State where
  now := Duration.fromSecs secs
  slots := AList.singleton (2, false)
    { conns := [{ ws := 0, created := 0, label := [] }], lastUsed := 0 }
  tasks := [.waiting, .done, .refilling .scheduled (2, false) []]
  established := [(2, false)]
  closed := []
  entered := [(0, 0)]
  swept := ∅

/-- The refill behind it, whose dial takes a second. -/
def sampleTopUp : List Action :=
  [.lock 2 [], .connect 2, .advance (Duration.fromSecs 1),
    .connected 2 (some []), .lock 2 []]

private theorem sampleTopUp_run :
    (run (apply samplePair) sampleTopUp (sampleEnded 10)).isSome = true := by
  decide +kernel

theorem refill_one_full_sample :
    ∃ s', run (apply samplePair) sampleTopUp (sampleEnded 10) = some s'
      ∧ Full samplePair (2, false) s' := by
  have hran := (Option.some_get sampleTopUp_run).symm
  refine ⟨_, hran, (refill_one_full_iff (⟨hran, rfl, ?_, ?_, ?_, ?_⟩ :
    RefillRun samplePair 2 .scheduled (2, false) [] sampleTopUp _ _)).mpr ?_⟩
  · decide +kernel
  · exact stepsMeet_of_meets _ (by decide +kernel)
  · decide +kernel
  · decide +kernel
  · decide +kernel

private theorem sampleLate_run :
    (run (apply samplePair) (sampleTopUp ++ [.close 2])
      (sampleEnded 121)).isSome = true := by
  decide +kernel

/-- After 121 s the one connection counted has expired, and the new one
is all the slot has. -/
theorem refill_one_not_full :
    run (apply samplePair) (sampleEnds 121) (start 0)
        = some (sampleEnded 121)
      ∧ ∃ s', RefillRun samplePair 2 .scheduled (2, false) []
          (sampleTopUp ++ [.close 2]) (sampleEnded 121) s'
        ∧ (s'.conns (2, false)).length = 1
        ∧ ¬ Full samplePair (2, false) s' := by
  have hran := (Option.some_get sampleLate_run).symm
  have hone : (((run (apply samplePair) (sampleTopUp ++ [.close 2])
      (sampleEnded 121)).get sampleLate_run).conns (2, false)).length = 1 := by
    decide +kernel
  refine ⟨rfl, _, ⟨hran, rfl, ?_, ?_, ?_, ?_⟩, hone, ?_⟩
  · decide +kernel
  · exact stepsMeet_of_meets _ (by decide +kernel)
  · decide +kernel
  · decide +kernel
  · intro h
    obtain ⟨hlen, -⟩ := h
    rw [hone] at hlen
    cases hlen

end Wrtg.ConnPool
