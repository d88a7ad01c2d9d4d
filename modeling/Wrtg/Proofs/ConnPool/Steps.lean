/-
What a step of the pool's tasks can do (`conn_pool.rs`).

`Trans` lists the steps with what each does to the state, and
`apply_cases` is the inversion: every step is one of them. The
invariants of the pool are proved over this list.
-/
import Wrtg.ConnPool

namespace Wrtg.ConnPool

/-- Task `i` goes on: the action, the task before, the state but for the
task list, and the task behind. -/
inductive TaskStep (p : Pool) (s : State) (i : Nat) :
    Action → Task → State → Task → Prop where
  | tick : TaskStep p s i (.tick i true) .waiting s .sweeping
  | acquireNone {order : List Key} {key : Key}
      (h : acquireLocked p key s.now s.slots = none) :
      TaskStep p s i (.lock i order) (.acquiring key) s
        (.returned key s.now none)
  | acquire {order : List Key} {key : Key} {conn : Option Pooled}
      {expired : List Pooled} {slots : Slots}
      (h : acquireLocked p key s.now s.slots
        = some ((conn, expired), slots)) :
      TaskStep p s i (.lock i order) (.acquiring key) { s with slots }
        (closeThen (expired.map Pooled.ws) (.returned key s.now conn))
  | refill {order : List Key} {owner : Owner} {key : Key}
      {hint : Text} {present : Nat} {slots : Slots}
      (h : refillLocked key s.now s.slots = (present, slots)) :
      TaskStep p s i (.lock i order) (.refilling owner key hint)
        { s with slots, swept := owner.stamp key s.now s.swept }
        (fill owner key hint (p.size - present))
  | fillSpare {order : List Key} {owner : Owner} {key : Key}
      {hint : Text} {count ws : Nat} {label : Text} {expired : List Pooled}
      {slots : Slots}
      (h : fillLocked p key ws label s.now s.slots
        = ((true, expired), slots)) :
      TaskStep p s i (.lock i order) (.filling owner key hint count ws label)
        { s with slots }
        (closeThen (expired.map Pooled.ws ++ [ws]) owner.next)
  | fillPushed {order : List Key} {owner : Owner} {key : Key}
      {hint : Text} {count ws : Nat} {label : Text} {expired : List Pooled}
      {slots : Slots}
      (h : fillLocked p key ws label s.now s.slots
        = ((false, expired), slots)) :
      TaskStep p s i (.lock i order) (.filling owner key hint count ws label)
        { s with slots, entered := s.entered ++ [(ws, s.now)] }
        (closeThen (expired.map Pooled.ws) (fill owner key hint count))
  | sweep {order : List Key} {active : List Key}
      {expired : List Pooled} {slots : Slots}
      (h : activeLocked p s.now order s.slots
        = ((active, expired), slots)) :
      TaskStep p s i (.lock i order) .sweeping { s with slots }
        (closeThen (expired.map Pooled.ws) (Owner.sweep s.now active).next)
  | connect (owner : Owner) (key : Key) (hint : Text)
      (count : Nat) :
      TaskStep p s i (.connect i) (.connecting owner key hint count) s
        (.dialling owner key hint count)
  | refused (owner : Owner) (key : Key) (hint : Text)
      (count : Nat) :
      TaskStep p s i (.connected i none) (.dialling owner key hint count) s
        (fill owner key hint count)
  | connected (owner : Owner) (key : Key) (hint : Text)
      (count : Nat) (label : Text) :
      TaskStep p s i (.connected i (some label))
        (.dialling owner key hint count)
        { s with established := s.established ++ [key] }
        (.filling owner key hint count s.established.length label)
  | close (ws : Nat) (conns : List Nat) (next : Task) :
      TaskStep p s i (.close i) (.closing (ws :: conns) next)
        { s with closed := s.closed ++ [ws] } (closeThen conns next)

/-- One step of the system. -/
inductive Trans (p : Pool) (s : State) : Action → State → Prop where
  | advance (d : Nat) : Trans p s (.advance d) { s with now := s.now + d }
  | idle (a : Action) : Trans p s a s
  | notServed (key : Key) :
      Trans p s (.acquire key) (s.spawn (.returned key s.now none))
  | acquire (key : Key) : Trans p s (.acquire key) (s.spawn (.acquiring key))
  | scheduleRefill (key : Key) (hint : Text) :
      Trans p s (.scheduleRefill key hint)
        (s.spawn (.refilling .scheduled key hint))
  | warmup (seeds : List Key) :
      Trans p s (.warmup seeds) (s.spawn (Owner.warmup seeds).next)
  | goes {a : Action} {i : Nat} {t t' : Task} {s₁ : State}
      (ht : s.tasks[i]? = some t) (h : TaskStep p s i a t s₁ t') :
      Trans p s a (s₁.goes i t')

variable {p : Pool} {s s' : State}

/-- A task that goes on moves neither the clock nor the other tasks. -/
theorem TaskStep.frame {a : Action} {i : Nat} {t t' : Task} {s₁ : State}
    (h : TaskStep p s i a t s₁ t') :
    s₁.tasks = s.tasks ∧ s₁.now = s.now := by
  cases h <;> exact ⟨rfl, rfl⟩

theorem lockStep_cases {i : Nat} {order : List Key} {t : Task}
    (ht : s.tasks[i]? = some t)
    (h : lockStep p s i order t = some s') : Trans p s (.lock i order) s' := by
  cases t with
  | acquiring key =>
      simp only [lockStep] at h
      split at h
      · next hacq =>
          cases h
          exact .goes ht (.acquireNone hacq)
      · next hacq =>
          cases h
          exact .goes ht (.acquire hacq)
  | refilling owner key hint =>
      cases h
      exact .goes ht (.refill rfl)
  | filling owner key hint count ws label =>
      simp only [lockStep] at h
      rcases hr : fillLocked p key ws label s.now s.slots
        with ⟨⟨spare, expired⟩, slots⟩
      rw [hr] at h
      cases spare with
      | true =>
          cases h
          exact .goes ht (.fillSpare hr)
      | false =>
          cases h
          exact .goes ht (.fillPushed hr)
  | sweeping =>
      simp only [lockStep] at h
      split at h
      · cases h
        exact .goes ht (.sweep rfl)
      · cases h
  | waiting => cases h
  | returned key popped conn => cases h
  | connecting owner key hint count => cases h
  | dialling owner key hint count => cases h
  | closing conns next => cases h
  | done => cases h

theorem apply_cases {a : Action} (h : apply p a s = some s') :
    Trans p s a s' := by
  cases a with
  | advance d =>
      cases h
      exact .advance d
  | acquire key =>
      simp only [apply] at h
      split at h <;> cases h
      · exact .notServed key
      · exact .acquire key
  | scheduleRefill key hint =>
      simp only [apply] at h
      split at h <;> cases h
      · exact .idle _
      · exact .scheduleRefill key hint
  | warmup seeds =>
      cases h
      exact .warmup seeds
  | tick i enabled =>
      simp only [apply] at h
      split at h
      · next ht =>
          cases enabled <;> cases h
          · exact .idle _
          · exact .goes ht .tick
      · cases h
  | lock i order =>
      simp only [apply, Option.bind_eq_some_iff] at h
      obtain ⟨t, ht, h⟩ := h
      exact lockStep_cases ht h
  | connect i =>
      simp only [apply] at h
      split at h
      · next ht =>
          cases h
          exact .goes ht (.connect ..)
      · cases h
  | connected i result =>
      simp only [apply] at h
      split at h
      · next ht =>
          split at h <;> cases h
          · exact .goes ht (.refused ..)
          · exact .goes ht (.connected ..)
      · cases h
  | close i =>
      simp only [apply] at h
      split at h
      · next ht =>
          cases h
          exact .goes ht (.close ..)
      · cases h

/-- One connection a slot, as the samples below use it. -/
def samplePool : Pool where
  size := 1
  ttl := Duration.fromSecs 120
  servesMedia := true

end Wrtg.ConnPool
