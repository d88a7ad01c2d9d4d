/-
No connection of the pool is lost, shared or misplaced
(`conn_pool.rs`).

`Inv` is kept by every step: each connection ever established is counted
once over the pool, the tasks and the closed ones; it enters the pool
once at most (`Inv.once`); each slot is within its size and holds
connections made for it, with the time at which they entered
(`Record.Right`); and what a task has in its hands was made for the slot
it works on, and was fresh if popped (`Task.Ok`).

# Sections

* what a task holds
* the invariant, and a task going on
* the steps
* every reachable state
-/
import Mathlib.Data.List.Count
import Wrtg.Lib.Run
import Wrtg.Proofs.ConnPool.Slots
import Wrtg.Proofs.ConnPool.Steps

namespace Wrtg.ConnPool

open Lib

variable {p : Pool} {s s' : State}

-- ===================================================== what a task holds

/-- The connection a caller was handed. -/
def Task.handed : Task → List Nat
  | .returned _ _ conn => conn.toList.map Pooled.ws
  | _ => []

/-- The connections a task holds, those it has handed out included. -/
def Task.held : Task → List Nat
  | .returned _ _ conn => conn.toList.map Pooled.ws
  | .filling _ _ _ _ ws _ => [ws]
  | .closing conns next => conns ++ next.held
  | _ => []

/-- The connections a task that has not returned has in its hands. -/
def Task.inHand : Task → List Nat
  | .returned _ _ _ => []
  | t => t.held

theorem Task.held_eq (t : Task) : t.held = t.handed ++ t.inHand := by
  cases t <;> simp [Task.held, Task.handed, Task.inHand]

theorem held_next (owner : Owner) : owner.next.held = [] := by
  cases owner with
  | scheduled => rfl
  | warmup rest => cases rest <;> rfl
  | sweep start rest => cases rest <;> rfl

theorem held_fill (owner : Owner) (key : Key) (hint : Text) (count : Nat) :
    (fill owner key hint count).held = [] := by
  cases count with
  | zero => exact held_next owner
  | succ count => rfl

theorem held_closeThen (conns : List Nat) (next : Task) :
    (closeThen conns next).held = conns ++ next.held := by
  cases conns <;> rfl

/-- The new connection a task is about to put into the pool. -/
def Task.new : Task → List Nat
  | .filling _ _ _ _ ws _ => [ws]
  | .closing _ next => next.new
  | _ => []

theorem new_next (owner : Owner) : owner.next.new = [] := by
  cases owner with
  | scheduled => rfl
  | warmup rest => cases rest <;> rfl
  | sweep start rest => cases rest <;> rfl

theorem new_fill (owner : Owner) (key : Key) (hint : Text) (count : Nat) :
    (fill owner key hint count).new = [] := by
  cases count with
  | zero => exact new_next owner
  | succ count => rfl

theorem new_closeThen (conns : List Nat) (next : Task) :
    (closeThen conns next).new = next.new := by
  cases conns <;> rfl

/-- What is known of connections: the slots they were made for, and when
they entered the pool. -/
structure Record where
  established : List Key
  entered : List (Nat × Nat)

def State.record (s : State) : Record := ⟨s.established, s.entered⟩

/-- A connection is right for a slot: it was made for it, and is stamped
with the time at which it entered the pool. -/
structure Record.Right (r : Record) (key : Key) (c : Pooled) : Prop where
  madeFor : r.established[c.ws]? = some key
  entered : (c.ws, c.created) ∈ r.entered

/-- One record has no less than another. -/
structure Record.Extends (r r' : Record) : Prop where
  established : r.established <+: r'.established
  entered : r.entered <+: r'.entered

theorem Record.Extends.refl (r : Record) : r.Extends r :=
  ⟨List.prefix_rfl, List.prefix_rfl⟩

/-- What a connection was made for stays. -/
theorem Record.Extends.madeFor {r r' : Record} {key : Key} {ws : Nat}
    (hr : r.Extends r') (h : r.established[ws]? = some key) :
    r'.established[ws]? = some key := by
  obtain ⟨more, hmore⟩ := hr.established
  obtain ⟨hlt, -⟩ := List.getElem?_eq_some_iff.mp h
  rw [← hmore, List.getElem?_append_left hlt]
  exact h

theorem Record.Extends.right {r r' : Record} {key : Key} {c : Pooled}
    (hr : r.Extends r') (h : r.Right key c) : r'.Right key c :=
  ⟨hr.madeFor h.madeFor, hr.entered.subset h.entered⟩

/-- What a task has in its hands was made for the slot it works on, and
what it popped was fresh. -/
def Task.Ok (p : Pool) (r : Record) : Task → Prop
  | .filling _ key _ _ ws _ => r.established[ws]? = some key
  | .returned key popped (some c) =>
      r.Right key c ∧ popped - c.created ≤ p.ttl
  | .closing _ next => next.Ok p r
  | _ => True

theorem ok_next (p : Pool) (r : Record) (owner : Owner) :
    owner.next.Ok p r := by
  cases owner with
  | scheduled => trivial
  | warmup rest => cases rest <;> trivial
  | sweep start rest => cases rest <;> trivial

theorem ok_fill (p : Pool) (r : Record) (owner : Owner)
    (key : Key) (hint : Text) (count : Nat) :
    (fill owner key hint count).Ok p r := by
  cases count with
  | zero => exact ok_next p r owner
  | succ count => trivial

theorem ok_closeThen {r : Record} (conns : List Nat)
    {next : Task} (h : next.Ok p r) : (closeThen conns next).Ok p r := by
  cases conns <;> exact h

theorem Task.Ok.mono {r r' : Record} {t : Task} (h : t.Ok p r)
    (hr : r.Extends r') : t.Ok p r' := by
  induction t with
  | filling owner key hint count ws label =>
      exact hr.madeFor h
  | returned key popped conn =>
      cases conn with
      | none => trivial
      | some c => exact ⟨hr.right h.1, h.2⟩
  | closing conns next ih => exact ih h
  | _ => trivial

theorem SlotsOk.mono {r r' : Record} {slots : Slots}
    (h : SlotsOk p r.Right slots) (hr : r.Extends r') :
    SlotsOk p r'.Right slots := fun key slot hslot =>
  ⟨(h key slot hslot).capacity,
    fun c hc => hr.right ((h key slot hslot).conns c hc)⟩

-- ====================================================== the invariant

/-- How often connection `w` is in the pool, with a task, or closed. -/
def State.places (s : State) (w : Nat) : Nat :=
  pooledCount w s.slots + tally (fun t => t.held.count w) s.tasks
    + s.closed.count w

structure Inv (p : Pool) (s : State) : Prop where
  conserved : ∀ w,
    s.places w = if w < s.established.length then 1 else 0
  once : ∀ w, tally (fun t => t.new.count w) s.tasks
    + (s.entered.map Prod.fst).count w
      ≤ if w < s.established.length then 1 else 0
  slots : SlotsOk p s.record.Right s.slots
  tasks : ∀ t ∈ s.tasks, t.Ok p s.record

theorem inv_start (p : Pool) (now : Nat) : Inv p (start now) := by
  refine ⟨fun w => rfl, fun w => Nat.le_refl 0, ?_, ?_⟩
  · intro key slot h
    cases (AList.lookup_empty key).symm.trans h
  · intro t ht
    cases List.mem_singleton.mp ht
    trivial

/-- A task goes on with what it held, the pool and the closed
connections sharing the rest, and what it was about to put in may have
entered. -/
theorem Inv.goes {i : Nat} {t t' : Task} {slots : Slots} {closed : List Nat}
    {entered : List (Nat × Nat)} {swept : AList fun _ : Key => Nat}
    (h : Inv p s) (ht : s.tasks[i]? = some t)
    (hr : s.record.Extends ⟨s.established, entered⟩)
    (hcount : ∀ w, pooledCount w slots + t'.held.count w + closed.count w
      = pooledCount w s.slots + t.held.count w + s.closed.count w)
    (honce : ∀ w, t'.new.count w + (entered.map Prod.fst).count w
      ≤ t.new.count w + (s.entered.map Prod.fst).count w)
    (hslots : SlotsOk p (Record.Right ⟨s.established, entered⟩) slots)
    (hok : t'.Ok p ⟨s.established, entered⟩) :
    Inv p ({ s with slots, closed, entered, swept }.goes i t') := by
  refine ⟨?_, ?_, hslots, ?_⟩
  · intro w
    have hset := tally_set (f := fun t : Task => t.held.count w) ht t'
    have hw := hcount w
    have hc := h.conserved w
    unfold State.places at hc ⊢
    show pooledCount w slots
      + tally (fun t => t.held.count w) (s.tasks.set i t') + closed.count w = _
    show _ = if w < s.established.length then 1 else 0
    omega
  · intro w
    have hset := tally_set (f := fun t : Task => t.new.count w) ht t'
    have hw := honce w
    have hc := h.once w
    show tally (fun t => t.new.count w) (s.tasks.set i t')
      + (entered.map Prod.fst).count w
        ≤ if w < s.established.length then 1 else 0
    omega
  · intro u hu
    rcases List.mem_or_eq_of_mem_set hu with hu | rfl
    · exact (h.tasks u hu).mono hr
    · exact hok

/-- A new task that holds nothing. -/
theorem Inv.spawn {t : Task} (h : Inv p s) (hheld : t.held = [])
    (hnew : t.new = []) (hok : t.Ok p s.record) : Inv p (s.spawn t) := by
  refine ⟨?_, ?_, h.slots, ?_⟩
  · intro w
    refine Eq.trans ?_ (h.conserved w)
    unfold State.places State.spawn
    simp only [tally_append, tally_cons, tally_nil, hheld, List.count_nil]
    rfl
  · intro w
    refine Nat.le_trans (Nat.le_of_eq ?_) (h.once w)
    unfold State.spawn
    simp only [tally_append, tally_cons, tally_nil, hnew, List.count_nil]
    rfl
  · intro u hu
    rcases List.mem_append.mp hu with hu | hu
    · exact h.tasks u hu
    · rw [List.mem_singleton] at hu
      exact hu ▸ hok

-- ========================================================== the steps

theorem wsCount_eq (w : Nat) (conns : List Pooled) :
    (conns.map Pooled.ws).count w = wsCount w conns := rfl

/-- A new connection is in the hands of the task that made it. -/
theorem Inv.connected {i : Nat} {owner : Owner} {key : Key} {hint : Text}
    {count : Nat} (h : Inv p s)
    (ht : s.tasks[i]? = some (.dialling owner key hint count))
    (label : Text) :
    Inv p ({ s with established := s.established ++ [key] }.goes i
      (.filling owner key hint count s.established.length label)) := by
  have hr : s.record.Extends ⟨s.established ++ [key], s.entered⟩ :=
    ⟨List.prefix_append .., List.prefix_rfl⟩
  refine ⟨?_, ?_, h.slots.mono hr, ?_⟩
  · intro w
    have hset := tally_set (f := fun t : Task => t.held.count w) ht
      (.filling owner key hint count s.established.length label)
    have hc := h.conserved w
    unfold State.places at hc ⊢
    show pooledCount w s.slots + tally (fun t => t.held.count w)
        (s.tasks.set i _) + s.closed.count w
      = if w < (s.established ++ [key]).length then 1 else 0
    rw [List.length_append, List.length_singleton]
    simp only [Task.held, List.count_nil, List.count_singleton,
      beq_iff_eq] at hset
    by_cases hw : s.established.length = w
    · rw [if_neg (by omega)] at hc
      rw [if_pos hw] at hset
      rw [if_pos (by omega)]
      omega
    · rw [if_neg hw] at hset
      by_cases hlt : w < s.established.length
      · rw [if_pos hlt] at hc
        rw [if_pos (by omega)]
        omega
      · rw [if_neg hlt] at hc
        rw [if_neg (by omega)]
        omega
  · intro w
    have hset := tally_set (f := fun t : Task => t.new.count w) ht
      (.filling owner key hint count s.established.length label)
    have hc := h.once w
    show tally (fun t => t.new.count w) (s.tasks.set i _)
        + (s.entered.map Prod.fst).count w
      ≤ if w < (s.established ++ [key]).length then 1 else 0
    rw [List.length_append, List.length_singleton]
    simp only [Task.new, List.count_nil, List.count_singleton,
      beq_iff_eq] at hset
    by_cases hw : s.established.length = w
    · rw [if_neg (by omega)] at hc
      rw [if_pos hw] at hset
      rw [if_pos (by omega)]
      omega
    · rw [if_neg hw] at hset
      have hle : (if w < s.established.length then 1 else 0)
          ≤ if w < s.established.length + 1 then 1 else 0 := by
        split <;> split <;> omega
      omega
  · intro u hu
    rcases List.mem_or_eq_of_mem_set hu with hu | rfl
    · exact (h.tasks u hu).mono hr
    · show (s.established ++ [key])[s.established.length]? = some key
      rw [List.getElem?_append_right (Nat.le_refl _), Nat.sub_self]
      rfl

/-- A task going on keeps the invariant. -/
theorem Inv.taskStep {a : Action} {i : Nat} {t t' : Task} {s₁ : State}
    (h : Inv p s) (ht : s.tasks[i]? = some t)
    (hstep : TaskStep p s i a t s₁ t') : Inv p (s₁.goes i t') := by
  have hsame : s.record.Extends ⟨s.established, s.entered⟩ := .refl _
  have hnone : ∀ {t' : Task}, t'.new = [] → ∀ w, t'.new.count w
      + (s.entered.map Prod.fst).count w
        ≤ t.new.count w + (s.entered.map Prod.fst).count w := by
    intro t' ht' w
    rw [ht', List.count_nil]
    omega
  cases hstep with
  | tick => exact h.goes ht hsame (fun _ => rfl) (hnone rfl) h.slots trivial
  | acquireNone hacq =>
      exact h.goes ht hsame (fun _ => rfl) (hnone rfl) h.slots trivial
  | @acquire _ key conn expired slots hacq =>
      refine h.goes ht hsame ?_ (hnone (new_closeThen ..))
        (acquireLocked_ok hacq h.slots) (ok_closeThen _ ?_)
      · intro w
        have hcount := acquireLocked_count hacq w
        rw [held_closeThen, List.count_append]
        simp only [Task.held, wsCount_eq, List.count_nil] at hcount ⊢
        omega
      · cases conn with
        | none => trivial
        | some c => exact acquireLocked_conn hacq h.slots rfl
  | @refill _ owner key hint present slots hr =>
      have hcount := refillLocked_count key s.now s.slots
      have hok := refillLocked_ok p key s.now h.slots
      rw [hr] at hcount hok
      refine h.goes ht hsame ?_ (hnone (new_fill ..)) hok
        (ok_fill p _ owner key hint _)
      intro w
      rw [held_fill, hcount w]
      rfl
  | @fillSpare _ owner key hint count ws label expired slots hr =>
      have hcount := fillLocked_count p key ws label s.now s.slots
      have hok := fillLocked_ok p key ws label s.now
        (by rw [hr]; exact Bool.noConfusion) h.slots
      rw [hr] at hcount hok
      refine h.goes ht hsame ?_
        (hnone ((new_closeThen ..).trans (new_next owner))) hok
        (ok_closeThen _ (ok_next ..))
      intro w
      have hcount := hcount w
      rw [held_closeThen, held_next, List.append_nil, List.count_append,
        wsCount_eq]
      simp only [Task.held, if_true] at hcount ⊢
      omega
  | @fillPushed _ owner key hint count ws label expired slots hr =>
      have hws : s.established[ws]? = some key :=
        h.tasks _ (List.mem_of_getElem? ht)
      have hentered : s.record.Extends
          ⟨s.established, s.entered ++ [(ws, s.now)]⟩ :=
        ⟨List.prefix_rfl, List.prefix_append ..⟩
      have hcount := fillLocked_count p key ws label s.now s.slots
      have hok := fillLocked_ok p key ws label s.now
        (fun _ => ⟨hws, List.mem_append_right _ List.mem_cons_self⟩)
        (h.slots.mono hentered)
      rw [hr] at hcount hok
      refine h.goes ht hentered ?_ ?_ hok (ok_closeThen _ (ok_fill ..))
      · intro w
        have hcount := hcount w
        rw [held_closeThen, held_fill, List.append_nil, wsCount_eq]
        simp only [Task.held, Bool.false_eq_true, if_false] at hcount ⊢
        omega
      · intro w
        rw [new_closeThen, new_fill, List.map_append, List.count_append]
        show 0 + (_ + [ws].count w) ≤ [ws].count w + _
        omega
  | @sweep order active expired slots hr =>
      have hcount := activeLocked_count p s.now s.slots order
      have hok := activeLocked_ok p s.now order h.slots
      rw [hr] at hcount hok
      refine h.goes ht hsame ?_
        (hnone ((new_closeThen ..).trans (new_next _))) hok
        (ok_closeThen _ (ok_next ..))
      intro w
      have hcount := hcount w
      rw [held_closeThen, held_next, List.append_nil, wsCount_eq]
      simp only [Task.held, List.count_nil] at hcount ⊢
      omega
  | connect =>
      exact h.goes ht hsame (fun _ => rfl) (hnone rfl) h.slots trivial
  | refused owner key hint count =>
      refine h.goes ht hsame ?_ (hnone (new_fill ..)) h.slots (ok_fill ..)
      intro w
      rw [held_fill]
      rfl
  | connected owner key hint count label => exact h.connected ht label
  | close ws conns next =>
      have hok := h.tasks _ (List.mem_of_getElem? ht)
      refine h.goes ht hsame ?_ ?_ h.slots (ok_closeThen conns hok)
      · intro w
        rw [held_closeThen]
        simp only [Task.held, List.cons_append, List.count_cons,
          List.count_append, List.count_nil]
        omega
      · intro w
        rw [new_closeThen]
        exact Nat.le_refl _

/-- Every step keeps the invariant. -/
theorem Inv.step {a : Action} (h : Inv p s) (hstep : apply p a s = some s') :
    Inv p s' := by
  cases apply_cases hstep with
  | advance d => exact ⟨h.conserved, h.once, h.slots, h.tasks⟩
  | idle => exact h
  | notServed key => exact h.spawn rfl rfl trivial
  | acquire key => exact h.spawn rfl rfl trivial
  | scheduleRefill key hint => exact h.spawn rfl rfl trivial
  | warmup seeds => exact h.spawn (held_next _) (new_next _) (ok_next ..)
  | goes ht hgo => exact h.taskStep ht hgo

/-- What a step keeps: the closed connections, and the tasks that have
returned. -/
structure Keeps (s s' : State) : Prop where
  closed : s.closed <+: s'.closed
  returned : ∀ (i : Nat) key popped conn,
    s.tasks[i]? = some (.returned key popped conn) →
    s'.tasks[i]? = some (.returned key popped conn)

theorem Keeps.refl (s : State) : Keeps s s :=
  ⟨List.prefix_rfl, fun _ _ _ _ h => h⟩

theorem Keeps.trans {s'' : State} (h : Keeps s s') (h' : Keeps s' s'') :
    Keeps s s'' :=
  ⟨h.closed.trans h'.closed, fun i key popped conn hi =>
    h'.returned i key popped conn (h.returned i key popped conn hi)⟩

theorem keeps_spawn (s : State) (t : Task) : Keeps s (s.spawn t) := by
  refine ⟨List.prefix_rfl, ?_⟩
  intro i key popped conn hi
  obtain ⟨hlt, -⟩ := List.getElem?_eq_some_iff.mp hi
  show (s.tasks ++ [t])[i]? = _
  rw [List.getElem?_append_left hlt]
  exact hi

/-- A task that goes on had not returned. -/
theorem keeps_goes {i : Nat} {t t' : Task} {s₁ : State}
    (ht : s.tasks[i]? = some t) (htasks : s₁.tasks = s.tasks)
    (hclosed : s.closed <+: s₁.closed)
    (hrun : ∀ key popped conn, t ≠ .returned key popped conn) :
    Keeps s (s₁.goes i t') := by
  refine ⟨hclosed, ?_⟩
  intro j key popped conn hj
  show (s₁.tasks.set i t')[j]? = _
  by_cases hij : i = j
  · subst hij
    rw [ht] at hj
    cases hj
    exact absurd rfl (hrun key popped conn)
  · rw [htasks, List.getElem?_set_ne hij]
    exact hj

theorem keeps_step {a : Action} (hstep : apply p a s = some s') :
    Keeps s s' := by
  cases apply_cases hstep with
  | advance d => exact ⟨List.prefix_rfl, fun _ _ _ _ h => h⟩
  | idle => exact .refl s
  | notServed key => exact keeps_spawn s _
  | acquire key => exact keeps_spawn s _
  | scheduleRefill key hint => exact keeps_spawn s _
  | warmup seeds => exact keeps_spawn s _
  | goes ht hgo =>
      cases hgo with
      | close => exact keeps_goes ht rfl (List.prefix_append ..) nofun
      | _ => exact keeps_goes ht rfl List.prefix_rfl nofun

-- =============================================== every reachable state

/-- The connections in the pool. -/
def State.pooled (s : State) : List Nat :=
  s.slots.entries.flatMap fun e => e.2.conns.map Pooled.ws

/-- The connections callers were handed. -/
def State.handed (s : State) : List Nat := s.tasks.flatMap Task.handed

/-- The connections in the hands of tasks that have not returned. -/
def State.inHand (s : State) : List Nat := s.tasks.flatMap Task.inHand

theorem count_flatMap_tally {α : Type} (f : α → List Nat) (l : List α)
    (w : Nat) : (l.flatMap f).count w = tally (fun a => (f a).count w) l :=
  List.count_flatMap

/-- Each connection ever established is in one place, once. -/
theorem Inv.perm (h : Inv p s) :
    (s.pooled ++ s.handed ++ s.closed ++ s.inHand).Perm
      (List.range s.established.length) := by
  rw [List.perm_iff_count]
  intro w
  have hc := h.conserved w
  have hpool : s.pooled.count w = pooledCount w s.slots :=
    count_flatMap_tally _ _ w
  have hheld : tally (fun t : Task => t.held.count w) s.tasks
      = s.handed.count w + s.inHand.count w := by
    unfold State.handed State.inHand
    rw [count_flatMap_tally, count_flatMap_tally, ← tally_add]
    congr 1
    funext t
    rw [t.held_eq, List.count_append]
  unfold State.places at hc
  rw [hheld] at hc
  rw [List.count_append, List.count_append, List.count_append, hpool,
    List.count_range, ← hc]
  omega

theorem reachable_inv {now : Nat} {as : List Action}
    (h : run (apply p) as (start now) = some s) : Inv p s :=
  run_invariant (apply p) (C := fun _ _ => True) h
    (fun _ _ _ _ _ _ => trivial) (inv_start p now)
    fun _ _ _ ht _ hstep => ht.step hstep

theorem reachable_keeps {as : List Action}
    (h : run (apply p) as s = some s') : Keeps s s' :=
  run_invariant (apply p) (C := fun _ _ => True) h
    (fun _ _ _ _ _ _ => trivial) (.refl s)
    fun _ _ _ ht _ hstep => ht.trans (keeps_step hstep)

/-- A connection enters the pool once. -/
theorem Inv.entered_once (h : Inv p s) {w t t' : Nat}
    (ht : (w, t) ∈ s.entered) (ht' : (w, t') ∈ s.entered) : t = t' := by
  have hnodup : (s.entered.map Prod.fst).Nodup := by
    rw [List.nodup_iff_count_le_one]
    intro w
    have honce := h.once w
    split at honce <;> omega
  exact congrArg Prod.snd (List.inj_on_of_nodup_map hnodup ht ht' rfl)

/-- In every reachable state, slots are within the size; each connection
ever established is, exactly once, in the pool, handed to a caller,
closed, or in the hands of a task that has not returned; the handed ones
were made for the slot asked for and fresh when popped, counted from the
one time at which `fill` put them into the pool; and handed or closed they
stay. -/
theorem pool_safe (p : Pool) (now : Nat) (as : List Action) (s : State)
    (h : run (apply p) as (start now) = some s) :
    (∀ key slot, s.slots.lookup key = some slot →
      slot.conns.length ≤ p.size)
    ∧ (s.pooled ++ s.handed ++ s.closed ++ s.inHand).Perm
        (List.range s.established.length)
    ∧ (∀ (i : Nat) key popped c,
        s.tasks[i]? = some (.returned key popped (some c)) →
        s.established[c.ws]? = some key
          ∧ (∃ t, (c.ws, t) ∈ s.entered)
          ∧ ∀ t, (c.ws, t) ∈ s.entered → popped ≤ t + p.ttl)
    ∧ ∀ bs s', run (apply p) bs s = some s' → Keeps s s' := by
  have hinv := reachable_inv h
  refine ⟨fun key slot hslot => (hinv.slots key slot hslot).capacity,
    hinv.perm, ?_, fun bs s' hrun =>
    reachable_keeps hrun⟩
  intro i key popped c hi
  obtain ⟨hright, hfresh⟩ := hinv.tasks _ (List.mem_of_getElem? hi)
  refine ⟨hright.madeFor, ⟨c.created, hright.entered⟩, fun t ht => ?_⟩
  rw [hinv.entered_once ht hright.entered]
  omega

/-- A refill of DC 2, up to where its connection is established. -/
def sampleDial : List Action :=
  [.scheduleRefill (2, false) [], .lock 1 [], .connect 1,
    .connected 1 (some "kws2".toList)]

/-- The refill goes on, and a session takes the connection. -/
theorem pool_safe_sample :
    ∃ s, run (apply samplePool)
        (sampleDial ++ [.lock 1 [], .acquire (2, false), .lock 2 []])
        (start 0) = some s
      ∧ s.handed = [0]
      ∧ (s.pooled ++ s.handed ++ s.closed ++ s.inHand).Perm
          (List.range s.established.length) :=
  ⟨_, rfl, by decide +kernel, (pool_safe samplePool 0
    (sampleDial ++ [.lock 1 [], .acquire (2, false), .lock 2 []]) _
    rfl).2.1⟩

/-- A connection just established is neither in the pool nor handed to a
caller nor closed. -/
theorem established_not_placed :
    ∃ s, run (apply samplePool) sampleDial (start 0) = some s
      ∧ ¬ (s.pooled ++ s.handed ++ s.closed).Perm
          (List.range s.established.length) :=
  ⟨_, rfl, by decide +kernel⟩

end Wrtg.ConnPool
