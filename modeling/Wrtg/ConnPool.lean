/-
The pool of pre-established WebSockets (`conn_pool.rs`): what `acquire`,
`fill`, `refill_one` and `active_slots` do under the lock of the slots,
and the system that their tasks make up.

A connection is its number, counted in the order in which they are
established. The steps of a task are its stays under the lock, the two
ends of a `connect`, and the closing of one connection; a task that
neither holds the lock nor waits for anything is run on at once. What
the outside decides is in the actions: calls, ticks and whether the
pool is enabled then, what comes of a connect, the order in which the
map is walked, and the clock.
-/
import Mathlib.Data.List.AList
import Wrtg.Rust.Basic
import Wrtg.Rust.Text

namespace Wrtg.ConnPool

/-- A pool slot: DC and media flag. -/
abbrev Key := Int × Bool

/-- `SLOT_IDLE_AFTER`, 600 s. -/
def SLOT_IDLE_AFTER : Nat := Duration.fromSecs 600

structure Pooled where
  ws : Nat
  created : Nat
  label : Text
  deriving DecidableEq, Repr

structure Slot where
  conns : List Pooled
  lastUsed : Nat
  deriving DecidableEq, Repr

/-- `Slot::default()`. -/
def Slot.default (now : Nat) : Slot where
  conns := []
  lastUsed := now

abbrev Slots := AList fun _ : Key => Slot

/-- What a pool is built with, as far as its own logic reads it. -/
structure Pool where
  size : Nat
  ttl : Nat
  servesMedia : Bool
  deriving DecidableEq, Repr

-- ==================================================== under the lock

/-- The entries that stay, and the expired ones. -/
def takeExpired {T : Type} (v : List T) (ttl : Nat) (stamp : T → Nat)
    (now : Nat) : List T × List T :=
  v.partition fun e => decide (now - stamp e ≤ ttl)

/-- `entry(key).or_default()`. -/
def slotOrDefault (slots : Slots) (key : Key) (now : Nat) : Slot :=
  (slots.lookup key).getD (Slot.default now)

/-- `acquire`: the connection popped, and the expired ones. -/
def acquireLocked (p : Pool) (key : Key) (now : Nat) (slots : Slots) :
    Option ((Option Pooled × List Pooled) × Slots) :=
  (slots.lookup key).map fun slot =>
    let (fresh, expired) := takeExpired slot.conns p.ttl Pooled.created now
    ((fresh.getLast?, expired),
      slots.insert key { conns := fresh.dropLast, lastUsed := now })

/-- `fill` with a new connection: whether it is spare, and the expired
ones. -/
def fillLocked (p : Pool) (key : Key) (ws : Nat) (label : Text) (now : Nat)
    (slots : Slots) : (Bool × List Pooled) × Slots :=
  let slot := slotOrDefault slots key now
  let (fresh, expired) := takeExpired slot.conns p.ttl Pooled.created now
  if fresh.length ≥ p.size then
    ((true, expired), slots.insert key { slot with conns := fresh })
  else
    let conns := fresh ++ [{ ws, created := now, label }]
    ((false, expired), slots.insert key { slot with conns })

/-- `refill_one`: how many connections the slot has. -/
def refillLocked (key : Key) (now : Nat) (slots : Slots) : Nat × Slots :=
  let slot := slotOrDefault slots key now
  (slot.conns.length, slots.insert key { slot with lastUsed := now })

/-- `active_slots`, the map walked in this order: the active slots, and
the expired connections. -/
def activeLocked (p : Pool) (now : Nat) :
    List Key → Slots → (List Key × List Pooled) × Slots
  | [], slots => (([], []), slots)
  | key :: order, slots =>
      match slots.lookup key with
      | none => activeLocked p now order slots
      | some slot =>
          let (fresh, expired) :=
            takeExpired slot.conns p.ttl Pooled.created now
          let ((active, more), slots) := activeLocked p now order
            (slots.insert key { slot with conns := fresh })
          let active :=
            if now - slot.lastUsed ≤ SLOT_IDLE_AFTER then key :: active
            else active
          ((active, expired ++ more), slots)

-- ============================================================= tasks

/-- Whom a `refill_one` returns to: the task of a `schedule_refill`, or
the loop of a warm-up or of a sweep of the refill task over these slots
more. A sweep starts when `active_slots` looks at the map. -/
inductive Owner where
  | scheduled
  | warmup (rest : List Key)
  | sweep (start : Nat) (rest : List Key)
  deriving DecidableEq, Repr

/-- Where a task stands. -/
inductive Task where
  /-- The refill task between sweeps. -/
  | waiting
  /-- At the lock of `active_slots`. -/
  | sweeping
  /-- At the lock of `acquire`. -/
  | acquiring (key : Key)
  /-- `acquire` has returned, after a stay under the lock at `popped`. -/
  | returned (key : Key) (popped : Nat) (conn : Option Pooled)
  /-- At the lock of `refill_one`. -/
  | refilling (owner : Owner) (key : Key) (hint : Text)
  /-- In `fill`, before a `connect`, with `count` more behind it. -/
  | connecting (owner : Owner) (key : Key) (hint : Text) (count : Nat)
  /-- Inside that `connect`. -/
  | dialling (owner : Owner) (key : Key) (hint : Text) (count : Nat)
  /-- At the lock of `fill`, with a new connection. -/
  | filling (owner : Owner) (key : Key) (hint : Text) (count : Nat)
      (ws : Nat) (label : Text)
  /-- Closing connections one by one, and then on. -/
  | closing (conns : List Nat) (next : Task)
  | done
  deriving DecidableEq, Repr

/-- Behind a `refill_one`. -/
def Owner.next : Owner → Task
  | .scheduled => .done
  | .warmup [] => .done
  | .warmup (key :: rest) => .refilling (.warmup rest) key []
  | .sweep _ [] => .waiting
  | .sweep start (key :: rest) => .refilling (.sweep start rest) key []

/-- A `refill_one` on the record of the sweeps. -/
def Owner.stamp (owner : Owner) (key : Key) (now : Nat)
    (swept : AList fun _ : Key => Nat) : AList fun _ : Key => Nat :=
  match owner with
  | .sweep _ _ => swept.insert key now
  | _ => swept

/-- The loop of `fill`, with `count` attempts to go. -/
def fill (owner : Owner) (key : Key) (hint : Text) : Nat → Task
  | 0 => owner.next
  | count + 1 => .connecting owner key hint count

/-- `close_expired`, and then on. -/
def closeThen : List Nat → Task → Task
  | [], next => next
  | conns, next => .closing conns next

-- ============================================================ the system

/-- `established` has the slot each connection was made for. The source
does not keep the last two: `entered` has the time `fill` put each
connection into the pool, `swept` that of the last `refill_one` a sweep
made for a slot. -/
structure State where
  now : Nat
  slots : Slots
  tasks : List Task
  established : List Key
  closed : List Nat
  entered : List (Nat × Nat)
  swept : AList fun _ : Key => Nat
  deriving DecidableEq

/-- An empty pool and its refill task. -/
def start (now : Nat) : State where
  now := now
  slots := ∅
  tasks := [.waiting]
  established := []
  closed := []
  entered := []
  swept := ∅

inductive Action where
  | advance (d : Nat)
  | acquire (key : Key)
  | scheduleRefill (key : Key) (hint : Text)
  | warmup (seeds : List Key)
  | tick (i : Nat) (enabled : Bool)
  | lock (i : Nat) (order : List Key)
  | connect (i : Nat)
  | connected (i : Nat) (result : Option Text)
  | close (i : Nat)
  deriving DecidableEq, Repr

/-- Task `i` goes on. -/
def State.goes (s : State) (i : Nat) (t : Task) : State :=
  { s with tasks := s.tasks.set i t }

/-- A new task. -/
def State.spawn (s : State) (t : Task) : State :=
  { s with tasks := s.tasks ++ [t] }

/-- A task's stay under the lock; the slots are walked in the order
`order`, if at all. -/
def lockStep (p : Pool) (s : State) (i : Nat) (order : List Key) :
    Task → Option State
  | .acquiring key =>
      match acquireLocked p key s.now s.slots with
      | none => some (s.goes i (.returned key s.now none))
      | some ((conn, expired), slots) =>
          some ({ s with slots }.goes i (closeThen (expired.map Pooled.ws)
            (.returned key s.now conn)))
  | .refilling owner key hint =>
      let (present, slots) := refillLocked key s.now s.slots
      let swept := owner.stamp key s.now s.swept
      some ({ s with slots, swept }.goes i
        (fill owner key hint (p.size - present)))
  | .filling owner key hint count ws label =>
      let ((spare, expired), slots) :=
        fillLocked p key ws label s.now s.slots
      let expired := expired.map Pooled.ws
      -- a spare connection is closed too, and ends the loop
      let next := if spare then closeThen (expired ++ [ws]) owner.next
        else closeThen expired (fill owner key hint count)
      let entered := if spare then s.entered else s.entered ++ [(ws, s.now)]
      some ({ s with slots, entered }.goes i next)
  | .sweeping =>
      if order.isPerm s.slots.keys then
        let ((active, expired), slots) := activeLocked p s.now order s.slots
        some ({ s with slots }.goes i (closeThen (expired.map Pooled.ws)
          (Owner.sweep s.now active).next))
      else none
  | _ => none

def apply (p : Pool) : Action → State → Option State
  | .advance d, s => some { s with now := s.now + d }
  | .acquire key, s =>
      if key.2 && !p.servesMedia then
        some (s.spawn (.returned key s.now none))
      else some (s.spawn (.acquiring key))
  | .scheduleRefill key hint, s =>
      if key.2 && !p.servesMedia then some s
      else some (s.spawn (.refilling .scheduled key hint))
  | .warmup seeds, s => some (s.spawn (Owner.warmup seeds).next)
  | .tick i enabled, s =>
      match s.tasks[i]? with
      | some .waiting =>
          if enabled then some (s.goes i .sweeping) else some s
      | _ => none
  | .lock i order, s => (s.tasks[i]?).bind (lockStep p s i order)
  | .connect i, s =>
      match s.tasks[i]? with
      | some (.connecting owner key hint count) =>
          some (s.goes i (.dialling owner key hint count))
      | _ => none
  | .connected i result, s =>
      match s.tasks[i]? with
      | some (.dialling owner key hint count) =>
          match result with
          | none => some (s.goes i (fill owner key hint count))
          | some label =>
              let ws := s.established.length
              let established := s.established ++ [key]
              some ({ s with established }.goes i
                (.filling owner key hint count ws label))
      | _ => none
  | .close i, s =>
      match s.tasks[i]? with
      | some (.closing (ws :: conns) next) =>
          some ({ s with closed := s.closed ++ [ws] }.goes i
            (closeThen conns next))
      | _ => none

end Wrtg.ConnPool
