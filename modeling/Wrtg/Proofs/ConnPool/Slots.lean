/-
What the pool does under the lock of its slots (`conn_pool.rs`).

Each of the four stays under the lock has one lemma for each of three
questions: where the connections go (`count`), whether slots stay within
their size and hold only connections that are right for them (`SlotsOk`),
and what becomes of the `last_used` of a slot (`used`).
-/
import Wrtg.ConnPool
import Wrtg.Lib.Tally

namespace Wrtg.ConnPool

open Lib

-- =========================================================== counting

/-- How often connection `w` is among these. -/
def wsCount (w : Nat) (conns : List Pooled) : Nat :=
  (conns.map Pooled.ws).count w

@[simp] theorem wsCount_nil (w : Nat) : wsCount w [] = 0 := rfl

@[simp] theorem wsCount_append (w : Nat) (conns conns' : List Pooled) :
    wsCount w (conns ++ conns') = wsCount w conns + wsCount w conns' := by
  unfold wsCount
  rw [List.map_append, List.count_append]

/-- How often connection `w` is in the pool. -/
def pooledCount (w : Nat) (slots : Slots) : Nat :=
  mapTally (fun slot => wsCount w slot.conns) slots

/-- A slot of the map, or the one that `or_default` would put there, is
replaced. -/
theorem pooledCount_insert (w : Nat) (slots : Slots) (key : Key) (now : Nat)
    (slot : Slot) :
    pooledCount w (slots.insert key slot)
        + wsCount w (slotOrDefault slots key now).conns
      = pooledCount w slots + wsCount w slot.conns := by
  have h := mapTally_insert (fun slot => wsCount w slot.conns) slots key slot
  have hslot : wsCount w (slotOrDefault slots key now).conns
      = ((slots.lookup key).map fun slot => wsCount w slot.conns).getD 0 := by
    unfold slotOrDefault
    cases slots.lookup key <;> rfl
  rw [hslot]
  exact h

/-- A slot of a well-kept pool, whose connections are `right` for it. -/
structure SlotOk (p : Pool) (right : Key → Pooled → Prop) (key : Key)
    (slot : Slot) : Prop where
  capacity : slot.conns.length ≤ p.size
  conns : ∀ c ∈ slot.conns, right key c

/-- Every slot of the map is within its size, and holds connections that
are right for it alone. -/
def SlotsOk (p : Pool) (right : Key → Pooled → Prop) (slots : Slots) :
    Prop :=
  ∀ key slot, slots.lookup key = some slot → SlotOk p right key slot

variable {p : Pool} {right : Key → Pooled → Prop} {slots slots' : Slots}
  {key k : Key} {now : Nat}

/-- A slot that is in order may be put in. -/
theorem SlotsOk.insert (h : SlotsOk p right slots) {slot : Slot}
    (hslot : SlotOk p right key slot) :
    SlotsOk p right (slots.insert key slot) := by
  intro key' slot' hlookup
  by_cases hk : key' = key
  · subst hk
    rw [AList.lookup_insert] at hlookup
    cases hlookup
    exact hslot
  · rw [AList.lookup_insert_ne hk] at hlookup
    exact h key' slot' hlookup

/-- A slot that is not there is in order. -/
theorem SlotsOk.orDefault (h : SlotsOk p right slots) (key : Key)
    (now : Nat) :
    SlotOk p right key (slotOrDefault slots key now) := by
  unfold slotOrDefault
  cases hl : slots.lookup key with
  | none => exact ⟨Nat.zero_le _, fun _ hc => nomatch hc⟩
  | some slot => exact h key slot hl

/-- When a slot was used last. -/
def used (slots : Slots) (k : Key) : Option Nat :=
  (slots.lookup k).map Slot.lastUsed

theorem used_insert (slots : Slots) (key : Key) (slot : Slot) :
    used (slots.insert key slot) key = some slot.lastUsed := by
  unfold used
  rw [AList.lookup_insert]
  rfl

theorem used_insert_ne {slot : Slot} (h : k ≠ key) :
    used (slots.insert key slot) k = used slots k := by
  unfold used
  rw [AList.lookup_insert_ne h]

/-- The stay under the lock at `now` uses a slot, or leaves its
`last_used` as it is. -/
def Touches (now : Nat) (slots slots' : Slots) : Prop :=
  ∀ k, used slots' k = used slots k ∨ used slots' k = some now

/-- A slot put in with its own stamp, or the present one, is touched. -/
theorem touches_insert {slot : Slot}
    (h : used slots key = some slot.lastUsed ∨ slot.lastUsed = now) :
    Touches now slots (slots.insert key slot) := by
  intro k
  by_cases hk : k = key
  · subst hk
    rw [used_insert]
    exact h.imp Eq.symm (congrArg some)
  · exact .inl (used_insert_ne hk)

/-- The slot put by `or_default` counts as used now. -/
theorem used_orDefault (slots : Slots) (key : Key) (now : Nat) :
    used slots key = some (slotOrDefault slots key now).lastUsed
      ∨ (slotOrDefault slots key now).lastUsed = now := by
  unfold used slotOrDefault
  cases slots.lookup key with
  | none => exact .inr rfl
  | some slot => exact .inl rfl

-- ============================================================== expiry

/-- The fresh connections, in order, and the expired ones. -/
theorem takeExpired_eq (v : List Pooled) (ttl now : Nat) :
    takeExpired v ttl Pooled.created now
      = (v.filter (fun e => decide (now - e.created ≤ ttl)),
          v.filter (fun e => !decide (now - e.created ≤ ttl))) :=
  List.partition_eq_filter_filter ..

/-- What has expired and what has not are all of the slot. -/
theorem wsCount_takeExpired (w : Nat) (v : List Pooled) (ttl now : Nat) :
    wsCount w (takeExpired v ttl Pooled.created now).1
        + wsCount w (takeExpired v ttl Pooled.created now).2
      = wsCount w v := by
  rw [takeExpired_eq]
  induction v with
  | nil => rfl
  | cons e v ih =>
      unfold wsCount at ih ⊢
      rw [List.filter_cons, List.filter_cons]
      cases decide (now - e.created ≤ ttl) <;>
        simp only [Bool.not_true, Bool.not_false, if_true, Bool.false_eq_true,
          if_false, List.map_cons, List.count_cons] at ih ⊢ <;> omega

/-- What is kept was there, and is no older than the lifetime. -/
theorem mem_takeExpired {v : List Pooled} {ttl : Nat} {c : Pooled}
    (h : c ∈ (takeExpired v ttl Pooled.created now).1) :
    c ∈ v ∧ now - c.created ≤ ttl := by
  rw [takeExpired_eq, List.mem_filter] at h
  exact ⟨h.1, of_decide_eq_true h.2⟩

/-- Without its expired connections a slot stays in order. -/
theorem SlotOk.fresh {slot : Slot} (h : SlotOk p right key slot)
    (now lastUsed : Nat) :
    SlotOk p right key
      ⟨(takeExpired slot.conns p.ttl Pooled.created now).1, lastUsed⟩ := by
  refine ⟨?_, fun c hc => h.conns c (mem_takeExpired hc).1⟩
  show (takeExpired slot.conns p.ttl Pooled.created now).1.length ≤ p.size
  rw [takeExpired_eq]
  exact Nat.le_trans (List.length_filter_le ..) h.capacity

-- ============================================================ acquire

/-- What `acquire` does with the slot it finds. -/
theorem acquireLocked_eq {r : (Option Pooled × List Pooled) × Slots}
    (h : acquireLocked p key now slots = some r) :
    ∃ slot fresh expired, slots.lookup key = some slot
      ∧ takeExpired slot.conns p.ttl Pooled.created now = (fresh, expired)
      ∧ r = ((fresh.getLast?, expired),
          slots.insert key ⟨fresh.dropLast, now⟩) := by
  unfold acquireLocked at h
  rw [Option.map_eq_some_iff] at h
  obtain ⟨slot, hslot, hr⟩ := h
  exact ⟨slot, _, _, hslot, rfl, hr.symm⟩

theorem wsCount_dropLast (w : Nat) (conns : List Pooled) :
    wsCount w conns.dropLast + wsCount w conns.getLast?.toList
      = wsCount w conns := by
  rw [← wsCount_append]
  congr 1
  cases conns with
  | nil => rfl
  | cons c conns =>
      rw [List.getLast?_eq_some_getLast (List.cons_ne_nil c conns)]
      exact List.dropLast_append_getLast _

/-- `acquire` takes out what it hands over and what has expired, and nothing
else. -/
theorem acquireLocked_count {r : (Option Pooled × List Pooled) × Slots}
    (h : acquireLocked p key now slots = some r) (w : Nat) :
    pooledCount w r.2 + wsCount w r.1.1.toList + wsCount w r.1.2
      = pooledCount w slots := by
  obtain ⟨slot, fresh, expired, hslot, htake, rfl⟩ := acquireLocked_eq h
  have hins := pooledCount_insert w slots key now ⟨fresh.dropLast, now⟩
  have hexp := wsCount_takeExpired w slot.conns p.ttl now
  have hpop := wsCount_dropLast w fresh
  have hdef : slotOrDefault slots key now = slot := by
    unfold slotOrDefault
    rw [hslot]
    rfl
  rw [htake] at hexp
  rw [hdef] at hins
  simp only at hins hexp ⊢
  omega

/-- The slots it leaves are in order. -/
theorem acquireLocked_ok {r : (Option Pooled × List Pooled) × Slots}
    (h : acquireLocked p key now slots = some r)
    (hok : SlotsOk p right slots) : SlotsOk p right r.2 := by
  obtain ⟨slot, fresh, expired, hslot, htake, rfl⟩ := acquireLocked_eq h
  have hfresh := (hok key slot hslot).fresh now now
  rw [htake] at hfresh
  refine hok.insert ⟨?_, fun c hc => hfresh.conns c
    (List.dropLast_subset fresh hc)⟩
  exact Nat.le_trans (by simp) hfresh.capacity

/-- A popped connection is right for the slot, and fresh. -/
theorem acquireLocked_conn {r : (Option Pooled × List Pooled) × Slots}
    (h : acquireLocked p key now slots = some r)
    (hok : SlotsOk p right slots) {c : Pooled} (hc : r.1.1 = some c) :
    right key c ∧ now - c.created ≤ p.ttl := by
  obtain ⟨slot, fresh, expired, hslot, htake, rfl⟩ := acquireLocked_eq h
  have hmem : c ∈ (takeExpired slot.conns p.ttl Pooled.created now).1 := by
    rw [htake]
    exact List.mem_of_getLast? hc
  exact ⟨(hok key slot hslot).conns c (mem_takeExpired hmem).1,
    (mem_takeExpired hmem).2⟩

/-- It touches the slot asked for, -/
theorem acquireLocked_touches {r : (Option Pooled × List Pooled) × Slots}
    (h : acquireLocked p key now slots = some r) : Touches now slots r.2 := by
  obtain ⟨slot, fresh, expired, hslot, htake, rfl⟩ := acquireLocked_eq h
  exact touches_insert (.inr rfl)

/-- and no other. -/
theorem acquireLocked_used_ne {r : (Option Pooled × List Pooled) × Slots}
    (h : acquireLocked p key now slots = some r) (hne : k ≠ key) :
    used r.2 k = used slots k := by
  obtain ⟨slot, fresh, expired, hslot, htake, rfl⟩ := acquireLocked_eq h
  exact used_insert_ne hne

-- =============================================================== fill

variable (p : Pool) (key : Key) (ws : Nat) (label : Text) (now : Nat)
  (slots : Slots)

/-- What `fill` does with a new connection. -/
theorem fillLocked_eq :
    ∃ fresh expired, takeExpired (slotOrDefault slots key now).conns p.ttl
        Pooled.created now = (fresh, expired)
      ∧ fillLocked p key ws label now slots =
        if fresh.length ≥ p.size then
          ((true, expired), slots.insert key
            ⟨fresh, (slotOrDefault slots key now).lastUsed⟩)
        else
          ((false, expired), slots.insert key
            ⟨fresh ++ [⟨ws, now, label⟩],
              (slotOrDefault slots key now).lastUsed⟩) :=
  ⟨_, _, rfl, rfl⟩

/-- `fill` puts the new connection in, unless the slot is full, and takes
out what has expired. -/
theorem fillLocked_count (w : Nat) :
    pooledCount w (fillLocked p key ws label now slots).2
        + wsCount w (fillLocked p key ws label now slots).1.2
        + (if (fillLocked p key ws label now slots).1.1 then [ws].count w
            else 0)
      = pooledCount w slots + [ws].count w := by
  obtain ⟨fresh, expired, htake, heq⟩ :=
    fillLocked_eq p key ws label now slots
  have hins := fun conns => pooledCount_insert w slots key now
    ⟨conns, (slotOrDefault slots key now).lastUsed⟩
  have hexp := wsCount_takeExpired w (slotOrDefault slots key now).conns
    p.ttl now
  rw [htake] at hexp
  rw [heq]
  split
  · have := hins fresh
    simp only [if_true] at this hexp ⊢
    omega
  · have := hins (fresh ++ [⟨ws, now, label⟩])
    have hnew : wsCount w [⟨ws, now, label⟩] = [ws].count w := rfl
    rw [wsCount_append, hnew] at this
    simp only [Bool.false_eq_true, if_false] at this hexp ⊢
    omega

/-- The slots it leaves are in order, if what it puts in is right. -/
theorem fillLocked_ok {slots : Slots}
    (hws : (fillLocked p key ws label now slots).1.1 = false →
      right key ⟨ws, now, label⟩)
    (hok : SlotsOk p right slots) :
    SlotsOk p right (fillLocked p key ws label now slots).2 := by
  obtain ⟨fresh, expired, htake, heq⟩ :=
    fillLocked_eq p key ws label now slots
  have hfresh := (hok.orDefault key now).fresh now
    (slotOrDefault slots key now).lastUsed
  rw [htake] at hfresh
  rw [heq] at hws ⊢
  split
  · exact hok.insert hfresh
  · next hroom =>
      rw [if_neg hroom] at hws
      refine hok.insert ⟨?_, ?_⟩
      · rw [List.length_append, List.length_singleton]
        omega
      · intro c hc
        rcases List.mem_append.mp hc with hc | hc
        · exact hfresh.conns c hc
        · rw [List.mem_singleton] at hc
          subst hc
          exact hws rfl

theorem fillLocked_touches :
    Touches now slots (fillLocked p key ws label now slots).2 := by
  obtain ⟨fresh, expired, -, heq⟩ := fillLocked_eq p key ws label now slots
  rw [heq]
  split <;> exact touches_insert (used_orDefault slots key now)

/-- `fill` leaves the `last_used` of a slot there is as it is. -/
theorem fillLocked_used {slots : Slots} {key : Key} (k : Key)
    (hkey : (slots.lookup key).isSome) :
    used (fillLocked p key ws label now slots).2 k = used slots k := by
  obtain ⟨fresh, expired, -, heq⟩ := fillLocked_eq p key ws label now slots
  obtain ⟨slot, hslot⟩ := Option.isSome_iff_exists.mp hkey
  have hlast : used slots key
      = some (slotOrDefault slots key now).lastUsed := by
    unfold used slotOrDefault
    rw [hslot]
    rfl
  rw [heq]
  by_cases hk : k = key
  · subst hk
    rw [hlast]
    split <;> exact used_insert ..
  · split <;> exact used_insert_ne hk

-- ========================================================= refill_one

/-- `refill_one` takes nothing out, -/
theorem refillLocked_count (w : Nat) :
    pooledCount w (refillLocked key now slots).2 = pooledCount w slots := by
  have h := pooledCount_insert w slots key now
    ⟨(slotOrDefault slots key now).conns, now⟩
  unfold refillLocked
  simp only at h ⊢
  omega

/-- leaves the slots in order, -/
theorem refillLocked_ok {slots : Slots} (hok : SlotsOk p right slots) :
    SlotsOk p right (refillLocked key now slots).2 :=
  have h := hok.orDefault key now
  hok.insert ⟨h.capacity, h.conns⟩

/-- and touches its own slot, -/
theorem refillLocked_touches :
    Touches now slots (refillLocked key now slots).2 :=
  touches_insert (.inr rfl)

/-- which it stamps, -/
theorem refillLocked_used :
    used (refillLocked key now slots).2 key = some now :=
  used_insert ..

/-- and no other. -/
theorem refillLocked_used_ne {key : Key} (hne : k ≠ key) :
    used (refillLocked key now slots).2 k = used slots k :=
  used_insert_ne hne

-- ======================================================= active_slots

/-- One round of `active_slots`. -/
theorem activeLocked_cons (order : List Key) {slots : Slots} {slot : Slot}
    (h : slots.lookup key = some slot) :
    ∃ fresh expired, takeExpired slot.conns p.ttl Pooled.created now
        = (fresh, expired)
      ∧ activeLocked p now (key :: order) slots =
        let rest := activeLocked p now order
          (slots.insert key ⟨fresh, slot.lastUsed⟩)
        ((if now - slot.lastUsed ≤ SLOT_IDLE_AFTER then key :: rest.1.1
          else rest.1.1, expired ++ rest.1.2), rest.2) := by
  refine ⟨_, _, rfl, ?_⟩
  rw [activeLocked, h]
  rfl

theorem activeLocked_none (order : List Key) {slots : Slots}
    (h : slots.lookup key = none) :
    activeLocked p now (key :: order) slots
      = activeLocked p now order slots := by
  rw [activeLocked, h]

/-- `active_slots` takes out what has expired. -/
theorem activeLocked_count (order : List Key) (w : Nat) :
    pooledCount w (activeLocked p now order slots).2
        + wsCount w (activeLocked p now order slots).1.2
      = pooledCount w slots := by
  induction order generalizing slots with
  | nil => rfl
  | cons key order ih =>
      cases hslot : slots.lookup key with
      | none => rw [activeLocked_none p key now order hslot, ih]
      | some slot =>
          obtain ⟨fresh, expired, htake, heq⟩ :=
            activeLocked_cons p key now order hslot
          have hins := pooledCount_insert w slots key now
            ⟨fresh, slot.lastUsed⟩
          have hexp := wsCount_takeExpired w slot.conns p.ttl now
          have hdef : slotOrDefault slots key now = slot := by
            unfold slotOrDefault
            rw [hslot]
            rfl
          have hrest := ih (slots.insert key ⟨fresh, slot.lastUsed⟩)
          rw [htake] at hexp
          rw [hdef] at hins
          rw [heq]
          simp only [wsCount_append] at hins hexp hrest ⊢
          omega

/-- The slots it leaves are in order. -/
theorem activeLocked_ok (order : List Key) {slots : Slots}
    (hok : SlotsOk p right slots) :
    SlotsOk p right (activeLocked p now order slots).2 := by
  induction order generalizing slots with
  | nil => exact hok
  | cons key order ih =>
      cases hslot : slots.lookup key with
      | none =>
          rw [activeLocked_none p key now order hslot]
          exact ih hok
      | some slot =>
          obtain ⟨fresh, expired, htake, heq⟩ :=
            activeLocked_cons p key now order hslot
          have hfresh := (hok key slot hslot).fresh now slot.lastUsed
          rw [htake] at hfresh
          rw [heq]
          exact ih (hok.insert hfresh)

/-- Looking for active slots is no use of them. -/
theorem activeLocked_used (order : List Key) (k : Key) :
    used (activeLocked p now order slots).2 k = used slots k := by
  induction order generalizing slots with
  | nil => rfl
  | cons key order ih =>
      cases hslot : slots.lookup key with
      | none => rw [activeLocked_none p key now order hslot, ih]
      | some slot =>
          obtain ⟨fresh, expired, -, heq⟩ :=
            activeLocked_cons p key now order hslot
          rw [heq]
          refine (ih _).trans ?_
          by_cases hk : k = key
          · subst hk
            rw [used_insert, used, hslot]
            rfl
          · exact used_insert_ne hk

/-- An active slot was used within `SLOT_IDLE_AFTER`. -/
theorem activeLocked_active {p : Pool} {now : Nat} {order : List Key}
    {slots : Slots}
    (h : k ∈ (activeLocked p now order slots).1.1) :
    ∃ t, used slots k = some t ∧ now - t ≤ SLOT_IDLE_AFTER := by
  induction order generalizing slots with
  | nil => cases h
  | cons key order ih =>
      cases hslot : slots.lookup key with
      | none =>
          rw [activeLocked_none p key now order hslot] at h
          exact ih h
      | some slot =>
          obtain ⟨fresh, expired, -, heq⟩ :=
            activeLocked_cons p key now order hslot
          have hused : used slots key = some slot.lastUsed := by
            unfold used
            rw [hslot]
            rfl
          have hsame : used (slots.insert key ⟨fresh, slot.lastUsed⟩) k
              = used slots k := by
            by_cases hk : k = key
            · subst hk
              rw [used_insert, hused]
            · exact used_insert_ne hk
          rw [heq] at h
          simp only at h
          split at h
          · next hact =>
              rcases List.mem_cons.mp h with rfl | h
              · exact ⟨slot.lastUsed, hused, hact⟩
              · exact hsame ▸ ih h
          · exact hsame ▸ ih h

end Wrtg.ConnPool
