/-
The heap counters against the blocks that are live, in every interleaving
of the calls in the allocator.

# The balance

A counter, with what the calls have still to add, is what the program's
blocks and the calls' own account for, with what the calls have still to
take away (`Inv.balance`). A call never has more to add than its block
(`Call.Ok`), so what a counter shows is a sum over blocks, and no
`fetch_sub` goes below it.

# The totals

Each block is in one class, so that the counters of all classes add up
to all blocks, as words (`heap_exact`).
-/
import Mathlib.Algebra.Order.BigOperators.Group.List
import Mathlib.Tactic.IntervalCases
import Mathlib.Tactic.LinearCombination
import Wrtg.Heap
import Wrtg.Lib.Run
import Wrtg.Lib.Tally

namespace Wrtg.Heap

open Lib

variable {w : Nat} {s s' : State w}

/-- The two families of counters. -/
inductive Kind where
  | bytes
  | allocs

/-- Both arrays of counters under one name. -/
def State.counter (s : State w) : Kind → Nat → BitVec w
  | .bytes => s.bytes
  | .allocs => s.allocs

/-- What a block counts for. -/
def Kind.weight : Kind → Nat → Nat
  | .bytes, size => size
  | .allocs, _ => 1

/-- What a block counts for in a class. -/
def share (w : Nat) (k : Kind) (c size : Nat) : Nat :=
  if sizeClass w size = c then k.weight size else 0

/-- What an operation has still to add to a counter. -/
def Op.adds (w : Nat) (k : Kind) (c : Nat) : Op → Nat
  | .addBytes size => match k with
      | .bytes => share w .bytes c size
      | .allocs => 0
  | .addAllocs size => match k with
      | .bytes => 0
      | .allocs => share w .allocs c size
  | _ => 0

/-- What it has still to take away. -/
def Op.subs (w : Nat) (k : Kind) (c : Nat) : Op → Nat
  | .subBytes size => match k with
      | .bytes => share w .bytes c size
      | .allocs => 0
  | .subAllocs size => match k with
      | .bytes => 0
      | .allocs => share w .allocs c size
  | _ => 0

/-- An access moves every counter by what it adds and takes. -/
theorem access_counter (s : State w) (op : Op) (k : Kind) (c : Nat) :
    (op.access s).counter k c
      = s.counter k c + (op.adds w k c : BitVec w) - (op.subs w k c) := by
  have hupdate (f : Nat → BitVec w) (size : Nat) (v : BitVec w) :
      Function.update f (sizeClass w size) v c
        = if sizeClass w size = c then v else f c := by
    rw [Function.update_apply]
    exact if_congr eq_comm rfl rfl
  cases op with
  | addBytes size =>
      cases k with
      | bytes =>
          show Function.update s.bytes _ _ c
            = s.bytes c + (share w .bytes c size : BitVec w) - (0 : Nat)
          rw [hupdate, share]
          split
          · next hc => rw [hc]; exact (sub_zero _).symm
          · exact ((sub_zero _).trans (add_zero _)).symm
      | allocs => exact ((sub_zero _).trans (add_zero _)).symm
  | addAllocs size =>
      cases k with
      | bytes => exact ((sub_zero _).trans (add_zero _)).symm
      | allocs =>
          show Function.update s.allocs _ _ c
            = s.allocs c + (share w .allocs c size : BitVec w) - (0 : Nat)
          rw [hupdate, share]
          split
          · next hc =>
            rw [hc, show ((Kind.allocs.weight size : Nat) : BitVec w) = 1
              from Nat.cast_one]
            exact (sub_zero _).symm
          · exact ((sub_zero _).trans (add_zero _)).symm
  | subBytes size =>
      cases k with
      | bytes =>
          show Function.update s.bytes _ _ c
            = s.bytes c + ((0 : Nat) : BitVec w) - (share w .bytes c size)
          rw [hupdate, share, Nat.cast_zero, add_zero]
          split
          · next hc => rw [hc]; rfl
          · exact (sub_zero _).symm
      | allocs => exact ((sub_zero _).trans (add_zero _)).symm
  | subAllocs size =>
      cases k with
      | bytes => exact ((sub_zero _).trans (add_zero _)).symm
      | allocs =>
          show Function.update s.allocs _ _ c
            = s.allocs c + ((0 : Nat) : BitVec w) - (share w .allocs c size)
          rw [hupdate, share, Nat.cast_zero, add_zero]
          split
          · next hc =>
            rw [hc, show ((Kind.allocs.weight size : Nat) : BitVec w) = 1
              from Nat.cast_one]
          · exact (sub_zero _).symm

-- =============================================================== calls

/-- What a call's block counts for, if it has one. -/
def Call.own (w : Nat) (k : Kind) (c : Nat) (call : Call) : Nat :=
  (call.block.map (share w k c)).getD 0

/-- What a call has still to add. -/
def Call.adds (w : Nat) (k : Kind) (c : Nat) (call : Call) : Nat :=
  tally (Op.adds w k c) call.todo

/-- What a call has still to take away. -/
def Call.subs (w : Nat) (k : Kind) (c : Nat) (call : Call) : Nat :=
  tally (Op.subs w k c) call.todo

/-- A call has no more to add than its block. -/
def Call.Ok (w : Nat) (call : Call) : Prop :=
  ∀ k c, call.adds w k c ≤ call.own w k c

/-- What is counted for a call: its block, as far as it is added, and
what it has not taken away yet. -/
def Call.counted (w : Nat) (k : Kind) (c : Nat) (call : Call) : Nat :=
  call.own w k c - call.adds w k c + call.subs w k c

/-- The two operations of `add` come to a block's share, in either array, -/
theorem adds_add (k : Kind) (c size : Nat) :
    tally (Op.adds w k c) (add size) = share w k c size := by
  cases k with
  | bytes => exact Nat.add_zero _
  | allocs => exact Nat.zero_add _

/-- and take nothing away; -/
theorem subs_add (k : Kind) (c size : Nat) :
    tally (Op.subs w k c) (add size) = 0 := rfl

/-- those of `sub` add nothing, -/
theorem adds_sub (k : Kind) (c size : Nat) :
    tally (Op.adds w k c) (sub size) = 0 := rfl

/-- and take a block's share. -/
theorem subs_sub (k : Kind) (c size : Nat) :
    tally (Op.subs w k c) (sub size) = share w k c size := by
  cases k with
  | bytes => exact Nat.add_zero _
  | allocs => exact Nat.zero_add _

-- =========================================================== invariant

/-- What the blocks account for, with what is still to be taken away. -/
def State.owed (s : State w) (k : Kind) (c : Nat) : Nat :=
  tally (share w k c) s.blocks + tally (Call.own w k c) s.calls
    + tally (Call.subs w k c) s.calls

/-- What holds in every state. -/
structure Inv (s : State w) : Prop where
  balance : ∀ k c,
    s.counter k c + (tally (Call.adds w k c) s.calls : BitVec w)
      = (s.owed k c : BitVec w)
  calls : ∀ call ∈ s.calls, call.Ok w

theorem inv_start : Inv (start (w := w)) where
  balance := by
    intro k c
    cases k <;> exact add_zero _
  calls := by
    intro call hcall
    cases hcall

/-- Calls and blocks change, the counters do not: what is still to be
added and what is owed change by the same. -/
theorem Inv.hold (h : Inv s) (blocks : List Nat) {calls : List Call}
    (hcalls : ∀ call ∈ calls, call.Ok w)
    (hsame : ∀ k c, ({ s with blocks, calls } : State w).owed k c
        + tally (Call.adds w k c) s.calls
      = s.owed k c + tally (Call.adds w k c) calls) :
    Inv { s with blocks, calls } where
  balance := by
    intro k c
    have hbalance := h.balance k c
    have hcast := congrArg (Nat.cast (R := BitVec w)) (hsame k c)
    rw [Nat.cast_add, Nat.cast_add] at hcast
    have hcounter : ({ s with blocks, calls } : State w).counter k c
        = s.counter k c := by
      cases k <;> rfl
    rw [hcounter]
    linear_combination hbalance - hcast
  calls := hcalls

-- A call makes an access, and the others make none.
section

variable {calls : List Call} {j : Nat} {op : Op} {todo : List Op}
  {block : Option Nat} {k : Kind} {c : Nat}

/-- A call with one operation less has that much less to add, -/
theorem tally_adds_set
    (h : calls[j]? = some { todo := op :: todo, block }) :
    tally (Call.adds w k c) (calls.set j { todo, block }) + op.adds w k c
      = tally (Call.adds w k c) calls := by
  have hset := tally_set (f := Call.adds w k c) h { todo, block }
  have hcons : Call.adds w k c { todo := op :: todo, block }
      = op.adds w k c + Call.adds w k c { todo, block } := rfl
  omega

/-- that much less to take away, -/
theorem tally_subs_set
    (h : calls[j]? = some { todo := op :: todo, block }) :
    tally (Call.subs w k c) (calls.set j { todo, block }) + op.subs w k c
      = tally (Call.subs w k c) calls := by
  have hset := tally_set (f := Call.subs w k c) h { todo, block }
  have hcons : Call.subs w k c { todo := op :: todo, block }
      = op.subs w k c + Call.subs w k c { todo, block } := rfl
  omega

/-- and the block it had. -/
theorem tally_own_set
    (h : calls[j]? = some { todo := op :: todo, block }) :
    tally (Call.own w k c) (calls.set j { todo, block })
      = tally (Call.own w k c) calls := by
  have hset := tally_set (f := Call.own w k c) h { todo, block }
  have hsame : Call.own w k c { todo := op :: todo, block }
      = Call.own w k c { todo, block } := rfl
  omega

end

@[simp] theorem access_calls (s : State w) (op : Op) :
    (op.access s).calls = s.calls := by
  cases op <;> rfl

@[simp] theorem access_blocks (s : State w) (op : Op) :
    (op.access s).blocks = s.blocks := by
  cases op <;> rfl

/-- An access moves no block. -/
theorem owed_access (s : State w) (op : Op) (k : Kind) (c : Nat) :
    (op.access s).owed k c = s.owed k c := by
  simp only [State.owed, access_calls, access_blocks]

theorem mem_cons_ok (h : Inv s) {call : Call} (hok : call.Ok w) :
    ∀ c ∈ call :: s.calls, c.Ok w := by
  intro c hc
  rcases List.mem_cons.mp hc with rfl | hc
  · exact hok
  · exact h.calls c hc

/-- Every step keeps the invariant: an access moves its share from what is
still to do into the counter, and a call brings with it what it has to do.
-/
theorem inv_step {a : Action} (h : Inv s) (hstep : apply a s = some s') :
    Inv s' := by
  cases a with
  | alloc size null =>
      simp only [apply] at hstep
      split at hstep
      · cases hstep
        exact h
      · cases hstep
        refine h.hold s.blocks (mem_cons_ok h ?_) ?_
        · intro k c
          exact Nat.le_of_eq (adds_add k c size)
        · intro k c
          have hadds := adds_add (w := w) k c size
          have hsubs := subs_add (w := w) k c size
          simp only [State.owed, tally_cons, Call.own, Call.adds, Call.subs,
            Option.map_some, Option.getD_some]
          omega
  | dealloc i =>
      obtain ⟨size, hsize, rfl⟩ := Option.map_eq_some_iff.mp hstep
      refine h.hold _ (mem_cons_ok h ?_) ?_
      · intro k c
        exact Nat.le_of_eq (adds_sub k c size)
      · intro k c
        have hadds := adds_sub (w := w) k c size
        have hsubs := subs_sub (w := w) k c size
        have hblocks := tally_eraseIdx (f := share w k c) hsize
        simp only [State.owed, tally_cons, Call.own, Call.adds, Call.subs,
          Option.map_none, Option.getD_none]
        omega
  | realloc i newSize null =>
      obtain ⟨size, hsize, hs'⟩ := Option.map_eq_some_iff.mp hstep
      split at hs'
      · cases hs'
        exact h
      · cases hs'
        refine h.hold _ (mem_cons_ok h ?_) ?_
        · intro k c
          show tally (Op.adds w k c) (sub size ++ add newSize) ≤ _
          rw [tally_append, adds_sub, adds_add, Nat.zero_add]
          exact Nat.le_refl _
        · intro k c
          have hadds := adds_add (w := w) k c newSize
          have hadds' := adds_sub (w := w) k c size
          have hsubs := subs_sub (w := w) k c size
          have hsubs' := subs_add (w := w) k c newSize
          have hblocks := tally_eraseIdx (f := share w k c) hsize
          simp only [State.owed, tally_cons, tally_append, Call.own,
            Call.adds, Call.subs, Option.map_some, Option.getD_some]
          omega
  | step j =>
      simp only [apply] at hstep
      split at hstep
      · next op todo block hcall =>
        cases hstep
        refine ⟨fun k c => ?_, ?_⟩
        · rw [access_counter]
          have hbalance := h.balance k c
          have hadds := tally_adds_set (w := w) (k := k) (c := c) hcall
          have howed : s.owed k c
              = ({ s with calls := s.calls.set j { todo, block } }
                  : State w).owed k c + op.subs w k c := by
            have hsubs := tally_subs_set (w := w) (k := k) (c := c) hcall
            have hown := tally_own_set (w := w) (k := k) (c := c) hcall
            simp only [State.owed]
            omega
          rw [howed, ← hadds, Nat.cast_add, Nat.cast_add] at hbalance
          have hcounter : ({ s with calls := s.calls.set j { todo, block } }
              : State w).counter k c = s.counter k c := by
            cases k <;> rfl
          rw [hcounter, access_calls, owed_access]
          linear_combination hbalance
        · rw [access_calls]
          intro call hmem
          rcases List.mem_or_eq_of_mem_set hmem with hmem | rfl
          · exact h.calls call hmem
          · intro k c
            have hok := h.calls _ (List.mem_of_getElem? hcall) k c
            exact Nat.le_trans (Nat.le_add_left _ _) hok
      · cases hstep
  | ret j =>
      simp only [apply] at hstep
      split at hstep
      · next block hcall =>
        cases hstep
        refine h.hold _
          (fun call hmem => h.calls call (List.mem_of_mem_eraseIdx hmem)) ?_
        intro k c
        have hadds := tally_eraseIdx (f := Call.adds w k c) hcall
        have hsubs := tally_eraseIdx (f := Call.subs w k c) hcall
        have hown := tally_eraseIdx (f := Call.own w k c) hcall
        have hblock : tally (share w k c) block.toList
            = Call.own w k c { todo := [], block } := by
          cases block with
          | none => rfl
          | some size => exact Nat.add_zero _
        have hnoadds : Call.adds w k c { todo := [], block } = 0 := rfl
        have hnosubs : Call.subs w k c { todo := [], block } = 0 := rfl
        simp only [State.owed, tally_append]
        omega
      · cases hstep

theorem inv_run {as : List Action} (hrun : run apply as start = some s) :
    Inv s :=
  run_history apply (P := fun _ s => Inv s) hrun inv_start
    fun _ _ _ _ _ h hstep => inv_step h hstep

-- ============================================================== totals

/-- What the calls have in the counters, with what they have to add, is what
their blocks account for and what they have to take away. -/
theorem tally_counted {calls : List Call} {k : Kind} {c : Nat}
    (h : ∀ call ∈ calls, call.Ok w) :
    tally (Call.counted w k c) calls + tally (Call.adds w k c) calls
      = tally (Call.own w k c) calls + tally (Call.subs w k c) calls := by
  induction calls with
  | nil => rfl
  | cons call calls ih =>
      have hrest := ih fun c hc => h c (List.mem_cons_of_mem _ hc)
      have hok := h call List.mem_cons_self k c
      simp only [tally_cons, Call.counted]
      omega

/-- A counter shows blocks, and nothing below. -/
theorem Inv.counter_eq (h : Inv s) (k : Kind) (c : Nat) :
    s.counter k c = ((tally (share w k c) s.blocks
      + tally (Call.counted w k c) s.calls : Nat) : BitVec w) := by
  have hcounted := tally_counted (k := k) (c := c) h.calls
  have howed : s.owed k c = tally (share w k c) s.blocks
      + tally (Call.counted w k c) s.calls
      + tally (Call.adds w k c) s.calls := by
    simp only [State.owed]
    omega
  have hbalance := h.balance k c
  rw [howed, Nat.cast_add] at hbalance
  exact add_right_cancel hbalance

/-- There are six classes. -/
theorem sizeClass_lt (size : Nat) : sizeClass w size < 6 := by
  unfold sizeClass
  cases hfind : (CLASS_MAX w).findIdx? fun max => size ≤ max with
  | none => exact Nat.lt_succ_self 5
  | some i => exact (List.findIdx?_eq_some_iff_findIdx_eq.mp hfind).1

theorem sum_six {α : Type} [AddMonoid α] (f : Nat → α) :
    ((List.range 6).map f).sum
      = f 0 + (f 1 + (f 2 + (f 3 + (f 4 + (f 5 + 0))))) := rfl

/-- Every size is in one of the six classes, and in one only. -/
theorem sum_share (k : Kind) (size : Nat) :
    ((List.range 6).map fun c => share w k c size).sum = k.weight size := by
  have hlt := sizeClass_lt (w := w) size
  unfold share
  generalize sizeClass w size = c at hlt
  rw [sum_six]
  interval_cases c <;> simp

/-- The classes together account for every block. -/
theorem sum_tally_share (k : Kind) (blocks : List Nat) :
    ((List.range 6).map fun c => tally (share w k c) blocks).sum
      = tally k.weight blocks := by
  induction blocks with
  | nil => rfl
  | cons size blocks ih =>
      have hsize := sum_share (w := w) k size
      rw [sum_six] at ih hsize ⊢
      simp only [tally_cons]
      omega

/-- With no call in the allocator, the counters are the blocks'. -/
theorem Inv.total_eq (h : Inv s) (hquiet : s.calls = []) (k : Kind) :
    total (s.counter k) = ((tally k.weight s.blocks : Nat) : BitVec w) := by
  have hcounter (c : Nat) : s.counter k c
      = ((tally (share w k c) s.blocks : Nat) : BitVec w) := by
    rw [h.counter_eq, hquiet, tally_nil, Nat.add_zero]
  rw [total, ← sum_tally_share (w := w), sum_six, sum_six]
  simp only [hcounter, Nat.cast_add, Nat.cast_zero]

/-- A member is no more than the sum. -/
theorem le_tally {α : Type} (f : α → Nat) {l : List α} {a : α}
    (h : a ∈ l) : f a ≤ tally f l :=
  List.le_sum_of_mem (List.mem_map_of_mem h)

/-- What a call has still to take away is counted for it. -/
theorem subs_le_counted {calls : List Call} {call : Call}
    (h : call ∈ calls) (k : Kind) (c : Nat) :
    call.subs w k c ≤ tally (Call.counted w k c) calls :=
  Nat.le_trans (Nat.le_add_left _ _) (le_tally (Call.counted w k c) h)

/-- The heap section of a snapshot can be trusted, however many threads
allocate, free and resize at once. Each counter is at any time a sum over
blocks: those of the program in the class, and what is counted for the
calls under way. What a `fetch_sub` takes is part of that sum, so none
underflows. And while no call is under way the totals are the bytes and
the number of the live blocks, as words. -/
theorem heap_exact {as : List Action} (hrun : run apply as start = some s) :
    (∀ k c, s.counter k c = ((tally (share w k c) s.blocks
        + tally (Call.counted w k c) s.calls : Nat) : BitVec w))
      ∧ (∀ call ∈ s.calls, ∀ op ∈ call.todo, ∀ k c,
          op.subs w k c ≤ tally (Call.counted w k c) s.calls)
      ∧ (s.calls = [] →
        total s.bytes = ((s.blocks.sum : Nat) : BitVec w)
          ∧ total s.allocs = ((s.blocks.length : Nat) : BitVec w)) := by
  have h := inv_run hrun
  refine ⟨h.counter_eq, ?_, ?_⟩
  · intro call hcall op hop k c
    exact Nat.le_trans (le_tally (Op.subs w k c) hop)
      (subs_le_counted hcall k c)
  · intro hquiet
    refine ⟨(h.total_eq hquiet .bytes).trans ?_,
      (h.total_eq hquiet .allocs).trans ?_⟩
    · rw [show tally Kind.bytes.weight s.blocks = s.blocks.sum from
        congrArg List.sum (List.map_id _)]
    · rw [show tally Kind.allocs.weight s.blocks = s.blocks.length from ?_]
      show (s.blocks.map fun _ => 1).sum = s.blocks.length
      simp

/-- A block grows into another class while a second one is freed. -/
def sampleRun : List Action :=
  [ .alloc 100 false, .alloc 40 false, .step 0, .step 1, .step 0, .step 1,
    .ret 0, .ret 0, .realloc 0 5000 false, .step 0, .dealloc 0, .step 1,
    .step 0, .step 1, .step 0, .step 1, .ret 0, .ret 0 ]

theorem sample_quiet :
    (run apply sampleRun (start (w := 32))).map (fun s => (s.blocks, s.calls))
      = some ([5000], []) := by
  decide +kernel

theorem heap_exact_sample :
    ∃ s, run apply sampleRun (start (w := 32)) = some s
      ∧ total s.bytes = 5000 ∧ total s.allocs = 1 := by
  obtain ⟨s, hrun, hquiet⟩ := Option.map_eq_some_iff.mp sample_quiet
  simp only [Prod.mk.injEq] at hquiet
  obtain ⟨hbytes, hallocs⟩ := (heap_exact hrun).2.2 hquiet.2
  rw [hquiet.1] at hbytes hallocs
  exact ⟨s, hrun, hbytes, hallocs⟩

end Wrtg.Heap
