/-
What holds of the daemon in every run (`watchdog.rs`, `stats.rs`).

A permit is free, or with the accept loop, or with one task (`Permits`),
so that no more connections are served than the cap allows and none waits
for a slot that is free (`served_within_cap`). Every connection keeps its
books, and the array holds their sums as words, so a snapshot is
consistent at any time (`counters_consistent`). The loop sleeps behind
every accept that fails, and longer behind every bind that does, so it
does not spin (`accept_paced`).
-/
import Wrtg.Daemon
import Wrtg.Lib.Run
import Wrtg.Proofs.Session

namespace Wrtg.Daemon

open Lib Session Stats

variable {w cap now : Nat} {s s' : State w} {xs : List Action}

-- ============================================================== permits

/-- The connections that have been accepted and are not over. -/
def State.live (s : State w) : Nat :=
  tally (fun conn => conn.task.permit) s.conns

/-- The permit of the loop. -/
def LoopPc.permit : LoopPc → Nat
  | .accepting => 1
  | _ => 0

/-- Where the permits are, and what the gauge shows. -/
structure Permits (cap : Nat) (s : State w) : Prop where
  conserved : s.permits + s.loop.permit + s.live = cap
  gauge : s.active = tally (fun conn => conn.task.active) s.conns

/-- What a turn does to the daemon. -/
theorem turn_cases {i : Nat} {t : Turn} (h : apply (.turn i t) s = some s') :
    ∃ conn counts task, s.conns[i]? = some conn
      ∧ conn.task.apply t = some (counts, task)
      ∧ s' = { s with
          conns := s.conns.set i { task, counted := conn.counted ++ counts }
          active := s.active + task.active - conn.task.active
          permits := s.permits + conn.task.permit - task.permit
          counters := incAll counts s.counters } := by
  obtain ⟨conn, hconn, h⟩ := Option.bind_eq_some_iff.mp h
  obtain ⟨⟨counts, task⟩, htask, hs'⟩ := Option.map_eq_some_iff.mp h
  exact ⟨conn, counts, task, hconn, htask, hs'.symm⟩

/-- No task gets a permit back. -/
theorem Task.apply_permit {t : Turn} {task task' : Task} {counts : List Stat}
    (h : task.apply t = some (counts, task')) :
    task'.permit ≤ task.permit := by
  cases t with
  | poll =>
      cases task with
      | spawned sess =>
          cases h
          exact Nat.le_refl _
      | running sess => cases h
      | orphaned race => cases h
      | gone => cases h
  | session a =>
      cases task with
      | running sess =>
          obtain ⟨⟨counts, sess'⟩, -, heq⟩ := Option.map_eq_some_iff.mp h
          cases heq
          split
          · exact Nat.zero_le _
          · exact Nat.le_refl _
      | spawned sess => cases h
      | orphaned race => cases h
      | gone => cases h
  | panicked =>
      cases task with
      | running sess =>
          cases h
          split <;> exact Nat.zero_le _
      | spawned sess => cases h
      | orphaned race => cases h
      | gone => cases h
  | racer i dial =>
      cases task with
      | orphaned race =>
          obtain ⟨⟨counts, race'⟩, -, heq⟩ := Option.map_eq_some_iff.mp h
          cases heq
          exact Nat.le_refl _
      | spawned sess => cases h
      | running sess => cases h
      | gone => cases h

theorem permits_step {a : Action} (h : apply a s = some s')
    (hi : Permits cap s) : Permits cap s' := by
  obtain ⟨hconserved, hgauge⟩ := hi
  unfold State.live at hconserved
  cases a with
  | pass duration =>
      cases h
      exact ⟨hconserved, hgauge⟩
  | acquired =>
      simp only [apply] at h
      split at h <;> cases h
      next hcond =>
      refine ⟨?_, hgauge⟩
      rw [hcond.1] at hconserved
      simp only [LoopPc.permit, State.live] at hconserved ⊢
      omega
  | accepted origIp origPort =>
      simp only [apply] at h
      split at h <;> cases h
      next hloop =>
      rw [hloop] at hconserved
      refine ⟨?_, ?_⟩
      · simp only [LoopPc.permit, State.live, tally_append, tally_cons,
          tally_nil, Task.permit] at hconserved ⊢
        omega
      · simp only [tally_append, tally_cons, tally_nil, Task.active]
        exact hgauge
  | acceptFailed =>
      simp only [apply] at h
      split at h <;> cases h
      next hloop =>
      rw [hloop] at hconserved
      refine ⟨?_, hgauge⟩
      simp only [LoopPc.permit, State.live] at hconserved ⊢
      omega
  | woken =>
      simp only [apply] at h
      split at h
      · next hloop =>
          split at h <;> cases h
          rw [hloop] at hconserved
          refine ⟨?_, hgauge⟩
          show s.permits + (if _ then LoopPc.rebinding
            else LoopPc.reserving).permit + _ = cap
          split <;> exact hconserved
      · next hloop =>
          split at h <;> cases h
          rw [hloop] at hconserved
          exact ⟨hconserved, hgauge⟩
      · cases h
  | rebound =>
      simp only [apply] at h
      split at h <;> cases h
      next hloop =>
      rw [hloop] at hconserved
      exact ⟨hconserved, hgauge⟩
  | rebindFailed =>
      simp only [apply] at h
      split at h <;> cases h
      next hloop =>
      rw [hloop] at hconserved
      exact ⟨hconserved, hgauge⟩
  | turn i t =>
      obtain ⟨conn, counts, task, hconn, htask, rfl⟩ := turn_cases h
      have hle := Task.apply_permit htask
      have hpermit := tally_set (f := fun conn => conn.task.permit) hconn
        { task, counted := conn.counted ++ counts }
      have hactive := tally_set (f := fun conn => conn.task.active) hconn
        { task, counted := conn.counted ++ counts }
      simp only at hpermit hactive
      refine ⟨?_, ?_⟩
      · simp only [State.live]
        omega
      · simp only
        omega

theorem permits_run (h : run apply xs (start w cap now) = some s) :
    Permits cap s :=
  run_invariant apply (C := fun _ _ => True) h (fun _ _ _ _ _ _ => trivial)
    ⟨rfl, rfl⟩ fun _ _ _ hi _ hstep => permits_step hstep hi

theorem active_le (conns : List Conn) :
    tally (fun conn => conn.task.active) conns
      ≤ tally (fun conn => conn.task.permit) conns := by
  induction conns with
  | nil => exact Nat.le_refl _
  | cons conn conns ih =>
      rw [tally_cons, tally_cons]
      have htask : conn.task.active ≤ conn.task.permit := by
        cases conn.task <;> simp [Task.active, Task.permit]
      omega

/-- In every run, whatever the interleaving and whatever fails or panics,
the free permits, the loop's and those of the live connections make the
cap. So no more connections are live than the cap allows, the gauge shows
those that run, and the loop waits for a permit only when `cap`
connections hold one: an accept that fails leaves none behind, and neither
does a session, however it ends. -/
theorem served_within_cap (w cap now : Nat) (xs : List Action) (s : State w)
    (h : run apply xs (start w cap now) = some s) :
    s.permits + s.loop.permit + s.live = cap
      ∧ s.live ≤ cap
      ∧ s.active ≤ s.live
      ∧ (s.loop = .reserving → (s.permits = 0 ↔ s.live = cap))
      ∧ (s.live = 0 → s.active = 0 ∧ s.permits + s.loop.permit = cap) := by
  obtain ⟨hconserved, hgauge⟩ := permits_run h
  have hactive := active_le s.conns
  unfold State.live at hconserved ⊢
  refine ⟨hconserved, by omega, by omega, fun hloop => ?_,
    fun hnone => by omega⟩
  rw [hloop] at hconserved
  simp only [LoopPc.permit] at hconserved
  omega

-- ============================================================= counters

/-- Where the session of a task stands; a race whose session is gone
counts on. -/
def Task.pc : Task → Pc
  | .spawned sess => sess.pc
  | .running sess => sess.pc
  | .orphaned race => .race race
  | .gone => .ended

/-- How often the connections have counted `stat`. -/
def State.times (s : State w) (stat : Stat) : Nat :=
  tally (fun conn => conn.counted.count stat) s.conns

/-- The books of the connections, and the array. -/
structure Counted (s : State w) : Prop where
  books : ∀ conn ∈ s.conns, Books conn.task.pc conn.counted
  array : ∀ stat, s.counters stat = BitVec.ofNat w (s.times stat)

theorem books_turn {t : Turn} {task task' : Task}
    {counted counts : List Stat} (hbooks : Books task.pc counted)
    (h : task.apply t = some (counts, task')) :
    Books task'.pc (counted ++ counts) := by
  cases t with
  | poll =>
      cases task with
      | spawned sess =>
          cases h
          rw [List.append_nil]
          exact hbooks
      | running sess => cases h
      | orphaned race => cases h
      | gone => cases h
  | session a =>
      cases task with
      | running sess =>
          obtain ⟨⟨counts, sess'⟩, hstep, heq⟩ := Option.map_eq_some_iff.mp h
          cases heq
          have hnext := books_step hbooks hstep
          show Books (Task.pc (if _ then _ else _)) _
          split
          · next hended =>
              rw [hended] at hnext
              exact hnext
          · exact hnext
      | spawned sess => cases h
      | orphaned race => cases h
      | gone => cases h
  | panicked =>
      cases task with
      | running sess =>
          cases h
          rw [List.append_nil]
          change Books sess.pc counted at hbooks
          split
          · next race hpc =>
              rw [hpc] at hbooks
              exact hbooks
          · exact books_ended hbooks
      | spawned sess => cases h
      | orphaned race => cases h
      | gone => cases h
  | racer i dial =>
      cases task with
      | orphaned race =>
          obtain ⟨⟨counts, race'⟩, hstep, heq⟩ := Option.map_eq_some_iff.mp h
          cases heq
          exact books_race hbooks hstep
      | spawned sess => cases h
      | running sess => cases h
      | gone => cases h

theorem counted_step {a : Action} (h : apply a s = some s')
    (hi : Counted s) : Counted s' := by
  obtain ⟨hbooks, harray⟩ := hi
  cases a with
  | accepted origIp origPort =>
      simp only [apply] at h
      split at h <;> cases h
      refine ⟨fun conn hconn => ?_, fun stat => ?_⟩
      · rcases List.mem_append.mp hconn with hconn | hconn
        · exact hbooks conn hconn
        · rw [List.mem_singleton.mp hconn]
          exact books_start origIp origPort
      · have hinc := incAll_apply [.accepted] s.counters stat
        show incAll [.accepted] s.counters stat = _
        rw [hinc, harray, State.times, State.times, tally_append, tally_cons,
          tally_nil, Nat.add_zero, BitVec.ofNat_add]
  | turn i t =>
      obtain ⟨conn, counts, task, hconn, htask, rfl⟩ := turn_cases h
      refine ⟨fun conn' hconn' => ?_, fun stat => ?_⟩
      · rcases List.mem_or_eq_of_mem_set hconn' with hmem | rfl
        · exact hbooks conn' hmem
        · exact books_turn (hbooks conn (List.mem_of_getElem? hconn)) htask
      · have htimes := tally_set
          (f := fun conn : Conn => conn.counted.count stat) hconn
          { task, counted := conn.counted ++ counts }
        simp only [List.count_append] at htimes
        have hsum : tally (fun conn : Conn => conn.counted.count stat)
            (s.conns.set i ⟨task, conn.counted ++ counts⟩)
            = s.times stat + counts.count stat := by
          unfold State.times
          omega
        show incAll counts s.counters stat = BitVec.ofNat w (tally _ _)
        rw [incAll_apply, harray, hsum, BitVec.ofNat_add]
  | pass duration =>
      cases h
      exact ⟨hbooks, harray⟩
  | acquired | acceptFailed | rebound | rebindFailed =>
      simp only [apply] at h
      split at h <;> cases h
      exact ⟨hbooks, harray⟩
  | woken =>
      simp only [apply] at h
      split at h
      · split at h <;> cases h
        exact ⟨hbooks, harray⟩
      · split at h <;> cases h
        exact ⟨hbooks, harray⟩
      · cases h

theorem counted_run (h : run apply xs (start w cap now) = some s) :
    Counted s :=
  run_invariant apply (C := fun _ _ => True) h (fun _ _ _ _ _ _ => trivial)
    ⟨(fun _ hconn => nomatch hconn), fun _ => rfl⟩
    fun _ _ _ hi _ hstep => counted_step hstep hi

/-- The times of the accepts that fail, from a clock at `now`. -/
def failedAt : Nat → List Action → List Nat
  | _, [] => []
  | now, .pass duration :: xs => failedAt (now + duration) xs
  | now, .acceptFailed :: xs => now :: failedAt now xs
  | now, _ :: xs => failedAt now xs

/-- The accepts that have failed since one went through, or the listener
was bound anew. -/
def streak (xs : List Action) : Nat :=
  xs.foldl (fun n a => match a with
    | .acceptFailed => n + 1
    | .accepted _ _ => 0
    | .rebound => 0
    | _ => n) 0

/-- The binds that have failed since one went through. -/
def failedRebinds (xs : List Action) : Nat :=
  xs.foldl (fun n a => match a with
    | .rebindFailed => n + 1
    | .rebound => 0
    | _ => n) 0

/-- What the loop sleeps behind a failed bind, `k` of which have failed
before. -/
def backoffAfter (k : Nat) : Nat :=
  min (ACCEPT_ERROR_BACKOFF * 2 ^ k) REBIND_MAX_BACKOFF

theorem backoffAfter_succ (k : Nat) :
    min (backoffAfter k * 2) REBIND_MAX_BACKOFF = backoffAfter (k + 1) := by
  unfold backoffAfter
  rw [Nat.pow_succ, ← Nat.mul_assoc]
  omega

/-- The earliest the loop can accept again. -/
def State.ready (s : State w) : Nat :=
  match s.loop with
  | .backingOff deadline => deadline
  | _ => s.now

/-- No step makes it earlier; an accept that fails puts it off. -/
theorem ready_step {a : Action} (h : apply a s = some s') :
    s.ready ≤ s'.ready
      ∧ (a = .acceptFailed → s.ready = s.now
        ∧ s'.ready = s.now + ACCEPT_ERROR_BACKOFF) := by
  cases a with
  | pass duration =>
      cases h
      refine ⟨?_, fun ha => nomatch ha⟩
      unfold State.ready
      cases s.loop <;> simp
  | acceptFailed =>
      simp only [apply] at h
      split at h <;> cases h
      next hloop =>
      simp [State.ready, hloop]
  | woken =>
      refine ⟨?_, fun ha => nomatch ha⟩
      simp only [apply] at h
      split at h
      · next hloop =>
          split at h <;> cases h
          next hdue =>
          simp only [State.ready, hloop]
          split
          · next heq => split at heq <;> cases heq
          · exact hdue
      · next hloop =>
          split at h <;> cases h
          simp [State.ready, hloop]
      · cases h
  | turn i t =>
      obtain ⟨conn, counts, task, -, -, rfl⟩ := turn_cases h
      exact ⟨Nat.le_refl _, fun ha => nomatch ha⟩
  | acquired =>
      simp only [apply] at h
      split at h <;> cases h
      next hcond =>
      simp [State.ready, hcond.1]
  | accepted | rebound | rebindFailed =>
      simp only [apply] at h
      split at h <;> cases h
      next hloop =>
      simp [State.ready, hloop]

/-- The times of a step and of what follows it. -/
theorem failedAt_cons {a : Action} (h : apply a s = some s')
    (xs : List Action) :
    (a = .acceptFailed
        ∧ failedAt s.now (a :: xs) = s.now :: failedAt s'.now xs)
      ∨ failedAt s.now (a :: xs) = failedAt s'.now xs := by
  cases a with
  | pass duration =>
      cases h
      exact .inr rfl
  | acceptFailed =>
      simp only [apply] at h
      split at h <;> cases h
      exact .inl ⟨rfl, rfl⟩
  | woken =>
      simp only [apply] at h
      split at h
      · split at h <;> cases h
        exact .inr rfl
      · split at h <;> cases h
        exact .inr rfl
      · cases h
  | turn i t =>
      obtain ⟨conn, counts, task, -, -, rfl⟩ := turn_cases h
      exact .inr rfl
  | acquired | accepted | rebound | rebindFailed =>
      simp only [apply] at h
      split at h <;> cases h
      exact .inr rfl

/-- No accept fails before the loop is ready, and each two that fail are
the backoff apart. -/
theorem failedAt_spaced (h : run apply xs s = some s') :
    (∀ t ∈ failedAt s.now xs, s.ready ≤ t)
      ∧ (failedAt s.now xs).Pairwise
        fun t u => t + ACCEPT_ERROR_BACKOFF ≤ u := by
  induction xs generalizing s with
  | nil => exact ⟨(fun _ ht => nomatch ht), .nil⟩
  | cons a xs ih =>
      obtain ⟨t, hstep, hrun⟩ := Option.bind_eq_some_iff.mp h
      obtain ⟨hafter, hspaced⟩ := ih hrun
      obtain ⟨hmono, hfailed⟩ := ready_step hstep
      have hlate : ∀ u ∈ failedAt t.now xs, s.ready ≤ u :=
        fun u hu => hmono.trans (hafter u hu)
      rcases failedAt_cons hstep xs with ⟨ha, htimes⟩ | htimes <;> rw [htimes]
      · obtain ⟨hready, hbackoff⟩ := hfailed ha
        refine ⟨fun u hu => ?_, List.Pairwise.cons (fun u hu => ?_) hspaced⟩
        · rcases List.mem_cons.mp hu with rfl | hu
          · exact Nat.le_of_eq hready
          · exact hlate u hu
        · rw [← hbackoff]
          exact hafter u hu
      · exact ⟨hlate, hspaced⟩

/-- How the loop stands to the errors it has met. -/
structure Paced (xs : List Action) (s : State w) : Prop where
  errors : s.errors ≤ streak xs ∧ s.errors ≤ REBIND_AFTER_ERRORS + 1
  fresh : s.loop = .reserving ∨ s.loop = .accepting →
    s.errors ≤ REBIND_AFTER_ERRORS
  armed : (s.loop = .rebinding ∨ ∃ deadline, s.loop = .waiting deadline) →
    REBIND_AFTER_ERRORS ≤ s.errors
  backoff : match s.loop with
    | .waiting _ => ∃ k, failedRebinds xs = k + 1
        ∧ s.rebindBackoff = backoffAfter k
    | _ => s.rebindBackoff = backoffAfter (failedRebinds xs)

/-- The step is none of the loop's. -/
theorem paced_elsewhere {a : Action} (hi : Paced xs s)
    (hloop : s'.loop = s.loop) (herrors : s'.errors = s.errors)
    (hbackoff : s'.rebindBackoff = s.rebindBackoff)
    (hstreak : streak (xs ++ [a]) = streak xs)
    (hrebinds : failedRebinds (xs ++ [a]) = failedRebinds xs) :
    Paced (xs ++ [a]) s' := by
  obtain ⟨herr, hfresh, harmed, hback⟩ := hi
  refine ⟨?_, ?_, ?_, ?_⟩
  · rw [herrors, hstreak]
    exact herr
  · rw [hloop, herrors]
    exact hfresh
  · rw [hloop, herrors]
    exact harmed
  · rw [hloop, hbackoff, hrebinds]
    exact hback

theorem paced_step {a : Action} (h : apply a s = some s')
    (hi : Paced xs s) : Paced (xs ++ [a]) s' := by
  cases a with
  | pass duration =>
      cases h
      exact paced_elsewhere hi rfl rfl rfl (by simp [streak])
        (by simp [failedRebinds])
  | turn i t =>
      obtain ⟨conn, counts, task, -, -, rfl⟩ := turn_cases h
      exact paced_elsewhere hi rfl rfl rfl (by simp [streak])
        (by simp [failedRebinds])
  | acquired =>
      simp only [apply] at h
      split at h <;> cases h
      next hcond =>
      obtain ⟨herr, hfresh, -, hback⟩ := hi
      simp only [hcond.1] at hback
      refine ⟨?_, fun _ => hfresh (.inl hcond.1), ?_, ?_⟩
      · simpa [streak] using herr
      · rintro (hloop | ⟨deadline, hloop⟩) <;> cases hloop
      · simpa [failedRebinds] using hback
  | accepted origIp origPort =>
      simp only [apply] at h
      split at h <;> cases h
      next hloop =>
      have hback := hi.backoff
      simp only [hloop] at hback
      refine ⟨⟨Nat.zero_le _, Nat.zero_le _⟩, fun _ => Nat.zero_le _, ?_, ?_⟩
      · rintro (hloop | ⟨deadline, hloop⟩) <;> cases hloop
      · simpa [failedRebinds] using hback
  | acceptFailed =>
      simp only [apply] at h
      split at h <;> cases h
      next hloop =>
      obtain ⟨herr, hfresh, -, hback⟩ := hi
      have hle := hfresh (.inr hloop)
      simp only [hloop] at hback
      refine ⟨?_, ?_, ?_, ?_⟩
      · simp only [streak, List.foldl_append, List.foldl_cons,
          List.foldl_nil] at herr ⊢
        omega
      · rintro (hloop | hloop) <;> cases hloop
      · rintro (hloop | ⟨deadline, hloop⟩) <;> cases hloop
      · simpa [failedRebinds] using hback
  | woken =>
      simp only [apply] at h
      split at h
      · next deadline hloop =>
          split at h <;> cases h
          obtain ⟨herr, -, -, hback⟩ := hi
          simp only [hloop] at hback
          by_cases hmany : REBIND_AFTER_ERRORS ≤ s.errors
          · simp only [if_pos hmany]
            refine ⟨?_, ?_, fun _ => hmany, ?_⟩
            · simpa [streak] using herr
            · rintro (hloop | hloop) <;> cases hloop
            · simpa [failedRebinds] using hback
          · simp only [if_neg hmany]
            refine ⟨?_, fun _ => by simp only; omega, ?_, ?_⟩
            · simpa [streak] using herr
            · rintro (hloop | ⟨deadline, hloop⟩) <;> cases hloop
            · simpa [failedRebinds] using hback
      · next deadline hloop =>
          split at h <;> cases h
          obtain ⟨herr, -, harmed, hback⟩ := hi
          have hmany := harmed (.inr ⟨deadline, hloop⟩)
          simp only [hloop] at hback
          obtain ⟨k, hk, hbackoff⟩ := hback
          refine ⟨?_, fun _ => Nat.le_refl _, ?_, ?_⟩
          · simp only [streak, List.foldl_append, List.foldl_cons,
              List.foldl_nil] at herr ⊢
            omega
          · rintro (hloop | ⟨deadline, hloop⟩) <;> cases hloop
          · have hsame : failedRebinds (xs ++ [.woken]) = failedRebinds xs := by
              simp [failedRebinds]
            simp only [hsame, hk, hbackoff, backoffAfter_succ]
      · cases h
  | rebound =>
      simp only [apply] at h
      split at h <;> cases h
      refine ⟨⟨Nat.zero_le _, Nat.zero_le _⟩, fun _ => Nat.zero_le _, ?_, ?_⟩
      · rintro (hloop | ⟨deadline, hloop⟩) <;> cases hloop
      · have hzero : failedRebinds (xs ++ [.rebound]) = 0 := by
          simp [failedRebinds]
        rw [hzero]
        show ACCEPT_ERROR_BACKOFF = backoffAfter 0
        decide
  | rebindFailed =>
      simp only [apply] at h
      split at h <;> cases h
      next hloop =>
      obtain ⟨herr, -, harmed, hback⟩ := hi
      simp only [hloop] at hback
      refine ⟨?_, ?_, fun _ => harmed (.inl hloop), ?_⟩
      · simpa [streak] using herr
      · rintro (hloop | hloop) <;> cases hloop
      · refine ⟨failedRebinds xs, ?_, hback⟩
        simp [failedRebinds]

/-- In every run each two accepts that fail are at least the backoff
apart, so that the loop does not spin; the error count stays below seven;
the listener is bound anew only behind five failed accepts with none
between them that went through; and behind each bind that fails the loop
sleeps twice as long as behind the one before, from the accept backoff up
to the ceiling. -/
theorem accept_paced (w cap now : Nat) (xs : List Action) (s : State w)
    (h : run apply xs (start w cap now) = some s) :
    (failedAt now xs).Pairwise (fun t u => t + ACCEPT_ERROR_BACKOFF ≤ u)
      ∧ s.errors ≤ 6
      ∧ (s.loop = .rebinding → 5 ≤ streak xs
        ∧ apply .rebindFailed s = some { s with
            loop := .waiting (s.now + backoffAfter (failedRebinds xs)) }) := by
  have hi : Paced xs s := by
    refine run_history apply (P := Paced) h ?_
      fun _ _ _ _ _ hi hstep => paced_step hstep hi
    refine ⟨⟨Nat.zero_le _, Nat.zero_le _⟩, fun _ => Nat.zero_le _, ?_, ?_⟩
    · rintro (hloop | ⟨deadline, hloop⟩) <;> cases hloop
    · show ACCEPT_ERROR_BACKOFF = backoffAfter 0
      decide
  refine ⟨(failedAt_spaced h).2, hi.errors.2, fun hloop => ⟨?_, ?_⟩⟩
  · exact (hi.armed (.inl hloop)).trans hi.errors.1
  · have hback := hi.backoff
    rw [hloop] at hback
    simp only [apply, hloop, if_true]
    rw [hback]

-- ============================================================= sample

/-- One slot, a session that panics while its race runs and one of its
racers connects, and a burst of accept errors behind which the listener
is bound anew. -/
def sampleRun : List Action :=
  [.acquired, .accepted "192.168.1.1".toList 443, .turn 0 .poll,
    .turn 0 (.session (.conn false)),
    .turn 0 (.session (.init (.parsed ⟨2, false, true, true, []⟩))),
    .turn 0 (.session (.cfFallback false)),
    .turn 0 (.session (.workerPool false [])),
    .turn 0 (.session (.proxies ["a.com".toList, "b.com".toList])),
    .turn 0 (.session (.race (.primary .failed))), .turn 0 .panicked,
    .turn 0 (.racer 0 .connected), .acquired] ++
  (List.replicate 4 [.acceptFailed, .pass ACCEPT_ERROR_BACKOFF, .woken,
    .acquired]).flatten ++
  [.acceptFailed, .pass ACCEPT_ERROR_BACKOFF, .woken]

theorem sample_isSome :
    (run apply sampleRun (start 32 1 0)).isSome = true := by decide +kernel

/-- Its slot is free again. -/
theorem served_within_cap_sample :
    ∃ s, run apply sampleRun (start 32 1 0) = some s
      ∧ s.permits + s.loop.permit + s.live = 1 := by
  obtain ⟨s, hrun⟩ := Option.isSome_iff_exists.mp sample_isSome
  exact ⟨s, hrun, (served_within_cap 32 1 0 sampleRun s hrun).1⟩

/-- Five accepts have failed within a second. -/
theorem accept_paced_sample :
    failedAt 0 sampleRun = [0, 1, 2, 3, 4].map (ACCEPT_ERROR_BACKOFF * ·)
      ∧ (failedAt 0 sampleRun).Pairwise
        fun t u => t + ACCEPT_ERROR_BACKOFF ≤ u := by
  obtain ⟨s, hrun⟩ := Option.isSome_iff_exists.mp sample_isSome
  exact ⟨by decide, (accept_paced 32 1 0 sampleRun s hrun).1⟩

end Wrtg.Daemon
