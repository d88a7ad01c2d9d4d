/-
Which Workers a loop dials while they are on cooldown
(`cf_worker_cooldown.rs`, and the Worker loops of `bridge.rs` and
`cf_worker_pool.rs`).

A loop filters its Workers once, before the first dial, and a 429 on the
way cools the siblings that are still to come. So which Workers come
behind which in the order the loop has them decides: none that comes
behind an answer that cools it (`NoneCooled`) is on cooldown when it is
dialled, however long the dials take (`dialWorkers_free`), and the first
that does is, where the dials take no time (`dialWorkers_cooled`).

# Sections

* what is asked, and the condition
* one dial: what it leaves of another Worker
* the loop: runs without a cooled dial, and with one
* the three loops
-/
import Wrtg.Config
import Wrtg.Proofs.CfBalancer
import Wrtg.Proofs.CfWorkerMarks

namespace Wrtg.CfWorker

open Ws CfBalancer CfProxyDomains Cooldowns

-- ================================================== what is asked

/-- No Worker was dialled while it was on cooldown. -/
def NoCooledDial (dialled : List Dialled) : Prop :=
  ∀ d ∈ dialled, (d.cooldowns.workerRateLimited d.worker d.start).1 = false

instance (dialled : List Dialled) : Decidable (NoCooledDial dialled) :=
  inferInstanceAs (Decidable (∀ d ∈ dialled, _ = false))

/-- Dials that take these times and come to these outcomes. -/
def dialsOf (took : Nat → Nat) (outcomes : Nat → DialOutcome) (i : Nat) :
    Dial where
  took := took i
  outcome := outcomes i

/-- An outcome that ends a loop. -/
def WorkerLoop.ends (loop : WorkerLoop) : DialOutcome → Bool
  | .opened carried => loop.stops carried
  | _ => false

/-- The Workers a loop gets to, and what their dials come to. -/
def reached (loop : WorkerLoop) (outcomes : Nat → DialOutcome) :
    Nat → List Text → List (Text × DialOutcome)
  | _, [] => []
  | i, worker :: workers =>
      (worker, outcomes i) ::
        if loop.ends (outcomes i) then []
        else reached loop outcomes (i + 1) workers

/-- An answer of `w` cools Worker `p`: a 429, the Worker itself and its
account; a 503, the Worker itself. -/
def Cools (w : Text) (outcome : DialOutcome) (p : Text) : Bool :=
  match outcome with
  | .refused err =>
      if err.httpStatus = some 429 then p == w || sameAccount w p
      else err.httpStatus == some 503 && p == w
  | _ => false

/-- No Worker comes behind an answer that cools it. -/
def NoneCooled (dials : List (Text × DialOutcome)) : Prop :=
  dials.Pairwise fun a b => Cools a.1 a.2 b.1 = false

instance (dials : List (Text × DialOutcome)) : Decidable (NoneCooled dials) :=
  inferInstanceAs (Decidable (List.Pairwise _ _))

-- ==================================================== one dial

theorem key_eq {w : Text} (hw : Host w) : Cooldown429.key w = w := by
  unfold Cooldown429.key
  rw [hw.trim, hw.lower]

theorem key_ne_nil {w : Text} (hw : Host w) : Cooldown429.key w ≠ [] := by
  rw [key_eq hw]
  exact hw.ne_nil

theorem workerRateLimited_fst {w : Text} (hw : Host w) (c : Cooldowns)
    (now : Nat) : (c.workerRateLimited w now).1 = c.limited w now := by
  have hne : w.isEmpty = false := by simpa using hw.ne_nil
  rw [workerRateLimited_key, key_eq hw, hne]
  rfl

/-- Time passing cools nobody. -/
theorem limited_later {c : Cooldowns} {w : Text} {now now' : Nat}
    (hle : now ≤ now') (h : c.limited w now = false) :
    c.limited w now' = false := by
  unfold Cooldowns.limited at h ⊢
  rw [Bool.or_eq_false_iff] at h ⊢
  exact ⟨CooldownState.coolingAt_mono hle h.1,
    CooldownState.coolingAt_mono hle h.2⟩

theorem limited_of_entries {c c' : Cooldowns} {p : Text} (now : Nat)
    (h429 : c'.cfWorker429.entry p = c.cfWorker429.entry p)
    (h503 : c'.cfWorker503.entry p = c.cfWorker503.entry p) :
    c'.limited p now = c.limited p now := by
  unfold Cooldowns.limited
  rw [h429, h503]

/-- Clearing another host leaves `p`. -/
theorem clearWorker429_limited_ne (c : Cooldowns) {w p : Text} (now : Nat)
    (hw : Host w) (hne : p ≠ w) :
    (c.clearWorker429 w).limited p now = c.limited p now := by
  rw [← key_eq hw] at hne
  exact limited_of_entries now (Cooldown429.entry_clear_ne hne)
    (Cooldown429.entry_clear_ne hne)

/-- A Worker that is cleared is not on cooldown. -/
theorem clearWorker429_limited_self (c : Cooldowns) {w : Text} (now : Nat)
    (hw : Host w) : (c.clearWorker429 w).limited w now = false := by
  have hentry : ∀ cd : Cooldown429, (cd.clear w).entry w = .default := by
    intro cd
    have h := Cooldown429.entry_clear_self cd (key_ne_nil hw)
    rwa [key_eq hw] at h
  unfold Cooldowns.limited
  rw [show (c.clearWorker429 w).cfWorker429.entry w = _ from hentry _,
    show (c.clearWorker429 w).cfWorker503.entry w = _ from hentry _]
  rfl

/-- A failure leaves a Worker alone that it does not cool. -/
theorem markWorker429WithPeers_free (c : Cooldowns) (now : Nat)
    {w p : Text} {err : WsConnectError} (peers : List Text) (hw : Host w)
    (hpeers : ∀ q ∈ peers, Host q)
    (h : Cools w (.refused err) p = false) :
    (c.markWorker429WithPeers w err peers now).2.limited p now
      = c.limited p now := by
  unfold Cools at h
  simp only at h
  by_cases h429 : err.httpStatus = some 429
  · rw [if_pos h429, Bool.or_eq_false_iff, beq_eq_false_iff_ne] at h
    have hself : p ≠ Cooldown429.key w := by
      rw [key_eq hw]
      exact h.1
    have hother : ∀ q ∈ peers, sameAccount w q = true →
        p ≠ Cooldown429.key q := by
      intro q hq hsame hpq
      rw [key_eq (hpeers q hq)] at hpq
      rw [hpq, hsame] at h
      exact Bool.noConfusion h.2
    have hkeep : Keeps p now c (c.markWorker429WithPeers w err peers now).2 :=
      marked_keeps h429 (key_ne_nil hw) hself (.inr hother)
    exact hkeep.limited
  · rw [if_neg h429] at h
    by_cases h503 : err.httpStatus = some 503
    · have hne : p ≠ w := by simpa [h503] using h
      rw [markWorker429WithPeers_503 h503 c (key_ne_nil hw)]
      split
      · refine limited_of_entries now rfl
          (Cooldown429.entry_marked_ne ?_)
        rwa [key_eq hw]
      · rfl
    · rw [markWorker429WithPeers_other h429 h503]

/-- A failure clears no Worker. -/
theorem markWorker429WithPeers_limited {c : Cooldowns} {now : Nat}
    {w p : Text} (err : WsConnectError) (peers : List Text) (hw : Host w)
    (hp : Host p) (hne : p ≠ w) (h : c.limited p now = true) :
    (c.markWorker429WithPeers w err peers now).2.limited p now = true := by
  have hkey : p ≠ Cooldown429.key w := by rwa [key_eq hw]
  by_cases h429 : err.httpStatus = some 429
  · have hkeep : Keeps p now c (c.markWorker429WithPeers w err peers now).2 :=
      marked_keeps h429 (key_ne_nil hw) hkey (.inl ⟨hp.ne_nil, h⟩)
    exact hkeep.limited.trans h
  by_cases h503 : err.httpStatus = some 503
  · rw [markWorker429WithPeers_503 h503 c (key_ne_nil hw)]
    split
    · refine Eq.trans ?_ h
      exact limited_of_entries now rfl (Cooldown429.entry_marked_ne hkey)
    · exact h
  · rw [markWorker429WithPeers_other h429 h503]
    exact h

/-- The pool is made of hosts, and the peers of a loop are the pool in
some order. -/
structure PeersOk (loop : WorkerLoop) (domains : List Text) : Prop where
  host : ∀ w ∈ domains, Host w
  perm : ∀ pools : Pools, pools.workerDomains = domains →
    (loop.peers pools).1.Perm domains
  keeps : ∀ pools : Pools, pools.workerDomains = domains →
    (loop.peers pools).2.workerDomains = domains

theorem PeersOk.peers_host {loop : WorkerLoop} {domains : List Text}
    (hok : PeersOk loop domains) {pools : Pools}
    (h : pools.workerDomains = domains) :
    ∀ q ∈ (loop.peers pools).1, Host q :=
  fun q hq => hok.host q ((hok.perm pools h).mem_iff.mp hq)

section Loop

variable {loop : WorkerLoop} {domains : List Text} {s : World}

theorem answered_fst (loop : WorkerLoop) (s : World) (w : Text)
    (outcome : DialOutcome) :
    (loop.answered w outcome s).1 = none
      ∨ (loop.answered w outcome s).1 = some (loop.ends outcome) := by
  cases outcome with
  | opened carried => exact .inr rfl
  | elapsed => exact .inr rfl
  | refused err =>
      show Option.map _ (s.cooldowns.markWorker429WithPeers w err
        (loop.peers s.pools).1 s.now).1 = none ∨ _
      cases hmark : (s.cooldowns.markWorker429WithPeers w err
          (loop.peers s.pools).1 s.now).1 with
      | none => exact .inl rfl
      | some u => exact .inr (congrArg (Option.map _) hmark)

theorem answered_now (w : Text) (outcome : DialOutcome) :
    (loop.answered w outcome s).2.now = s.now := by
  cases outcome with
  | opened carried =>
      show (if _ then _ else _ : World).now = _
      split <;> rfl
  | refused err => rfl
  | elapsed => rfl

theorem answered_pools (hok : PeersOk loop domains) (w : Text)
    (outcome : DialOutcome) (h : s.pools.workerDomains = domains) :
    (loop.answered w outcome s).2.pools.workerDomains = domains := by
  cases outcome with
  | opened carried =>
      show (if _ then _ else _ : World).pools.workerDomains = _
      split <;> exact h
  | refused err => exact hok.keeps s.pools h
  | elapsed => exact h

/-- A dial leaves a Worker usable that its answer does not cool. -/
theorem answered_free (hok : PeersOk loop domains)
    (hpools : s.pools.workerDomains = domains) {w p : Text}
    (hw : w ∈ domains) (hp : p ∈ domains) {outcome : DialOutcome}
    (hcools : Cools w outcome p = false)
    (h : s.cooldowns.limited p s.now = false) :
    (loop.answered w outcome s).2.cooldowns.limited p s.now = false := by
  cases outcome with
  | opened carried =>
      show (if _ then _ else _ : World).cooldowns.limited p s.now = false
      split
      · by_cases hpw : p = w
        · subst hpw
          exact clearWorker429_limited_self _ _ (hok.host _ hp)
        · exact (clearWorker429_limited_ne _ _ (hok.host _ hw) hpw).trans h
      · exact h
  | elapsed => exact h
  | refused err =>
      exact (markWorker429WithPeers_free _ _ _ (hok.host w hw)
        (hok.peers_host hpools) hcools).trans h

/-- A dial leaves another Worker on cooldown. -/
theorem answered_limited (hok : PeersOk loop domains) {w p : Text}
    (hw : w ∈ domains) (hp : p ∈ domains) (hne : p ≠ w)
    (outcome : DialOutcome) (h : s.cooldowns.limited p s.now = true) :
    (loop.answered w outcome s).2.cooldowns.limited p s.now = true := by
  cases outcome with
  | opened carried =>
      show (if _ then _ else _ : World).cooldowns.limited p s.now = true
      split
      · exact (clearWorker429_limited_ne _ _ (hok.host _ hw) hne).trans h
      · exact h
  | elapsed => exact h
  | refused err =>
      exact markWorker429WithPeers_limited _ _ (hok.host w hw)
        (hok.host p hp) hne h

/-- The cooldowns of both maps are positive, and `Instant` can hold any
deadline of theirs. -/
structure Marks (c : Cooldowns) (now : Nat) : Prop where
  base429 : 0 < c.cfWorker429.base
  max429 : 0 < c.cfWorker429.max
  base503 : 0 < c.cfWorker503.base
  max503 : 0 < c.cfWorker503.max
  fits429 : now + c.cfWorker429.max < Instant.END
  fits503 : now + c.cfWorker503.max < Instant.END

theorem Marks.of_eq {c c' : Cooldowns} {now : Nat} (h : Marks c now)
    (hbase : c'.cfWorker429.base = c.cfWorker429.base)
    (hmax : c'.cfWorker429.max = c.cfWorker429.max)
    (hbase503 : c'.cfWorker503.base = c.cfWorker503.base)
    (hmax503 : c'.cfWorker503.max = c.cfWorker503.max) : Marks c' now := by
  refine ⟨?_, ?_, ?_, ?_, ?_, ?_⟩
  · rw [hbase]; exact h.base429
  · rw [hmax]; exact h.max429
  · rw [hbase503]; exact h.base503
  · rw [hmax503]; exact h.max503
  · rw [hmax]; exact h.fits429
  · rw [hmax503]; exact h.fits503

theorem Marks.of_agree {c c' : Cooldowns} {now : Nat} (h : Marks c now)
    (hagree : Agree now c' c) : Marks c' now :=
  h.of_eq hagree.cfWorker429.base hagree.cfWorker429.max
    hagree.cfWorker503.base hagree.cfWorker503.max

/-- Then no mark panics. -/
theorem Marks.returns {c : Cooldowns} {now : Nat} (h : Marks c now)
    {w : Text} (hw : Host w) (err : WsConnectError) (peers : List Text) :
    (c.markWorker429WithPeers w err peers now).1 = some () := by
  refine (marks_return_iff h.base429 h.max429 (key_ne_nil hw) peers).mpr
    ⟨?_, ?_, ?_⟩
  · exact fun _ => Cooldown429.fits_of_max _ _ h.fits429
  · exact fun _ p _ _ _ _ => Cooldown429.fits_of_max _ _ h.fits429
  · exact fun _ => Cooldown429.fits_of_max _ _ h.fits503

theorem Marks.answered {s : World} (h : Marks s.cooldowns s.now) {w : Text}
    (hw : Host w) (outcome : DialOutcome) :
    Marks (loop.answered w outcome s).2.cooldowns s.now := by
  cases outcome with
  | opened carried =>
      show Marks (if _ then _ else _ : World).cooldowns s.now
      split
      · exact h.of_eq (Cooldown429.base_clear w) (Cooldown429.max_clear w)
          (Cooldown429.base_clear w) (Cooldown429.max_clear w)
      · exact h
  | elapsed => exact h
  | refused err =>
      show Marks (s.cooldowns.markWorker429WithPeers w err
        (loop.peers s.pools).1 s.now).2 s.now
      by_cases h429 : err.httpStatus = some 429
      · -- no Worker has the blank key
        have hblank : ∀ p ∈ (loop.peers s.pools).1, sameAccount w p = true →
            [] ≠ Cooldown429.key p := by
          intro p _ hsame
          obtain ⟨account, -, hacc⟩ := sameAccount_iff.mp hsame
          exact (key_ne_nil_of_accountKey hacc).symm
        have hkeep : Keeps [] s.now s.cooldowns
            (s.cooldowns.markWorker429WithPeers w err
              (loop.peers s.pools).1 s.now).2 :=
          marked_keeps h429 (key_ne_nil hw) (key_ne_nil hw).symm
            (.inr hblank)
        exact h.of_eq hkeep.base hkeep.max hkeep.cfWorker503.base
          hkeep.cfWorker503.max
      by_cases h503 : err.httpStatus = some 503
      · rw [markWorker429WithPeers_503 h503 _ (key_ne_nil hw)]
        split
        · exact h.of_eq rfl rfl (Cooldown429.base_marked w)
            (Cooldown429.max_marked w)
        · exact h
      · rw [markWorker429WithPeers_other h429 h503]
        exact h

theorem Marks.answered_fst (loop : WorkerLoop) {s : World}
    (h : Marks s.cooldowns s.now) {w : Text} (hw : Host w)
    (outcome : DialOutcome) :
    (loop.answered w outcome s).1 = some (loop.ends outcome) := by
  cases outcome with
  | opened carried => rfl
  | elapsed => rfl
  | refused err =>
      show Option.map _ (s.cooldowns.markWorker429WithPeers w err
        (loop.peers s.pools).1 s.now).1 = _
      rw [h.returns hw]
      rfl

/-- Where marks return, an answer puts the Workers on cooldown that it
cools. -/
theorem Marks.answered_cools (hok : PeersOk loop domains)
    (hpools : s.pools.workerDomains = domains)
    (h : Marks s.cooldowns s.now) {w p : Text} (hw : w ∈ domains)
    (hp : p ∈ domains) {outcome : DialOutcome}
    (hcools : Cools w outcome p = true) :
    (loop.answered w outcome s).2.cooldowns.limited p s.now = true := by
  have hwhost := hok.host w hw
  have hphost := hok.host p hp
  cases outcome with
  | opened carried => cases hcools
  | elapsed => cases hcools
  | refused err =>
      show (s.cooldowns.markWorker429WithPeers w err
        (loop.peers s.pools).1 s.now).2.limited p s.now = true
      have hreturns := h.returns hwhost err (loop.peers s.pools).1
      unfold Cools at hcools
      simp only at hcools
      rw [← key_eq hphost]
      by_cases h429 : err.httpStatus = some 429
      · rw [if_pos h429, Bool.or_eq_true, beq_iff_eq] at hcools
        refine (marked_limited h429 h.base429 h.max429 (key_ne_nil hwhost)
          hreturns ?_).2
        exact hcools.imp id fun hsame =>
          ⟨(hok.perm s.pools hpools).mem_iff.mpr hp, hsame⟩
      · rw [if_neg h429, Bool.and_eq_true, beq_iff_eq, beq_iff_eq] at hcools
        obtain ⟨h503, rfl⟩ := hcools
        exact marked_limited_503 h503 h.base503 h.max503 (key_ne_nil hwhost)
          hreturns

-- ========================================================== the loop

variable {ws : List Text} {outcomes : Nat → DialOutcome}

theorem mem_of_mem_reached {i : Nat} {x : Text × DialOutcome}
    (h : x ∈ reached loop outcomes i ws) : x.1 ∈ ws := by
  induction ws generalizing i with
  | nil => cases h
  | cons w ws ih =>
      rw [reached, List.mem_cons] at h
      rcases h with rfl | h
      · exact List.mem_cons_self ..
      · split at h
        · cases h
        · exact List.mem_cons_of_mem w (ih h)

/-- However long its dials take, a loop that no Worker is cooled in
dials none on cooldown. -/
theorem dialWorkers_free (hok : PeersOk loop domains) (took : Nat → Nat)
    (hpools : s.pools.workerDomains = domains) (hws : ∀ w ∈ ws, w ∈ domains)
    {i : Nat} (hcond : NoneCooled (reached loop outcomes i ws))
    (hfree : ∀ x ∈ reached loop outcomes i ws,
      s.cooldowns.limited x.1 s.now = false) :
    NoCooledDial (dialWorkers loop (dialsOf took outcomes) i ws s).1 := by
  induction ws generalizing i s with
  | nil => exact fun d hd => nomatch hd
  | cons w ws ih =>
      have hw := hws w (List.mem_cons_self ..)
      have hws : ∀ v ∈ ws, v ∈ domains := fun v hv =>
        hws v (List.mem_cons_of_mem w hv)
      rw [reached] at hcond hfree
      obtain ⟨hcools, hcond⟩ := List.pairwise_cons.mp hcond
      obtain ⟨hhead, hfree⟩ := List.forall_mem_cons.mp hfree
      have hdialled : (s.cooldowns.workerRateLimited w s.now).1 = false :=
        (workerRateLimited_fst (hok.host w hw) ..).trans hhead
      have hnow : s.now ≤ (s.advance (took i)).now := Nat.le_add_right ..
      rw [dialWorkers]
      simp only [dialsOf]
      rcases answered_fst loop (s.advance (took i)) w (outcomes i)
        with hstop | hstop
      · rw [hstop]
        exact List.forall_mem_singleton.mpr hdialled
      rw [hstop]
      cases hends : loop.ends (outcomes i) with
      | true => exact List.forall_mem_singleton.mpr hdialled
      | false =>
          rw [hends, if_neg Bool.false_ne_true] at hcools hcond hfree
          refine List.forall_mem_cons.mpr ⟨hdialled, ?_⟩
          refine ih (s := (loop.answered w (outcomes i)
            (s.advance (took i))).2)
            (answered_pools hok w (outcomes i) hpools) hws hcond ?_
          intro x hx
          rw [answered_now]
          exact answered_free (s := s.advance (took i)) hok hpools hw (hws _ (mem_of_mem_reached hx))
            (hcools x hx) (limited_later hnow (hfree x hx))

/-- Where dials take no time and marks return, a Worker that the loop
gets to while it is on cooldown is dialled so. -/
theorem dialWorkers_cooled (hok : PeersOk loop domains)
    (hpools : s.pools.workerDomains = domains) (hws : ∀ w ∈ ws, w ∈ domains)
    {i : Nat} (hmarks : Marks s.cooldowns s.now) {x : Text × DialOutcome}
    (hx : x ∈ reached loop outcomes i ws)
    (hlim : s.cooldowns.limited x.1 s.now = true) :
    ¬ NoCooledDial
      (dialWorkers loop (dialsOf (fun _ => 0) outcomes) i ws s).1 := by
  induction ws generalizing i s with
  | nil => cases hx
  | cons w ws ih =>
      have hw := hws w (List.mem_cons_self ..)
      have hws : ∀ v ∈ ws, v ∈ domains := fun v hv =>
        hws v (List.mem_cons_of_mem w hv)
      have hstop := Marks.answered_fst loop hmarks (hok.host w hw)
        (outcomes i)
      have hstill : s.advance 0 = s := rfl
      rw [dialWorkers]
      simp only [dialsOf, hstill, hstop]
      intro hno
      by_cases hxw : x.1 = w
      · have hself : (s.cooldowns.workerRateLimited w s.now).1 = false := by
          cases hends : loop.ends (outcomes i) with
          | true => rw [hends] at hno; exact hno _ (List.mem_cons_self ..)
          | false => rw [hends] at hno; exact hno _ (List.mem_cons_self ..)
        rw [workerRateLimited_fst (hok.host w hw), ← hxw, hlim] at hself
        cases hself
      · rw [reached, List.mem_cons] at hx
        rcases hx with rfl | hx
        · exact hxw rfl
        cases hends : loop.ends (outcomes i) with
        | true => rw [hends] at hx; cases hx
        | false =>
            rw [hends, if_neg Bool.false_ne_true] at hx
            rw [hends] at hno
            have hxmem := hws _ (mem_of_mem_reached hx)
            refine ih (answered_pools hok w (outcomes i) hpools) hws ?_ hx ?_
              fun d hd => hno d (List.mem_cons_of_mem _ hd)
            · rw [answered_now]
              exact hmarks.answered (hok.host w hw) (outcomes i)
            · rw [answered_now]
              exact answered_limited hok hw hxmem hxw (outcomes i) hlim

/-- Where dials take no time and marks return, a loop that dials no
Worker on cooldown gets to none that is cooled in it. -/
theorem noneCooled_of_free (hok : PeersOk loop domains)
    (hpools : s.pools.workerDomains = domains) (hws : ∀ w ∈ ws, w ∈ domains)
    {i : Nat} (hmarks : Marks s.cooldowns s.now)
    (hno : NoCooledDial
      (dialWorkers loop (dialsOf (fun _ => 0) outcomes) i ws s).1) :
    NoneCooled (reached loop outcomes i ws) := by
  induction ws generalizing i s with
  | nil => exact .nil
  | cons w ws ih =>
      have hw := hws w (List.mem_cons_self ..)
      have hws : ∀ v ∈ ws, v ∈ domains := fun v hv =>
        hws v (List.mem_cons_of_mem w hv)
      have hstop := Marks.answered_fst loop hmarks (hok.host w hw)
        (outcomes i)
      have hstill : s.advance 0 = s := rfl
      rw [dialWorkers] at hno
      simp only [dialsOf, hstill, hstop] at hno
      rw [reached]
      cases hends : loop.ends (outcomes i) with
      | true => exact List.pairwise_singleton ..
      | false =>
          rw [hends] at hno
          rw [if_neg Bool.false_ne_true]
          have hrest : NoCooledDial (dialWorkers loop
              (dialsOf (fun _ => 0) outcomes) (i + 1) ws
              (loop.answered w (outcomes i) s).2).1 :=
            fun d hd => hno d (List.mem_cons_of_mem _ hd)
          have hpools' := answered_pools hok w (outcomes i) hpools
          have hmarks' : Marks (loop.answered w (outcomes i) s).2.cooldowns
              (loop.answered w (outcomes i) s).2.now := by
            rw [answered_now]
            exact hmarks.answered (hok.host w hw) (outcomes i)
          refine List.pairwise_cons.mpr ⟨fun x hx => ?_,
            ih hpools' hws hmarks' hrest⟩
          by_contra hcools
          rw [Bool.not_eq_false] at hcools
          refine dialWorkers_cooled hok hpools' hws hmarks' hx ?_ hrest
          rw [answered_now]
          exact hmarks.answered_cools hok hpools hw
            (hws _ (mem_of_mem_reached hx)) hcools

-- ===================================================== the three loops

/-- The pool is as the configuration sets it. -/
def Configured (pools : Pools) : Prop :=
  ∃ get, pools.workerDomains = Config.loadWorkerDomainsWith get

theorem Configured.host {pools : Pools} (h : Configured pools) :
    ∀ w ∈ pools.workerDomains, Host w := by
  obtain ⟨get, hget⟩ := h
  intro w hw
  rw [hget] at hw
  exact host_of_mem_normalizeDomainPool hw

/-- What a loop is about to dial, of state `s`: Workers of the pool that
are not on cooldown. -/
structure Ready (s : World) (ws : List Text) (s' : World) : Prop where
  sub : ∀ w ∈ ws, w ∈ s.pools.workerDomains
  pools : s'.pools.workerDomains = s.pools.workerDomains
  agree : Agree s.now s'.cooldowns s.cooldowns
  now_eq : s'.now = s.now
  free : ∀ w ∈ ws, s'.cooldowns.limited w s'.now = false

theorem ready_nil (s : World) : Ready s [] s :=
  ⟨fun _ hw => (nomatch hw), rfl, .refl .., rfl, fun _ hw => nomatch hw⟩

/-- The Workers that pass the filter are ready to be dialled. -/
theorem ready_usable {doms : List Text} (pools : Pools)
    (hconf : Configured s.pools) (hperm : doms.Perm s.pools.workerDomains)
    (hpools : pools.workerDomains = s.pools.workerDomains) :
    Ready s (s.cooldowns.usableWorkers doms s.now).1.1
      { s with pools
               cooldowns := (s.cooldowns.usableWorkers doms s.now).2 } := by
  obtain ⟨hlist, hagree⟩ := usable_spec s.cooldowns s.now doms
  have hfree : ∀ w ∈ (s.cooldowns.usableWorkers doms s.now).1.1,
      w ∈ s.pools.workerDomains ∧ s.cooldowns.limited w s.now = false := by
    intro w hw
    have hw : w ∈ (usable s.now doms s.cooldowns).1 := hw
    rw [hlist, List.mem_filter] at hw
    have hmem := hperm.mem_iff.mp hw.1
    rw [workerRateLimited_fst (hconf.host w hmem)] at hw
    exact ⟨hmem, by simpa using hw.2⟩
  exact ⟨fun w hw => (hfree w hw).1, hpools, hagree, rfl,
    fun w hw => (hagree.limited w).trans (hfree w hw).2⟩

theorem ready_usableForDc (hconf : Configured s.pools) (dc : Int) :
    Ready s (usableForDc dc s).1 (usableForDc dc s).2 :=
  ready_usable _ hconf (workerDomainsForDc_perm s.pools dc) rfl

/-- A loop whose peers are the pool in the order of a DC. -/
theorem peersOk_forDc {pools : Pools} (hconf : Configured pools)
    (hloop : ∃ dc, loop.peers = fun p => p.workerDomainsForDc dc) :
    PeersOk loop pools.workerDomains := by
  obtain ⟨dc, hdc⟩ := hloop
  refine ⟨hconf.host, ?_, ?_⟩
  · intro p hp
    rw [hdc, ← hp]
    exact workerDomainsForDc_perm p dc
  · intro p hp
    rw [hdc]
    exact hp

theorem tryCfFallback_ready (hconf : Configured s.pools) (env : Getter)
    (pooledCarried : Bool) (dc : Int) :
    Ready s (tryCfFallbackWorkers env pooledCarried dc s).1
      (tryCfFallbackWorkers env pooledCarried dc s).2 := by
  unfold tryCfFallbackWorkers
  split
  · exact ready_nil s
  split
  · exact ready_nil s
  · exact ready_usableForDc hconf dc

theorem tryWorkerPassthrough_ready (hconf : Configured s.pools)
    (env : Getter) (origIp : Text) :
    Ready s (tryWorkerPassthroughWorkers env origIp s).1
      (tryWorkerPassthroughWorkers env origIp s).2 := by
  unfold tryWorkerPassthroughWorkers
  simp only
  split
  · exact ready_nil s
  split
  · exact ready_nil s
  split
  · exact ready_nil s
  split
  · exact ready_nil s
  · exact ready_usable s.pools hconf (.refl _) rfl

theorem connect_ready (hconf : Configured s.pools) (word : Word) (dc : Int) :
    Ready s (connectWorkers word dc s).1 (connectWorkers word dc s).2 := by
  have h := ready_usableForDc hconf dc
  unfold connectWorkers
  simp only
  split
  · exact ⟨fun _ hw => (nomatch hw), h.pools, h.agree, h.now_eq,
      fun _ hw => nomatch hw⟩
  · next hne =>
      have hmem : ∀ w ∈ (List.range (usableForDc dc s).1.length).map
          (fun i => (usableForDc dc s).1.getD (((usableForDc dc s).2.rr + i)
            % word.size % (usableForDc dc s).1.length) []),
          w ∈ (usableForDc dc s).1 := by
        intro w hw
        obtain ⟨i, -, rfl⟩ := List.mem_map.mp hw
        have hpos : 0 < (usableForDc dc s).1.length :=
          List.length_pos_iff.mpr (by simpa using hne)
        rw [List.getD_eq_getElem _ _ (Nat.mod_lt _ hpos)]
        exact List.getElem_mem _
      exact ⟨fun w hw => h.sub w (hmem w hw), h.pools, h.agree, h.now_eq,
        fun w hw => h.free w (hmem w hw)⟩

/-- A loop over Workers that are ready dials none on cooldown, however
long its dials take, if none is cooled in it, and only then if marks
return. -/
theorem Ready.dialWorkers {s' : World} (h : Ready s ws s')
    (hok : PeersOk loop s.pools.workerDomains)
    (outcomes : Nat → DialOutcome) :
    (NoneCooled (reached loop outcomes 0 ws) → ∀ took,
      NoCooledDial (dialWorkers loop (dialsOf took outcomes) 0 ws s').1)
    ∧ (Marks s.cooldowns s.now → (∀ took,
        NoCooledDial (dialWorkers loop (dialsOf took outcomes) 0 ws s').1) →
      NoneCooled (reached loop outcomes 0 ws)) := by
  constructor
  · intro hcond took
    exact dialWorkers_free hok took h.pools h.sub hcond
      fun x hx => h.free _ (mem_of_mem_reached hx)
  · intro hmarks hno
    refine noneCooled_of_free hok h.pools h.sub ?_ (hno _)
    rw [h.now_eq]
    exact hmarks.of_agree h.agree

theorem Marks.of_configured {env : Getter} {c : Cooldowns} {now : Nat}
    (hc : c.Configured env) (h : now + maxCooldown env < Instant.END) :
    Marks c now :=
  ⟨hc.base_pos, hc.max_pos, hc.base503_pos, hc.max503_pos,
    hc.max429.symm ▸ h, hc.max503.symm ▸ h⟩

end Loop

/-- Of the three Worker loops, each dials no Worker on cooldown, however
long its dials take, exactly when none that it gets to comes behind an
answer that cools it. That it needs to is for a clock and a maximum whose
sum `Instant` can hold: where a mark panics, the loop ends. -/
theorem no_cooled_dial_iff (env : Getter) (pooledCarried : Bool)
    (origIp : Text) (word : Word) (dc : Int) (outcomes : Nat → DialOutcome)
    (s : World) (hconf : Configured s.pools) (hcd : s.cooldowns.Configured env) :
    ((NoneCooled (reached (tryCfFallbackLoop dc) outcomes 0
          (tryCfFallbackWorkers env pooledCarried dc s).1) →
        ∀ took, NoCooledDial (tryCfFallback env pooledCarried dc
          (dialsOf took outcomes) s).1)
      ∧ (s.now + maxCooldown env < Instant.END →
        (∀ took, NoCooledDial (tryCfFallback env pooledCarried dc
          (dialsOf took outcomes) s).1) →
        NoneCooled (reached (tryCfFallbackLoop dc) outcomes 0
          (tryCfFallbackWorkers env pooledCarried dc s).1)))
    ∧ ((NoneCooled (reached
          (tryWorkerPassthroughLoop s.pools.workerDomains) outcomes 0
          (tryWorkerPassthroughWorkers env origIp s).1) →
        ∀ took, NoCooledDial (tryWorkerPassthrough env origIp
          (dialsOf took outcomes) s).1)
      ∧ (s.now + maxCooldown env < Instant.END →
        (∀ took, NoCooledDial (tryWorkerPassthrough env origIp
          (dialsOf took outcomes) s).1) →
        NoneCooled (reached
          (tryWorkerPassthroughLoop s.pools.workerDomains) outcomes 0
          (tryWorkerPassthroughWorkers env origIp s).1)))
    ∧ ((NoneCooled (reached (connectLoop dc) outcomes 0
          (connectWorkers word dc s).1) →
        ∀ took, NoCooledDial (connect word dc (dialsOf took outcomes) s).1)
      ∧ (s.now + maxCooldown env < Instant.END →
        (∀ took, NoCooledDial (connect word dc
          (dialsOf took outcomes) s).1) →
        NoneCooled (reached (connectLoop dc) outcomes 0
          (connectWorkers word dc s).1))) := by
  have hmarks : s.now + maxCooldown env < Instant.END →
      Marks s.cooldowns s.now := .of_configured hcd
  refine ⟨?_, ?_, ?_⟩
  · have hok : PeersOk (tryCfFallbackLoop dc) s.pools.workerDomains :=
      peersOk_forDc hconf ⟨dc, rfl⟩
    have h := (tryCfFallback_ready hconf env pooledCarried dc).dialWorkers
      hok outcomes
    exact ⟨h.1, fun hfits => h.2 (hmarks hfits)⟩
  · have hok : PeersOk (tryWorkerPassthroughLoop s.pools.workerDomains)
        s.pools.workerDomains :=
      ⟨hconf.host, fun _ _ => .refl _, fun _ h => h⟩
    have h := (tryWorkerPassthrough_ready hconf env origIp).dialWorkers hok
      outcomes
    exact ⟨h.1, fun hfits => h.2 (hmarks hfits)⟩
  · have hok : PeersOk (connectLoop dc) s.pools.workerDomains :=
      peersOk_forDc hconf ⟨dc, rfl⟩
    have h := (connect_ready hconf word dc).dialWorkers hok outcomes
    exact ⟨h.1, fun hfits => h.2 (hmarks hfits)⟩

/-- A router that has dialled nothing yet. -/
def sampleWorld : World where
  now := 0
  pools := Pools.empty.setWorkerDomains
    (Config.loadWorkerDomainsWith sampleGet)
  cooldowns := .new sampleGet
  rr := 0

/-- The first dial is answered 503, and the others go through. -/
def sampleOutcomes : Nat → DialOutcome
  | 0 => .refused (.handshake { statusCode := 503, headers := ∅ })
  | _ => .opened true

/-- Such dials, of 50 ms each. -/
def sampleDials : Nat → Dial :=
  dialsOf (fun _ => Duration.fromMillis 50) sampleOutcomes

/-- The first Worker answers 503, and the second is dialled. -/
theorem no_cooled_dial_sample :
    (connect .w64 2 sampleDials sampleWorld).1.length = 2
      ∧ NoCooledDial (connect .w64 2 sampleDials sampleWorld).1 := by
  have hiff := no_cooled_dial_iff sampleGet false "149.154.167.51".toList
    .w64 2 sampleOutcomes sampleWorld ⟨sampleGet, rfl⟩ ⟨rfl, rfl, rfl, rfl⟩
  exact ⟨by decide +kernel, hiff.2.2.1 (by decide +kernel) _⟩

/-- Every dial is answered 429 within 50 ms. -/
def limitedDials (_ : Nat) : Dial where
  took := Duration.fromMillis 50
  outcome := .refused (.handshake { statusCode := 429, headers := ∅ })

/-- The first Worker answers 429, which cools the second, and each loop
dials the second at once. -/
theorem cooled_sibling_dialled :
    ¬ NoCooledDial (tryCfFallback sampleGet false 2 limitedDials
        sampleWorld).1
    ∧ ¬ NoCooledDial (tryWorkerPassthrough sampleGet
        "149.154.167.51".toList limitedDials sampleWorld).1
    ∧ ¬ NoCooledDial (connect .w64 2 limitedDials sampleWorld).1 := by
  decide +kernel

end Wrtg.CfWorker
