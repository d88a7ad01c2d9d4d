/-
When a reload is atomic to the sessions and to a refresh (`config.rs`,
`cf_balancer.rs`).

# The two races

The file names no proxy domain, so `apply_config` stores the empty list
and the pool is empty until another store comes: the reload's own, or
the refresh's (`Inv`). And the reload's last store is the pool it has
read at the start, so a refresh that stores behind that read and before
that store is lost (`Bound`: which list the end of the reload is bound
to). `Undisturbed` keeps both windows clear, step by step, and nothing
less does (`reload_atomic_iff`).
-/
import Wrtg.CfPool
import Wrtg.Proofs.Reload
import Wrtg.Lib.Run

namespace Wrtg.CfPool

open Lib CfBalancer CfProxyDomains Config

-- ======================================================== what is asked

/-- No session finds the pool empty. -/
def NeverEmpty (xs : List Action) (s₀ : State) : Prop :=
  ∀ pre a post s, xs = pre ++ a :: post → run apply pre s₀ = some s →
    a.isSession = true → s.pool ≠ []

/-- A refresh that stores behind the reload's start decides the final
pool. -/
def RefreshWins (xs : List Action) (s₀ : State) : Prop :=
  ∀ pre pool post t s, xs = pre ++ .refreshStore pool :: post →
    run apply pre s₀ = some t → run apply xs s₀ = some s →
    t.pc ≠ .notStarted → s.pc = .done → s.pool = pool

/-- The step keeps out of the reload's way: a session does not read
while the reload's store of the file's list is the last one, and a
refresh does not store between the reload's read and its last store,
other than the list the reload has read. -/
def Undisturbed (s : State) : Action → Prop
  | .proxyDomainsForDc _ => s.lastStore ≠ some .applyConfig
  | .advanceProxyDomainsForDc _ _ => s.lastStore ≠ some .applyConfig
  | .refreshStore pool => ∀ livePool ∈ s.pc.held, pool = livePool
  | _ => True

instance (s : State) (a : Action) : Decidable (Undisturbed s a) :=
  match a with
  | .proxyDomainsForDc _ => inferInstanceAs (Decidable (_ ≠ _))
  | .advanceProxyDomainsForDc _ _ => inferInstanceAs (Decidable (_ ≠ _))
  | .refreshStore pool =>
      inferInstanceAs (Decidable (∀ livePool ∈ s.pc.held, pool = livePool))
  | .begin => .isTrue trivial
  | .readPool => .isTrue trivial
  | .applyConfig => .isTrue trivial
  | .storeAfterReload => .isTrue trivial

-- =========================================================== the steps

/-- The file names no proxy domain and has the shared pool on; the pool
is empty where the file's list was stored last, and that is within the
reload; what the reload has read is not empty. -/
structure Inv (s : State) : Prop where
  none_named : (loadFromMap s.map).cfProxyDomains = []
  auto : s.auto = true
  empty : s.pool = [] ↔ s.lastStore = some .applyConfig
  within : s.lastStore = some .applyConfig →
    ∃ livePool, s.pc = .applied livePool
  kept : ∀ livePool ∈ s.pc.held, livePool ≠ []

/-- What the reload stores last is what it has read. -/
theorem proxyPoolAfterReload_read {livePool : List Text}
    (h : livePool ≠ []) : proxyPoolAfterReload [] livePool true = livePool := by
  unfold proxyPoolAfterReload
  simp [h]

variable {s s' : State}

theorem held_read {livePool : List Text} (h : s.pc = .read livePool) :
    livePool ∈ s.pc.held := by
  rw [h]
  rfl

theorem held_applied {livePool : List Text} (h : s.pc = .applied livePool) :
    livePool ∈ s.pc.held := by
  rw [h]
  rfl

/-- The reload holds nothing before its read and behind its end. -/
theorem held_none
    (h : s.pc = .notStarted ∨ s.pc = .begun ∨ s.pc = .done) :
    s.pc.held = none := by
  rcases h with h | h | h <;> rw [h] <;> rfl

/-- A session changes neither the pool nor the reload. -/
theorem apply_session {a : Action} (h : apply a s = some s')
    (ha : a.isSession = true) :
    s'.pool = s.pool ∧ s'.pc = s.pc ∧ s'.lastStore = s.lastStore
      ∧ s'.refreshed = s.refreshed ∧ s'.env = s.env ∧ s'.map = s.map := by
  cases a with
  | proxyDomainsForDc dc => cases h; exact ⟨rfl, rfl, rfl, rfl, rfl, rfl⟩
  | advanceProxyDomainsForDc dc n =>
      cases h; exact ⟨rfl, rfl, rfl, rfl, rfl, rfl⟩
  | begin => cases ha
  | readPool => cases ha
  | applyConfig => cases ha
  | storeAfterReload => cases ha
  | refreshStore pool => cases ha

/-- What each step of the reload and the refresh finds and leaves. -/
theorem apply_cases {a : Action} (h : apply a s = some s') :
    a.isSession = true
      ∨ (a = .begin ∧ s.pc = .notStarted ∧ s' = { s with pc := .begun })
      ∨ (a = .readPool ∧ s.pc = .begun ∧ s' = { s with pc := .read s.pool })
      ∨ (∃ livePool, a = .applyConfig ∧ s.pc = .read livePool
          ∧ s' = { s with
              live := Config.applyConfig (loadFromMap s.map) s.live
              pc := .applied livePool
              lastStore := some .applyConfig })
      ∨ (∃ livePool, a = .storeAfterReload ∧ s.pc = .applied livePool
          ∧ s' = { s.store .afterReload (proxyPoolAfterReload
              (loadFromMap s.map).cfProxyDomains livePool s.auto) with
              pc := .done })
      ∨ (∃ pool, a = .refreshStore pool ∧ s.refreshed = false ∧ pool ≠ []
          ∧ s' = { s.store .refresh pool with refreshed := true }) := by
  cases a with
  | begin =>
      simp only [apply] at h
      split at h
      · next hpc => cases h; exact .inr (.inl ⟨rfl, hpc, rfl⟩)
      · cases h
  | readPool =>
      simp only [apply] at h
      split at h
      · next hpc => cases h; exact .inr (.inr (.inl ⟨rfl, hpc, rfl⟩))
      · cases h
  | applyConfig =>
      simp only [apply] at h
      split at h
      · next livePool hpc =>
          cases h
          exact .inr (.inr (.inr (.inl ⟨livePool, rfl, hpc, rfl⟩)))
      · cases h
  | storeAfterReload =>
      simp only [apply] at h
      split at h
      · next livePool hpc =>
          cases h
          exact .inr (.inr (.inr (.inr (.inl ⟨livePool, rfl, hpc, rfl⟩))))
      · cases h
  | refreshStore pool =>
      simp only [apply] at h
      split at h
      · next hc =>
          cases h
          have hc : s.refreshed = false ∧ pool ≠ [] := by simpa using hc
          exact .inr (.inr (.inr (.inr (.inr
            ⟨pool, rfl, hc.1, hc.2, rfl⟩))))
      · cases h
  | proxyDomainsForDc dc => exact .inl rfl
  | advanceProxyDomainsForDc dc n => exact .inl rfl

/-- Every step keeps the invariant. -/
theorem inv_step {a : Action} (h : apply a s = some s') (hi : Inv s) :
    Inv s' := by
  obtain ⟨hnone, hauto, hempty, hwithin, hkept⟩ := hi
  rcases apply_cases h with hs | ⟨-, hpc, rfl⟩ | ⟨-, hpc, rfl⟩
    | ⟨livePool, -, hpc, rfl⟩ | ⟨livePool, -, hpc, rfl⟩
    | ⟨pool, -, -, hne, rfl⟩
  · obtain ⟨hp, hc, hl, -, he, hm⟩ := apply_session h hs
    refine ⟨by rw [hm]; exact hnone, ?_, by rw [hp, hl]; exact hempty,
      by rw [hl, hc]; exact hwithin, by rw [hc]; exact hkept⟩
    unfold State.auto at hauto ⊢
    rw [he, hm]
    exact hauto
  · refine ⟨hnone, hauto, hempty, ?_, ?_⟩
    · intro hl
      obtain ⟨livePool, hc⟩ := hwithin hl
      rw [hpc] at hc
      cases hc
    · intro livePool hr
      cases hr
  · have hne : s.pool ≠ [] := by
      intro hnil
      obtain ⟨livePool, hc⟩ := hwithin (hempty.mp hnil)
      rw [hpc] at hc
      cases hc
    refine ⟨hnone, hauto, hempty, ?_, ?_⟩
    · exact fun hl => absurd (hempty.mpr hl) hne
    · intro livePool hr
      cases hr
      exact hne
  · refine ⟨hnone, hauto, iff_of_true hnone rfl,
      fun _ => ⟨livePool, rfl⟩, ?_⟩
    intro other hr
    cases hr
    exact hkept livePool (held_read hpc)
  · have hne : livePool ≠ [] := hkept livePool (held_applied hpc)
    refine ⟨hnone, hauto, iff_of_false ?_ (fun hl => nomatch hl),
      (fun hl => nomatch hl), ?_⟩
    · show proxyPoolAfterReload _ livePool s.auto ≠ []
      rw [hnone, hauto, proxyPoolAfterReload_read hne]
      exact hne
    · intro other hr
      cases hr
  · refine ⟨hnone, hauto, iff_of_false hne (fun hl => nomatch hl),
      (fun hl => nomatch hl), hkept⟩

/-- The refresh is over, and the reload ends with the list `pool`. -/
structure Bound (pool : List Text) (s : State) : Prop where
  refreshed : s.refreshed = true
  before : s.pc = .notStarted ∨ s.pc = .begun ∨ s.pc = .done →
    s.pool = pool
  inside : ∀ livePool ∈ s.pc.held, livePool = pool

/-- Every step keeps what the reload is bound to end with. -/
theorem bound_step {a : Action} {pool : List Text}
    (h : apply a s = some s') (hi : Inv s) (hb : Bound pool s) :
    Bound pool s' := by
  obtain ⟨hr, hbefore, hinside⟩ := hb
  rcases apply_cases h with hs | ⟨-, hpc, rfl⟩ | ⟨-, hpc, rfl⟩
    | ⟨livePool, -, hpc, rfl⟩ | ⟨livePool, -, hpc, rfl⟩
    | ⟨other, -, hno, -, -⟩
  · obtain ⟨hp, hc, -, hf, -, -⟩ := apply_session h hs
    refine ⟨hf.trans hr, ?_, ?_⟩
    · rw [hp, hc]; exact hbefore
    · rw [hc]; exact hinside
  · refine ⟨hr, fun _ => hbefore (.inl hpc), ?_⟩
    intro livePool hl
    cases hl
  · refine ⟨hr, ?_, ?_⟩
    · intro hl
      rcases hl with hl | hl | hl <;> cases hl
    · intro livePool hl
      cases hl
      exact hbefore (.inr (.inl hpc))
  · refine ⟨hr, ?_, ?_⟩
    · intro hl
      rcases hl with hl | hl | hl <;> cases hl
    · intro other hl
      cases hl
      exact hinside livePool (held_read hpc)
  · refine ⟨hr, ?_, ?_⟩
    · intro _
      show proxyPoolAfterReload _ livePool s.auto = pool
      rw [hi.none_named, hi.auto,
        proxyPoolAfterReload_read (hi.kept livePool (held_applied hpc))]
      exact hinside livePool (held_applied hpc)
    · intro other hl
      cases hl
  · rw [hr] at hno
    cases hno

-- ============================================================== runs

variable {s₀ : State} {xs : List Action}

theorem inv_run (h : run apply xs s₀ = some s) (hi : Inv s₀) : Inv s :=
  run_invariant apply (C := fun _ _ => True) h
    (fun _ _ _ _ _ _ => trivial) hi fun _ _ _ ht _ hstep => inv_step hstep ht

theorem bound_run {pool : List Text} (h : run apply xs s₀ = some s)
    (hi : Inv s₀) (hb : Bound pool s₀) : Bound pool s :=
  (run_invariant apply (C := fun _ _ => True)
    (P := fun t => Inv t ∧ Bound pool t) h (fun _ _ _ _ _ _ => trivial)
    ⟨hi, hb⟩ fun _ _ _ ht _ hstep =>
      ⟨inv_step hstep ht.1, bound_step hstep ht.1 ht.2⟩).2

/-- Behind a refresh, the reload is bound to the list it holds, and to
the refreshed one if it holds none. -/
theorem bound_refresh {pool : List Text}
    (h : apply (.refreshStore pool) s = some s') :
    (∀ livePool ∈ s.pc.held, Bound livePool s')
      ∧ (s.pc.held = none → Bound pool s') := by
  rcases apply_cases h with hs | ⟨ha, -, -⟩ | ⟨ha, -, -⟩ | ⟨_, ha, -, -⟩
    | ⟨_, ha, -, -⟩ | ⟨other, ha, -, -, rfl⟩
  · cases hs
  · cases ha
  · cases ha
  · cases ha
  · cases ha
  · cases ha
    constructor
    · intro livePool hpc
      refine ⟨rfl, ?_, ?_⟩
      · intro hl
        rw [held_none (s := s) hl] at hpc
        cases hpc
      · intro other hl
        exact Option.some.inj (hl.symm.trans hpc)
    · intro hfree
      refine ⟨rfl, fun _ => rfl, ?_⟩
      intro other hl
      have hl : s.pc.held = some other := hl
      rw [hfree] at hl
      cases hl

/-- Where every step keeps out of the reload's way, no session finds the
pool empty and a refresh that came behind the reload's start stays. -/
theorem atomic_of_undisturbed (hi : Inv s₀)
    (hok : StepsMeet apply Undisturbed xs s₀) :
    NeverEmpty xs s₀ ∧ RefreshWins xs s₀ := by
  constructor
  · intro pre a post s hxs hrun ha hnil
    have hstep := hok pre a post s hxs hrun
    have hgap := (inv_run hrun hi).empty.mp hnil
    cases a with
    | proxyDomainsForDc dc => exact hstep hgap
    | advanceProxyDomainsForDc dc n => exact hstep hgap
    | begin => cases ha
    | readPool => cases ha
    | applyConfig => cases ha
    | storeAfterReload => cases ha
    | refreshStore pool => cases ha
  · intro pre pool post t s hxs hpre hrun _ hdone
    have hstep := hok pre (.refreshStore pool) post t hxs hpre
    rw [hxs] at hrun
    obtain ⟨t', ht', hrest⟩ := run_prefix apply hrun
    rw [hpre, Option.some.injEq] at ht'
    subst ht'
    rw [run_cons, Option.bind_eq_some_iff] at hrest
    obtain ⟨u, hu, hpost⟩ := hrest
    have hit := inv_run hpre hi
    obtain ⟨hheld, hfree⟩ := bound_refresh hu
    have hbound : Bound pool u := by
      cases hheldBy : t.pc.held with
      | none => exact hfree hheldBy
      | some livePool =>
          rw [hstep livePool hheldBy]
          exact hheld livePool hheldBy
    exact (bound_run hpost (inv_step hu hit) hbound).before
      (.inr (.inr hdone))

/-- And where the reload comes to its end, nothing less does. -/
theorem undisturbed_of_atomic (hi : Inv s₀)
    (hrun : run apply xs s₀ = some s) (hdone : s.pc = .done)
    (hnever : NeverEmpty xs s₀) (hwins : RefreshWins xs s₀) :
    StepsMeet apply Undisturbed xs s₀ := by
  intro pre a post t hxs hpre
  have hit := inv_run hpre hi
  have hsession : a.isSession = true → t.lastStore ≠ some .applyConfig :=
    fun ha hgap => hnever pre a post t hxs hpre ha (hit.empty.mpr hgap)
  cases a with
  | proxyDomainsForDc dc => exact hsession rfl
  | advanceProxyDomainsForDc dc n => exact hsession rfl
  | begin => trivial
  | readPool => trivial
  | applyConfig => trivial
  | storeAfterReload => trivial
  | refreshStore pool =>
      intro livePool hpc
      have hbegun : t.pc ≠ .notStarted := by
        intro hno
        rw [hno] at hpc
        cases hpc
      have hfinal := hwins pre pool post t s hxs hpre hrun hbegun hdone
      rw [hxs] at hrun
      obtain ⟨t', ht', hrest⟩ := run_prefix apply hrun
      rw [hpre, Option.some.injEq] at ht'
      subst ht'
      rw [run_cons, Option.bind_eq_some_iff] at hrest
      obtain ⟨u, hu, hpost⟩ := hrest
      have hbound := (bound_refresh hu).1 livePool hpc
      rw [← hfinal]
      exact (bound_run hpost (inv_step hu hit) hbound).before
        (.inr (.inr hdone))

/-- A running daemon whose file names no proxy domain and keeps the
shared pool on. -/
theorem inv_start {env : Getter} {map : KvMap} {live : Live}
    (hnone : loadProxyDomainsWith map.get = [])
    (hauto : (start env map live).auto = true)
    (hpool : live.balancer.proxyDomains ≠ []) :
    Inv (start env map live) :=
  ⟨hnone, hauto, iff_of_false hpool (fun h => nomatch h),
    (fun h => nomatch h), fun _ h => nomatch h⟩

/-- A reload is atomic to sessions and a refresh in the runs whose steps
all keep out of its way, and of the runs in which it comes to its end in
no other. -/
theorem reload_atomic_iff (env : Getter) (map : KvMap) (live : Live)
    (hnone : loadProxyDomainsWith map.get = [])
    (hauto : (start env map live).auto = true)
    (hpool : live.balancer.proxyDomains ≠ []) (xs : List Action) :
    let s₀ := start env map live
    (StepsMeet apply Undisturbed xs s₀ →
        NeverEmpty xs s₀ ∧ RefreshWins xs s₀)
      ∧ ∀ s, run apply xs s₀ = some s → s.pc = .done →
          (NeverEmpty xs s₀ ∧ RefreshWins xs s₀
            ↔ StepsMeet apply Undisturbed xs s₀) := by
  intro s₀
  have hi : Inv s₀ := inv_start hnone hauto hpool
  refine ⟨atomic_of_undisturbed hi, fun s hrun hdone => ⟨?_, ?_⟩⟩
  · intro h
    obtain ⟨hnever, hwins⟩ := h
    exact undisturbed_of_atomic hi hrun hdone hnever hwins
  · exact atomic_of_undisturbed hi

/-- The stock router, with two domains in its pool. -/
def sampleStart : State :=
  start stockEnv ∅ { startup stockEnv with
    balancer := { Pools.empty with
      proxyDomains := ["a.example".toList, "b.example".toList] } }

/-- Sessions on either side of the reload, and a refresh behind it. -/
theorem reload_atomic_sample :
    let xs : List Action := [.proxyDomainsForDc 2, .begin, .readPool,
      .proxyDomainsForDc 4, .applyConfig, .storeAfterReload,
      .advanceProxyDomainsForDc 2 3, .refreshStore ["c.example".toList],
      .proxyDomainsForDc 2]
    NeverEmpty xs sampleStart ∧ RefreshWins xs sampleStart :=
  (reload_atomic_iff stockEnv ∅ _ (by decide +kernel) (by decide +kernel)
    (by decide) _).1 (stepsMeet_of_meets apply (by decide +kernel))

/-- A session between the two stores finds the pool empty, and a refresh
behind the reload's read is lost. -/
theorem reload_atomic_fails :
    ¬ NeverEmpty [.begin, .readPool, .applyConfig, .proxyDomainsForDc 2,
        .storeAfterReload] sampleStart
      ∧ ¬ RefreshWins [.begin, .readPool,
        .refreshStore ["c.example".toList], .applyConfig,
        .storeAfterReload] sampleStart := by
  constructor
  · intro h
    exact h [.begin, .readPool, .applyConfig] _ [.storeAfterReload] _ rfl rfl
      rfl (by decide +kernel)
  · intro h
    have hfinal := h [.begin, .readPool] ["c.example".toList]
      [.applyConfig, .storeAfterReload] _ _ rfl rfl rfl (by decide) rfl
    exact absurd hfinal (by decide +kernel)

end Wrtg.CfPool
