/-
The candidate lists of a DC (`cf_balancer.rs`), in every state the
balancer can be in.

Cursors and sticky domains outlive the pools they were set for. A cursor
is only ever used modulo the pool it meets (`orderedDomains_eq`), and a
sticky domain only when the pool still has it (`proxyDomainsForDc_eq`),
so a list is always the current pool, rotated, perhaps with one domain
taken to the front. The current pool and the sticky domain are what the
last calls that have a say in them left (`Pools.Call.workers`,
`Pools.Call.proxies`, `Pools.Call.sticky`). What the pools themselves
have to bring along is that no domain is in one twice (`PoolsOk`, kept by
every call).
-/
import Wrtg.Lib.Feed
import Wrtg.Proofs.CfBalancer

namespace Wrtg.CfBalancer

open Lib CfProxyDomains

-- ====================================================== what is asked

/-- The place in the Worker pool a DC starts from, modulo its length. -/
def Pools.workerCursor (b : Pools) (dc : Int) : Nat :=
  (b.dcWorkerIdx.lookup dc).getD b.workerRr

def Pools.proxyCursor (b : Pools) (dc : Int) : Nat :=
  (b.dcProxyIdx.lookup dc).getD b.proxyRr

/-- An order with the sticky domain, if it has it, taken to the front. -/
def stickyFirst (sticky : Option Text) (order : List Text) : List Text :=
  match sticky with
  | some s => if s ∈ order then s :: order.erase s else order
  | none => order

/-- The Worker pool behind a call. -/
def Pools.Call.workers (pool : List Text) : Pools.Call → List Text
  | .setWorkerDomains domains => domains
  | _ => pool

/-- The Proxy pool behind a call. -/
def Pools.Call.proxies (pool : List Text) : Pools.Call → List Text
  | .setProxyDomains domains => domains
  | _ => pool

/-- What a DC's last successful domain is behind a call: the one it
reports, if it reports one, and none once its candidates have failed. -/
def Pools.Call.sticky (dc : Int) (last : Option Text) :
    Pools.Call → Option Text
  | .updateProxyDomainForDc dc' domain =>
      let domain := Text.toAsciiLowercase (Text.trim domain)
      if dc' = dc ∧ domain ≠ [] then some domain else last
  | .advanceProxyDomainsForDc dc' _ => if dc' = dc then none else last
  | _ => last

/-- The pools that the last calls have set. -/
def workersSet (calls : List Pools.Call) : List Text :=
  calls.foldl Pools.Call.workers []

def proxiesSet (calls : List Pools.Call) : List Text :=
  calls.foldl Pools.Call.proxies []

/-- The DC's last successful domain. -/
def lastSuccess (dc : Int) (calls : List Pools.Call) : Option Text :=
  calls.foldl (Pools.Call.sticky dc) none

/-- The lists that are set are as `normalize_domain_pool` makes them. -/
def Pools.Call.Ok : Pools.Call → Prop
  | .setWorkerDomains domains => domains.Nodup ∧ ∀ w ∈ domains, Host w
  | .setProxyDomains domains => domains.Nodup ∧ ∀ w ∈ domains, Host w
  | _ => True

/-- The call is other DCs' affair, or leaves the domain in the pool and
does not report another one, or a failure. -/
def Pools.Call.Spares (dc : Int) (domain : Text) : Pools.Call → Prop
  | .setProxyDomains domains => domain ∈ domains
  | .updateProxyDomainForDc dc' domain' => dc' = dc → domain' = domain
  | .advanceProxyDomainsForDc dc' _ => dc' ≠ dc
  | _ => True

theorem ok_setProxyDomains (raw : List Text) :
    (Pools.Call.setProxyDomains (normalizeDomainPool raw)).Ok :=
  ⟨normalizeDomainPool_nodup raw, fun _ => host_of_mem_normalizeDomainPool⟩

-- ========================================================== the order

theorem rotate_of_length_le_one {ws : List Text} (h : ws.length ≤ 1)
    (n : Nat) : ws.rotate n = ws := by
  match ws, h with
  | [], _ => exact List.rotate_nil n
  | [w], _ => exact List.rotate_singleton w n

/-- A DC's order is the pool from its cursor on, whatever the cursor. -/
theorem orderedDomains_eq (domains : List Text) (dc : Int)
    (dcMap : AList fun _ : Int => Nat) (rr : Nat) :
    (orderedDomains domains dc dcMap rr).1
      = domains.rotate ((dcMap.lookup dc).getD rr) := by
  unfold orderedDomains
  split
  · next hle => exact (rotate_of_length_le_one hle _).symm
  · cases dcMap.lookup dc with
    | none =>
        simp only [map_range_eq_rotate, List.rotate_mod]
        rfl
    | some i =>
        simp only [map_range_eq_rotate, List.rotate_mod]
        rfl

theorem workerDomainsForDc_eq (b : Pools) (dc : Int) :
    (b.workerDomainsForDc dc).1 = b.workerDomains.rotate (b.workerCursor dc) :=
  orderedDomains_eq ..

/-- Every read of the loop is in range, from any cursor. -/
theorem readRound_eq (domains : List Text) (start : Nat) :
    readRound domains start = .ok (domains.rotate start) := by
  have hread : ∀ i ∈ List.range domains.length,
      idx domains ((start + i) % domains.length)
        = .ok (domains.getD ((start + i) % domains.length) []) := by
    intro i hi
    have hpos : 0 < domains.length :=
      Nat.zero_lt_of_lt (List.mem_range.mp hi)
    have hlt := Nat.mod_lt (start + i) hpos
    rw [idx_ok hlt, List.getD_eq_getElem _ _ hlt]
  rw [← map_range_eq_rotate]
  unfold readRound
  generalize List.range domains.length = is at hread
  induction is with
  | nil => rfl
  | cons i is ih =>
      rw [List.mapM_cons, hread i (List.mem_cons_self ..),
        ih fun j hj => hread j (List.mem_cons_of_mem i hj)]
      rfl

-- ================================================= the sticky domain

/-- The loop of `proxy_domains_for_dc` adds what is not there yet. -/
theorem foldl_missing {out order : List Text} (h : order.Nodup) :
    order.foldl (fun out d => if out.contains d then out else out ++ [d]) out
      = out ++ order.filter (fun d => !out.contains d) := by
  induction order generalizing out with
  | nil => rw [List.foldl_nil, List.filter_nil, List.append_nil]
  | cons d order ih =>
      obtain ⟨hd, hnd⟩ := List.nodup_cons.mp h
      rw [List.foldl_cons, List.filter_cons]
      by_cases hmem : out.contains d = true
      · simp only [hmem, if_true, ih hnd]
        rfl
      · rw [Bool.not_eq_true] at hmem
        have hsame : order.filter (fun e => !(out ++ [d]).contains e)
            = order.filter (fun e => !out.contains e) := by
          refine List.filter_congr ?_
          intro e he
          have hne : e ≠ d := by
            intro h
            subst h
            exact hd he
          simp [hne]
        simp only [hmem, Bool.false_eq_true, if_false, ih hnd, hsame]
        simp

/-- The DC's order, with the sticky domain, if the pool still has it,
first. -/
theorem proxyDomainsForDc_eq {b : Pools} (h : b.proxyDomains.Nodup)
    (dc : Int) :
    (b.proxyDomainsForDc dc).1
      = stickyFirst (b.dcProxySticky.lookup dc)
          (b.proxyDomains.rotate (b.proxyCursor dc)) := by
  have horder := orderedDomains_eq b.proxyDomains dc b.dcProxyIdx b.proxyRr
  unfold Pools.proxyDomainsForDc stickyFirst
  simp only [horder]
  cases b.dcProxySticky.lookup dc with
  | none => rfl
  | some s =>
      have hnd : (b.proxyDomains.rotate (b.proxyCursor dc)).Nodup :=
        List.nodup_rotate.mpr h
      have hiff : b.proxyDomains.contains s = true
          ↔ s ∈ b.proxyDomains.rotate (b.proxyCursor dc) := by
        rw [List.contains_iff_mem, List.mem_rotate]
      by_cases hs : s ∈ b.proxyDomains.rotate (b.proxyCursor dc)
      · simp only [hiff.mpr hs, if_true, if_pos hs]
        rw [show (b.dcProxyIdx.lookup dc).getD b.proxyRr = b.proxyCursor dc
          from rfl, foldl_missing hnd, hnd.erase_eq_filter]
        refine congrArg (s :: ·) (List.filter_congr ?_)
        intro d _
        by_cases hd : d = s <;> simp [hd]
      · simp only [mt hiff.mp hs, Bool.false_eq_true, if_false, if_neg hs]
        rfl

theorem stickyFirst_perm (sticky : Option Text) (order : List Text) :
    (stickyFirst sticky order).Perm order := by
  unfold stickyFirst
  split
  · split
    · next hs => exact (List.perm_cons_erase hs).symm
    · exact .refl _
  · exact .refl _

theorem proxyDomainsForDc_perm {b : Pools} (h : b.proxyDomains.Nodup)
    (dc : Int) : (b.proxyDomainsForDc dc).1.Perm b.proxyDomains := by
  rw [proxyDomainsForDc_eq h]
  exact (stickyFirst_perm ..).trans (List.rotate_perm ..)

-- ============================================================== calls

/-- No domain is in a pool twice, and each is lower case and trimmed. -/
structure PoolsOk (b : Pools) : Prop where
  worker : b.workerDomains.Nodup
  proxy : b.proxyDomains.Nodup
  host : ∀ w ∈ b.proxyDomains, Host w

/-- Reporting a domain changes no pool. -/
theorem update_pools (b : Pools) (dc : Int) (domain : Text) :
    (b.updateProxyDomainForDc dc domain).workerDomains = b.workerDomains
      ∧ (b.updateProxyDomainForDc dc domain).proxyDomains
        = b.proxyDomains := by
  unfold Pools.updateProxyDomainForDc
  simp only
  split
  · exact ⟨rfl, rfl⟩
  · split <;> exact ⟨rfl, rfl⟩

/-- A DC's sticky domain is the one it has reported, -/
theorem lookup_update (b : Pools) (dc dc' : Int) (domain : Text) :
    (b.updateProxyDomainForDc dc' domain).dcProxySticky.lookup dc
      = Pools.Call.sticky dc (b.dcProxySticky.lookup dc)
          (.updateProxyDomainForDc dc' domain) := by
  unfold Pools.updateProxyDomainForDc Pools.Call.sticky
  simp only
  generalize Text.toAsciiLowercase (Text.trim domain) = d
  by_cases hd : d = []
  · rw [if_pos (List.isEmpty_iff.mpr hd), if_neg fun h => h.2 hd]
  have hne : d.isEmpty = false := List.isEmpty_eq_false_iff.mpr hd
  simp only [hne, Bool.false_eq_true, if_false]
  by_cases hdc : dc' = dc
  · subst hdc
    rw [if_pos (⟨rfl, hd⟩ : dc' = dc' ∧ d ≠ [])]
    split
    · next hsame => simpa using hsame
    · exact AList.lookup_insert ..
  · rw [if_neg (fun h => hdc h.1 : ¬ (dc' = dc ∧ d ≠ []))]
    split
    · rfl
    · exact AList.lookup_insert_ne (Ne.symm hdc)

/-- and each call leaves what it says. -/
theorem call_leaves (b : Pools) (c : Pools.Call) :
    (b.call c).2.workerDomains = c.workers b.workerDomains
      ∧ (b.call c).2.proxyDomains = c.proxies b.proxyDomains
      ∧ ∀ dc, (b.call c).2.dcProxySticky.lookup dc
        = c.sticky dc (b.dcProxySticky.lookup dc) := by
  cases c with
  | setWorkerDomains domains => exact ⟨rfl, rfl, fun _ => rfl⟩
  | setProxyDomains domains => exact ⟨rfl, rfl, fun _ => rfl⟩
  | workerDomainsForDc dc => exact ⟨rfl, rfl, fun _ => rfl⟩
  | proxyDomainsForDc dc => exact ⟨rfl, rfl, fun _ => rfl⟩
  | updateProxyDomainForDc dc' domain =>
      obtain ⟨hworker, hproxy⟩ := update_pools b dc' domain
      exact ⟨hworker, hproxy, fun dc => lookup_update b dc dc' domain⟩
  | advanceProxyDomainsForDc dc' n =>
      refine ⟨rfl, rfl, fun dc => ?_⟩
      show (b.dcProxySticky.erase dc').lookup dc = if dc' = dc then none else _
      by_cases hdc : dc' = dc
      · rw [if_pos hdc, hdc, AList.lookup_erase]
      · rw [if_neg hdc, AList.lookup_erase_ne (Ne.symm hdc)]

/-- The pools and the sticky domains of a state are those the calls have
left. -/
theorem feed_leaves (b : Pools) (calls : List Pools.Call) :
    (feed Pools.call b calls).2.workerDomains
        = calls.foldl Pools.Call.workers b.workerDomains
      ∧ (feed Pools.call b calls).2.proxyDomains
        = calls.foldl Pools.Call.proxies b.proxyDomains
      ∧ ∀ dc, (feed Pools.call b calls).2.dcProxySticky.lookup dc
        = calls.foldl (Pools.Call.sticky dc)
            (b.dcProxySticky.lookup dc) := by
  induction calls generalizing b with
  | nil => exact ⟨rfl, rfl, fun _ => rfl⟩
  | cons c calls ih =>
      obtain ⟨hworker, hproxy, hsticky⟩ := call_leaves b c
      obtain ⟨ihworker, ihproxy, ihsticky⟩ := ih (b.call c).2
      rw [feed_cons]
      refine ⟨?_, ?_, fun dc => ?_⟩
      · rw [List.foldl_cons, ← hworker]
        exact ihworker
      · rw [List.foldl_cons, ← hproxy]
        exact ihproxy
      · rw [List.foldl_cons, ← hsticky]
        exact ihsticky dc

/-- The sticky domain of a DC is one that was reported for it. -/
theorem lastSuccess_reported {dc : Int} {calls : List Pools.Call}
    {domain : Text} (h : lastSuccess dc calls = some domain) :
    ∃ (i : Nat) (reported : Text),
      calls[i]? = some (Pools.Call.updateProxyDomainForDc dc reported)
      ∧ domain = Text.toAsciiLowercase (Text.trim reported) := by
  induction calls using List.reverseRecOn with
  | nil => cases h
  | append_singleton calls c ih =>
      have hearlier : lastSuccess dc calls = some domain →
          ∃ (i : Nat) (reported : Text), (calls ++ [c])[i]?
              = some (Pools.Call.updateProxyDomainForDc dc reported)
            ∧ domain = Text.toAsciiLowercase (Text.trim reported) := by
        intro hlast
        obtain ⟨i, reported, hi, hdomain⟩ := ih hlast
        refine ⟨i, reported, ?_, hdomain⟩
        rw [List.getElem?_append_left (List.getElem?_eq_some_iff.mp hi).1, hi]
      unfold lastSuccess at h hearlier
      rw [List.foldl_append, List.foldl_cons, List.foldl_nil] at h
      cases c with
      | updateProxyDomainForDc dc' reported =>
          simp only [Pools.Call.sticky] at h
          split at h
          · next hnow =>
              cases h
              refine ⟨calls.length, reported, ?_, rfl⟩
              rw [List.getElem?_concat_length, hnow.1]
          · exact hearlier h
      | advanceProxyDomainsForDc dc' n =>
          simp only [Pools.Call.sticky] at h
          split at h
          · cases h
          · exact hearlier h
      | setWorkerDomains domains => exact hearlier h
      | setProxyDomains domains => exact hearlier h
      | workerDomainsForDc dc' => exact hearlier h
      | proxyDomainsForDc dc' => exact hearlier h

/-- The Proxy pool is as `normalize_domain_pool` makes one, if every list
that is set is. -/
theorem proxiesSet_normalized {calls : List Pools.Call}
    (h : ∀ domains, .setProxyDomains domains ∈ calls →
      ∃ raw, domains = normalizeDomainPool raw) :
    ∃ raw, proxiesSet calls = normalizeDomainPool raw := by
  induction calls using List.reverseRecOn with
  | nil => exact ⟨[], rfl⟩
  | append_singleton calls c ih =>
      have ih := ih fun domains hmem =>
        h domains (List.mem_append_left _ hmem)
      unfold proxiesSet at ih ⊢
      rw [List.foldl_append, List.foldl_cons, List.foldl_nil]
      cases c with
      | setProxyDomains domains =>
          exact h domains (List.mem_append_right _ List.mem_cons_self)
      | setWorkerDomains domains => exact ih
      | workerDomainsForDc dc => exact ih
      | proxyDomainsForDc dc => exact ih
      | updateProxyDomainForDc dc domain => exact ih
      | advanceProxyDomainsForDc dc n => exact ih

theorem poolsOk_call {b : Pools} (h : PoolsOk b) {c : Pools.Call}
    (hc : c.Ok) : PoolsOk (b.call c).2 := by
  cases c with
  | setWorkerDomains domains => exact ⟨hc.1, h.proxy, h.host⟩
  | setProxyDomains domains => exact ⟨h.worker, hc.1, hc.2⟩
  | workerDomainsForDc dc => exact ⟨h.worker, h.proxy, h.host⟩
  | proxyDomainsForDc dc => exact ⟨h.worker, h.proxy, h.host⟩
  | updateProxyDomainForDc dc domain =>
      obtain ⟨hworker, hproxy⟩ := update_pools b dc domain
      refine ⟨?_, ?_, ?_⟩
      · exact hworker ▸ h.worker
      · exact hproxy ▸ h.proxy
      · exact hproxy ▸ h.host
  | advanceProxyDomainsForDc dc n => exact ⟨h.worker, h.proxy, h.host⟩

theorem poolsOk_feed {b : Pools} (h : PoolsOk b) {calls : List Pools.Call}
    (hcalls : ∀ c ∈ calls, c.Ok) : PoolsOk (feed Pools.call b calls).2 := by
  induction calls generalizing b with
  | nil => exact h
  | cons c calls ih =>
      rw [feed_cons]
      exact ih (poolsOk_call h (hcalls c (List.mem_cons_self ..)))
        fun d hd => hcalls d (List.mem_cons_of_mem c hd)

theorem poolsOk_empty : PoolsOk Pools.empty :=
  ⟨List.nodup_nil, List.nodup_nil, fun _ hw => nomatch hw⟩

/-- The DC's sticky domain, and the pool has it. -/
structure Sticks (dc : Int) (domain : Text) (b : Pools) : Prop where
  sticky : b.dcProxySticky.lookup dc = some domain
  mem : domain ∈ b.proxyDomains

/-- A reported domain of the pool sticks, -/
theorem sticks_update {b : Pools} {dc : Int} {domain : Text}
    (hmem : domain ∈ b.proxyDomains) (hhost : Host domain) :
    Sticks dc domain (b.updateProxyDomainForDc dc domain) := by
  refine ⟨?_, (update_pools b dc domain).2 ▸ hmem⟩
  have hne : domain.isEmpty = false := by simpa using hhost.ne_nil
  unfold Pools.updateProxyDomainForDc
  simp only [hhost.trim, hhost.lower, hne, Bool.false_eq_true, if_false]
  split
  · next hsame => simpa using hsame
  · exact AList.lookup_insert ..

/-- and a call that spares it leaves it so. -/
theorem sticks_call {b : Pools} {dc : Int} {domain : Text}
    (h : Sticks dc domain b) (hhost : Host domain) {c : Pools.Call}
    (hc : c.Spares dc domain) : Sticks dc domain (b.call c).2 := by
  cases c with
  | setWorkerDomains domains => exact ⟨h.sticky, h.mem⟩
  | setProxyDomains domains => exact ⟨h.sticky, hc⟩
  | workerDomainsForDc dc' => exact ⟨h.sticky, h.mem⟩
  | proxyDomainsForDc dc' => exact ⟨h.sticky, h.mem⟩
  | updateProxyDomainForDc dc' domain' =>
      by_cases hdc : dc' = dc
      · have hsame := hc hdc
        subst hdc hsame
        exact sticks_update h.mem hhost
      · refine ⟨?_, (update_pools b dc' domain').2 ▸ h.mem⟩
        rw [← h.sticky]
        show (b.updateProxyDomainForDc dc' domain').dcProxySticky.lookup dc = _
        unfold Pools.updateProxyDomainForDc
        simp only
        split
        · rfl
        · split
          · rfl
          · exact AList.lookup_insert_ne (Ne.symm hdc)
  | advanceProxyDomainsForDc dc' n =>
      have hne : dc ≠ dc' := Ne.symm hc
      refine ⟨?_, h.mem⟩
      rw [← h.sticky]
      exact AList.lookup_erase_ne hne

theorem sticks_feed {b : Pools} {dc : Int} {domain : Text}
    (h : Sticks dc domain b) (hhost : Host domain)
    {calls : List Pools.Call} (hcalls : ∀ c ∈ calls, c.Spares dc domain) :
    Sticks dc domain (feed Pools.call b calls).2 := by
  induction calls generalizing b with
  | nil => exact h
  | cons c calls ih =>
      rw [feed_cons]
      exact ih (sticks_call h hhost (hcalls c (List.mem_cons_self ..)))
        fun d hd => hcalls d (List.mem_cons_of_mem c hd)

/-- A sticky domain of the pool is first. -/
theorem Sticks.head {b : Pools} {dc : Int} {domain : Text}
    (h : Sticks dc domain b) (hnd : b.proxyDomains.Nodup) :
    (b.proxyDomainsForDc dc).1.head? = some domain := by
  rw [proxyDomainsForDc_eq hnd, h.sticky, stickyFirst,
    if_pos (List.mem_rotate.mpr h.mem)]
  rfl

/-- In every state the balancer can be in, the lists of a DC are the
pools set last, from the cursor on, read without a bounds failure, the
domain that worked last, if it is in the pool, first. And a domain that
worked for a DC stays first until a pool comes without it or the DC
reports otherwise. -/
theorem candidates_rotate (calls : List Pools.Call)
    (hcalls : ∀ c ∈ calls, c.Ok) :
    let b := (feed Pools.call Pools.empty calls).2
    (∀ dc, (b.workerDomainsForDc dc).1.Perm (workersSet calls)
      ∧ readRound (workersSet calls) (b.workerCursor dc)
        = .ok (b.workerDomainsForDc dc).1)
    ∧ (∀ dc, (b.proxyDomainsForDc dc).1.Perm (proxiesSet calls)
      ∧ ∃ order, readRound (proxiesSet calls) (b.proxyCursor dc) = .ok order
        ∧ order = (proxiesSet calls).rotate (b.proxyCursor dc)
        ∧ (b.proxyDomainsForDc dc).1
          = stickyFirst (lastSuccess dc calls) order)
    ∧ ∀ dc, ∀ domain ∈ proxiesSet calls, ∀ later : List Pools.Call,
        (∀ c ∈ later, c.Ok ∧ c.Spares dc domain) →
        ((feed Pools.call (b.updateProxyDomainForDc dc domain)
          later).2.proxyDomainsForDc dc).1.head? = some domain := by
  intro b
  have hok : PoolsOk b := poolsOk_feed poolsOk_empty hcalls
  obtain ⟨hworker, hproxy, hsticky⟩ := feed_leaves Pools.empty calls
  have hworker : b.workerDomains = workersSet calls := hworker
  have hproxy : b.proxyDomains = proxiesSet calls := hproxy
  rw [← hworker, ← hproxy]
  refine ⟨?_, ?_, ?_⟩
  · intro dc
    refine ⟨workerDomainsForDc_perm b dc, ?_⟩
    rw [readRound_eq, workerDomainsForDc_eq]
  · intro dc
    have hlast : b.dcProxySticky.lookup dc = lastSuccess dc calls :=
      hsticky dc
    rw [← hlast]
    exact ⟨proxyDomainsForDc_perm hok.proxy dc, _, readRound_eq .., rfl,
      proxyDomainsForDc_eq hok.proxy dc⟩
  · intro dc domain hmem later hlater
    have hhost := hok.host domain hmem
    have hstart : Sticks dc domain _ := sticks_update hmem hhost
    have hend := sticks_feed hstart hhost fun c hc => (hlater c hc).2
    have hpools : PoolsOk (b.updateProxyDomainForDc dc domain) :=
      poolsOk_call hok (c := .updateProxyDomainForDc dc domain) trivial
    exact hend.head
      (poolsOk_feed hpools fun c hc => (hlater c hc).1).proxy

def samplePool (raw : List String) : List Text :=
  normalizeDomainPool (raw.map String.toList)

/-- A cursor at the end of a long pool, and then a short one. -/
def sampleCalls : List Pools.Call :=
  [.setProxyDomains (samplePool ["a.example", "b.example", "c.example",
      "D.example"]),
    .proxyDomainsForDc 2, .advanceProxyDomainsForDc 2 3,
    .setProxyDomains (samplePool ["a.example", "b.example"])]

/-- DC 2 reports a domain; the pool is replaced and another DC fails. -/
theorem candidates_rotate_sample :
    ((feed Pools.call ((feed Pools.call Pools.empty
        sampleCalls).2.updateProxyDomainForDc 2 "b.example".toList)
      [.setProxyDomains (samplePool ["c.example", "b.example"]),
        .advanceProxyDomainsForDc 1 3]).2.proxyDomainsForDc 2).1.head?
      = some "b.example".toList := by
  refine (candidates_rotate sampleCalls ?_).2.2 2 _ (by decide +kernel) _ ?_
  · intro c hc
    simp only [sampleCalls, List.mem_cons, List.not_mem_nil, or_false] at hc
    rcases hc with rfl | rfl | rfl | rfl
    · exact ok_setProxyDomains _
    · trivial
    · trivial
    · exact ok_setProxyDomains _
  · intro c hc
    simp only [List.mem_cons, List.not_mem_nil, or_false] at hc
    rcases hc with rfl | rfl
    · refine ⟨ok_setProxyDomains _, ?_⟩
      show "b.example".toList ∈ samplePool ["c.example", "b.example"]
      decide +kernel
    · exact ⟨trivial, show (1 : Int) ≠ 2 by decide⟩

end Wrtg.CfBalancer
