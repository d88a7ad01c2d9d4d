/-
No domain of the CF Proxy pool starves (`cf_balancer.rs`,
`proxy_domains_for_dc` against `advance_proxy_domains_for_dc`).

The first failing session of a DC is the only irregular one: it may put
a sticky domain first, step over it when it moves the cursor, and fold
a cursor left over from a longer pool. Whatever it does, it leaves no
sticky domain and a cursor inside the pool (`advance_plain`). From there
every failing session tries the window of `w` domains at the cursor and
moves the cursor by `w` (`failingSession_plain`), so consecutive
sessions try consecutive windows, and windows laid end to end for `n`
places cover a circle of `n` (`windows_cover`).
-/
import Wrtg.Proofs.CfBalancer

namespace Wrtg.CfBalancer

-- ======================================================= the circle

/-- Windows laid end to end from any place cover the circle. -/
theorem windows_cover {n w c i : Nat} (hw : 0 < w) (hc : c < n)
    (hi : i < n) :
    ∃ j t, j < (n + w - 1) / w ∧ t < w ∧ (c + j * w + t) % n = i := by
  -- how far the place is from the start, going round
  have hn : 0 < n := by omega
  have hr : (i + n - c) % n < n := Nat.mod_lt _ hn
  refine ⟨(i + n - c) % n / w, (i + n - c) % n % w, ?_, Nat.mod_lt _ hw, ?_⟩
  · rw [Nat.lt_div_iff_mul_lt hw]
    have hle := Nat.div_mul_le_self ((i + n - c) % n) w
    omega
  · have hsplit : (i + n - c) % n / w * w + (i + n - c) % n % w
        = (i + n - c) % n := by
      rw [Nat.mul_comm]
      exact Nat.div_add_mod ..
    rw [Nat.add_assoc, hsplit, Nat.add_mod_mod,
      show c + (i + n - c) = i + n by omega, Nat.add_mod_right,
      Nat.mod_eq_of_lt hi]

-- ==================================================== plain sessions

/-- No sticky domain, and a cursor inside the pool. -/
structure Plain (b : Pools) (dc : Int) (c : Nat) : Prop where
  sticky : b.dcProxySticky.lookup dc = none
  cursor : b.dcProxyIdx.lookup dc = some c
  inside : c < b.proxyDomains.length

variable {b : Pools} {dc : Int} {attempts : Nat}

/-- The pool is not the sessions' to change. -/
theorem advance_pool (b : Pools) (dc : Int) (n : Nat) :
    (b.advanceProxyDomainsForDc dc n).proxyDomains = b.proxyDomains := rfl

theorem proxyDomainsForDc_pool (b : Pools) (dc : Int) :
    (b.proxyDomainsForDc dc).2.proxyDomains = b.proxyDomains := rfl

/-- Whatever cursor and sticky domain it finds, an advance leaves a
plain state. -/
theorem advance_plain (b : Pools) (dc : Int) (n : Nat)
    (hpool : b.proxyDomains ≠ []) :
    ∃ c, Plain (b.advanceProxyDomainsForDc dc n) dc c := by
  have hlen : 0 < b.proxyDomains.length := List.length_pos_iff.mpr hpool
  have hmax : max b.proxyDomains.length 1 = b.proxyDomains.length := by omega
  refine ⟨_, AList.lookup_erase .., AList.lookup_insert .., ?_⟩
  rw [advance_pool]
  simp only [hmax]
  have hstep : ∀ (x : Nat) (skip : Prop) [Decidable skip],
      (if skip then (x % b.proxyDomains.length + 1) % b.proxyDomains.length
        else x % b.proxyDomains.length) < b.proxyDomains.length := by
    intro x skip _
    split
    · exact Nat.mod_lt _ hlen
    · exact Nat.mod_lt _ hlen
  cases b.dcProxyIdx.lookup dc with
  | none => exact hstep ..
  | some i => exact hstep ..

/-- The order of a plain state is the pool from the cursor on, and
asking for it changes nothing. -/
theorem proxyDomainsForDc_plain {c : Nat} (h : Plain b dc c) :
    b.proxyDomainsForDc dc = (b.proxyDomains.rotate c, b) := by
  obtain ⟨hs, hc, hin⟩ := h
  unfold Pools.proxyDomainsForDc orderedDomains
  rw [hs]
  by_cases hone : b.proxyDomains.length ≤ 1
  · rw [if_pos hone]
    have hzero : c = 0 := by omega
    subst hzero
    rw [List.rotate_zero]
  · rw [if_neg hone, hc]
    simp only [Nat.mod_eq_of_lt hin, map_range_eq_rotate]

/-- An advance of a plain state moves the cursor and no more. -/
theorem advance_of_plain {c : Nat} (h : Plain b dc c) (n : Nat) :
    Plain (b.advanceProxyDomainsForDc dc n) dc
      ((c + n) % b.proxyDomains.length) := by
  obtain ⟨hs, hc, hin⟩ := h
  have hmax : max b.proxyDomains.length 1 = b.proxyDomains.length := by omega
  have hlt : (c + n) % b.proxyDomains.length < b.proxyDomains.length :=
    Nat.mod_lt _ (by omega)
  have hidx : (b.advanceProxyDomainsForDc dc n).dcProxyIdx
      = b.dcProxyIdx.insert dc ((c + n) % b.proxyDomains.length) := by
    unfold Pools.advanceProxyDomainsForDc
    simp only [hs, hc, hmax]
    rw [if_neg]
    rw [List.getElem?_eq_getElem hlt]
    exact Bool.false_ne_true
  refine ⟨AList.lookup_erase .., ?_, hlt⟩
  rw [hidx, AList.lookup_insert]

/-- A failing session of a plain state tries the window at the cursor
and leaves the cursor behind it. -/
theorem failingSession_plain (attempts : Nat) {c : Nat} (h : Plain b dc c) :
    (b.failingSession attempts dc).1
        = (b.proxyDomains.rotate c).take attempts
      ∧ (b.failingSession attempts dc).2.proxyDomains = b.proxyDomains
      ∧ Plain (b.failingSession attempts dc).2 dc
          ((c + min attempts b.proxyDomains.length)
            % b.proxyDomains.length) := by
  unfold Pools.failingSession
  rw [proxyDomainsForDc_plain h]
  refine ⟨rfl, rfl, ?_⟩
  have hadv := advance_of_plain h
    ((b.proxyDomains.rotate c).take attempts).length
  rw [List.length_take, List.length_rotate] at hadv
  simpa using hadv

/-- Any failing session leaves a plain state over the same pool. -/
theorem failingSession_any (attempts : Nat) (dc : Int) (b : Pools)
    (hpool : b.proxyDomains ≠ []) :
    (b.failingSession attempts dc).2.proxyDomains = b.proxyDomains
      ∧ ∃ c, Plain (b.failingSession attempts dc).2 dc c := by
  refine ⟨rfl, ?_⟩
  exact advance_plain (b.proxyDomainsForDc dc).2 dc _
    (by rw [proxyDomainsForDc_pool]; exact hpool)

-- ============================================================== runs

/-- What consecutive failing sessions of a DC try, session by
session. -/
def failingSessions (attempts : Nat) (dc : Int) : Nat → Pools →
    List (List Text)
  | 0, _ => []
  | k + 1, b =>
      let (tried, b) := b.failingSession attempts dc
      tried :: failingSessions attempts dc k b

/-- From a plain state the sessions try consecutive windows. -/
theorem failingSessions_plain (attempts : Nat) {c k : Nat}
    (h : Plain b dc c) {j : Nat} (hj : j < k) :
    (failingSessions attempts dc k b)[j]?
      = some ((b.proxyDomains.rotate
          ((c + j * min attempts b.proxyDomains.length)
            % b.proxyDomains.length)).take attempts) := by
  induction k generalizing b c j with
  | zero => omega
  | succ k ih =>
      obtain ⟨htried, hsame, hplain⟩ :=
        failingSession_plain attempts h
      rw [failingSessions]
      cases j with
      | zero =>
          rw [List.getElem?_cons_zero, htried, Nat.zero_mul, Nat.add_zero,
            Nat.mod_eq_of_lt h.inside]
      | succ j =>
          rw [List.getElem?_cons_succ, ih hplain (by omega), hsame,
            Nat.mod_add_mod, Nat.add_assoc, Nat.succ_mul,
            Nat.add_comm (j * _)]

/-- No domain starves: whatever cursor and sticky domain a DC starts
with, failing sessions enough to fill the pool with their windows, and
one more, try every domain of the pool. -/
theorem pool_covered (b : Pools) (dc : Int) (attempts : Nat)
    (hpool : b.proxyDomains ≠ []) (hattempts : 1 ≤ attempts) :
    let n := b.proxyDomains.length
    let w := min attempts n
    ∀ d ∈ b.proxyDomains,
      ∃ tried ∈ failingSessions attempts dc ((n + w - 1) / w + 1) b,
        d ∈ tried := by
  intro n w d hd
  have hn : 0 < n := List.length_pos_iff.mpr hpool
  have hw : 0 < w := by omega
  obtain ⟨i, hi, hdi⟩ := List.getElem_of_mem hd
  obtain ⟨hsame, c, hplain⟩ := failingSession_any attempts dc b hpool
  have hc : c < n := by
    have hin := hplain.inside
    rwa [hsame] at hin
  obtain ⟨j, t, hj, ht, hjt⟩ := windows_cover hw hc hi
  -- the window of session `j`, counted from the second one on
  have hwindow := failingSessions_plain attempts hplain hj
  rw [hsame] at hwindow
  refine ⟨_, List.mem_cons_of_mem _ (List.mem_of_getElem? hwindow), ?_⟩
  have ht' : t < ((b.proxyDomains.rotate ((c + j * w) % n)).take
      attempts).length := by
    rw [List.length_take, List.length_rotate]
    exact ht
  refine List.mem_of_getElem? (i := t) ?_
  rw [List.getElem?_eq_getElem ht', List.getElem_take, List.getElem_rotate]
  have hplace : (t + (c + j * w) % n) % n = i := by
    rw [Nat.add_mod_mod, Nat.add_comm, hjt]
  subst hdi
  simp only [show b.proxyDomains.length = n from rfl, hplace]

/-- Five domains, a cursor of a longer pool and a sticky domain. -/
def samplePools : Pools :=
  { Pools.empty with
    proxyDomains := ["a.example", "b.example", "c.example", "d.example",
      "e.example"].map String.toList
    dcProxyIdx := (∅ : AList fun _ : Int => Nat).insert 2 17
    dcProxySticky :=
      (∅ : AList fun _ : Int => Text).insert 2 "d.example".toList }

/-- Four sessions of two candidates each come to a domain that the first
of them does not try. -/
theorem pool_covered_sample :
    ∃ tried ∈ failingSessions 2 2 4 samplePools,
      "e.example".toList ∈ tried :=
  pool_covered samplePools 2 2 (by decide) (by decide) _ (by decide)

end Wrtg.CfBalancer
