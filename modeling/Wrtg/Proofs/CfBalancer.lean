/-
The pools as the Worker and Proxy rungs see them (`cf_balancer.rs`,
`cf_proxy_domains.rs`).

A configured pool is a `normalize_domain_pool` list: distinct hosts,
each lower case and trimmed (`normalizeDomainPool_nodup`,
`host_of_mem_normalizeDomainPool`), so that hosts are equal when their
cooldown keys are. What a session gets for its DC is that pool, rotated
(`orderedDomains_perm`).
-/
import Mathlib.Data.List.GetD
import Mathlib.Data.List.Rotate
import Wrtg.CfProxyDomains

namespace Wrtg

-- ======================================================= lower case

namespace Text

theorem isUpper_lowered {n : Nat} (h : 65 ≤ n) (h' : n ≤ 90) :
    isUpper (Char.ofNat (n + 32)) = false := by
  have hall : ∀ n < 91, 65 ≤ n → isUpper (Char.ofNat (n + 32)) = false := by
    decide
  exact hall n (by omega) h

/-- Lower case is lower case already. -/
theorem toAsciiLowercase_idem (t : Text) :
    toAsciiLowercase (toAsciiLowercase t) = toAsciiLowercase t := by
  unfold toAsciiLowercase
  rw [List.map_map]
  refine List.map_congr_left ?_
  intro c _
  show (if isUpper (if isUpper c then _ else c) then _ else _) = _
  by_cases hc : isUpper c = true
  · rw [if_pos hc]
    have hrange : 65 ≤ c.toNat ∧ c.toNat ≤ 90 := by
      unfold isUpper at hc
      rw [Bool.and_eq_true] at hc
      exact ⟨of_decide_eq_true hc.1, of_decide_eq_true hc.2⟩
    rw [if_neg (by rw [isUpper_lowered hrange.1 hrange.2]; decide)]
  · rw [if_neg hc, if_neg hc]

/-- What a domain label is spelt with is not white space. -/
theorem isWhitespace_of_isAlnum {c : Char}
    (h : isAlnum c = true ∨ c = '-' ∨ c = '.') : isWhitespace c = false := by
  have hrange : 45 ≤ c.toNat ∧ c.toNat ≤ 122 := by
    rcases h with h | rfl | rfl
    · unfold isAlnum isAlpha isLower isUpper isDigit at h
      simp only [Bool.or_eq_true, Bool.and_eq_true, decide_eq_true_eq,
        Char.le_def, UInt32.le_iff_toNat_le] at h
      have hn : c.val.toNat = c.toNat := rfl
      rw [hn] at h
      rcases h with (⟨h₁, h₂⟩ | ⟨h₁, h₂⟩) | ⟨h₁, h₂⟩ <;>
        exact ⟨Nat.le_trans (by decide) h₁, Nat.le_trans h₂ (by decide)⟩
    · decide
    · decide
  unfold isWhitespace
  simp
  omega

end Text

namespace CfBalancer

open CfProxyDomains

-- ============================================================== hosts

/-- A host as the pools hold it. -/
structure Host (w : Text) : Prop where
  ne_nil : w ≠ []
  trim : Text.trim w = w
  lower : Text.toAsciiLowercase w = w

/-- A valid domain is spelt with letters, digits, hyphens and dots. -/
theorem isValidDomain_chars {domain : Text} (h : isValidDomain domain = true) :
    ∀ c ∈ domain, Text.isAlnum c = true ∨ c = '-' ∨ c = '.' := by
  intro c hc
  unfold isValidDomain at h
  split at h
  · cases h
  simp only at h
  split at h
  · cases h
  split at h
  · cases h
  split at h
  · cases h
  · next hall =>
      have hall : (Text.splitOn (· == '.') domain).all validLabel = true := by
        simpa using hall
      rcases Text.mem_splitOn (· == '.') hc with hs | ⟨l, hl, hcl⟩
      · exact .inr (.inr (by simpa using hs))
      · have hv := List.all_eq_true.mp hall l hl
        unfold validLabel at hv
        rw [Bool.and_eq_true] at hv
        have hc := List.all_eq_true.mp hv.2 c hcl
        rw [Bool.or_eq_true] at hc
        exact hc.imp id fun he => .inl (by simpa using he)

theorem isValidDomain_ne_nil {domain : Text}
    (h : isValidDomain domain = true) : domain ≠ [] := by
  intro h
  subst h
  cases h

theorem host_of_isValidDomain {domain : Text}
    (h : isValidDomain (Text.toAsciiLowercase domain) = true) :
    Host (Text.toAsciiLowercase domain) := by
  have hws := fun c hc =>
    Text.isWhitespace_of_isAlnum (isValidDomain_chars h c hc)
  refine ⟨isValidDomain_ne_nil h, Text.trim_eq ?_ ?_,
    Text.toAsciiLowercase_idem domain⟩
  · exact fun c hc => hws c (List.mem_of_mem_head? hc)
  · exact fun c hc => hws c (List.mem_of_mem_getLast? hc)

theorem normalizeFrom_spec {out domains : List Text} (hnd : out.Nodup)
    (hvalid : ∀ w ∈ out, Host w ∧ isValidDomain w = true) :
    (normalizeFrom out domains).Nodup
      ∧ ∀ w ∈ normalizeFrom out domains,
        Host w ∧ isValidDomain w = true := by
  induction domains generalizing out with
  | nil => exact ⟨hnd, hvalid⟩
  | cons domain domains ih =>
      rw [normalizeFrom]
      split
      · exact ih hnd hvalid
      · next hc =>
          simp only [Bool.or_eq_true, Bool.not_eq_true', not_or,
            Bool.not_eq_false, List.contains_iff_mem] at hc
          refine ih ?_ ?_
          · rw [List.nodup_append]
            refine ⟨hnd, List.nodup_singleton _, ?_⟩
            intro a ha b hb h
            subst h
            rw [List.mem_singleton] at hb
            exact hc.2 (hb ▸ ha)
          · intro w hw
            rcases List.mem_append.mp hw with hw | hw
            · exact hvalid w hw
            · rw [List.mem_singleton] at hw
              exact hw ▸ ⟨host_of_isValidDomain hc.1, hc.1⟩

theorem normalizeDomainPool_nodup (domains : List Text) :
    (normalizeDomainPool domains).Nodup :=
  (normalizeFrom_spec List.nodup_nil fun _ hw => nomatch hw).1

theorem host_of_mem_normalizeDomainPool {domains : List Text} {w : Text}
    (h : w ∈ normalizeDomainPool domains) : Host w :=
  ((normalizeFrom_spec List.nodup_nil fun _ hw => nomatch hw).2 w h).1

theorem isValidDomain_of_mem_normalizeDomainPool {domains : List Text}
    {w : Text} (h : w ∈ normalizeDomainPool domains) :
    isValidDomain w = true :=
  ((normalizeFrom_spec List.nodup_nil fun _ hw => nomatch hw).2 w h).2

-- ========================================================== rotations

/-- Counting round a list from a place on is rotating it. -/
theorem map_range_eq_rotate (ws : List Text) (start : Nat) :
    ((List.range ws.length).map fun i =>
      ws.getD ((start + i) % ws.length) []) = ws.rotate start := by
  refine List.ext_getElem (by simp) ?_
  intro i hi hi'
  rw [List.length_map, List.length_range] at hi
  have hlt : (start + i) % ws.length < ws.length :=
    Nat.mod_lt _ (by omega)
  rw [List.getElem_map, List.getElem_range, List.getElem_rotate,
    List.getD_eq_getElem _ _ hlt]
  congr 1
  rw [Nat.add_comm]

/-- A DC's order of the pool. -/
theorem orderedDomains_perm (domains : List Text) (dc : Int)
    (dcMap : AList fun _ : Int => Nat) (rr : Nat) :
    (orderedDomains domains dc dcMap rr).1.Perm domains := by
  unfold orderedDomains
  split
  · exact .refl _
  · simp only [map_range_eq_rotate]
    exact List.rotate_perm _ _

theorem workerDomainsForDc_perm (b : Pools) (dc : Int) :
    (b.workerDomainsForDc dc).1.Perm b.workerDomains :=
  orderedDomains_perm ..

end CfBalancer

end Wrtg
