/-
What a DC tries next when a whole window of CF Proxy domains has failed
(`cf_balancer.rs`, `advance_proxy_domains_for_dc`).

Seen from the DC's cursor, a session tries the first `m` places of the
order, or the sticky domain and the first `m - 1` of the others, and the
advance goes on to place `m` (`next_eq`). Where the sticky domain stands
there it is stepped over, and when it is the last of the pool the step
comes round to the place the session began with (`Wraps`).
-/
import Wrtg.Proofs.CfProxyWindow
import Wrtg.Proofs.CfRotation

namespace Wrtg.CfBalancer

-- ====================================================== what is asked

/-- The window leaves out one domain, it is the sticky one that ends the
order, and so the window has others in it. -/
def Wraps (b : Pools) (dc : Int) (m : Nat) : Prop :=
  m + 1 = b.proxyDomains.length ∧ 2 ≤ m
    ∧ b.dcProxySticky.lookup dc
      = b.proxyDomains[(b.proxyCursor dc + m) % b.proxyDomains.length]?

instance (b : Pools) (dc : Int) (m : Nat) : Decidable (Wraps b dc m) :=
  inferInstanceAs (Decidable (_ ∧ _ ∧ _))

-- ========================================================== one order

section Order

variable {order : List Text} {m : Nat}

/-- Without one of its domains, an order comes to what stood at most one
place further on. -/
theorem take_erase_subset (s : Text) (order : List Text) (k : Nat) :
    (order.erase s).take k ⊆ order.take (k + 1) := by
  induction order generalizing k with
  | nil =>
      rw [List.erase_nil, List.take_nil]
      exact List.nil_subset _
  | cons d order ih =>
      rw [List.erase_cons, List.take_succ_cons]
      split
      · exact List.subset_cons_self ..
      · cases k with
        | zero => exact List.nil_subset _
        | succ k =>
            rw [List.take_succ_cons]
            exact List.cons_subset_cons d (ih k)

/-- A session's window is the sticky domain and places below `m`. -/
theorem mem_window {sticky : Option Text} {d : Text} (hm : 1 ≤ m)
    (h : d ∈ (stickyFirst sticky order).take m) :
    sticky = some d ∨ d ∈ order.take m := by
  obtain ⟨k, rfl⟩ : ∃ k, m = k + 1 := ⟨m - 1, by omega⟩
  unfold stickyFirst at h
  split at h
  · next s =>
      split at h
      · rw [List.take_succ_cons] at h
        rcases List.mem_cons.mp h with rfl | h
        · exact .inl rfl
        · exact .inr (take_erase_subset s order k h)
      · exact .inr h
  · exact .inr h

/-- Where it is further on, the places below `m - 1` are in the window. -/
theorem window_eq {s : Text} (hnd : order.Nodup) (hm : 1 ≤ m)
    (h : order[m]? = some s) :
    (stickyFirst (some s) order).take m = s :: order.take (m - 1) := by
  obtain ⟨k, rfl⟩ : ∃ k, m = k + 1 := ⟨m - 1, by omega⟩
  obtain ⟨hlt, hs⟩ := List.getElem?_eq_some_iff.mp h
  have hsplit : order = order.take (k + 1) ++ s :: order.drop (k + 2) := by
    rw [← hs, List.getElem_cons_drop, List.take_append_drop]
  have hnot : s ∉ order.take (k + 1) := by
    intro hmem
    rw [hsplit, List.nodup_append] at hnd
    exact hnd.2.2 s hmem s (List.mem_cons_self ..) rfl
  have herase : order.erase s = order.take (k + 1) ++ order.drop (k + 2) := by
    conv_lhs => rw [hsplit]
    rw [List.erase_append_right _ hnot, List.erase_cons_head]
  rw [stickyFirst, if_pos (List.mem_of_getElem? h), List.take_succ_cons,
    herase, List.take_append_of_le_length (by rw [List.length_take]; omega),
    List.take_take, Nat.add_sub_cancel, Nat.min_eq_left (Nat.le_succ k)]

theorem not_mem_take {d : Text} {k : Nat} (hnd : order.Nodup)
    (h : order[k]? = some d) (hle : m ≤ k) : d ∉ order.take m := by
  intro hmem
  obtain ⟨j, hj⟩ := List.getElem?_of_mem hmem
  have hjm : j < m := by
    obtain ⟨hlt, -⟩ := List.getElem?_eq_some_iff.mp hj
    rw [List.length_take] at hlt
    omega
  rw [List.getElem?_take_of_lt hjm] at hj
  obtain ⟨hlt, -⟩ := List.getElem?_eq_some_iff.mp hj
  have hsame := (List.getElem?_inj hlt hnd).mp (hj.trans h.symm)
  omega

/-- The place behind the window, the sticky domain stepped over, is
outside it, unless that step comes round to the start. -/
theorem fresh_iff {sticky : Option Text} (hnd : order.Nodup) (hm : 1 ≤ m)
    (hlt : m < order.length) :
    (∃ d, (if order[m]? = sticky then order[(m + 1) % order.length]?
            else order[m]?) = some d
        ∧ d ∉ (stickyFirst sticky order).take m)
      ↔ ¬ (m + 1 = order.length ∧ 2 ≤ m ∧ sticky = order[m]?) := by
  have hplace := List.getElem?_eq_getElem hlt
  by_cases hs : order[m]? = sticky
  · rw [if_pos hs, ← hs, hplace, window_eq hnd hm hplace]
    by_cases hend : m + 1 = order.length
    · rw [hend, Nat.mod_self, List.getElem?_eq_getElem (by omega)]
      by_cases h2 : 2 ≤ m
      · -- the first place has been tried
        refine iff_of_false ?_ (not_not_intro ⟨rfl, h2, rfl⟩)
        intro h
        obtain ⟨d, hd, hfresh⟩ := h
        cases hd
        refine hfresh (List.mem_cons_of_mem _
          (List.mem_of_getElem? (i := 0) ?_))
        rw [List.getElem?_take_of_lt (by omega),
          List.getElem?_eq_getElem (by omega)]
      · have hone : m = 1 := by omega
        subst hone
        refine iff_of_true ⟨_, rfl, ?_⟩ fun h => h2 h.2.1
        rw [Nat.sub_self, List.take_zero, List.mem_singleton,
          hnd.getElem_inj_iff]
        omega
    · have hnext : m + 1 < order.length := by omega
      rw [Nat.mod_eq_of_lt hnext, List.getElem?_eq_getElem hnext]
      refine iff_of_true ⟨_, rfl, ?_⟩ fun h => hend h.1
      rw [List.mem_cons, not_or]
      refine ⟨?_, not_mem_take hnd (List.getElem?_eq_getElem hnext) (by omega)⟩
      rw [hnd.getElem_inj_iff]
      omega
  · rw [if_neg hs, hplace]
    refine iff_of_true ⟨_, rfl, ?_⟩ fun h => hs (hplace.trans h.2.2.symm)
    intro hmem
    rcases mem_window hm hmem with h | h
    · exact hs (hplace.trans h.symm)
    · exact not_mem_take hnd hplace (Nat.le_refl m) h

end Order

-- ===================================================== the two sessions

section Sessions

variable {b : Pools} {dc : Int} {m : Nat}

/-- The first place of the next session's order. -/
def nextPlace (b : Pools) (dc : Int) (m : Nat) : Nat :=
  let n := b.proxyDomains.length
  let place := (b.proxyCursor dc + m) % n
  if b.proxyDomains[place]? = b.dcProxySticky.lookup dc then (place + 1) % n
  else place

/-- Asking for a DC's order leaves it the cursor it had, modulo the
pool. -/
theorem proxyDomainsForDc_cursor (h : 2 ≤ b.proxyDomains.length) :
    ∃ i, (b.proxyDomainsForDc dc).2.dcProxyIdx.lookup dc = some i
      ∧ i % b.proxyDomains.length
        = b.proxyCursor dc % b.proxyDomains.length := by
  have hle : ¬ b.proxyDomains.length ≤ 1 := by omega
  unfold Pools.proxyDomainsForDc orderedDomains Pools.proxyCursor
  simp only [hle, if_false]
  cases hl : b.dcProxyIdx.lookup dc with
  | none => exact ⟨_, AList.lookup_insert .., Nat.mod_mod ..⟩
  | some i => exact ⟨i, hl, rfl⟩

/-- A session that fails on `m` domains tries the window, and leaves the
DC at the next place. -/
theorem failingSession_eq (hnd : b.proxyDomains.Nodup)
    (hlt : m < b.proxyDomains.length) (hm : 1 ≤ m) :
    (b.failingSession m dc).1
        = (stickyFirst (b.dcProxySticky.lookup dc)
            (b.proxyDomains.rotate (b.proxyCursor dc))).take m
      ∧ Plain (b.failingSession m dc).2 dc (nextPlace b dc m) := by
  have hn : 0 < b.proxyDomains.length := by omega
  have hmax : max b.proxyDomains.length 1 = b.proxyDomains.length := by omega
  have horder := proxyDomainsForDc_eq hnd dc
  have hlen : ((b.proxyDomainsForDc dc).1.take m).length = m := by
    rw [List.length_take, (proxyDomainsForDc_perm hnd dc).length_eq]
    omega
  obtain ⟨i, hi, hmod⟩ := @proxyDomainsForDc_cursor b dc (by omega)
  have hidx : (b.failingSession m dc).2.dcProxyIdx.lookup dc
      = some (nextPlace b dc m) := by
    show ((b.proxyDomainsForDc dc).2.advanceProxyDomainsForDc dc
      ((b.proxyDomainsForDc dc).1.take m).length).dcProxyIdx.lookup dc = _
    rw [hlen]
    unfold Pools.advanceProxyDomainsForDc
    simp only [hi, AList.lookup_insert, proxyDomainsForDc_pool, hmax]
    rw [Nat.add_mod, hmod, ← Nat.add_mod]
    unfold nextPlace
    simp only [beq_iff_eq]
    rfl
  refine ⟨congrArg (List.take m) horder, AList.lookup_erase .., hidx, ?_⟩
  show nextPlace b dc m < b.proxyDomains.length
  unfold nextPlace
  simp only
  split <;> exact Nat.mod_lt _ hn

/-- The next place, counted from the cursor. -/
theorem next_eq (hlt : m < b.proxyDomains.length) :
    let order := b.proxyDomains.rotate (b.proxyCursor dc)
    b.proxyDomains[nextPlace b dc m]?
      = if order[m]? = b.dcProxySticky.lookup dc then
          order[(m + 1) % order.length]?
        else order[m]? := by
  intro order
  have hplace : ∀ k, k < b.proxyDomains.length →
      order[k]?
        = b.proxyDomains[(b.proxyCursor dc + k) % b.proxyDomains.length]? := by
    intro k hk
    rw [List.getElem?_rotate hk, Nat.add_comm]
  have hnext : (m + 1) % b.proxyDomains.length < b.proxyDomains.length :=
    Nat.mod_lt _ (by omega)
  unfold nextPlace
  rw [show order.length = b.proxyDomains.length from List.length_rotate ..,
    hplace m hlt, hplace _ hnext, Nat.add_mod_mod, ← Nat.add_assoc]
  simp only
  split
  · rw [Nat.mod_add_mod]
  · rfl

end Sessions

/-- A session that fails on the first `m` domains of a DC's list leaves
the DC at a domain it has not tried, unless the list ends with the
sticky domain just behind the window. -/
theorem retry_fresh_iff (b : Pools) (dc : Int) (m : Nat)
    (hnd : b.proxyDomains.Nodup) (hm : 1 ≤ m)
    (hlt : m < b.proxyDomains.length) :
    let session := b.failingSession m dc
    (∃ d, (session.2.proxyDomainsForDc dc).1.head? = some d
        ∧ d ∉ session.1)
      ↔ ¬ Wraps b dc m := by
  intro session
  obtain ⟨htried, hplain⟩ := @failingSession_eq b dc m hnd hlt hm
  have hhead : (session.2.proxyDomainsForDc dc).1.head?
      = b.proxyDomains[nextPlace b dc m]? := by
    rw [proxyDomainsForDc_plain hplain, List.head?_rotate hplain.inside]
    rfl
  rw [hhead, next_eq hlt]
  show (∃ d, _ ∧ d ∉ (b.failingSession m dc).1) ↔ _
  rw [htried]
  unfold Wraps
  rw [Nat.add_comm (b.proxyCursor dc), ← List.getElem?_rotate hlt]
  generalize hsticky : b.dcProxySticky.lookup dc = sticky
  have hlen : (b.proxyDomains.rotate (b.proxyCursor dc)).length
      = b.proxyDomains.length := List.length_rotate ..
  rw [← hlen] at hlt ⊢
  exact fresh_iff (List.nodup_rotate.mpr hnd) hm hlt

/-- Four domains, and the three attempts a session has by default. -/
def retryPools (sticky : String) : Pools :=
  { Pools.empty with
    proxyDomains := samplePool ["a.example", "b.example", "c.example",
      "d.example"]
    dcProxySticky :=
      (∅ : AList fun _ : Int => Text).insert 2 sticky.toList }

theorem retry_fresh_sample :
    ∃ d, (((retryPools "b.example").failingSession 3
        2).2.proxyDomainsForDc 2).1.head? = some d
      ∧ d ∉ ((retryPools "b.example").failingSession 3 2).1 :=
  (retry_fresh_iff (retryPools "b.example") 2 3 (by decide +kernel)
    (by decide) (by decide +kernel)).mpr (by decide +kernel)

/-- The session tries `d`, `a` and `b`, and the next one starts on `a`,
`c` being the one it has not tried. -/
theorem retry_fresh_fails :
    let b := retryPools "d.example"
    b.proxyDomains.Nodup ∧ 3 < b.proxyDomains.length
      ∧ "d.example".toList ∈ b.proxyDomains
      ∧ (b.failingSession 3 2).1
        = ["d.example", "a.example", "b.example"].map String.toList
      ∧ ((b.failingSession 3 2).2.proxyDomainsForDc 2).1.head?
        = some "a.example".toList := by
  decide +kernel

end Wrtg.CfBalancer
