/-
Which hosts a failed dial cools (`mark_worker_429_with_peers` of
`cf_worker_cooldown.rs`).

The maps go by `Cooldown429.key`, the account by `accountKey`, and the
test that skips the Worker itself by ASCII case. `coolPeers_keeps` says
which keys a round over the peers leaves alone, and `coolPeers_cools`
that a round that returns leaves no peer of the account usable. A round
returns exactly if `Instant` can hold the deadlines that it sets
(`coolPeers_returns_iff`), each of which can be told from the maps that
the call finds.
-/
import Wrtg.CfWorker
import Wrtg.Proofs.Cooldown429

namespace Wrtg.CfWorker

open Ws CfBalancer

-- ============================================================== keys

/-- No letter is white space, nor does it become any in lower case. -/
theorem isWhitespace_lower (c : Char) :
    Text.isWhitespace
        (if Text.isUpper c then Char.ofNat (c.toNat + 32) else c)
      = Text.isWhitespace c := by
  have hletters : ∀ n < 91, Text.isUpper (Char.ofNat n) = true →
      Text.isWhitespace (Char.ofNat (n + 32))
        = Text.isWhitespace (Char.ofNat n) := by decide
  split
  · next hc =>
      have hle : c.toNat ≤ 90 := by
        unfold Text.isUpper at hc
        rw [Bool.and_eq_true] at hc
        exact of_decide_eq_true hc.2
      have h := hletters c.toNat (by omega)
      rw [Char.ofNat_toNat] at h
      exact h hc
  · rfl

/-- Trimming and lowering can change places. -/
theorem key_eq_trim_lower (w : Text) :
    Cooldown429.key w = Text.trim (Text.toAsciiLowercase w) := by
  have hws : Text.isWhitespace ∘ (fun c =>
      if Text.isUpper c then Char.ofNat (c.toNat + 32) else c)
        = Text.isWhitespace := funext isWhitespace_lower
  unfold Cooldown429.key Text.trim Text.trimEnd Text.trimStart
    Text.toAsciiLowercase
  rw [List.dropWhile_map, hws, ← List.map_reverse, List.dropWhile_map, hws,
    List.map_reverse]

/-- Hosts equal up to ASCII case have one key. -/
theorem key_eq_of_eqIgnoreAsciiCase {w w' : Text}
    (h : Text.eqIgnoreAsciiCase w w' = true) :
    Cooldown429.key w = Cooldown429.key w' := by
  rw [key_eq_trim_lower, key_eq_trim_lower, beq_iff_eq.mp h]

theorem key_ne_nil_iff (w : Text) :
    Cooldown429.key w ≠ [] ↔ Text.trim w ≠ [] := by
  unfold Cooldown429.key Text.toAsciiLowercase
  rw [ne_eq, List.map_eq_nil_iff]

/-- A host with an account has a key. -/
theorem key_ne_nil_of_accountKey {w account : Text}
    (h : accountKey w = some account) : Cooldown429.key w ≠ [] := by
  rw [key_ne_nil_iff]
  intro hnil
  unfold accountKey at h
  rw [hnil] at h
  cases h

-- =========================================================== reading

/-- Two pairs of maps no reader at `now` or later can tell apart. -/
structure Cooldowns.Agree (now : Nat) (c c' : Cooldowns) : Prop where
  cfWorker429 : c.cfWorker429.Agree now c'.cfWorker429
  cfWorker503 : c.cfWorker503.Agree now c'.cfWorker503

namespace Cooldowns

variable {c c' : Cooldowns} {now : Nat}

theorem Agree.refl (now : Nat) (c : Cooldowns) : Agree now c c :=
  ⟨.refl now _, .refl now _⟩

theorem Agree.trans {c'' : Cooldowns} (h : Agree now c c')
    (h' : Agree now c' c'') : Agree now c c'' :=
  ⟨h.cfWorker429.trans h'.cfWorker429, h.cfWorker503.trans h'.cfWorker503⟩

/-- A cooldown of the host runs in one of the maps. -/
def limited (c : Cooldowns) (w : Text) (now : Nat) : Bool :=
  (c.cfWorker429.entry w).coolingAt now
    || (c.cfWorker503.entry w).coolingAt now

theorem Agree.limited (h : Agree now c c') (w : Text) :
    c.limited w now = c'.limited w now := by
  unfold Cooldowns.limited
  rw [h.cfWorker429.coolingAt, h.cfWorker503.coolingAt]

/-- A Worker is limited while a cooldown of its key runs. -/
theorem workerRateLimited_key (c : Cooldowns) (w : Text) (now : Nat) :
    (c.workerRateLimited w now).1
      = (!(Cooldown429.key w).isEmpty
          && c.limited (Cooldown429.key w) now) := by
  unfold workerRateLimited limited
  simp only [Cooldown429.isActive_fst]
  cases (Cooldown429.key w).isEmpty with
  | true => rfl
  | false =>
      cases (c.cfWorker429.entry (Cooldown429.key w)).coolingAt now <;> rfl

/-- Asking changes nothing that can be seen. -/
theorem workerRateLimited_agree (c : Cooldowns) (w : Text) (now : Nat) :
    Agree now (c.workerRateLimited w now).2 c := by
  unfold workerRateLimited
  simp only
  split
  · exact ⟨Cooldown429.isActive_agree w now, .refl now _⟩
  · exact ⟨Cooldown429.isActive_agree w now,
      Cooldown429.isActive_agree w now⟩

theorem Agree.workerRateLimited (h : Agree now c c') (w : Text) :
    (c.workerRateLimited w now).1 = (c'.workerRateLimited w now).1 := by
  rw [workerRateLimited_key, workerRateLimited_key, h.limited]

/-- The filter keeps the Workers that are not on cooldown. -/
theorem usable_spec (c : Cooldowns) (now : Nat) (ws : List Text) :
    (usable now ws c).1
        = ws.filter (fun w => !(c.workerRateLimited w now).1)
      ∧ Agree now (usable now ws c).2 c := by
  induction ws generalizing c with
  | nil => exact ⟨rfl, .refl now c⟩
  | cons w ws ih =>
      have hlook := workerRateLimited_agree c w now
      obtain ⟨hlist, hagree⟩ := ih (c.workerRateLimited w now).2
      refine ⟨?_, hagree.trans hlook⟩
      rw [usable]
      simp only
      rw [hlist, List.filter_cons]
      simp only [hlook.workerRateLimited]
      cases (c.workerRateLimited w now).1 <;> rfl

end Cooldowns

/-- The hosts share a Cloudflare account. -/
def sameAccount (w w' : Text) : Bool :=
  (accountKey w).isSome && accountKey w == accountKey w'

theorem sameAccount_iff {w p : Text} :
    sameAccount w p = true
      ↔ ∃ account, accountKey w = some account
        ∧ accountKey p = some account := by
  unfold sameAccount
  rw [Bool.and_eq_true, beq_iff_eq, Option.isSome_iff_exists]
  constructor
  · intro h
    obtain ⟨⟨account, h⟩, hsame⟩ := h
    exact ⟨account, h, hsame.symm.trans h⟩
  · intro h
    obtain ⟨account, h, h'⟩ := h
    exact ⟨⟨account, h⟩, h.trans h'.symm⟩

-- ============================================================= keeping

namespace Cooldowns

variable {c c' : Cooldowns} {now : Nat} {k : Text}

/-- What is seen of key `k` stays in both maps. -/
structure Keeps (k : Text) (now : Nat) (c c' : Cooldowns) : Prop where
  base : c'.cfWorker429.base = c.cfWorker429.base
  max : c'.cfWorker429.max = c.cfWorker429.max
  seen : c'.cfWorker429.seen k now = c.cfWorker429.seen k now
  cfWorker503 : c'.cfWorker503.Agree now c.cfWorker503

theorem Keeps.refl (k : Text) (now : Nat) (c : Cooldowns) : Keeps k now c c :=
  ⟨rfl, rfl, rfl, .refl now _⟩

theorem Keeps.trans {c'' : Cooldowns} (h : Keeps k now c c')
    (h' : Keeps k now c' c'') : Keeps k now c c'' :=
  ⟨h'.base.trans h.base, h'.max.trans h.max, h'.seen.trans h.seen,
    h'.cfWorker503.trans h.cfWorker503⟩

theorem Agree.keeps (h : Agree now c' c) (k : Text) : Keeps k now c c' :=
  ⟨h.cfWorker429.base, h.cfWorker429.max, h.cfWorker429.seen k,
    h.cfWorker503⟩

theorem Keeps.limited (h : Keeps k now c c') :
    c'.limited k now = c.limited k now := by
  unfold Cooldowns.limited
  rw [← Cooldown429.coolingAt_seen (Nat.le_refl now), h.seen,
    Cooldown429.coolingAt_seen (Nat.le_refl now), h.cfWorker503.coolingAt]

/-- A mark of the key fits behind the step if it does in front of it. -/
theorem Keeps.fits {p : Text} {retryAfter : Nat}
    (h : Keeps (Cooldown429.key p) now c c') :
    c'.cfWorker429.Fits p retryAfter now
      ↔ c.cfWorker429.Fits p retryAfter now :=
  Cooldown429.fits_congr h.base h.max h.seen

/-- The host has the same time left in both maps, from `now` on. -/
def SameLeft (host : Text) (now : Nat) (c c' : Cooldowns) : Prop :=
  ∀ t, now ≤ t →
    (c'.cfWorker429.remaining host t).1 = (c.cfWorker429.remaining host t).1
    ∧ (c'.cfWorker503.remaining host t).1 = (c.cfWorker503.remaining host t).1

theorem Keeps.sameLeft {host : Text}
    (h : Keeps (Cooldown429.key host) now c c') : SameLeft host now c c' := by
  intro t ht
  refine ⟨?_, (h.cfWorker503.mono ht).remaining_fst host⟩
  rw [Cooldown429.remaining_fst, Cooldown429.remaining_fst,
    ← Cooldown429.leftOn_seen ht, h.seen, Cooldown429.leftOn_seen ht]

/-- The maps behind a mark in the 429 map. -/
def marked429 (c : Cooldowns) (w : Text) (err : WsConnectError)
    (now : Nat) : Cooldowns :=
  { c with
    cfWorker429 := c.cfWorker429.marked w (retryAfterFromErr err) now }

@[simp] theorem base_marked429 (c : Cooldowns) (w : Text)
    (err : WsConnectError) (now : Nat) :
    (c.marked429 w err now).cfWorker429.base = c.cfWorker429.base :=
  Cooldown429.base_marked w

@[simp] theorem max_marked429 (c : Cooldowns) (w : Text)
    (err : WsConnectError) (now : Nat) :
    (c.marked429 w err now).cfWorker429.max = c.cfWorker429.max :=
  Cooldown429.max_marked w

theorem marked429_keeps (c : Cooldowns) (now : Nat) {w : Text}
    (err : WsConnectError) (h : k ≠ Cooldown429.key w) :
    Keeps k now c (c.marked429 w err now) := by
  refine ⟨base_marked429 .., max_marked429 .., ?_, .refl now _⟩
  show (c.cfWorker429.marked w (retryAfterFromErr err) now).seen k now = _
  unfold Cooldown429.seen
  rw [Cooldown429.entry_marked_ne h, Cooldown429.max_marked]

/-- One turn of the round over the peers: the peer is passed over, or
struck, or its mark panics. -/
theorem coolPeers_cons (worker account : Text) (err : WsConnectError)
    (now : Nat) (q : Text) (peers : List Text) (c : Cooldowns) :
    (∃ c₁, Agree now c₁ c
        ∧ (Text.eqIgnoreAsciiCase q worker = true
          ∨ (c.workerRateLimited q now).1 = true
          ∨ accountKey q ≠ some account)
        ∧ coolPeers worker account err now (q :: peers) c
          = coolPeers worker account err now peers c₁)
      ∨ ∃ c₁, Agree now c₁ c ∧ Text.eqIgnoreAsciiCase q worker = false
        ∧ (c.workerRateLimited q now).1 = false
        ∧ accountKey q = some account
        ∧ coolPeers worker account err now (q :: peers) c
          = if c.cfWorker429.Fits q (retryAfterFromErr err) now then
              coolPeers worker account err now peers (c₁.marked429 q err now)
            else (none, c₁) := by
  have hlook := workerRateLimited_agree c q now
  rw [coolPeers]
  by_cases hself : Text.eqIgnoreAsciiCase q worker = true
  · rw [if_pos hself]
    exact .inl ⟨c, .refl now c, .inl hself, rfl⟩
  rw [if_neg hself]
  rw [Bool.not_eq_true] at hself
  simp only
  by_cases hlim : (c.workerRateLimited q now).1 = true
  · rw [if_pos hlim]
    exact .inl ⟨_, hlook, .inr (.inl hlim), rfl⟩
  rw [if_neg hlim]
  rw [Bool.not_eq_true] at hlim
  by_cases hacc : accountKey q = some account
  · rw [if_pos hacc]
    refine .inr ⟨_, hlook, hself, hlim, hacc, ?_⟩
    have hfits := hlook.cfWorker429.fits q (retryAfterFromErr err)
    rw [Cooldown429.mark]
    by_cases h : c.cfWorker429.Fits q (retryAfterFromErr err) now
    · rw [if_pos h, Cooldown429.markFor_eq_marked (.inr (hfits.mpr h))]
      rfl
    · rw [if_neg h, Cooldown429.markFor_eq_none
        (key_ne_nil_of_accountKey hacc) (mt hfits.mp h)]
  · rw [if_neg hacc]
    exact .inl ⟨_, hlook, .inr (.inr hacc), rfl⟩

/-- A round over the peers leaves a key alone that is on cooldown, or
that no peer of the account has. -/
theorem coolPeers_keeps {worker account : Text} {err : WsConnectError}
    {peers : List Text}
    (h : (k ≠ [] ∧ c.limited k now = true)
      ∨ ∀ p ∈ peers, accountKey p = some account → k ≠ Cooldown429.key p) :
    Keeps k now c (coolPeers worker account err now peers c).2 := by
  induction peers generalizing c with
  | nil => exact .refl k now c
  | cons q peers ih =>
      -- the condition holds behind any step that keeps `k`
      have ih : ∀ {c₁ : Cooldowns}, Keeps k now c c₁ →
          Keeps k now c (coolPeers worker account err now peers c₁).2 := by
        intro c₁ h₁
        refine h₁.trans (ih ?_)
        rcases h with ⟨hk, hlim⟩ | h
        · exact .inl ⟨hk, h₁.limited.trans hlim⟩
        · exact .inr fun p hp => h p (List.mem_cons_of_mem q hp)
      obtain ⟨c₁, hagree, -, heq⟩ | ⟨c₁, hagree, -, hfree, hacc, heq⟩ :=
        coolPeers_cons worker account err now q peers c
      · rw [heq]
        exact ih (hagree.keeps k)
      · rw [heq]
        split
        · refine ih ((hagree.keeps k).trans (marked429_keeps _ now err ?_))
          rcases h with ⟨hk, hlim⟩ | h
          · intro h
            subst h
            rw [workerRateLimited_key, hlim] at hfree
            simp [hk] at hfree
          · exact h q (List.mem_cons_self ..) hacc
        · exact hagree.keeps k

-- ============================================================ cooling

/-- A mark that fits cools its host. -/
theorem limited_marked429 (c : Cooldowns) (now : Nat) {w : Text}
    (err : WsConnectError) (hb : 0 < c.cfWorker429.base)
    (hm : 0 < c.cfWorker429.max) (hw : Cooldown429.key w ≠ [])
    (hfits : c.cfWorker429.Fits w (retryAfterFromErr err) now) :
    (c.marked429 w err now).limited (Cooldown429.key w) now = true := by
  have hcool : ((c.cfWorker429.marked w (retryAfterFromErr err) now).entry
      (Cooldown429.key w)).coolingAt now = true := by
    rw [Cooldown429.entry_marked_self _ hw hfits]
    exact Cooldown429.coolingAt_struck hb hm _
  exact Bool.or_eq_true_iff.mpr (.inl hcool)

/-- A key on cooldown stays so through the round. -/
theorem coolPeers_limited {worker account : Text} {err : WsConnectError}
    {peers : List Text} (hk : k ≠ []) (h : c.limited k now = true) :
    (coolPeers worker account err now peers c).2.limited k now = true :=
  (coolPeers_keeps (.inl ⟨hk, h⟩)).limited.trans h

/-- The deadlines that a round over the peers sets are ones that an
`Instant` can hold: of the peers of the account with another key than the
Worker's that are not on cooldown yet. -/
def PeersFit (c : Cooldowns) (worker account : Text) (err : WsConnectError)
    (now : Nat) (peers : List Text) : Prop :=
  ∀ p ∈ peers, accountKey p = some account →
    Cooldown429.key p ≠ Cooldown429.key worker →
    c.limited (Cooldown429.key p) now = false →
    c.cfWorker429.Fits p (retryAfterFromErr err) now

/-- Behind a strike of one peer, the rest fit if they did in front. -/
theorem PeersFit.struck {worker account : Text} {err : WsConnectError}
    {q : Text} {peers : List Text} (hb : 0 < c.cfWorker429.base)
    (hm : 0 < c.cfWorker429.max) (hacc : accountKey q = some account)
    (hq : c.cfWorker429.Fits q (retryAfterFromErr err) now) :
    PeersFit (c.marked429 q err now) worker account err now peers
      ↔ ∀ p ∈ peers, accountKey p = some account →
          Cooldown429.key p ≠ Cooldown429.key worker →
          Cooldown429.key p ≠ Cooldown429.key q →
          c.limited (Cooldown429.key p) now = false →
          c.cfWorker429.Fits p (retryAfterFromErr err) now := by
  refine forall₄_congr fun p _ _ _ => ?_
  by_cases hkey : Cooldown429.key p = Cooldown429.key q
  · rw [hkey, limited_marked429 c now err hb hm
      (key_ne_nil_of_accountKey hacc) hq]
    simp
  · have hkeep := marked429_keeps c now err hkey
    rw [hkeep.limited, hkeep.fits]
    simp [hkey]

/-- A round over the peers returns exactly if the deadlines that it sets
fit. -/
theorem coolPeers_returns_iff {worker account : Text}
    {err : WsConnectError} {peers : List Text}
    (hb : 0 < c.cfWorker429.base) (hm : 0 < c.cfWorker429.max)
    (hself : c.limited (Cooldown429.key worker) now = true) :
    (coolPeers worker account err now peers c).1 = some ()
      ↔ PeersFit c worker account err now peers := by
  induction peers generalizing c with
  | nil => exact ⟨fun _ p hp => (nomatch hp), fun _ => rfl⟩
  | cons q peers ih =>
      -- the round goes on from what looks as at the start
      have hgo : ∀ {c₁ : Cooldowns}, Agree now c₁ c →
          ((coolPeers worker account err now peers c₁).1 = some ()
            ↔ PeersFit c worker account err now peers) := by
        intro c₁ h₁
        rw [ih (h₁.cfWorker429.base.symm ▸ hb) (h₁.cfWorker429.max.symm ▸ hm)
          ((h₁.limited _).trans hself)]
        refine forall₄_congr fun p _ _ _ => ?_
        rw [h₁.limited, h₁.cfWorker429.fits]
      unfold PeersFit at hgo ⊢
      rw [List.forall_mem_cons]
      obtain ⟨c₁, hagree, hpass, heq⟩ | ⟨c₁, hagree, hcase, hfree, hacc, heq⟩ :=
        coolPeers_cons worker account err now q peers c
      · rw [heq, hgo hagree, iff_and_self]
        intro _ hacc hne hlim
        rcases hpass with h | h | h
        · exact absurd (key_eq_of_eqIgnoreAsciiCase h) hne
        · rw [workerRateLimited_key, hlim, Bool.and_false] at h
          cases h
        · exact absurd hacc h
      · have hkey := key_ne_nil_of_accountKey hacc
        have hlim : c.limited (Cooldown429.key q) now = false := by
          rw [workerRateLimited_key] at hfree
          simpa [hkey] using hfree
        have hne : Cooldown429.key q ≠ Cooldown429.key worker := by
          intro h
          rw [h, hself] at hlim
          cases hlim
        rw [heq]
        by_cases hfits : c.cfWorker429.Fits q (retryAfterFromErr err) now
        · rw [if_pos hfits]
          have hb₁ : 0 < c₁.cfWorker429.base := hagree.cfWorker429.base ▸ hb
          have hm₁ : 0 < c₁.cfWorker429.max := hagree.cfWorker429.max ▸ hm
          have hfits₁ := (hagree.cfWorker429.fits q _).mpr hfits
          have hself₁ : (c₁.marked429 q err now).limited
              (Cooldown429.key worker) now = true := by
            rw [(marked429_keeps c₁ now err hne.symm).limited,
              hagree.limited, hself]
          rw [ih (by rwa [base_marked429]) (by rwa [max_marked429]) hself₁,
            PeersFit.struck hb₁ hm₁ hacc hfits₁]
          constructor
          · intro h
            refine ⟨fun _ _ _ => hfits, fun p hp hacc' hne' hlim' => ?_⟩
            by_cases hpq : Cooldown429.key p = Cooldown429.key q
            · exact (Cooldown429.fits_key hpq).mpr hfits
            · exact (hagree.cfWorker429.fits p _).mp (h p hp hacc' hne' hpq
                ((hagree.limited _).trans hlim'))
          · intro h p hp hacc' hne' _ hlim'
            exact (hagree.cfWorker429.fits p _).mpr (h.2 p hp hacc' hne'
              ((hagree.limited _).symm.trans hlim'))
        · rw [if_neg hfits]
          exact ⟨fun h => (nomatch h),
            fun h => absurd (h.1 hacc hne hlim) hfits⟩

/-- Behind a round that returns, the peers of the account are on
cooldown. -/
theorem coolPeers_cools {worker account : Text} {err : WsConnectError}
    {peers : List Text} (hb : 0 < c.cfWorker429.base)
    (hm : 0 < c.cfWorker429.max) (hw : Cooldown429.key worker ≠ [])
    (hself : c.limited (Cooldown429.key worker) now = true)
    (hreturns : (coolPeers worker account err now peers c).1 = some ())
    {p : Text} (hp : p ∈ peers) (hacc : accountKey p = some account) :
    (coolPeers worker account err now peers c).2.limited
      (Cooldown429.key p) now = true := by
  have hkey := key_ne_nil_of_accountKey hacc
  induction peers generalizing c with
  | nil => cases hp
  | cons q peers ih =>
      rw [List.mem_cons] at hp
      obtain ⟨c₁, hagree, hpass, heq⟩ | ⟨c₁, hagree, -, -, hq, heq⟩ :=
        coolPeers_cons worker account err now q peers c
      · rw [heq] at hreturns ⊢
        have hself₁ := (hagree.limited (Cooldown429.key worker)).trans hself
        rcases hp with rfl | hp
        · rcases hpass with h | h | h
          · rw [key_eq_of_eqIgnoreAsciiCase h]
            exact coolPeers_limited hw hself₁
          · rw [workerRateLimited_key, Bool.and_eq_true] at h
            exact coolPeers_limited hkey ((hagree.limited _).trans h.2)
          · exact absurd hacc h
        · exact ih (hagree.cfWorker429.base ▸ hb)
            (hagree.cfWorker429.max ▸ hm) hself₁ hreturns hp
      · rw [heq] at hreturns ⊢
        by_cases hfits : c.cfWorker429.Fits q (retryAfterFromErr err) now
        · rw [if_pos hfits] at hreturns ⊢
          have hb₁ : 0 < c₁.cfWorker429.base := hagree.cfWorker429.base ▸ hb
          have hm₁ : 0 < c₁.cfWorker429.max := hagree.cfWorker429.max ▸ hm
          have hmark := limited_marked429 c₁ now err hb₁ hm₁
            (key_ne_nil_of_accountKey hq)
            ((hagree.cfWorker429.fits q _).mpr hfits)
          rcases hp with rfl | hp
          · exact coolPeers_limited hkey hmark
          · refine ih (by rwa [base_marked429]) (by rwa [max_marked429]) ?_
              hreturns hp
            by_cases hsame : Cooldown429.key worker = Cooldown429.key q
            · rw [hsame]
              exact hmark
            · rw [(marked429_keeps c₁ now err hsame).limited,
                hagree.limited, hself]
        · rw [if_neg hfits] at hreturns
          cases hreturns

-- ========================================================== the claim

/-- The maps as the program sets them up. -/
structure Configured (env : Getter) (c : Cooldowns) : Prop where
  base429 : c.cfWorker429.base = baseCooldown env
  max429 : c.cfWorker429.max = maxCooldown env
  base503 : c.cfWorker503.base = baseCooldown env
  max503 : c.cfWorker503.max = maxCooldown env

/-- A cooldown from the environment is positive. -/
theorem cooldownSecs_pos (env : Getter) (key : Text) {default : Nat}
    (h : 0 < default) : 0 < cooldownSecs env key default := by
  have hfrom : ∀ s, 0 < s → 0 < Duration.fromSecs s := by
    intro s hs
    exact Nat.mul_pos hs (by decide)
  unfold cooldownSecs
  split
  · next hs =>
      rw [Option.filter_eq_some_iff] at hs
      exact hfrom _ (of_decide_eq_true hs.2)
  · exact hfrom _ h

theorem Configured.base_pos {env : Getter} (h : c.Configured env) :
    0 < c.cfWorker429.base := by
  rw [h.base429]
  exact cooldownSecs_pos env _ (by decide)

theorem Configured.max_pos {env : Getter} (h : c.Configured env) :
    0 < c.cfWorker429.max := by
  rw [h.max429]
  exact cooldownSecs_pos env _ (by decide)

theorem Configured.base503_pos {env : Getter} (h : c.Configured env) :
    0 < c.cfWorker503.base := by
  rw [h.base503]
  exact cooldownSecs_pos env _ (by decide)

theorem Configured.max503_pos {env : Getter} (h : c.Configured env) :
    0 < c.cfWorker503.max := by
  rw [h.max503]
  exact cooldownSecs_pos env _ (by decide)

end Cooldowns

section Marked

variable {c : Cooldowns} {now : Nat} {w : Text} {err : WsConnectError}

open Cooldowns

/-- A 429 is a mark of the Worker, if it fits, and a round over the
peers, which an account is needed for. -/
theorem markWorker429WithPeers_429 (h : err.httpStatus = some 429)
    (c : Cooldowns) (hw : Cooldown429.key w ≠ []) (peers : List Text)
    (now : Nat) :
    c.markWorker429WithPeers w err peers now =
      if c.cfWorker429.Fits w (retryAfterFromErr err) now then
        match accountKey w with
        | none => (some (), c.marked429 w err now)
        | some account =>
            coolPeers w account err now peers (c.marked429 w err now)
      else (none, c) := by
  unfold Cooldowns.markWorker429WithPeers Cooldowns.markWorker429
  rw [h, if_neg (by decide), if_neg (not_not_intro rfl),
    if_neg (not_not_intro rfl), Cooldown429.mark]
  by_cases hfits : c.cfWorker429.Fits w (retryAfterFromErr err) now
  · rw [if_pos hfits, Cooldown429.markFor_eq_marked (.inr hfits)]
    rfl
  · rw [if_neg hfits, Cooldown429.markFor_eq_none hw hfits]
    rfl

/-- A 503 is a mark of the Worker in the other map, if it fits. -/
theorem markWorker429WithPeers_503 (h : err.httpStatus = some 503)
    (c : Cooldowns) (hw : Cooldown429.key w ≠ []) (peers : List Text)
    (now : Nat) :
    c.markWorker429WithPeers w err peers now =
      if c.cfWorker503.Fits w (retryAfterFromErr err) now then
        (some (), { c with
          cfWorker503 :=
            c.cfWorker503.marked w (retryAfterFromErr err) now })
      else (none, c) := by
  unfold Cooldowns.markWorker429WithPeers
  rw [if_pos h, Cooldown429.mark]
  by_cases hfits : c.cfWorker503.Fits w (retryAfterFromErr err) now
  · rw [if_pos hfits, Cooldown429.markFor_eq_marked (.inr hfits)]
  · rw [if_neg hfits, Cooldown429.markFor_eq_none hw hfits]

/-- Any other failure changes nothing. -/
theorem markWorker429WithPeers_other (h429 : err.httpStatus ≠ some 429)
    (h503 : err.httpStatus ≠ some 503) (c : Cooldowns) (w : Text)
    (peers : List Text) (now : Nat) :
    c.markWorker429WithPeers w err peers now = (some (), c) := by
  unfold Cooldowns.markWorker429WithPeers
  rw [if_neg h503, if_pos h429]

/-- A 429 leaves a key alone that is not the Worker's and is on cooldown
or no peer's of its account. -/
theorem marked_keeps (h : err.httpStatus = some 429)
    (hw : Cooldown429.key w ≠ []) {k : Text} {peers : List Text}
    (hk : k ≠ Cooldown429.key w)
    (hpeers : (k ≠ [] ∧ c.limited k now = true)
      ∨ ∀ p ∈ peers, sameAccount w p = true → k ≠ Cooldown429.key p) :
    Keeps k now c (c.markWorker429WithPeers w err peers now).2 := by
  have hmark := marked429_keeps c now err hk
  rw [markWorker429WithPeers_429 h c hw]
  split
  · split
    · exact hmark
    · next account hacc =>
        refine hmark.trans (coolPeers_keeps ?_)
        rcases hpeers with ⟨hne, hlim⟩ | hpeers
        · exact .inl ⟨hne, hmark.limited.trans hlim⟩
        · refine .inr fun p hp hp' => hpeers p hp ?_
          exact sameAccount_iff.mpr ⟨account, hacc, hp'⟩
  · exact .refl k now c

/-- A 429 whose call returns cools the Worker and its account. -/
theorem marked_limited (h : err.httpStatus = some 429)
    (hb : 0 < c.cfWorker429.base) (hm : 0 < c.cfWorker429.max)
    (hw : Cooldown429.key w ≠ []) {peers : List Text}
    (hreturns : (c.markWorker429WithPeers w err peers now).1 = some ())
    {q : Text} (hq : q = w ∨ q ∈ peers ∧ sameAccount w q = true) :
    Cooldown429.key q ≠ []
      ∧ (c.markWorker429WithPeers w err peers now).2.limited
        (Cooldown429.key q) now = true := by
  rw [markWorker429WithPeers_429 h c hw] at hreturns ⊢
  by_cases hfits : c.cfWorker429.Fits w (retryAfterFromErr err) now
  · rw [if_pos hfits] at hreturns ⊢
    have hmark := limited_marked429 c now err hb hm hw hfits
    rcases hq with rfl | ⟨hmem, hsame⟩
    · refine ⟨hw, ?_⟩
      split
      · exact hmark
      · exact coolPeers_limited hw hmark
    · obtain ⟨account, hacc, hq⟩ := sameAccount_iff.mp hsame
      refine ⟨key_ne_nil_of_accountKey hq, ?_⟩
      rw [hacc] at hreturns ⊢
      exact coolPeers_cools (by rwa [base_marked429])
        (by rwa [max_marked429]) hw hmark hreturns hmem hq
  · rw [if_neg hfits] at hreturns
    cases hreturns

/-- A 503 whose call returns cools the Worker. -/
theorem marked_limited_503 (h : err.httpStatus = some 503)
    (hb : 0 < c.cfWorker503.base) (hm : 0 < c.cfWorker503.max)
    (hw : Cooldown429.key w ≠ []) {peers : List Text}
    (hreturns : (c.markWorker429WithPeers w err peers now).1 = some ()) :
    (c.markWorker429WithPeers w err peers now).2.limited
      (Cooldown429.key w) now = true := by
  rw [markWorker429WithPeers_503 h c hw] at hreturns ⊢
  by_cases hfits : c.cfWorker503.Fits w (retryAfterFromErr err) now
  · rw [if_pos hfits]
    refine Bool.or_eq_true_iff.mpr (.inr ?_)
    show ((c.cfWorker503.marked w (retryAfterFromErr err) now).entry
      (Cooldown429.key w)).coolingAt now = true
    rw [Cooldown429.entry_marked_self _ hw hfits]
    exact Cooldown429.coolingAt_struck hb hm _
  · rw [if_neg hfits] at hreturns
    cases hreturns

/-- A host on cooldown is not usable. -/
theorem not_mem_usable {c : Cooldowns} {q : Text} (hq : Cooldown429.key q ≠ [])
    (hlim : c.limited (Cooldown429.key q) now = true) (ws : List Text) :
    q ∉ (c.usableWorkers ws now).1.1 := by
  intro hmem
  have hmem : q ∈ (usable now ws c).1 := hmem
  rw [(usable_spec c now ws).1, List.mem_filter, workerRateLimited_key, hlim]
    at hmem
  simp [hq] at hmem

/-- What is asked of a call. It returns. A 429 cools the Worker and the
peers of its account, and leaves every other host's time alone, a
sibling's that was on cooldown included. A 503 cools the Worker, and
touches one entry of the 503 map. Nothing else changes anything. -/
structure AccountWide (c : Cooldowns) (now : Nat) (w : Text)
    (err : WsConnectError) (peers : List Text) : Prop where
  returns : (c.markWorker429WithPeers w err peers now).1 = some ()
  cools : err.httpStatus = some 429 →
    ∀ q, q = w ∨ q ∈ peers ∧ sameAccount w q = true → ∀ ws,
      q ∉ ((c.markWorker429WithPeers w err peers now).2.usableWorkers
        ws now).1.1
  others : err.httpStatus = some 429 →
    ∀ host, Cooldown429.key host ≠ Cooldown429.key w →
      (∀ p ∈ peers, sameAccount w p = true →
        Cooldown429.key host ≠ Cooldown429.key p) →
      SameLeft host now c (c.markWorker429WithPeers w err peers now).2
  cooling : err.httpStatus = some 429 →
    ∀ p ∈ peers, sameAccount w p = true →
      Cooldown429.key p ≠ Cooldown429.key w →
      (c.workerRateLimited p now).1 = true →
      SameLeft p now c (c.markWorker429WithPeers w err peers now).2
  cools503 : err.httpStatus = some 503 → ∀ ws,
    w ∉ ((c.markWorker429WithPeers w err peers now).2.usableWorkers
      ws now).1.1
  only503 : err.httpStatus = some 503 →
    (c.markWorker429WithPeers w err peers now).2.cfWorker429 = c.cfWorker429
    ∧ ∀ k, k ≠ Cooldown429.key w →
        (c.markWorker429WithPeers w err peers now).2.cfWorker503.inner.lookup k
          = c.cfWorker503.inner.lookup k
  nothing : err.httpStatus ≠ some 429 → err.httpStatus ≠ some 503 →
    (c.markWorker429WithPeers w err peers now).2 = c

/-- `Instant` can hold every deadline that the call sets: the Worker's,
and on a 429 those of the peers of its account that have another key and
are not on cooldown yet. -/
structure MarksFit (c : Cooldowns) (now : Nat) (w : Text)
    (err : WsConnectError) (peers : List Text) : Prop where
  worker : err.httpStatus = some 429 →
    c.cfWorker429.Fits w (retryAfterFromErr err) now
  peers : err.httpStatus = some 429 →
    ∀ p ∈ peers, sameAccount w p = true →
      Cooldown429.key p ≠ Cooldown429.key w →
      c.limited (Cooldown429.key p) now = false →
      c.cfWorker429.Fits p (retryAfterFromErr err) now
  worker503 : err.httpStatus = some 503 →
    c.cfWorker503.Fits w (retryAfterFromErr err) now

/-- A call returns exactly if its marks fit. -/
theorem marks_return_iff (hb : 0 < c.cfWorker429.base)
    (hm : 0 < c.cfWorker429.max) (hw : Cooldown429.key w ≠ [])
    (peers : List Text) :
    (c.markWorker429WithPeers w err peers now).1 = some ()
      ↔ MarksFit c now w err peers := by
  by_cases h429 : err.httpStatus = some 429
  · have h503 : err.httpStatus ≠ some 503 := by rw [h429]; decide
    rw [markWorker429WithPeers_429 h429 c hw]
    by_cases hfits : c.cfWorker429.Fits w (retryAfterFromErr err) now
    · rw [if_pos hfits]
      have hmark := limited_marked429 c now err hb hm hw hfits
      have hpeers : (∀ p ∈ peers, sameAccount w p = true →
          Cooldown429.key p ≠ Cooldown429.key w →
          c.limited (Cooldown429.key p) now = false →
          c.cfWorker429.Fits p (retryAfterFromErr err) now)
          ↔ MarksFit c now w err peers :=
        ⟨fun h => ⟨fun _ => hfits, fun _ => h, fun h' => absurd h' h503⟩,
          fun h => h.peers h429⟩
      rw [← hpeers]
      cases hacc : accountKey w with
      | none =>
          refine ⟨fun _ p _ hsame => ?_, fun _ => rfl⟩
          obtain ⟨account, h, -⟩ := sameAccount_iff.mp hsame
          rw [hacc] at h
          cases h
      | some account =>
          have hsame : ∀ p, sameAccount w p = true
              ↔ accountKey p = some account := by
            intro p
            rw [sameAccount_iff, hacc]
            exact ⟨fun ⟨_, h, h'⟩ => h'.trans h.symm,
              fun h => ⟨account, rfl, h⟩⟩
          refine (coolPeers_returns_iff (by rwa [base_marked429])
            (by rwa [max_marked429]) hmark).trans ⟨?_, ?_⟩
          · intro h p hp hp' hne hlim
            have hkeep := marked429_keeps c now err hne
            exact hkeep.fits.mp
              (h p hp ((hsame p).mp hp') hne (hkeep.limited.trans hlim))
          · intro h p hp hp' hne hlim
            have hkeep := marked429_keeps c now err hne
            exact hkeep.fits.mpr
              (h p hp ((hsame p).mpr hp') hne (hkeep.limited.symm.trans hlim))
    · rw [if_neg hfits]
      exact ⟨fun h => (nomatch h), fun h => absurd (h.worker h429) hfits⟩
  · by_cases h503 : err.httpStatus = some 503
    · rw [markWorker429WithPeers_503 h503 c hw]
      split
      · next hfits =>
          exact ⟨fun _ => ⟨fun h => absurd h h429, fun h => absurd h h429,
            fun _ => hfits⟩, fun _ => rfl⟩
      · next hfits =>
          exact ⟨fun h => (nomatch h),
            fun h => absurd (h.worker503 h503) hfits⟩
    · rw [markWorker429WithPeers_other h429 h503]
      exact ⟨fun _ => ⟨fun h => absurd h h429, fun h => absurd h h429,
        fun h => absurd h h503⟩, fun _ => rfl⟩

/-- `usable_workers` keeps the Workers that are not on cooldown in order,
and counts the others. -/
theorem usableWorkers_fst (c : Cooldowns) (ws : List Text) (now : Nat) :
    (c.usableWorkers ws now).1
      = (ws.filter (fun v => !(c.workerRateLimited v now).1),
        ws.countP (fun v => (c.workerRateLimited v now).1)) := by
  unfold Cooldowns.usableWorkers
  have hcount := List.length_eq_countP_add_countP
    (fun v => (c.workerRateLimited v now).1) (l := ws)
  simp only [(usable_spec c now ws).1, Prod.mk.injEq, true_and,
    ← List.countP_eq_length_filter]
  simp only [Bool.not_eq_true, Bool.decide_eq_false] at hcount
  omega

/-- A call does what is asked of it exactly if `Instant` can hold the
deadlines that it sets. -/
theorem marks_account_wide (env : Getter) (hc : c.Configured env)
    (hw : Text.trim w ≠ []) (peers : List Text) :
    (AccountWide c now w err peers ↔ MarksFit c now w err peers)
    ∧ ∀ ws, (c.usableWorkers ws now).1
        = (ws.filter (fun v => !(c.workerRateLimited v now).1),
          ws.countP (fun v => (c.workerRateLimited v now).1)) := by
  have hkey := (key_ne_nil_iff w).mpr hw
  have hiff : (c.markWorker429WithPeers w err peers now).1 = some ()
      ↔ MarksFit c now w err peers :=
    marks_return_iff hc.base_pos hc.max_pos hkey peers
  refine ⟨⟨fun h => hiff.mp h.returns, fun h => ?_⟩,
    fun ws => usableWorkers_fst c ws now⟩
  have hreturns := hiff.mpr h
  refine ⟨hreturns, ?_, ?_, ?_, ?_, ?_, ?_⟩
  · intro h429 q hq ws
    obtain ⟨hne, hlim⟩ :=
      marked_limited h429 hc.base_pos hc.max_pos hkey hreturns hq
    exact not_mem_usable hne hlim ws
  · intro h429 host hne hpeers
    exact (marked_keeps h429 hkey hne (.inr hpeers)).sameLeft
  · intro h429 p _ _ hne hlim
    rw [workerRateLimited_key, Bool.and_eq_true, Bool.not_eq_true',
      List.isEmpty_eq_false_iff] at hlim
    exact (marked_keeps h429 hkey hne (.inl hlim)).sameLeft
  · intro h503 ws
    exact not_mem_usable hkey (marked_limited_503 h503 hc.base503_pos
      hc.max503_pos hkey hreturns) ws
  · intro h503
    rw [markWorker429WithPeers_503 h503 c hkey, if_pos (h.worker503 h503)]
    refine ⟨rfl, fun k hk => ?_⟩
    show (c.cfWorker503.marked w (retryAfterFromErr err) now).inner.lookup k
      = _
    obtain ⟨-, hm⟩ | ⟨-, -, hm⟩ := Cooldown429.marked_cases c.cfWorker503 w
      (retryAfterFromErr err) now
    · rw [hm]
    · rw [hm]
      exact AList.lookup_insert_ne hk
  · intro h429 h503
    rw [markWorker429WithPeers_other h429 h503]

/-- Two Workers of one account. -/
def sampleGet : Getter := fun k =>
  if k = "CF_WORKER_DOMAIN".toList then
    some "w1.acct.workers.dev, w2.acct.workers.dev".toList
  else none

/-- A 429 of a Worker in capitals, with a sibling and a stranger for
peers, the sibling spelt with blanks. -/
theorem marks_account_wide_sample :
    AccountWide (Cooldowns.new sampleGet) 5 "W1.Acct.workers.dev".toList
      (.handshake { statusCode := 429, headers := ∅ })
      [" w2.acct.workers.dev ".toList, "w3.other.workers.dev".toList] :=
  (@marks_account_wide (Cooldowns.new sampleGet) 5
    "W1.Acct.workers.dev".toList
    (.handshake { statusCode := 429, headers := ∅ })
    sampleGet ⟨rfl, rfl, rfl, rfl⟩ (by decide)
    [" w2.acct.workers.dev ".toList, "w3.other.workers.dev".toList]).1.mpr
    ⟨by decide +kernel, by decide +kernel, by decide +kernel⟩

/-- Both cooldowns as long as the settings can say. -/
def foreverGet : Getter := fun k =>
  if k = "WRTG_CF_WORKER_429_COOLDOWN_SEC".toList
      ∨ k = "WRTG_CF_WORKER_429_MAX_COOLDOWN_SEC".toList then
    some "18446744073709551615".toList
  else none

/-- The first 429 panics, and leaves the Worker usable. -/
theorem long_cooldown_panics :
    ((Cooldowns.new foreverGet).markWorker429WithPeers
        "w1.acct.workers.dev".toList
        (.handshake { statusCode := 429, headers := ∅ }) [] 0).1 = none
    ∧ (((Cooldowns.new foreverGet).markWorker429WithPeers
        "w1.acct.workers.dev".toList
        (.handshake { statusCode := 429, headers := ∅ }) [] 0).2.usableWorkers
          ["w1.acct.workers.dev".toList] 0).1.1
      = ["w1.acct.workers.dev".toList]
    ∧ ¬ AccountWide (Cooldowns.new foreverGet) 0
      "w1.acct.workers.dev".toList
      (.handshake { statusCode := 429, headers := ∅ }) [] := by
  have hpanics : ((Cooldowns.new foreverGet).markWorker429WithPeers
      "w1.acct.workers.dev".toList
      (.handshake { statusCode := 429, headers := ∅ }) [] 0).1 = none := by
    decide +kernel
  refine ⟨hpanics, by decide +kernel, fun h => ?_⟩
  have hreturns := h.returns
  rw [hpanics] at hreturns
  cases hreturns

end Marked

end Wrtg.CfWorker
