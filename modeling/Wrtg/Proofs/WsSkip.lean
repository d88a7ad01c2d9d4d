/-
What a successful direct dial is worth to the sessions behind it
(`bridge.rs`, `ws_pool.rs`, `ip_fail.rs`, `ws_blacklist.rs`).

A session skips the direct rung for one of two marks: its target is in
`ip_fail`, or its DC is in the blacklist (`shouldSkipWs_fst`). A dial
that succeeds takes the target out of the first and leaves the second
alone (`noteConnectSuccess_ipFail`, `noteConnectSuccess_blacklist`). So
it lifts the skip exactly where the second mark is not standing, or no
session of the DC goes to that target any more (`DialLifts`).
-/
import Wrtg.WsSkip
import Wrtg.Lib.Run

namespace Wrtg.WsSkip

open Lib Config Mtproto

-- ======================================================= what is asked

/-- No session of the DC that goes to `target` skips the direct rung. -/
def Lifted (s : State) (dc : Int) (isMedia : Bool) (target : Text) : Prop :=
  ∀ origIp, wsTargetIp s.live dc origIp = target →
    (shouldSkipWs s.live dc isMedia origIp s.now s.maps).1 = false

/-- The DC is not in the blacklist, or it has a front other than
`target`. -/
def DialLifts (s : State) (dc : Int) (isMedia : Bool) (target : Text) :
    Prop :=
  s.maps.blacklist.activeAt (dc, isMedia) s.now = false
    ∨ (dcFrontIp s.live dc ≠ [] ∧ dcFrontIp s.live dc ≠ target)

/-- The dial whose success a step notes: a session's, over a pooled or a
fresh connection, or the pool's. -/
def Action.succeeded : Action → Option Dial
  | .connected d => some d
  | .poolConnected d => some d
  | _ => none

-- =========================================================== the marks

/-- A session skips for the blacklist, or for the failure of its
target. -/
theorem shouldSkipWs_fst (live : Live) (dc : Int) (isMedia : Bool)
    (origIp : Text) (now : Nat) (m : Maps) :
    (shouldSkipWs live dc isMedia origIp now m).1
      = (m.blacklist.activeAt (dc, isMedia) now
          || (!(wsTargetIp live dc origIp).isEmpty
            && m.ipFail.activeAt (wsTargetIp live dc origIp, dc) now)) := by
  unfold shouldSkipWs wsBlacklisted
  simp only [TtlMap.isActive_fst]
  cases m.blacklist.activeAt (dc, isMedia) now with
  | true => rfl
  | false =>
      simp only [Bool.false_eq_true, if_false, Bool.false_or]
      unfold shouldSkipDirectWs
      cases (wsTargetIp live dc origIp).isEmpty with
      | true => rfl
      | false => simp

/-- A success takes its target out of `ip_fail`. -/
theorem noteConnectSuccess_ipFail {target : Text} (dc : Int)
    (isMedia : Bool) (m : Maps) (now : Nat) (h : target ≠ []) :
    (noteConnectSuccess target dc isMedia m).ipFail.activeAt (target, dc) now
      = false := by
  have hne : ¬ target.isEmpty = true := by simpa using h
  have hip : (noteConnectSuccess target dc isMedia m).ipFail
      = (m.ipFail.clear (target, dc)).2 := by
    unfold noteConnectSuccess clearFrontingFail clearDcFail clearIpFail
    rw [if_neg hne, if_neg hne]
  rw [hip, TtlMap.activeAt_clear]

/-- It says nothing of the blacklist. -/
theorem noteConnectSuccess_blacklist (target : Text) (dc : Int)
    (isMedia : Bool) (m : Maps) :
    (noteConnectSuccess target dc isMedia m).blacklist = m.blacklist := by
  unfold noteConnectSuccess clearFrontingFail clearDcFail clearIpFail
  split <;> rfl

-- ========================================================= the targets

/-- Some session of the DC goes to `target`: the DC has no front, or
that is the front. -/
theorem exists_orig_iff (live : Live) (dc : Int) {target : Text}
    (h : target ≠ []) :
    (∃ origIp, wsTargetIp live dc origIp = target)
      ↔ dcFrontIp live dc = [] ∨ dcFrontIp live dc = target := by
  by_cases hfront : dcFrontIp live dc = []
  · refine iff_of_true ⟨target, ?_⟩ (.inl hfront)
    unfold wsTargetIp
    simp [hfront, h]
  · have htarget : ∀ origIp, wsTargetIp live dc origIp
        = dcFrontIp live dc := by
      intro origIp
      unfold wsTargetIp
      simp [hfront]
    constructor
    · intro h
      obtain ⟨origIp, ho⟩ := h
      exact .inr ((htarget origIp).symm.trans ho)
    · intro h
      rcases h with hno | hf
      · exact absurd hno hfront
      · exact ⟨[], (htarget []).trans hf⟩

-- =========================================================== the steps

/-- Every open dial has a target. -/
structure Inv (s : State) : Prop where
  direct : ∀ d ∈ s.direct, d.target ≠ []
  fronting : ∀ f ∈ s.fronting, f.1.target ≠ []
  pool : ∀ d ∈ s.pool, d.target ≠ []

variable {s s' : State}

/-- The end of a session opens no dial. -/
theorem inv_sessionFailed {d : Dial} {allBlocked timedOut : Bool}
    (h : Inv s) : Inv (sessionFailed s d allBlocked timedOut) :=
  ⟨h.direct, h.fronting, h.pool⟩

theorem inv_noted {d : Dial} (h : Inv s) : Inv (noted s d) :=
  ⟨h.direct, h.fronting, h.pool⟩

/-- Every step keeps the targets of the open dials. -/
theorem inv_step {a : Action} (h : apply a s = some s') (hi : Inv s) :
    Inv s' := by
  obtain ⟨hd, hf, hp⟩ := hi
  cases a with
  | pass duration => cases h; exact ⟨hd, hf, hp⟩
  | reload live => cases h; exact ⟨hd, hf, hp⟩
  | tcpFailed dst dc => cases h; exact ⟨hd, hf, hp⟩
  | enter dc isMedia origIp =>
      simp only [apply] at h
      split at h
      · cases h; exact ⟨hd, hf, hp⟩
      · next hgo =>
          cases h
          refine ⟨?_, hf, hp⟩
          intro d hmem
          rcases List.mem_cons.mp hmem with rfl | hmem
          · intro hnil
            have hnil : wsTargetIp s.live dc origIp = [] := hnil
            exact hgo (by simp [hnil])
          · exact hd d hmem
  | connected d =>
      simp only [apply] at h
      split at h
      · cases h
        exact inv_noted ⟨fun e he => hd e (List.mem_of_mem_erase he), hf, hp⟩
      · cases h
  | directFailed d allBlocked timedOut =>
      simp only [apply] at h
      split at h
      · next hmem =>
          have hrest : ∀ e ∈ s.direct.erase d, e.target ≠ [] :=
            fun e he => hd e (List.mem_of_mem_erase he)
          split at h
          · cases h
            exact inv_sessionFailed ⟨hrest, hf, hp⟩
          · cases h
            refine ⟨hrest, ?_, hp⟩
            intro f hmem'
            rcases List.mem_cons.mp hmem' with rfl | hmem'
            · exact hd d hmem
            · exact hf f hmem'
      · cases h
  | frontingConnected d allBlocked timedOut =>
      simp only [apply] at h
      split at h
      · cases h
        exact inv_noted ⟨hd, fun e he => hf e (List.mem_of_mem_erase he), hp⟩
      · cases h
  | frontingFailed d allBlocked timedOut fBlocked fTimedOut =>
      simp only [apply] at h
      split at h
      · split at h
        · cases h
          exact inv_sessionFailed
            ⟨hd, fun e he => hf e (List.mem_of_mem_erase he), hp⟩
        · cases h
          exact ⟨hd, fun e he => hf e (List.mem_of_mem_erase he), hp⟩
      · cases h
  | poolDial dc isMedia hint =>
      simp only [apply] at h
      generalize (if hint.isEmpty = true then wsTargetIp s.live dc []
        else hint) = target at h
      split at h
      · cases h; exact ⟨hd, hf, hp⟩
      · next hgo =>
          cases h
          refine ⟨hd, hf, ?_⟩
          intro d hmem
          rcases List.mem_cons.mp hmem with rfl | hmem
          · exact fun hnil => hgo (List.isEmpty_iff.mpr hnil)
          · exact hp d hmem
  | poolConnected d =>
      simp only [apply] at h
      split at h
      · cases h
        exact inv_noted ⟨hd, hf, fun e he => hp e (List.mem_of_mem_erase he)⟩
      · cases h
  | poolFailed d =>
      simp only [apply] at h
      split at h
      · cases h
        exact ⟨hd, hf, fun e he => hp e (List.mem_of_mem_erase he)⟩
      · cases h

/-- A success is that of an open dial, and what it leaves is the state
with its connection noted. -/
theorem apply_succeeded {a : Action} {d : Dial}
    (h : apply a s = some s') (ha : a.succeeded = some d) :
    (d ∈ s.direct ∨ d ∈ s.pool)
      ∧ s'.now = s.now ∧ s'.live = s.live
      ∧ s'.maps = noteConnectSuccess d.target d.dc d.isMedia s.maps := by
  cases a with
  | connected e =>
      cases ha
      simp only [apply] at h
      split at h
      · next hmem => cases h; exact ⟨.inl hmem, rfl, rfl, rfl⟩
      · cases h
  | poolConnected e =>
      cases ha
      simp only [apply] at h
      split at h
      · next hmem => cases h; exact ⟨.inr hmem, rfl, rfl, rfl⟩
      · cases h
  | pass duration => cases ha
  | reload live => cases ha
  | enter dc isMedia origIp => cases ha
  | directFailed e allBlocked timedOut => cases ha
  | frontingConnected e allBlocked timedOut => cases ha
  | frontingFailed e allBlocked timedOut fBlocked fTimedOut => cases ha
  | tcpFailed dst dc => cases ha
  | poolDial dc isMedia hint => cases ha
  | poolFailed e => cases ha

/-- A success lifts the skip exactly where `DialLifts` held before. -/
theorem lifted_iff {a : Action} {d : Dial} (hi : Inv s)
    (h : apply a s = some s') (ha : a.succeeded = some d) :
    Lifted s' d.dc d.isMedia d.target
      ↔ DialLifts s d.dc d.isMedia d.target := by
  obtain ⟨hopen, hnow, hlive, hmaps⟩ := apply_succeeded h ha
  have hne : d.target ≠ [] := by
    rcases hopen with hmem | hmem
    · exact hi.direct d hmem
    · exact hi.pool d hmem
  have hskip : ∀ origIp, wsTargetIp s.live d.dc origIp = d.target →
      (shouldSkipWs s'.live d.dc d.isMedia origIp s'.now s'.maps).1
        = s.maps.blacklist.activeAt (d.dc, d.isMedia) s.now := by
    intro origIp ho
    rw [shouldSkipWs_fst, hnow, hlive, hmaps, noteConnectSuccess_blacklist,
      ho, noteConnectSuccess_ipFail d.dc d.isMedia s.maps s.now hne,
      Bool.and_false, Bool.or_false]
  have hone := exists_orig_iff s.live d.dc hne
  unfold Lifted DialLifts
  rw [hlive]
  constructor
  · intro hall
    by_cases hex : ∃ origIp, wsTargetIp s.live d.dc origIp = d.target
    · obtain ⟨origIp, ho⟩ := hex
      have hoff := hall origIp ho
      rw [← hlive, hskip origIp ho] at hoff
      exact .inl hoff
    · rw [hone, not_or] at hex
      exact .inr hex
  · rintro (hoff | hfront) origIp ho
    · rw [← hlive, hskip origIp ho]
      exact hoff
    · rw [← not_or, ← hone] at hfront
      exact absurd ⟨origIp, ho⟩ hfront

-- ============================================================== runs

theorem inv_run {xs : List Action} {s₀ : State}
    (h : run apply xs s₀ = some s) (hi : Inv s₀) : Inv s :=
  run_invariant apply (C := fun _ _ => True) h
    (fun _ _ _ _ _ _ => trivial) hi fun _ _ _ ht _ hstep => inv_step hstep ht

/-- Whatever has failed, been blacklisted, dialled and expired since the
start of the daemon, a direct dial that succeeds lifts the skip of its
DC for its target exactly where the DC is not in the blacklist at that
moment, or has another front by then. -/
theorem dial_lifts_iff (settings : Settings) (live : Live) (now : Nat)
    (xs : List Action) (a : Action) (d : Dial) (s s' : State)
    (hrun : run apply xs (start settings live now) = some s)
    (hstep : apply a s = some s') (ha : a.succeeded = some d) :
    Lifted s' d.dc d.isMedia d.target
      ↔ DialLifts s d.dc d.isMedia d.target :=
  lifted_iff (inv_run hrun
    ⟨fun _ h => (nomatch h), fun _ h => (nomatch h),
      fun _ h => (nomatch h)⟩) hstep ha

/-- The stock configuration: one front for DC2 and DC4. -/
def stockLive : Live where
  frontIp := "149.154.167.220".toList
  dcFrontIps := ∅
  frontDcs := [2, 4]
  balancer := CfBalancer.Pools.empty

/-- The default durations. -/
def stockSettings : Settings where
  ipFail := Duration.fromSecs 3600
  dcFail := Duration.fromSecs 60
  fronting := Duration.fromSecs 1800
  blacklist := Duration.fromSecs 2700
  frontingEnabled := false

/-- A session of DC2 over the stock front. -/
def sampleDial : Dial where
  dc := 2
  isMedia := false
  origIp := "149.154.167.51".toList
  target := "149.154.167.220".toList

/-- The pool's dial of the same slot. -/
def samplePoolDial : Dial := { sampleDial with origIp := [] }

/-- A session that timed out, then a dial of the pool. -/
def sampleTimeout : List Action :=
  [.enter 2 false sampleDial.origIp, .directFailed sampleDial false true,
    .pass 1000, .poolDial 2 false []]

/-- The pool lifts the mark of the timeout. -/
theorem dial_lifts_sample :
    ∃ s s', run apply sampleTimeout (start stockSettings stockLive 0) = some s
      ∧ apply (.poolConnected samplePoolDial) s = some s'
      ∧ Lifted s' 2 false sampleDial.target :=
  ⟨_, _, rfl, rfl,
    (dial_lifts_iff stockSettings stockLive 0 sampleTimeout
      (.poolConnected samplePoolDial) samplePoolDial _ _ rfl rfl rfl).mpr
        (.inl (by decide +kernel))⟩

/-- A session that met redirects only, then a dial of the pool. -/
def sampleRedirect : List Action :=
  [.enter 2 false sampleDial.origIp, .directFailed sampleDial true false,
    .pass 1000, .poolDial 2 false [], .poolConnected samplePoolDial]

/-- The blacklist outlives the successful dial: every session of DC2
still skips the direct rung. -/
theorem dial_lifts_fails :
    ∃ s, run apply sampleRedirect (start stockSettings stockLive 0) = some s
      ∧ ¬ Lifted s 2 false samplePoolDial.target := by
  refine ⟨_, rfl, ?_⟩
  intro h
  have hoff := h sampleDial.origIp (by decide +kernel)
  exact absurd hoff (by decide +kernel)

end Wrtg.WsSkip
