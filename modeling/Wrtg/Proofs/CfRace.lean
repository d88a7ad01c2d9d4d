/-
What a session on the CF Proxy rung counts.

`finish_cf_proxy_connect` counts where it connects, inside the task, and
the race picks its winner later: the counter has one increment for each
dial that connected before an abort reached it (`Ledger`). The session
is bridged through one of them, so its own count is right exactly when
no second one connected.
-/
import Wrtg.CfRace
import Wrtg.Lib.Run
import Wrtg.Lib.Tally

namespace Wrtg.CfRace

open Lib

variable {stats : Stats} {isMedia : Bool} {n : Nat} {s s' : State}
  {cfDomain : Text}

-- ======================================================= connections

/-- The dial connects and the relay init is sent. -/
def Dial.connects : Dial → Nat
  | .connected => 1
  | _ => 0

def Action.connects : Action → Nat
  | .primary dial => dial.connects
  | .finish _ dial => dial.connects
  | _ => 0

/-- The dials of a run that connect, the first domain's and the
racers'. -/
def connections (as : List Action) : Nat := tally Action.connects as

/-- The task has a connection that is not joined yet. -/
def Task.holds : Task → Nat
  | .ended (some _) => 1
  | _ => 0

/-- The session has left the rung. -/
def State.over (s : State) : Bool :=
  match s.phase with
  | .bridged _ => true
  | .failed _ => true
  | _ => false

/-- The sessions bridged through a CF Proxy domain, of this one. -/
def State.bridges (s : State) : Nat :=
  match s.phase with
  | .bridged _ => 1
  | _ => 0

/-- The session counts once if it is bridged, among the media sessions
if it is one, and not at all if it is not. -/
def CountedOnce (stats : Stats) (isMedia : Bool) (s : State) : Prop :=
  s.stats.cfProxy = stats.cfProxy + s.bridges
    ∧ s.stats.cfProxyMedia
      = stats.cfProxyMedia + if isMedia then s.bridges else 0

instance (stats : Stats) (isMedia : Bool) (s : State) :
    Decidable (CountedOnce stats isMedia s) :=
  inferInstanceAs (Decidable (_ ∧ _))

-- ============================================================ one dial

theorem finishCfProxyConnect_cfProxy (cfDomain : Text) (isMedia : Bool)
    (stats : Stats) (dial : Dial) :
    (finishCfProxyConnect cfDomain isMedia stats dial).2.cfProxy
      = stats.cfProxy + dial.connects := by
  cases dial with
  | connected => cases isMedia <;> rfl
  | sendFailed => rfl
  | skipped => rfl
  | failed => rfl
  | timeout => rfl

theorem finishCfProxyConnect_media (cfDomain : Text) (isMedia : Bool)
    (stats : Stats) (dial : Dial) :
    (finishCfProxyConnect cfDomain isMedia stats dial).2.cfProxyMedia
      = stats.cfProxyMedia + if isMedia then dial.connects else 0 := by
  cases dial with
  | connected => cases isMedia <;> rfl
  | sendFailed => cases isMedia <;> rfl
  | skipped => cases isMedia <;> rfl
  | failed => cases isMedia <;> rfl
  | timeout => cases isMedia <;> rfl

/-- A domain comes back from the dials that count. -/
theorem finishCfProxyConnect_res (cfDomain : Text) (isMedia : Bool)
    (stats : Stats) (dial : Dial) :
    (Task.ended (finishCfProxyConnect cfDomain isMedia stats dial).1).holds
      = dial.connects := by
  cases dial <;> rfl

-- ========================================================== the ledger

/-- A task that dials holds no connection yet. -/
theorem tally_dialling (cfDomains : List Text) :
    tally Task.holds (cfDomains.map .dialling) = 0 := by
  induction cfDomains with
  | nil => rfl
  | cons cfDomain cfDomains ih =>
      rw [List.map_cons, tally_cons, ih]
      rfl

/-- Where the `n` connections of a session are: in the set until one of
them has won. -/
def State.accounts (s : State) (n : Nat) : Prop :=
  match s.phase with
  | .primary _ => n = 0 ∧ s.set = []
  | .racing _ => n = tally Task.holds s.set
  | .won _ => 1 ≤ n
  | .draining _ => 1 ≤ n
  | .bridged _ => 1 ≤ n
  | .failed _ => n = 0 ∧ s.set = []

/-- The counters have moved by the `n` connections made so far. -/
structure Ledger (stats : Stats) (isMedia : Bool) (n : Nat) (s : State) :
    Prop where
  kind : s.isMedia = isMedia
  cfProxy : s.stats.cfProxy = stats.cfProxy + n
  media : s.stats.cfProxyMedia = stats.cfProxyMedia + if isMedia then n else 0
  accounts : s.accounts n

theorem start_ledger (cfDomains : List Text) (isMedia : Bool)
    (stats : Stats) :
    Ledger stats isMedia 0 (start cfDomains isMedia stats) := by
  refine ⟨rfl, rfl, ?_, ?_⟩
  · cases isMedia <;> rfl
  · unfold State.accounts start
    cases cfDomains with
    | nil => exact ⟨rfl, rfl⟩
    | cons cfDomain cfDomains => exact ⟨rfl, rfl⟩

/-- A dial moves the counters by what it connects. -/
theorem Ledger.dial (h : Ledger stats isMedia n s) (cfDomain : Text)
    (dial : Dial) {set : List Task} {phase : Phase}
    (haccounts : State.accounts ⟨s.isMedia,
      (finishCfProxyConnect cfDomain s.isMedia s.stats dial).2, set, phase⟩
        (n + dial.connects)) :
    Ledger stats isMedia (n + dial.connects) ⟨s.isMedia,
      (finishCfProxyConnect cfDomain s.isMedia s.stats dial).2, set,
        phase⟩ := by
  refine ⟨h.kind, ?_, ?_, haccounts⟩
  · rw [finishCfProxyConnect_cfProxy, h.cfProxy, Nat.add_assoc]
  · rw [finishCfProxyConnect_media, h.media, h.kind]
    cases isMedia
    · rfl
    · exact Nat.add_assoc _ _ _

/-- A step that dials nothing moves no counter. -/
theorem Ledger.quiet (h : Ledger stats isMedia n s) {set : List Task}
    {phase : Phase}
    (haccounts : State.accounts ⟨s.isMedia, s.stats, set, phase⟩ n) :
    Ledger stats isMedia n ⟨s.isMedia, s.stats, set, phase⟩ :=
  ⟨h.kind, h.cfProxy, h.media, haccounts⟩

-- =========================================================== the steps

theorem primary_ledger {dial : Dial} (h : Ledger stats isMedia n s)
    (ha : apply (.primary dial) s = some s') :
    Ledger stats isMedia (n + dial.connects) s' := by
  have hacc := h.accounts
  unfold State.accounts at hacc
  cases hphase : s.phase with
  | primary cfDomains =>
      simp only [hphase] at hacc
      simp only [apply, hphase] at ha
      obtain ⟨hn, hset⟩ := hacc
      cases cfDomains with
      | nil => cases ha
      | cons primary others =>
          have hres := finishCfProxyConnect_res primary s.isMedia s.stats dial
          simp only at ha
          split at ha
          · next chosen hchosen =>
              cases ha
              rw [hchosen] at hres
              refine h.dial primary dial ?_
              show 1 ≤ n + dial.connects
              rw [← hres]
              exact Nat.le_add_left 1 n
          · next hnone =>
              rw [hnone] at hres
              have hzero : n + dial.connects = 0 := by
                rw [← hres, hn]
                rfl
              split at ha
              · cases ha
                exact h.dial primary dial ⟨hzero, hset⟩
              · cases ha
                refine h.dial primary dial ?_
                show n + dial.connects
                  = tally Task.holds (others.map .dialling)
                rw [hzero, tally_dialling]
  | racing window => simp only [apply, hphase, reduceCtorEq] at ha
  | won chosen => simp only [apply, hphase, reduceCtorEq] at ha
  | draining chosen => simp only [apply, hphase, reduceCtorEq] at ha
  | bridged chosen => simp only [apply, hphase, reduceCtorEq] at ha
  | failed window => simp only [apply, hphase, reduceCtorEq] at ha

theorem finish_ledger {i : Nat} {dial : Dial} (h : Ledger stats isMedia n s)
    (ha : apply (.finish i dial) s = some s') :
    Ledger stats isMedia (n + dial.connects) s' := by
  have hacc := h.accounts
  simp only [apply] at ha
  split at ha
  · next cfDomain htask =>
      have hres := finishCfProxyConnect_res cfDomain s.isMedia s.stats dial
      cases ha
      refine h.dial cfDomain dial ?_
      unfold State.accounts at hacc ⊢
      cases hphase : s.phase with
      | primary cfDomains =>
          simp only [hphase] at hacc
          rw [hacc.2] at htask
          cases htask
      | racing window =>
          simp only [hphase] at hacc ⊢
          have hset := tally_set (f := Task.holds) htask (.ended
            (finishCfProxyConnect cfDomain s.isMedia s.stats dial).1)
          rw [hres] at hset
          have hdialling : (Task.dialling cfDomain).holds = 0 := rfl
          omega
      | won chosen =>
          simp only [hphase] at hacc ⊢
          exact Nat.le_add_right_of_le hacc
      | draining chosen =>
          simp only [hphase] at hacc ⊢
          exact Nat.le_add_right_of_le hacc
      | bridged chosen =>
          simp only [hphase] at hacc ⊢
          exact Nat.le_add_right_of_le hacc
      | failed window =>
          simp only [hphase] at hacc
          rw [hacc.2] at htask
          cases htask
  · cases ha

theorem joinNext_ledger {i : Nat} (h : Ledger stats isMedia n s)
    (ha : apply (.joinNext i) s = some s') : Ledger stats isMedia n s' := by
  have hacc := h.accounts
  obtain ⟨task, htask, ha⟩ := Option.bind_eq_some_iff.mp ha
  have herase := tally_eraseIdx (f := Task.holds) htask
  unfold State.join at ha
  unfold State.accounts at hacc
  split at ha
  · -- the winner: a connection of the set
    next window chosen hphase =>
      cases ha
      simp only [hphase] at hacc
      refine h.quiet ?_
      show 1 ≤ n
      have hholds : (Task.ended (some chosen)).holds = 1 := rfl
      omega
  · next window hphase =>
      cases ha
      simp only [hphase] at hacc
      refine h.quiet ?_
      unfold State.accounts
      simp only [hphase]
      have hholds : (Task.ended none).holds = 0 := rfl
      omega
  · next chosen res hphase =>
      cases ha
      simp only [hphase] at hacc
      refine h.quiet ?_
      unfold State.accounts
      simp only [hphase]
      exact hacc
  · next chosen hphase =>
      cases ha
      simp only [hphase] at hacc
      refine h.quiet ?_
      unfold State.accounts
      simp only [hphase]
      exact hacc
  · cases ha

theorem joinedAll_ledger (h : Ledger stats isMedia n s)
    (ha : apply .joinedAll s = some s') : Ledger stats isMedia n s' := by
  have hacc := h.accounts
  unfold State.accounts at hacc
  simp only [apply] at ha
  split at ha
  · next hset =>
      rw [List.isEmpty_iff] at hset
      split at ha
      · next window hphase =>
          cases ha
          simp only [hphase, hset] at hacc
          exact h.quiet ⟨hacc, hset⟩
      · next chosen hphase =>
          cases ha
          simp only [hphase] at hacc
          exact h.quiet hacc
      · cases ha
  · cases ha

theorem apply_ledger {a : Action} (h : Ledger stats isMedia n s)
    (ha : apply a s = some s') :
    Ledger stats isMedia (n + a.connects) s' := by
  cases a with
  | primary dial => exact primary_ledger h ha
  | finish i dial => exact finish_ledger h ha
  | cancel i =>
      have hacc := h.accounts
      unfold State.accounts at hacc
      simp only [apply] at ha
      split at ha
      · next chosen cfDomain hphase htask =>
          cases ha
          simp only [hphase] at hacc
          refine h.quiet ?_
          unfold State.accounts
          simp only [hphase]
          exact hacc
      · cases ha
  | joinNext i => exact joinNext_ledger h ha
  | abortAll =>
      have hacc := h.accounts
      unfold State.accounts at hacc
      simp only [apply] at ha
      split at ha
      · next chosen hphase =>
          cases ha
          simp only [hphase] at hacc
          exact h.quiet hacc
      · cases ha
  | joinedAll => exact joinedAll_ledger h ha

/-- The ledger of a run counts its connections. -/
theorem run_ledger {as : List Action} (h : Ledger stats isMedia 0 s)
    (hrun : run apply as s = some s') :
    Ledger stats isMedia (connections as) s' := by
  induction as using List.reverseRecOn generalizing s' with
  | nil =>
      cases hrun
      exact h
  | append_singleton as a ih =>
      obtain ⟨t, ht, ha⟩ := run_concat apply hrun
      have hstep := apply_ledger (ih ht) ha
      rw [show connections (as ++ [a]) = connections as + a.connects from
        tally_append Action.connects as [a]]
      exact hstep

-- ========================================================== the session

/-- A session that has left the rung is counted once if it is bridged,
and not if it is not, exactly when at most one of its dials connected. -/
theorem session_counted_once (cfDomains : List Text) (isMedia : Bool)
    (stats : Stats) (as : List Action) (s : State)
    (hrun : run apply as (start cfDomains isMedia stats) = some s)
    (hover : s.over = true) :
    CountedOnce stats isMedia s ↔ connections as ≤ 1 := by
  have h := run_ledger (start_ledger cfDomains isMedia stats) hrun
  have hacc := h.accounts
  unfold CountedOnce State.bridges
  unfold State.over at hover
  unfold State.accounts at hacc
  rw [h.cfProxy, h.media]
  cases hphase : s.phase with
  | bridged chosen =>
      simp only [hphase] at hacc ⊢
      -- `1 ≤ n`, and the counters have moved by `n`
      constructor
      · intro hcounted
        omega
      · intro hone
        have hn : connections as = 1 := Nat.le_antisymm hone hacc
        rw [hn]
        exact ⟨rfl, rfl⟩
  | failed window =>
      simp only [hphase] at hacc ⊢
      rw [hacc.1]
      exact ⟨fun _ => Nat.zero_le 1, fun _ => ⟨rfl, rfl⟩⟩
  | primary cfDomains => rw [hphase] at hover; cases hover
  | racing window => rw [hphase] at hover; cases hover
  | won chosen => rw [hphase] at hover; cases hover
  | draining chosen => rw [hphase] at hover; cases hover

/-- The first domain fails and a racer connects. -/
theorem session_counted_once_sample :
    CountedOnce ⟨5, 2, 0⟩ true
      ⟨true, ⟨6, 3, 1⟩, [], .bridged ['b']⟩ :=
  (session_counted_once [['a'], ['b']] true ⟨5, 2, 0⟩
    [.primary .failed, .finish 0 .connected, .joinNext 0, .abortAll,
      .joinedAll] _ rfl rfl).mpr (by decide)

/-- Two racers connect before the first is joined: the loser is drained
and closed, and the session counts twice. -/
theorem session_counted_twice :
    ∃ s, run apply [.primary .timeout, .finish 0 .connected,
        .finish 1 .connected, .joinNext 0, .abortAll, .joinNext 0,
        .joinedAll] (start [['a'], ['b'], ['c']] false ⟨0, 0, 0⟩) = some s
      ∧ s.phase = .bridged ['b'] ∧ s.stats.cfProxy = 2
      ∧ ¬ CountedOnce ⟨0, 0, 0⟩ false s :=
  ⟨_, rfl, rfl, rfl, by decide⟩

end Wrtg.CfRace
