/-
The CF Proxy rung of a session (`bridge.rs`, the end of
`try_cf_fallback`, and `finish_cf_proxy_connect`): the first domain by
itself, then a race of the others, the first to connect wins and the
rest are aborted and drained.

A racing task is one step, the poll in which its dial ends: it counts
and returns without another await, so an abort comes before that poll or
too late. `abort_all` cancels no task by itself; a task that is still
dialling may end at any time, also behind the abort. Which result a dial
has is in the action. The counters are those of `stats.rs` that the rung
moves; the domains come from `proxy_domains_for_dc`, and an ending names
what `update_proxy_domain_for_dc` or `advance_proxy_domains_for_dc` is
told.
-/
import Wrtg.Rust.Text

namespace Wrtg.CfRace

structure Stats where
  cfProxy : Nat
  cfProxyMedia : Nat
  cfProxyDialFailed : Nat
  deriving DecidableEq, Repr

/-- How a dial of a domain ends: with the relay init sent, with a failed
send, skipped (`WouldBlock`), with another error, or timed out. -/
inductive Dial where
  | connected
  | sendFailed
  | skipped
  | failed
  | timeout
  deriving DecidableEq, Repr

/-- `finish_cf_proxy_connect`: the domain that is connected, if it is,
and the counters. -/
def finishCfProxyConnect (cfDomain : Text) (isMedia : Bool) (stats : Stats) :
    Dial → Option Text × Stats
  | .connected =>
      let stats := { stats with cfProxy := stats.cfProxy + 1 }
      (some cfDomain,
        if isMedia then { stats with cfProxyMedia := stats.cfProxyMedia + 1 }
        else stats)
  | .sendFailed => (none, stats)
  | .skipped => (none, stats)
  | .failed =>
      (none, { stats with cfProxyDialFailed := stats.cfProxyDialFailed + 1 })
  | .timeout =>
      (none, { stats with cfProxyDialFailed := stats.cfProxyDialFailed + 1 })

/-- A task of the `JoinSet`: dialling, ended with a result that is not
joined yet, or cancelled. -/
inductive Task where
  | dialling (cfDomain : Text)
  | ended (res : Option Text)
  | cancelled
  deriving DecidableEq, Repr

/-- Where the session stands: before the first dial, joining the race,
with a winner and the others not aborted yet, draining the others, and
the two endings, bridged through a domain or past a window of domains
that failed. -/
inductive Phase where
  | primary (cfDomains : List Text)
  | racing (window : Nat)
  | won (chosen : Text)
  | draining (chosen : Text)
  | bridged (chosen : Text)
  | failed (window : Nat)
  deriving DecidableEq, Repr

structure State where
  isMedia : Bool
  stats : Stats
  set : List Task
  phase : Phase
  deriving DecidableEq, Repr

inductive Action where
  | primary (dial : Dial)
  | finish (i : Nat) (dial : Dial)
  | cancel (i : Nat)
  | joinNext (i : Nat)
  | abortAll
  | joinedAll
  deriving DecidableEq, Repr

/-- `join_next` of task `i`, in the race or behind the abort. -/
def State.join (s : State) (i : Nat) (task : Task) : Option State :=
  let set := s.set.eraseIdx i
  match s.phase, task with
  | .racing _, .ended (some chosen) =>
      some { s with set, phase := .won chosen }
  | .racing _, .ended none => some { s with set }
  | .draining _, .ended _ => some { s with set }
  | .draining _, .cancelled => some { s with set }
  | _, _ => none

def apply : Action → State → Option State
  | .primary dial, s => match s.phase with
      | .primary [] => none
      | .primary (primary :: others) =>
          let (res, stats) :=
            finishCfProxyConnect primary s.isMedia s.stats dial
          match res with
          | some chosen => some { s with stats, phase := .bridged chosen }
          | none =>
              if others.isEmpty then some { s with stats, phase := .failed 1 }
              else some { s with
                stats
                set := others.map .dialling
                phase := .racing (others.length + 1) }
      | _ => none
  | .finish i dial, s => match s.set[i]? with
      | some (.dialling cfDomain) =>
          let (res, stats) :=
            finishCfProxyConnect cfDomain s.isMedia s.stats dial
          some { s with stats, set := s.set.set i (.ended res) }
      | _ => none
  | .cancel i, s => match s.phase, s.set[i]? with
      | .draining _, some (.dialling _) =>
          some { s with set := s.set.set i .cancelled }
      | _, _ => none
  | .joinNext i, s => (s.set[i]?).bind (s.join i)
  | .abortAll, s => match s.phase with
      | .won chosen => some { s with phase := .draining chosen }
      | _ => none
  | .joinedAll, s =>
      if s.set.isEmpty then match s.phase with
        | .racing window => some { s with phase := .failed window }
        | .draining chosen => some { s with phase := .bridged chosen }
        | _ => none
      else none

/-- A session that reaches the rung. -/
def start (cfDomains : List Text) (isMedia : Bool) (stats : Stats) :
    State where
  isMedia := isMedia
  stats := stats
  set := []
  phase := if cfDomains.isEmpty then .failed 0 else .primary cfDomains

end Wrtg.CfRace
