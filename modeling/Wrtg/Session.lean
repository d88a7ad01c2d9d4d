/-
A session from its accept to its end: `handle_conn` and `handle_handshake`
of `main.rs`, and the rungs they try in turn (`bridge.rs`).

A step is what the session does between two awaits, or several of them
where nothing but the clock lies between, with what it counts on the way.
What the awaits give is in the actions: the init, which dials go through,
the lists of Workers, domains and addresses that the pools hand out at
that time, and how a bridge ends. The race of the CF Proxy rung is the one
of `Wrtg.CfRace`, with counters of its own, from zero; the bridges
themselves are `Wrtg.Bridge`, `Wrtg.TcpBridge` and `Wrtg.RelayViaWorker`.
-/
import Wrtg.CfRace
import Wrtg.Media
import Wrtg.Stats

namespace Wrtg.Session

open DcLearn (LearnMap)
open Media Stats

-- ============================================================== state

/-- Where a session stands: before or in the init read, on a rung, in a
bridge, in the blind relay, or over. A list is what a loop has still to
dial. -/
inductive Pc where
  | start
  | readingInit
  | pooled
  | direct
  | fronting
  | cfFallback
  | workerPool
  | workers (left : List Text)
  | race (race : CfRace.State)
  | tcpFallback
  | tcp (left : List Text)
  | bridging
  | passthrough
  | passing (left : List Text)
  | tunnelling
  | front
  | relaying
  | copying
  | ended
  deriving DecidableEq, Repr

structure State where
  origIp : Text
  origPort : Nat
  isMedia : Bool
  pc : Pc
  deriving DecidableEq, Repr

/-- What `handle_handshake` knows before its first rung: the DC it has
settled on, whether relay init and cipher context came to be, whether the
direct rung is skipped, and where that would go. -/
structure Parsed where
  dc : Int
  isMedia : Bool
  relayInit : Bool
  skipWs : Bool
  targetIp : Text
  deriving DecidableEq, Repr

/-- `read_client_init`: closed, to be relayed as it is, or a handshake. -/
inductive Init where
  | none
  | rejected
  | parsed (p : Parsed)
  deriving DecidableEq, Repr

inductive Action where
  | conn (selfTarget : Bool)
  | init (init : Init)
  | pooled (took : Bool)
  | direct (connected skipFronting : Bool)
  | fronting (connected : Bool)
  | cfFallback (disabled : Bool)
  | workerPool (took : Bool) (workers : List Text)
  | worker (carried : Bool)
  | proxies (cfDomains : List Text)
  | race (a : CfRace.Action)
  | targets (targets : List Text)
  | dialled (connected : Bool)
  | closed (idleReaped : Bool)
  | passthrough (workers : List Text)
  | tunnelClosed (idleReaped noData : Bool)
  | frontDialled (connected : Bool)
  | answered (learned : LearnMap) (head : Bytes)
  | noAnswer
  | copied

-- ============================================================== steps

/-- What is counted, and what follows. -/
def State.to (sess : State) (counts : List Stat) (pc : Pc) :
    List Stat × State :=
  (counts, { sess with pc })

/-- `blind_relay`, up to its first await; `counts` are those before. -/
def blindRelay (counts : List Stat) (sess : State) : List Stat × State :=
  sess.to (counts ++ [.blindRelay])
    (if shouldTryWorkerPassthrough sess.origPort then .passthrough
      else .front)

/-- The loop of `try_tcp_fallback`; behind it all paths have failed. -/
def tcpLoop (left : List Text) (sess : State) : List Stat × State :=
  if left.isEmpty then blindRelay [.allPathsFailed] sess
  else sess.to [] (.tcp left)

/-- The first rung of a handshake. -/
def firstRung (p : Parsed) : Pc :=
  if p.skipWs || p.targetIp.isEmpty then .cfFallback
  else if p.isMedia then .direct
  else .pooled

/-- What a race has counted between two states of its counters. -/
def raceCounts (before after : CfRace.Stats) : List Stat :=
  List.replicate (after.cfProxy - before.cfProxy) .cfProxy
    ++ List.replicate (after.cfProxyMedia - before.cfProxyMedia)
      .cfProxyMedia
    ++ List.replicate (after.cfProxyDialFailed - before.cfProxyDialFailed)
      .cfProxyDialFailed

/-- A step of the race, and what it counts. -/
def raceStep (a : CfRace.Action) (r : CfRace.State) :
    Option (List Stat × CfRace.State) :=
  (CfRace.apply a r).map fun r' => (raceCounts r.stats r'.stats, r')

/-- Where a race leaves the session. -/
def afterRace (r : CfRace.State) : Pc :=
  match r.phase with
  | .bridged _ => .bridging
  | .failed _ => .tcpFallback
  | _ => .race r

/-- Whether the front has refused MTProto over HTTP. -/
def refused (learned : LearnMap) (sess : State) (head : Bytes) : Bool :=
  sess.origPort == 80 && needsHttpHostRewrite learned sess.origIp
    && mediaHttpRejected (httpStatusCode head)

/-- `if b { inc(s) }`. -/
def countIf (b : Bool) (s : Stat) : List Stat := if b then [s] else []

def apply : Action → State → Option (List Stat × State)
  | .conn selfTarget, sess => match sess.pc with
      | .start =>
          if selfTarget then some (sess.to [.selfConnectDropped] .ended)
          else some (sess.to [] .readingInit)
      | _ => none
  | .init init, sess => match sess.pc, init with
      | .readingInit, .none => some (sess.to [] .ended)
      | .readingInit, .rejected => some (blindRelay [] sess)
      | .readingInit, .parsed p =>
          if p.dc == 0 || !p.relayInit then some (blindRelay [] sess)
          else some ({ sess with isMedia := p.isMedia }.to [] (firstRung p))
      | _, _ => none
  | .pooled took, sess => match sess.pc with
      | .pooled =>
          if took then some (sess.to [.wsPoolHit] .bridging)
          else some (sess.to [] .direct)
      | _ => none
  | .direct connected skipFronting, sess => match sess.pc with
      | .direct =>
          if connected then some (sess.to [.wsDirect] .bridging)
          else some (sess.to []
            (if skipFronting then .cfFallback else .fronting))
      | _ => none
  | .fronting connected, sess => match sess.pc with
      | .fronting =>
          if connected then some (sess.to [.fronting] .bridging)
          else some (sess.to [] .cfFallback)
      | _ => none
  | .cfFallback disabled, sess => match sess.pc with
      | .cfFallback =>
          some (sess.to [] (if disabled then .tcpFallback else .workerPool))
      | _ => none
  | .workerPool took workers, sess => match sess.pc with
      | .workerPool =>
          if took then some (sess.to [.cfWorker] .bridging)
          else some (sess.to [] (.workers workers))
      | _ => none
  | .worker carried, sess => match sess.pc with
      | .workers (_ :: left) =>
          if carried then some (sess.to [.cfWorker] .bridging)
          else some (sess.to [] (.workers left))
      | .passing (_ :: left) =>
          if carried then some (sess.to [.workerPassthrough] .tunnelling)
          else some (sess.to []
            (if left.isEmpty then .front else .passing left))
      | _ => none
  | .proxies cfDomains, sess => match sess.pc with
      | .workers [] =>
          some (sess.to []
            (afterRace (CfRace.start cfDomains sess.isMedia ⟨0, 0, 0⟩)))
      | _ => none
  | .race a, sess => match sess.pc with
      | .race r =>
          (raceStep a r).map fun (counts, r) => sess.to counts (afterRace r)
      | _ => none
  | .targets targets, sess => match sess.pc with
      | .tcpFallback => some (tcpLoop (targets.filter (!·.isEmpty)) sess)
      | _ => none
  | .dialled connected, sess => match sess.pc with
      | .tcp (_ :: left) =>
          if connected then some (sess.to [.tcpFallback] .bridging)
          else some (tcpLoop left sess)
      | _ => none
  | .closed idleReaped, sess => match sess.pc with
      | .bridging => some (sess.to (countIf idleReaped .idleReaped) .ended)
      | _ => none
  | .passthrough workers, sess => match sess.pc with
      | .passthrough =>
          some (sess.to []
            (if workers.isEmpty then .front else .passing workers))
      | _ => none
  | .tunnelClosed idleReaped noData, sess => match sess.pc with
      | .tunnelling =>
          some (sess.to (countIf idleReaped .idleReaped
            ++ countIf noData .passthroughNoData) .ended)
      | _ => none
  | .frontDialled connected, sess => match sess.pc with
      | .front => some (sess.to [] (if connected then .relaying else .ended))
      | _ => none
  | .answered learned head, sess => match sess.pc with
      | .relaying =>
          some (sess.to
            (countIf (refused learned sess head) .mediaHttpRejected) .copying)
      | _ => none
  | .noAnswer, sess => match sess.pc with
      | .relaying => some (sess.to [] .ended)
      | _ => none
  | .copied, sess => match sess.pc with
      | .copying => some (sess.to [] .ended)
      | _ => none

/-- A connection that has been accepted. -/
def start (origIp : Text) (origPort : Nat) : State where
  origIp := origIp
  origPort := origPort
  isMedia := false
  pc := .start

end Wrtg.Session
