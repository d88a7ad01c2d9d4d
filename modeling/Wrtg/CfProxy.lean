/-
`try_cf_proxy_domain` (`cf_proxy.rs`): the dials of a CF Proxy domain
behind its 429 cooldown and a permit of the semaphore that all calls
share.

Any number of calls run at once. A call is a task that steps at each
await, where its caller may drop it too: the timeout around it, or the
abort of its race. What a dial comes to and what `resolve_doh` finds are
in the action, and so is which waiting call a free permit goes to; a call
that finds one free takes it in a step of its own. A mark whose deadline
no `Instant` can hold panics, which ends the call like an abort.

Of the state, nothing reads `history` and `sessions`, nor the dials and
lookups of a session: they are the history of the run.
-/
import Wrtg.Cooldown429

namespace Wrtg.CfProxy

open Ws

def cfProxyWsDomain (cfDomain : Text) (dc : Int) (isMedia : Bool) : Text :=
  let dc := if dc = 203 then 2 else dc
  if isMedia then
    "kws".toList ++ Text.showInt dc ++ "-1.".toList ++ cfDomain
  else "kws".toList ++ Text.showInt dc ++ ".".toList ++ cfDomain

def cfProxyHosts (cfDomain : Text) (dc : Int) (isMedia : Bool) : List Text :=
  let host := cfProxyWsDomain cfDomain dc isMedia
  if !isMedia then [host]
  else [host, cfProxyWsDomain cfDomain dc false]

def isWsHttpStatus (e : WsConnectError) (code : Nat) : Bool :=
  e.httpStatus == some code

/-- Whether the dial of a host failed in a way another address may
mend. -/
def isTransport : WsConnectError → Bool
  | .io _ => true
  | .timeout => true
  | _ => false

/-- A call of `connect_ws_with_headers`. -/
structure Dial where
  dialHost : Text
  sniHost : Text
  deriving DecidableEq

/-- Where a call is, with the hosts it has left: in line for a permit,
dialling a host by its name, asking `resolve_doh` for it, or dialling the
address. -/
inductive Phase where
  | waiting
  | dialling (host : Text) (rest : List Text)
  | resolving (host : Text) (hostErr : WsConnectError) (rest : List Text)
  | redialling (host resolvedIp : Text) (rest : List Text)
  deriving DecidableEq

/-- A call holds a permit from its first dial on. -/
def Phase.holds : Phase → Bool
  | .waiting => false
  | _ => true

/-- What a call was asked for, when it passed the cooldown, what it has
dialled, with what each dial came to, and what `resolve_doh` has found for
which host. -/
structure Session where
  cfDomain : Text
  dc : Int
  isMedia : Bool
  admitted : Nat
  dials : List (Dial × Except WsConnectError Unit)
  lookups : List (Text × Option Text)
  deriving DecidableEq

structure Task where
  session : Session
  phase : Phase
  deriving DecidableEq

/-- What a run has seen of a domain. -/
inductive Event where
  | admitted (cfDomain : Text) (time : Nat)
  | skipped (cfDomain : Text) (time : Nat)
  | limited (cfDomain : Text) (err : WsConnectError) (time : Nat)
  | connected (cfDomain : Text) (time : Nat)
  deriving DecidableEq

structure State where
  now : Nat
  cooldown : Cooldown429
  permits : Nat
  tasks : List Task
  /-- The latest first. -/
  history : List Event
  /-- The sessions behind a permit that are over, with what was returned,
  if they were not dropped and did not panic. -/
  sessions : List (Session × Option (Except WsConnectError Unit))
  deriving DecidableEq

inductive Action where
  | pass (duration : Nat)
  | call (cfDomain : Text) (dc : Int) (isMedia : Bool)
  | acquired (i : Nat)
  | dialled (i : Nat) (res : Except WsConnectError Unit)
  | resolved (i : Nat) (ip : Option Text)
  | dropped (i : Nat)
  deriving DecidableEq

/-- Task `i` is over, and its permit free again. -/
def State.leave (s : State) (i : Nat) (session : Session)
    (res : Option (Except WsConnectError Unit)) : State :=
  { s with
    permits := s.permits + 1
    tasks := s.tasks.eraseIdx i
    sessions := (session, res) :: s.sessions }

/-- The end of `try_cf_proxy_domain`, in task `i`. -/
def State.finish (s : State) (i : Nat) (session : Session)
    (res : Except WsConnectError Unit) : State :=
  match res with
  | .ok () =>
      { s with
        cooldown := s.cooldown.clear session.cfDomain
        history := .connected session.cfDomain s.now :: s.history }.leave i
        session (some res)
  | .error e =>
      if isWsHttpStatus e 429 then
        let s := { s with
          history := .limited session.cfDomain e s.now :: s.history }
        match s.cooldown.mark session.cfDomain e s.now with
        | some cooldown => { s with cooldown }.leave i session (some res)
        | none => s.leave i session none
      else s.leave i session (some res)

/-- The loop of `connect_cf_proxy_ws` in task `i`, once a host is through
with an error. -/
def State.hostFailed (s : State) (i : Nat) (session : Session)
    (e : WsConnectError) (rest : List Text) : State :=
  if isWsHttpStatus e 429 then s.finish i session (.error e)
  else match rest with
    | [] => s.finish i session (.error e)
    | host :: rest =>
        { s with tasks := s.tasks.set i
                  { session, phase := .dialling host rest } }

def apply : Action → State → Option State
  | .pass duration, s => some { s with now := s.now + duration }
  | .call cfDomain dc isMedia, s =>
      let (remaining, cooldown) := s.cooldown.remaining cfDomain s.now
      if remaining > 0 then
        some { s with
          cooldown
          history := .skipped cfDomain s.now :: s.history }
      else
        let session : Session :=
          { cfDomain, dc, isMedia, admitted := s.now
            dials := [], lookups := [] }
        some { s with
          cooldown
          tasks := { session, phase := .waiting } :: s.tasks
          history := .admitted cfDomain s.now :: s.history }
  | .acquired i, s =>
      match s.tasks[i]? with
      | some { session, phase := .waiting } =>
          if 0 < s.permits then
            let s := { s with permits := s.permits - 1 }
            match cfProxyHosts session.cfDomain session.dc
                session.isMedia with
            | [] => some (s.finish i session (.error .timeout))
            | host :: rest =>
                some { s with tasks := s.tasks.set i
                                { session, phase := .dialling host rest } }
          else none
      | _ => none
  | .dialled i res, s =>
      match s.tasks[i]? with
      | some { session, phase := .dialling host rest } =>
          let session := { session with
            dials := session.dials
              ++ [({ dialHost := host, sniHost := host }, res)] }
          match res with
          | .ok () => some (s.finish i session res)
          | .error e =>
              if isWsHttpStatus e 429 then
                some (s.hostFailed i session e rest)
              else if !isTransport e then
                some (s.hostFailed i session e rest)
              else
                some { s with
                  tasks := s.tasks.set i
                    { session, phase := .resolving host e rest } }
      | some { session, phase := .redialling host resolvedIp rest } =>
          let session := { session with
            dials := session.dials
              ++ [({ dialHost := resolvedIp, sniHost := host }, res)] }
          match res with
          | .ok () => some (s.finish i session res)
          | .error e => some (s.hostFailed i session e rest)
      | _ => none
  | .resolved i ip, s =>
      match s.tasks[i]? with
      | some { session, phase := .resolving host hostErr rest } =>
          let session := { session with
            lookups := session.lookups ++ [(host, ip)] }
          let resolvedIp := ip.getD []
          if resolvedIp.isEmpty then
            some (s.hostFailed i session hostErr rest)
          else
            some { s with tasks := s.tasks.set i
                            { session
                              phase := .redialling host resolvedIp rest } }
      | _ => none
  | .dropped i, s =>
      match s.tasks[i]? with
      | some { session, phase } =>
          if phase.holds then some (s.leave i session none)
          else some { s with tasks := s.tasks.eraseIdx i }
      | none => none

/-- A daemon that has just started, with the two cooldowns and the limit
that its settings say. -/
def start (base max limit now : Nat) : State where
  now := now
  cooldown := .new base max
  permits := limit
  tasks := []
  history := []
  sessions := []

end Wrtg.CfProxy
