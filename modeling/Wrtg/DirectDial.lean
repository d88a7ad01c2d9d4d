/-
The dials of the direct rung (`bridge.rs`, `try_ws_with_domains`;
`fronting.rs`, `try_ws_fronting`), and the sessions of `WsSkip` with
their dials made.

A loop gets the outcome of each domain from a function. A session in the
system takes its loop as one step, the one in which the result is in; the
flags it goes on with are those the loop returns. Nothing reads `history`.
-/
import Wrtg.WsSkip
import Wrtg.WsUpgrade

namespace Wrtg.DirectDial

open Ws WsSkip WsUpgrade

/-- A media session prefers the media host. -/
def wsDomains (dc : Int) (isMedia : Bool) : List Text :=
  let dc := if dc = 203 then 2 else dc
  let media :=
    "kws".toList ++ Text.showInt dc ++ "-1.web.telegram.org".toList
  let regular :=
    "kws".toList ++ Text.showInt dc ++ ".web.telegram.org".toList
  if isMedia then [media, regular] else [regular, media]

/-- What a domain comes to: no answer within the loop's own timeout, an
error, a connection that does not take the relay init, or one that
does. -/
inductive Attempt where
  | timeout
  | failed (e : WsConnectError)
  | sendFailed
  | connected
  deriving DecidableEq

/-- The loop of both functions, with `all_blocked` and `timed_out`. -/
def dialLoop (dial : Text → Attempt) :
    List Text → Bool → Bool → Except (Bool × Bool) Text
  | [], allBlocked, timedOut => .error (allBlocked, timedOut)
  | domain :: domains, allBlocked, timedOut =>
      match dial domain with
      | .timeout => dialLoop dial domains false true
      | .failed e =>
          dialLoop dial domains
            (if !isWsRedirectErr e then false else allBlocked)
            (if e.intoIoKind = .timedOut then true else timedOut)
      | .sendFailed => dialLoop dial domains false timedOut
      | .connected => .ok domain

def tryWsWithDomains (dial : Text → Attempt) (domains : List Text) :
    Except (Bool × Bool) Text :=
  dialLoop dial domains true false

/-- `fronting` says whether an SNI is configured. -/
def tryWsFronting (fronting : Bool) (dial : Text → Attempt) (dc : Int)
    (isMedia : Bool) : Except (Bool × Bool) Text :=
  if fronting then dialLoop dial (wsDomains dc isMedia) true false
  else .error (false, false)

-- ============================================================== system

/-- What a run has seen. -/
inductive Event where
  | directFailed (d : Dial) (attempts : List Attempt) (time : Nat)
  | frontingFailed (d : Dial) (attempts : List Attempt) (time : Nat)
  | tcpFailed (dst : Text) (dc : Int) (time : Nat)
  | connected (d : Dial) (time : Nat)
  deriving DecidableEq

structure State where
  skip : WsSkip.State
  /-- The latest first. -/
  history : List Event
  deriving DecidableEq

/-- A loop of an open dial, with what each domain comes to, or any other
step. -/
inductive Action where
  | direct (d : Dial) (dial : Text → Attempt)
  | fronting (d : Dial) (allBlocked timedOut : Bool) (dial : Text → Attempt)
  | other (a : WsSkip.Action)

/-- What a session's domains come to, in order. -/
def attempts (dial : Text → Attempt) (d : Dial) : List Attempt :=
  (wsDomains d.dc d.isMedia).map dial

/-- What the other steps leave in the history; `none` for a step that is
one of the loops. -/
def logged (now : Nat) : WsSkip.Action → Option (List Event)
  | .connected d => some [.connected d now]
  | .poolConnected d => some [.connected d now]
  | .tcpFailed dst dc => some [.tcpFailed dst dc now]
  | .directFailed .. => none
  | .frontingConnected .. => none
  | .frontingFailed .. => none
  | _ => some []

def apply : Action → State → Option State
  | .direct d dial, s =>
      match tryWsWithDomains dial (wsDomains d.dc d.isMedia) with
      | .ok _ => (WsSkip.apply (.connected d) s.skip).map fun skip =>
          { skip, history := .connected d s.skip.now :: s.history }
      | .error (allBlocked, timedOut) =>
          (WsSkip.apply (.directFailed d allBlocked timedOut) s.skip).map
            fun skip =>
              { skip
                history := .directFailed d (attempts dial d) s.skip.now
                           :: s.history }
  | .fronting d allBlocked timedOut dial, s =>
      match tryWsFronting s.skip.settings.frontingEnabled dial d.dc
          d.isMedia with
      | .ok _ =>
          (WsSkip.apply (.frontingConnected d allBlocked timedOut)
            s.skip).map fun skip =>
              { skip, history := .connected d s.skip.now :: s.history }
      | .error (fBlocked, fTimedOut) =>
          (WsSkip.apply
            (.frontingFailed d allBlocked timedOut fBlocked fTimedOut)
            s.skip).map fun skip =>
              { skip
                history := .frontingFailed d (attempts dial d) s.skip.now
                           :: s.history }
  | .other a, s =>
      (logged s.skip.now a).bind fun events =>
        (WsSkip.apply a s.skip).map fun skip =>
          { skip, history := events ++ s.history }

/-- A daemon that has just started. -/
def start (settings : Settings) (live : Config.Live) (now : Nat) :
    State where
  skip := WsSkip.start settings live now
  history := []

end Wrtg.DirectDial
