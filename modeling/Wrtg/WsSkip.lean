/-
Whether a session may dial Telegram directly (`bridge.rs`,
`should_skip_ws`), and everything that sets or lifts what it asks:
`ip_fail.rs`, `ws_blacklist.rs`, the failure map of `fronting.rs`, the
dials of `ws_pool.rs`, and the part of `handle_handshake` behind
`try_ws_bridge`.

A dial is open from the step that decides on it to the step in which its
result is in; which result that is, is in the action. The clock moves
between the steps, and a reload may change the target of a DC. The reads
of `dc_fail`, which choose a timeout and nothing else, are left out, and
so are the successes of the fallback rungs, which touch none of the
maps. A mark whose deadline no `Instant` can hold panics: the session
ends there, with the maps as they are.
-/
import Wrtg.Config
import Wrtg.Mtproto
import Wrtg.TtlMap

namespace Wrtg.WsSkip

open Config Mtproto

-- ============================================================ targets

/-- DC203 folds to DC2. -/
def dcKey (dc : Int) : Int := if dc = 203 then 2 else dc

/-- Whether the global front applies to a DC. -/
def frontAppliesToDc (live : Live) (dc : Int) : Bool :=
  live.frontDcs.contains (dcKey dc)

/-- The front of a DC: its own, or the global one in scope, or none. -/
def dcFrontIp (live : Live) (dc : Int) : Text :=
  let own := (live.dcFrontIps.lookup (dcKey dc)).getD []
  let named := (live.dcFrontIps.lookup dc).getD []
  if !own.isEmpty then own
  else if !named.isEmpty then named
  else if frontAppliesToDc live dc then live.frontIp
  else []

/-- Where a direct WebSocket of a DC goes. -/
def wsTargetIp (live : Live) (dc : Int) (origIp : Text) : Text :=
  let front := dcFrontIp live dc
  if !front.isEmpty then front
  else if !origIp.isEmpty then origIp
  else (dcDefaultIps.lookup dc).getD []

/-- Whether redirects throughout blacklist the DC: not on the stock
front of a DC that it does not serve. -/
def wsRedirectBlacklistWarranted (live : Live) (dc : Int)
    (targetIp : Text) : Bool :=
  if targetIp.isEmpty then true
  else
    let front := dcFrontIp live (dcKey dc)
    if front.isEmpty || front != targetIp then true
    else targetIp == live.frontIp && (dcKey dc == 2 || dcKey dc == 4)

-- =============================================================== maps

/-- How long the marks last, and whether fronting is configured. -/
structure Settings where
  ipFail : Nat
  dcFail : Nat
  fronting : Nat
  blacklist : Nat
  frontingEnabled : Bool
  deriving DecidableEq, Repr

structure Maps where
  ipFail : TtlMap (Text × Int)
  dcFail : TtlMap (Int × Bool)
  frontingFail : TtlMap (Text × Int)
  blacklist : TtlMap (Int × Bool)
  deriving DecidableEq

def Maps.empty : Maps where
  ipFail := ∅
  dcFail := ∅
  frontingFail := ∅
  blacklist := ∅

/-- What a call leaves of the maps; `none` if it panicked. -/
abbrev Marking := Option Unit × Maps

/-- The next call, if the one before returned. -/
def Marking.andThen (res : Marking) (next : Maps → Marking) : Marking :=
  match res with
  | (some (), m) => next m
  | (none, m) => (none, m)

def markIpFailed (set : Settings) (ip : Text) (dc : Int) (now : Nat)
    (m : Maps) : Marking :=
  if ip.isEmpty then (some (), m)
  else
    let (marked, ipFail) := m.ipFail.markIfAbsent (ip, dc) set.ipFail now
    (marked.map fun _ => (), { m with ipFail })

def clearIpFail (ip : Text) (dc : Int) (m : Maps) : Maps :=
  if ip.isEmpty then m
  else { m with ipFail := (m.ipFail.clear (ip, dc)).2 }

def shouldSkipDirectWs (ip : Text) (dc : Int) (now : Nat) (m : Maps) :
    Bool × Maps :=
  if ip.isEmpty then (false, m)
  else
    let (active, ipFail) := m.ipFail.isActive (ip, dc) now
    (active, { m with ipFail })

def markDcFailed (set : Settings) (dc : Int) (isMedia : Bool) (now : Nat)
    (m : Maps) : Marking :=
  let (marked, dcFail) := m.dcFail.markIfAbsent (dc, isMedia) set.dcFail now
  (marked.map fun _ => (), { m with dcFail })

def clearDcFail (dc : Int) (isMedia : Bool) (m : Maps) : Maps :=
  { m with dcFail := (m.dcFail.clear (dc, isMedia)).2 }

def markFrontingFailed (set : Settings) (ip : Text) (dc : Int) (now : Nat)
    (m : Maps) : Marking :=
  if ip.isEmpty then (some (), m)
  else
    let (marked, frontingFail) := m.frontingFail.mark (ip, dc) set.fronting now
    (marked, { m with frontingFail })

def clearFrontingFail (ip : Text) (dc : Int) (m : Maps) : Maps :=
  if ip.isEmpty then m
  else { m with frontingFail := (m.frontingFail.clear (ip, dc)).2 }

def shouldSkipFronting (set : Settings) (ip : Text) (dc : Int) (now : Nat)
    (m : Maps) : Bool × Maps :=
  if ip.isEmpty || !set.frontingEnabled then (true, m)
  else
    let (active, frontingFail) := m.frontingFail.isActive (ip, dc) now
    (active, { m with frontingFail })

def wsBlacklisted (dc : Int) (isMedia : Bool) (now : Nat) (m : Maps) :
    Bool × Maps :=
  let (active, blacklist) := m.blacklist.isActive (dc, isMedia) now
  (active, { m with blacklist })

def markWsBlacklisted (set : Settings) (dc : Int) (isMedia : Bool)
    (now : Nat) (m : Maps) : Marking :=
  let (marked, blacklist) :=
    m.blacklist.markIfAbsent (dc, isMedia) set.blacklist now
  (marked.map fun _ => (), { m with blacklist })

def shouldSkipWs (live : Live) (dc : Int) (isMedia : Bool) (origIp : Text)
    (now : Nat) (m : Maps) : Bool × Maps :=
  let (blacklisted, m) := wsBlacklisted dc isMedia now m
  if blacklisted then (true, m)
  else shouldSkipDirectWs (wsTargetIp live dc origIp) dc now m

/-- What a dial that succeeded lifts, in the connector of the pool and
in `try_ws_bridge` alike. -/
def noteConnectSuccess (target : Text) (dc : Int) (isMedia : Bool)
    (m : Maps) : Maps :=
  clearFrontingFail target dc (clearDcFail dc isMedia (clearIpFail target dc m))

-- ============================================================= system

/-- A dial that is open: a session's, or the pool's without `origIp`. -/
structure Dial where
  dc : Int
  isMedia : Bool
  origIp : Text
  target : Text
  deriving DecidableEq, Repr

/-- `direct` and `fronting` are the sessions in these parts of
`try_ws_bridge`, the latter with what the direct part gave: all
redirects, a timeout; `pool` the connector's dials. -/
structure State where
  settings : Settings
  live : Live
  now : Nat
  maps : Maps
  direct : List Dial
  fronting : List (Dial × Bool × Bool)
  pool : List Dial
  deriving DecidableEq

inductive Action where
  | pass (duration : Nat)
  | reload (live : Live)
  /-- `handle_handshake` comes to the direct rung. -/
  | enter (dc : Int) (isMedia : Bool) (origIp : Text)
  /-- A pooled or a fresh WebSocket took the relay init. -/
  | connected (d : Dial)
  | directFailed (d : Dial) (allBlocked timedOut : Bool)
  | frontingConnected (d : Dial) (allBlocked timedOut : Bool)
  | frontingFailed (d : Dial) (allBlocked timedOut fBlocked fTimedOut : Bool)
  /-- The connect of `try_tcp_fallback` to a target fails. -/
  | tcpFailed (dst : Text) (dc : Int)
  /-- The connector of the pool starts, and succeeds. -/
  | poolDial (dc : Int) (isMedia : Bool) (hint : Text)
  | poolConnected (d : Dial)
  | poolFailed (d : Dial)

/-- The end of `try_ws_bridge` without a connection, and what
`handle_handshake` makes of it. -/
def sessionFailed (s : State) (d : Dial) (allBlocked timedOut : Bool) :
    State :=
  let res := if timedOut then
      markIpFailed s.settings d.target d.dc s.now s.maps
    else (some (), s.maps)
  let res := res.andThen fun m =>
    markDcFailed s.settings d.dc d.isMedia s.now m
  let warranted := wsRedirectBlacklistWarranted s.live d.dc
    (wsTargetIp s.live d.dc d.origIp)
  let res := res.andThen fun m =>
    if allBlocked && warranted then
      markWsBlacklisted s.settings d.dc d.isMedia s.now m
    else (some (), m)
  { s with maps := res.2 }

/-- The connection of a dial, noted. -/
def noted (s : State) (d : Dial) : State :=
  { s with maps := noteConnectSuccess d.target d.dc d.isMedia s.maps }

def apply : Action → State → Option State
  | .pass duration, s => some { s with now := s.now + duration }
  | .reload live, s => some { s with live }
  | .enter dc isMedia origIp, s =>
      let (skip, maps) := shouldSkipWs s.live dc isMedia origIp s.now s.maps
      let target := wsTargetIp s.live dc origIp
      if skip || target.isEmpty then some { s with maps }
      else some { s with maps, direct := { dc, isMedia, origIp, target }
                                :: s.direct }
  | .connected d, s =>
      if d ∈ s.direct then some (noted { s with direct := s.direct.erase d } d)
      else none
  | .directFailed d allBlocked timedOut, s =>
      if d ∈ s.direct then
        let (skip, maps) :=
          shouldSkipFronting s.settings d.target d.dc s.now s.maps
        let s := { s with maps, direct := s.direct.erase d }
        if skip then some (sessionFailed s d allBlocked timedOut)
        else some { s with fronting := (d, allBlocked, timedOut)
                             :: s.fronting }
      else none
  | .frontingConnected d allBlocked timedOut, s =>
      if (d, allBlocked, timedOut) ∈ s.fronting then
        some (noted { s with
          fronting := s.fronting.erase (d, allBlocked, timedOut) } d)
      else none
  | .frontingFailed d allBlocked timedOut fBlocked fTimedOut, s =>
      if (d, allBlocked, timedOut) ∈ s.fronting then
        let (marked, maps) :=
          markFrontingFailed s.settings d.target d.dc s.now s.maps
        let s := { s with
          maps
          fronting := s.fronting.erase (d, allBlocked, timedOut) }
        match marked with
        | some () => some (sessionFailed s d (allBlocked && fBlocked)
            (timedOut || fTimedOut))
        | none => some s
      else none
  | .tcpFailed dst dc, s =>
      some { s with maps := (markIpFailed s.settings dst dc s.now s.maps).2 }
  | .poolDial dc isMedia hint, s =>
      let target := if hint.isEmpty then wsTargetIp s.live dc [] else hint
      if target.isEmpty then some s
      else some { s with
        pool := { dc, isMedia, origIp := [], target } :: s.pool }
  | .poolConnected d, s =>
      if d ∈ s.pool then some (noted { s with pool := s.pool.erase d } d)
      else none
  | .poolFailed d, s =>
      if d ∈ s.pool then some { s with pool := s.pool.erase d } else none

/-- A daemon that has just started. -/
def start (settings : Settings) (live : Live) (now : Nat) : State where
  settings := settings
  live := live
  now := now
  maps := Maps.empty
  direct := []
  fronting := []
  pool := []

end Wrtg.WsSkip
