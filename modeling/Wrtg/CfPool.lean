/-
One reload, one refresh and any number of sessions on the CF Proxy pool,
lock by lock (`config.rs`, `cf_balancer.rs`).

`Config.apply` takes a reload and a refresh as whole steps. Here a step
is one critical section of `PROXY_DOMAINS`: the reload reads the pool,
stores what the file names as part of `apply_config`, and stores again
what `proxy_pool_after_reload` makes of the pool it has read; the
refresh stores the list it has fetched; a session reads.
-/
import Wrtg.Config

namespace Wrtg.CfPool

open CfBalancer Config

/-- Where `reload_from_file` stands; `livePool` is what it has read. -/
inductive ReloadPc where
  | notStarted
  | begun
  | read (livePool : List Text)
  | applied (livePool : List Text)
  | done
  deriving DecidableEq, Repr

/-- The list the reload holds between its read and its last store. -/
def ReloadPc.held : ReloadPc → Option (List Text)
  | .read livePool => some livePool
  | .applied livePool => some livePool
  | _ => none

/-- The stores to `PROXY_DOMAINS`. -/
inductive Store where
  | applyConfig
  | afterReload
  | refresh
  deriving DecidableEq, Repr

/-- The environment, the parsed file, the running configuration, where
the reload and the refresh stand, and the last store to the pool. -/
structure State where
  env : Getter
  map : KvMap
  live : Live
  pc : ReloadPc
  refreshed : Bool
  lastStore : Option Store

def State.pool (s : State) : List Text := s.live.balancer.proxyDomains

/-- The reload reads the shared pool as switched on. -/
def State.auto (s : State) : Bool :=
  !cfFallbackDisabled s.env
    && CfProxyDomains.cfproxyAutoDecision
      (s.map.get "WRTG_CFPROXY_AUTO".toList)

inductive Action where
  | begin
  | readPool
  | applyConfig
  | storeAfterReload
  | refreshStore (pool : List Text)
  | proxyDomainsForDc (dc : Int)
  | advanceProxyDomainsForDc (dc : Int) (n : Nat)
  deriving DecidableEq, Repr

/-- The step is a session's. -/
def Action.isSession : Action → Bool
  | .proxyDomainsForDc _ => true
  | .advanceProxyDomainsForDc _ _ => true
  | _ => false

/-- A store to the pool. -/
def State.store (s : State) (writer : Store) (pool : List Text) : State :=
  { s with
    live := { s.live with balancer := s.live.balancer.setProxyDomains pool }
    lastStore := some writer }

def apply : Action → State → Option State
  | .begin, s => match s.pc with
      | .notStarted => some { s with pc := .begun }
      | _ => none
  | .readPool, s => match s.pc with
      | .begun => some { s with pc := .read s.pool }
      | _ => none
  | .applyConfig, s => match s.pc with
      | .read livePool =>
          some { s with live := Config.applyConfig (loadFromMap s.map) s.live
                        pc := .applied livePool
                        lastStore := some .applyConfig }
      | _ => none
  | .storeAfterReload, s => match s.pc with
      | .applied livePool =>
          let pool := proxyPoolAfterReload (loadFromMap s.map).cfProxyDomains
            livePool s.auto
          some { s.store .afterReload pool with pc := .done }
      | _ => none
  -- one refresh, and one that installs what it has fetched
  | .refreshStore pool, s =>
      if !s.refreshed && !pool.isEmpty then
        some { s.store .refresh pool with refreshed := true }
      else none
  | .proxyDomainsForDc dc, s =>
      let (_, balancer) := s.live.balancer.proxyDomainsForDc dc
      some { s with live := { s.live with balancer } }
  | .advanceProxyDomainsForDc dc n, s =>
      let balancer := s.live.balancer.advanceProxyDomainsForDc dc n
      some { s with live := { s.live with balancer } }

/-- A SIGHUP has come, on a running daemon. -/
def start (env : Getter) (map : KvMap) (live : Live) : State where
  env := env
  map := map
  live := live
  pc := .notStarted
  refreshed := false
  lastStore := none

end Wrtg.CfPool
