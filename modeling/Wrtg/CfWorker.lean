/-
The CF Worker cooldowns (`cf_worker_cooldown.rs`) and the three loops
that dial Workers: `try_cf_fallback` and `try_worker_passthrough` of
`bridge.rs`, `connect` of `cf_worker_pool.rs`.

A loop reads and writes a `World`: the clock, the configured pool, the
two cooldown maps, and the counter of `connect`. The clock moves in its
awaits alone. What comes of the dials is a sequence of `Dial`s, and each
function returns the dials it made, with the cooldowns at that moment.
Of `try_cf_fallback` this is the Worker rung; the CF Proxy rung behind
it dials no Worker. A mark whose deadline no `Instant` can hold panics,
and the call that makes it ends there.
-/
import Wrtg.CfBalancer
import Wrtg.Cooldown429

namespace Wrtg.CfWorker

open Ws CfBalancer

-- ========================================================= cooldowns

def DEFAULT_COOLDOWN_SEC : Nat := 60

def DEFAULT_MAX_COOLDOWN_SEC : Nat := 900

/-- A positive number of seconds from the environment, or the default. -/
def cooldownSecs (env : Getter) (key : Text) (default : Nat) : Nat :=
  match ((env key).bind fun v => Text.parseU64 (Text.trim v)).filter
      fun s => decide (s > 0) with
  | some s => Duration.fromSecs s
  | none => Duration.fromSecs default

def baseCooldown (env : Getter) : Nat :=
  cooldownSecs env "WRTG_CF_WORKER_429_COOLDOWN_SEC".toList
    DEFAULT_COOLDOWN_SEC

def maxCooldown (env : Getter) : Nat :=
  cooldownSecs env "WRTG_CF_WORKER_429_MAX_COOLDOWN_SEC".toList
    DEFAULT_MAX_COOLDOWN_SEC

/-- `CF_WORKER_429` and `CF_WORKER_503`. -/
structure Cooldowns where
  cfWorker429 : Cooldown429
  cfWorker503 : Cooldown429
  deriving DecidableEq

/-- Both maps empty, as at the start. -/
def Cooldowns.new (env : Getter) : Cooldowns :=
  let cd : Cooldown429 :=
    { base := baseCooldown env, max := maxCooldown env, inner := ∅ }
  { cfWorker429 := cd, cfWorker503 := cd }

def Cooldowns.workerRateLimited (c : Cooldowns) (worker : Text)
    (now : Nat) : Bool × Cooldowns :=
  let (active, cfWorker429) := c.cfWorker429.isActive worker now
  let c := { c with cfWorker429 }
  if active then (true, c)
  else
    let (active, cfWorker503) := c.cfWorker503.isActive worker now
    (active, { c with cfWorker503 })

def Cooldowns.markWorker429 (c : Cooldowns) (worker : Text)
    (err : WsConnectError) (now : Nat) : Option Cooldowns :=
  if err.httpStatus ≠ some 429 then some c
  else (c.cfWorker429.mark worker err now).map fun cfWorker429 =>
    { c with cfWorker429 }

def WORKERS_DEV : Text := ".workers.dev".toList

/-- The Cloudflare account of a `*.workers.dev` host. -/
def accountKey (host : Text) : Option Text :=
  let host :=
    Text.toAsciiLowercase (Text.trimEndMatches '.' (Text.trim host))
  if !WORKERS_DEV.isSuffixOf host then none
  else
    let rest := host.take (host.length - WORKERS_DEV.length)
    let account := (Text.splitOn (· == '.') rest).getLastD []
    if account.isEmpty then none else some (account ++ WORKERS_DEV)

/-- The loop of `mark_worker_429_with_peers` over the peers, `none` if it
panics, and what it leaves of the maps. -/
def Cooldowns.coolPeers (worker account : Text) (err : WsConnectError)
    (now : Nat) : List Text → Cooldowns → Option Unit × Cooldowns
  | [], c => (some (), c)
  | peer :: peers, c =>
      if Text.eqIgnoreAsciiCase peer worker then
        coolPeers worker account err now peers c
      else
        let (limited, c) := c.workerRateLimited peer now
        if limited then coolPeers worker account err now peers c
        else if accountKey peer = some account then
          match c.cfWorker429.mark peer err now with
          | some cfWorker429 =>
              coolPeers worker account err now peers { c with cfWorker429 }
          | none => (none, c)
        else coolPeers worker account err now peers c

/-- `none` if it panics, and what it leaves of the maps. -/
def Cooldowns.markWorker429WithPeers (c : Cooldowns) (worker : Text)
    (err : WsConnectError) (peers : List Text) (now : Nat) :
    Option Unit × Cooldowns :=
  if err.httpStatus = some 503 then
    match c.cfWorker503.mark worker err now with
    | some cfWorker503 => (some (), { c with cfWorker503 })
    | none => (none, c)
  else if err.httpStatus ≠ some 429 then (some (), c)
  else
    match c.markWorker429 worker err now with
    | none => (none, c)
    | some c =>
        match accountKey worker with
        | none => (some (), c)
        | some account => coolPeers worker account err now peers c

def Cooldowns.clearWorker429 (c : Cooldowns) (worker : Text) : Cooldowns where
  cfWorker429 := c.cfWorker429.clear worker
  cfWorker503 := c.cfWorker503.clear worker

/-- The filter of `usable_workers`. -/
def Cooldowns.usable (now : Nat) :
    List Text → Cooldowns → List Text × Cooldowns
  | [], c => ([], c)
  | worker :: workers, c =>
      let (limited, c) := c.workerRateLimited worker now
      let (rest, c) := usable now workers c
      (if limited then rest else worker :: rest, c)

/-- The Workers usable now, and how many are not. -/
def Cooldowns.usableWorkers (c : Cooldowns) (workers : List Text)
    (now : Nat) : (List Text × Nat) × Cooldowns :=
  let (usable, c) := Cooldowns.usable now workers c
  ((usable, workers.length - usable.length), c)

-- ============================================================== dials

structure World where
  now : Nat
  pools : Pools
  cooldowns : Cooldowns
  /-- `RR`, the counter of `connect`. -/
  rr : Nat
  deriving DecidableEq

/-- An await of `d`. -/
def World.advance (s : World) (d : Nat) : World := { s with now := s.now + d }

/-- What comes of a dial: a connection, and whether what the session
does with it first goes through; the connect's error; or the timeout
around it. -/
inductive DialOutcome where
  | opened (carried : Bool)
  | refused (err : WsConnectError)
  | elapsed
  deriving DecidableEq

/-- One dial: how long it takes, and what comes of it. -/
structure Dial where
  took : Nat
  outcome : DialOutcome
  deriving DecidableEq

/-- A dial that was made, and the cooldowns at that moment. -/
structure Dialled where
  worker : Text
  start : Nat
  cooldowns : Cooldowns
  deriving DecidableEq

/-- What the copies of the Worker loop do not share: whether an open
connection clears the Worker's cooldown and ends the loop, and whom a
failure may cool besides. -/
structure WorkerLoop where
  clears : Bool → Bool
  stops : Bool → Bool
  peers : Pools → List Text × Pools

/-- What a loop does with the outcome of a dial: whether it ends, `none`
if it panics, and the state it goes on in. -/
def WorkerLoop.answered (loop : WorkerLoop) (worker : Text)
    (outcome : DialOutcome) (s : World) : Option Bool × World :=
  match outcome with
  | .opened carried =>
      let s := if loop.clears carried then
          { s with cooldowns := s.cooldowns.clearWorker429 worker }
        else s
      (some (loop.stops carried), s)
  | .refused err =>
      let (peers, pools) := loop.peers s.pools
      let (returned, cooldowns) :=
        s.cooldowns.markWorker429WithPeers worker err peers s.now
      (returned.map fun _ => false, { s with pools, cooldowns })
  | .elapsed => (some false, s)

/-- `for worker in workers`, from dial `i` on: the dials, and the Worker
whose connection was taken, if the loop does not panic. -/
def dialWorkers (loop : WorkerLoop) (dials : Nat → Dial) :
    Nat → List Text → World → List Dialled × Option (Option Text) × World
  | _, [], s => ([], some none, s)
  | i, worker :: workers, s =>
      let dialled : Dialled :=
        { worker, start := s.now, cooldowns := s.cooldowns }
      let (stop, s) :=
        loop.answered worker (dials i).outcome (s.advance (dials i).took)
      match stop with
      | none => ([dialled], none, s)
      | some true => ([dialled], some (some worker), s)
      | some false =>
          let (rest, taken, s) := dialWorkers loop dials (i + 1) workers s
          (dialled :: rest, taken, s)

/-- `usable_workers(worker_domains_for_dc(dc))`. -/
def usableForDc (dc : Int) (s : World) : List Text × World :=
  let (domains, pools) := s.pools.workerDomainsForDc dc
  let ((workers, _), cooldowns) := s.cooldowns.usableWorkers domains s.now
  (workers, { s with pools, cooldowns })

-- ==================================================== try_cf_fallback

/-- The Workers `try_cf_fallback` is going to dial; `pooledCarried` says
that a pooled connection took the relay init. -/
def tryCfFallbackWorkers (env : Getter) (pooledCarried : Bool) (dc : Int)
    (s : World) : List Text × World :=
  if cfFallbackDisabled env then ([], s)
  else if pooledCarried then ([], s)
  else usableForDc dc s

/-- A connection counts once `send_relay_init` goes through. -/
def tryCfFallbackLoop (dc : Int) : WorkerLoop where
  clears := fun carried => carried
  stops := fun carried => carried
  peers := fun pools => pools.workerDomainsForDc dc

def tryCfFallback (env : Getter) (pooledCarried : Bool) (dc : Int)
    (dials : Nat → Dial) (s : World) :
    List Dialled × Option (Option Text) × World :=
  let (workers, s) := tryCfFallbackWorkers env pooledCarried dc s
  dialWorkers (tryCfFallbackLoop dc) dials 0 workers s

-- ============================================= try_worker_passthrough

/-- The Workers `try_worker_passthrough` is going to dial. -/
def tryWorkerPassthroughWorkers (env : Getter) (origIp : Text) (s : World) :
    List Text × World :=
  let configured := s.pools.workerDomains
  if origIp.isEmpty then ([], s)
  else if cfFallbackDisabled env then ([], s)
  else if workerPassthroughDisabled env then ([], s)
  else if configured.isEmpty then ([], s)
  else
    let ((workers, _), cooldowns) :=
      s.cooldowns.usableWorkers configured s.now
    (workers, { s with cooldowns })

/-- The cooldown goes before `relay_via_worker` is tried; the peers are
the list read at the start. -/
def tryWorkerPassthroughLoop (configured : List Text) : WorkerLoop where
  clears := fun _ => true
  stops := fun carried => carried
  peers := fun pools => (configured, pools)

def tryWorkerPassthrough (env : Getter) (origIp : Text)
    (dials : Nat → Dial) (s : World) :
    List Dialled × Option (Option Text) × World :=
  let configured := s.pools.workerDomains
  let (workers, s) := tryWorkerPassthroughWorkers env origIp s
  dialWorkers (tryWorkerPassthroughLoop configured) dials 0 workers s

-- ============================================================ connect

/-- The Workers `connect` is going to dial: one usable one for each turn,
from the counter's place on. -/
def connectWorkers (word : Word) (dc : Int) (s : World) :
    List Text × World :=
  let (workers, s) := usableForDc dc s
  if workers.isEmpty then ([], s)
  else
    let start := s.rr
    ((List.range workers.length).map fun i =>
      workers.getD ((start + i) % word.size % workers.length) [],
      { s with rr := (s.rr + 1) % word.size })

/-- Any connection ends the loop. -/
def connectLoop (dc : Int) : WorkerLoop where
  clears := fun _ => true
  stops := fun _ => true
  peers := fun pools => pools.workerDomainsForDc dc

def connect (word : Word) (dc : Int) (dials : Nat → Dial) (s : World) :
    List Dialled × Option (Option Text) × World :=
  let (workers, s) := connectWorkers word dc s
  dialWorkers (connectLoop dc) dials 0 workers s

end Wrtg.CfWorker
