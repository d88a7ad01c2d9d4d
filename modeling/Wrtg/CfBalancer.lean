/-
The Cloudflare pools and their round robin (`cf_balancer.rs`).

The process-global lists, cursors and maps are one record. The two
counters count the entries of a map, one for each DC at most, so they do
not come to the end of a `usize`. `get` stands
for `std::env::var(..).ok()`; the flags that the source reads once and
caches are functions of it, the environment never changing.
-/
import Mathlib.Data.List.AList
import Wrtg.Rust.Basic
import Wrtg.Rust.Text

namespace Wrtg.CfBalancer

/-- A key lookup: the process environment, or a parsed config file. -/
abbrev Getter := Text → Option Text

structure Pools where
  workerDomains : List Text
  proxyDomains : List Text
  workerRr : Nat
  proxyRr : Nat
  dcWorkerIdx : AList fun _ : Int => Nat
  dcProxyIdx : AList fun _ : Int => Nat
  dcProxySticky : AList fun _ : Int => Text
  deriving DecidableEq

/-- The state before `main` has configured anything. -/
def Pools.empty : Pools where
  workerDomains := []
  proxyDomains := []
  workerRr := 0
  proxyRr := 0
  dcWorkerIdx := ∅
  dcProxyIdx := ∅
  dcProxySticky := ∅

def Pools.setWorkerDomains (b : Pools) (domains : List Text) :
    Pools :=
  { b with workerDomains := domains, workerRr := 0, dcWorkerIdx := ∅ }

def Pools.setProxyDomains (b : Pools) (domains : List Text) :
    Pools :=
  { b with proxyDomains := domains }

def cfFallbackDisabled (env : Getter) : Bool :=
  match env "WRTG_NO_CFPROXY".toList with
  | some v => v == ['1'] || Text.eqIgnoreAsciiCase v "true".toList
  | none => false

def workerPassthroughDisabled (env : Getter) : Bool :=
  match env "WRTG_NO_WORKER_PASSTHROUGH".toList with
  | some v => v == ['1'] || Text.eqIgnoreAsciiCase v "true".toList
  | none => false

-- ========================================================= round robin

/-- `ordered_domains`: the pool from the DC's cursor on, and the cursor
map and counter it leaves. -/
def orderedDomains (domains : List Text) (dc : Int)
    (dcMap : AList fun _ : Int => Nat) (rr : Nat) :
    List Text × (AList fun _ : Int => Nat) × Nat :=
  if domains.length ≤ 1 then (domains, dcMap, rr)
  else
    let (idx, dcMap, rr) := match dcMap.lookup dc with
      | some i => (i, dcMap, rr)
      | none =>
          let i := rr % domains.length
          (i, dcMap.insert dc i, rr + 1)
    let start := idx % domains.length
    ((List.range domains.length).map fun i =>
      domains.getD ((start + i) % domains.length) [], dcMap, rr)

/-- The reads of the loop of `ordered_domains`, bounds checks and all. -/
def readRound (domains : List Text) (start : Nat) : Res (List Text) :=
  (List.range domains.length).mapM fun i =>
    idx domains ((start + i) % domains.length)

def Pools.workerDomainsForDc (b : Pools) (dc : Int) :
    List Text × Pools :=
  let (out, dcWorkerIdx, workerRr) :=
    orderedDomains b.workerDomains dc b.dcWorkerIdx b.workerRr
  (out, { b with dcWorkerIdx, workerRr })

/-- The CF Proxy pool in a DC's order, the sticky domain first. -/
def Pools.proxyDomainsForDc (b : Pools) (dc : Int) : List Text × Pools :=
  let sticky := b.dcProxySticky.lookup dc
  let (ordered, dcProxyIdx, proxyRr) :=
    orderedDomains b.proxyDomains dc b.dcProxyIdx b.proxyRr
  let out := match sticky with
    | some s =>
        if b.proxyDomains.contains s then
          ordered.foldl (fun out d =>
            if out.contains d then out else out ++ [d]) [s]
        else ordered
    | none => ordered
  (out, { b with dcProxyIdx, proxyRr })

def Pools.updateProxyDomainForDc (b : Pools) (dc : Int) (domain : Text) :
    Pools :=
  let domain := Text.toAsciiLowercase (Text.trim domain)
  if domain.isEmpty then b
  else if b.dcProxySticky.lookup dc == some domain then b
  else { b with dcProxySticky := b.dcProxySticky.insert dc domain }

/-- Every candidate failed: forget the sticky domain and move the
cursor past the `n` that were tried. -/
def Pools.advanceProxyDomainsForDc (b : Pools) (dc : Int) (n : Nat) :
    Pools :=
  let sticky := b.dcProxySticky.lookup dc
  let len := max b.proxyDomains.length 1
  let (idx, proxyRr) := match b.dcProxyIdx.lookup dc with
    | some i => (i, b.proxyRr)
    | none => (b.proxyRr % len, b.proxyRr + 1)
  let idx := (idx + n) % len
  let idx := if b.proxyDomains[idx]? == sticky then (idx + 1) % len else idx
  { b with
    dcProxySticky := b.dcProxySticky.erase dc
    dcProxyIdx := b.dcProxyIdx.insert dc idx
    proxyRr }

/-- The CF Proxy part of `try_cf_fallback`, for a session that fails on
every candidate: the candidates it tried, at most `attempts`. -/
def Pools.failingSession (attempts : Nat) (dc : Int) (b : Pools) :
    List Text × Pools :=
  let (ordered, b) := b.proxyDomainsForDc dc
  let tried := ordered.take attempts
  (tried, b.advanceProxyDomainsForDc dc tried.length)

-- ============================================================= calls

/-- A call on the pools. -/
inductive Pools.Call where
  | setWorkerDomains (domains : List Text)
  | setProxyDomains (domains : List Text)
  | workerDomainsForDc (dc : Int)
  | proxyDomainsForDc (dc : Int)
  | updateProxyDomainForDc (dc : Int) (domain : Text)
  | advanceProxyDomainsForDc (dc : Int) (n : Nat)
  deriving DecidableEq, Repr

/-- What a call returns: a list, or nothing. -/
def Pools.call (b : Pools) : Pools.Call → Option (List Text) × Pools
  | .setWorkerDomains domains => (none, b.setWorkerDomains domains)
  | .setProxyDomains domains => (none, b.setProxyDomains domains)
  | .workerDomainsForDc dc =>
      let (out, b) := b.workerDomainsForDc dc
      (some out, b)
  | .proxyDomainsForDc dc =>
      let (out, b) := b.proxyDomainsForDc dc
      (some out, b)
  | .updateProxyDomainForDc dc domain =>
      (none, b.updateProxyDomainForDc dc domain)
  | .advanceProxyDomainsForDc dc n =>
      (none, b.advanceProxyDomainsForDc dc n)

-- =========================================================== parsing

/-- A pasted value, reduced to a bare host. -/
def sanitizeDomain (s : Text) : Text :=
  let s := Text.trim s
  let s := match Text.splitOnceStr "://".toList s with
    | some (_, rest) => rest
    | none => s
  let host := s.takeWhile fun c => !(c == '/' || c == '?' || c == '#')
  Text.trimEndMatches '.' (Text.trim host)

def isListSeparator (c : Char) : Bool := c == ',' || c == ';' || c == ' '

def parseDomainList (raw : Text) : List Text :=
  let items := (Text.splitOn isListSeparator raw).map fun s =>
    Text.trimMatches '\r' (Text.trimMatches '"' (Text.trim s))
  let hosts := (items.filter fun s => !s.isEmpty).map sanitizeDomain
  hosts.filter fun s => !s.isEmpty

end Wrtg.CfBalancer
