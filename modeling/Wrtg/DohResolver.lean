/-
`resolve_doh` (`cf_proxy_doh.rs`): the race of four DNS-over-HTTPS
endpoints and the system's resolver for an address, and the cache in
front of it.

Any number of calls run at once and share the cache. A source is one
step, the one in which it sends what it found; what the network showed it
is in the action (`Seen`). A receipt and the storing of its address are
two steps, since another call may look into the cache between them. A
source that is aborted late sends into a channel nobody reads, which no
step shows. Times are `Instant`s: a lifetime that none can hold the end
of makes the store panic with the cache locked, and from then on every
call that locks it panics too. A call that panics returns nothing.

Of the state, nothing reads `answers`, `wins` and `results`, nor the
source in a message: they are the history of the run.
-/
import Mathlib.Data.List.AList
import Wrtg.Doh
import Wrtg.Https
import Wrtg.Lib.Chan

namespace Wrtg.DohResolver

open Doh Lib

def DOH_CONNECT_TIMEOUT : Nat := Duration.fromMillis 1500

def MAX_DOH_BODY : Nat := 16 * 1024

/-- `doh_cache_ttl`, from the value of `WRTG_DOH_CACHE_SEC`. -/
def dohCacheTtl (raw : Option Text) : Nat :=
  match (raw.bind fun v => Text.parseU64 (Text.trim v)).filter (0 < ·) with
  | some secs => Duration.fromSecs secs
  | none => Duration.fromSecs 300

structure DohEndpoint where
  host : Text
  path : Text
  ips : List Text
  deriving DecidableEq, Repr

def DOH_ENDPOINTS : List DohEndpoint :=
  [ { host := "cloudflare-dns.com".toList
      path := "/dns-query".toList
      ips := ["1.1.1.1".toList, "1.0.0.1".toList] },
    { host := "dns.google".toList
      path := "/dns-query".toList
      ips := ["8.8.8.8".toList, "8.8.4.4".toList] },
    { host := "dns.quad9.net".toList
      path := "/dns-query".toList
      ips := ["9.9.9.9".toList, "149.112.112.112".toList] },
    { host := "dns.adguard-dns.com".toList
      path := "/dns-query".toList
      ips := ["94.140.14.14".toList, "94.140.15.15".toList] } ]

-- ============================================================= sources

/-- A task of the race. -/
inductive Source where
  | endpoint (ep : DohEndpoint)
  | system
  deriving DecidableEq, Repr

/-- The tasks that are spawned, in order. -/
def sources : List Source := DOH_ENDPOINTS.map .endpoint ++ [.system]

/-- What the network shows a source: the answer of each pinned address to
the query, if one comes in time, and what the system's resolver finds. -/
structure Seen where
  served : Text → Option Https.Served
  found : Option (List IpAddr)

/-- `doh_query`, over the pinned addresses left. -/
def dohQuery (served : Text → Option Https.Served) : List Text → Option Text
  | [] => none
  | ip :: ips =>
      match (served ip).bind (Https.getOver MAX_DOH_BODY) with
      | some body =>
          match pickPreferredIp (parseDohARecords body) with
          | some resolved => some resolved
          | none => dohQuery served ips
      | none => dohQuery served ips

def systemLookup (found : Option (List IpAddr)) : Option Text :=
  found.bind fun addrs => pickPreferredIp (addrs.map IpAddr.showIpAddr)

def Source.answer (seen : Seen) : Source → Option Text
  | .endpoint ep => dohQuery seen.served ep.ips
  | .system => systemLookup seen.found

-- ============================================================== system

/-- The capacity is `DOH_ENDPOINTS.len() + 1`. -/
abbrev Answers := Chan (Source × Option Text) 5

/-- A call past the cache: in its loop, or with an address in hand. The
sources `silent` have sent that they have none, and were heard. -/
inductive Phase where
  | racing (asking : List Source) (rx : Answers) (silent : List Source)
  | storing (source : Source) (ip : Text)

structure Call where
  domain : Text
  started : Nat
  phase : Phase

/-- An address a source has sent for a domain, and when. -/
structure Answer where
  source : Source
  domain : Text
  ip : Text
  time : Nat
  deriving DecidableEq

/-- An address that was stored. -/
structure Win where
  domain : Text
  ip : Text
  time : Nat
  deriving DecidableEq

/-- Why a call found nothing. -/
inductive Empty where
  | noDomain
  | deadline (started : Nat)
  | exhausted (silent : List Source)
  deriving DecidableEq

structure Result where
  domain : Text
  ip : Except Empty Text
  time : Nat

structure State where
  ttl : Nat
  now : Nat
  cache : AList fun _ : Text => Text × Nat
  poisoned : Bool
  calls : List Call
  answers : List Answer
  wins : List Win
  results : List Result

inductive Action where
  | pass (duration : Nat)
  | call (domain : Text)
  /-- A source of call `i` is through with its query, and sends. -/
  | send (i : Nat) (source : Source) (seen : Seen)
  /-- The loop of call `i` receives. -/
  | recv (i : Nat)
  | deadline (i : Nat)
  | store (i : Nat)

/-- Call `i` returns. -/
def State.finish (s : State) (i : Nat) (domain : Text)
    (ip : Except Empty Text) : State :=
  { s with
    calls := s.calls.eraseIdx i
    results := { domain, ip, time := s.now } :: s.results }

/-- A call as it enters its race. -/
def newCall (domain : Text) (now : Nat) : Call where
  domain := domain
  started := now
  phase := .racing sources Chan.empty []

/-- What is logged of a message. -/
def answersOf (source : Source) (domain : Text) (time : Nat) :
    Option Text → List Answer
  | some ip => [{ source, domain, ip, time }]
  | none => []

def apply : Action → State → Option State
  | .pass duration, s => some { s with now := s.now + duration }
  | .call domain, s =>
      let domain := Text.trim domain
      if domain.isEmpty then
        some { s with
          results := { domain, ip := .error .noDomain, time := s.now }
                       :: s.results }
      else if s.poisoned then some s
      else
        let racing := { s with calls := newCall domain s.now :: s.calls }
        match s.cache.lookup domain with
        | some (ip, exp) =>
            if s.now < exp then
              some { s with
                results := { domain, ip := .ok ip, time := s.now }
                             :: s.results }
            else some racing
        | none => some racing
  | .send i source seen, s =>
      match s.calls[i]? with
      | some { domain, started, phase := .racing asking rx silent } =>
          if source ∈ asking then
            let ip := source.answer seen
            (rx.send (source, ip)).map fun rx =>
              { s with
                calls := s.calls.set i
                  { domain, started
                    phase := .racing (asking.erase source) rx silent }
                answers := answersOf source domain s.now ip ++ s.answers }
          else none
      | _ => none
  | .recv i, s =>
      match s.calls[i]? with
      | some { domain, started, phase := .racing asking rx silent } =>
          match rx.recv with
          | some ((source, some ip), _) =>
              some { s with
                calls := s.calls.set i
                  { domain, started, phase := .storing source ip } }
          | some ((source, none), rx) =>
              some { s with
                calls := s.calls.set i
                  { domain, started
                    phase := .racing asking rx (source :: silent) } }
          | none =>
              -- the channel is closed once every sender is gone
              if asking.isEmpty then
                some (s.finish i domain (.error (.exhausted silent)))
              else none
      | _ => none
  | .deadline i, s =>
      match s.calls[i]? with
      | some { domain, started, phase := .racing _ _ _ } =>
          if started + DOH_CONNECT_TIMEOUT ≤ s.now then
            some (s.finish i domain (.error (.deadline started)))
          else none
      | _ => none
  | .store i, s =>
      match s.calls[i]? with
      | some { domain, started := _, phase := .storing _ ip } =>
          let panicked := { s with calls := s.calls.eraseIdx i }
          if s.poisoned then some panicked
          else
            match Instant.add s.now s.ttl with
            | some exp =>
                some ({ s with
                  cache := s.cache.insert domain (ip, exp)
                  wins := { domain, ip, time := s.now } :: s.wins }.finish i
                    domain (.ok ip))
            | none => some { panicked with poisoned := true }
      | _ => none

/-- A daemon that has just started. -/
def start (ttl now : Nat) : State where
  ttl := ttl
  now := now
  cache := ∅
  poisoned := false
  calls := []
  answers := []
  wins := []
  results := []

end Wrtg.DohResolver
