/-
The snapshot of the stats socket (`stats.rs`, `snapshot`) and the page
that reads it (`status.ut`, the CF Proxy card).

The page runs `wrtg --stats` and takes its output apart with three
regular expressions, here as the readers they are. `int` is given for
numbers that fit.
-/
import Wrtg.CfBalancer
import Wrtg.Daemon
import Wrtg.Heap
import Wrtg.Settings

namespace Wrtg.Snapshot

open Stats

variable {w : Nat}

-- ============================================================== daemon

/-- `NAMES`, with the counter of each index. -/
def NAMES : List (Stat × Text) :=
  [ (.accepted, "accepted".toList),
    (.selfConnectDropped, "self_connect_dropped".toList),
    (.wsPoolHit, "ws_pool_hit".toList),
    (.wsDirect, "ws_direct".toList),
    (.fronting, "fronting".toList),
    (.cfWorker, "cf_worker".toList),
    (.cfProxy, "cf_proxy".toList),
    (.tcpFallback, "tcp_fallback".toList),
    (.workerPassthrough, "worker_passthrough".toList),
    (.blindRelay, "blind_relay".toList),
    (.allPathsFailed, "all_paths_failed".toList),
    (.idleReaped, "idle_reaped".toList),
    (.passthroughNoData, "passthrough_no_data".toList),
    (.cfProxyMedia, "cf_proxy_media".toList),
    (.mediaHttpRejected, "media_http_rejected".toList),
    (.cfProxyDialFailed, "cf_proxy_dial_failed".toList) ]

/-- What a snapshot shows: the daemon, and what it asks the pools, the
balancer and the allocator for. -/
structure Shown (w : Nat) where
  version : Text
  daemon : Daemon.State w
  capacity : Nat
  wsPool : List (Int × Bool × Nat)
  cfWorkerPool : List (Int × Bool × Nat)
  balancer : CfBalancer.Pools
  heapBytes : Nat → BitVec w
  heapAllocs : Nat → BitVec w

/-- `proxy_sticky_domains`: by DC. -/
def proxyStickyDomains (b : CfBalancer.Pools) : List (Int × Text) :=
  (b.dcProxySticky.entries.map fun e => (e.1, e.2)).mergeSort
    fun a b => a.1 ≤ b.1

def counterLine (counters : Counters w) (e : Stat × Text) : Text :=
  "  ".toList ++ e.2 ++ " ".toList ++ IpAddr.showNat (counters e.1).toNat

def slotLine (e : Int × Bool × Nat) : Text :=
  "  DC".toList ++ Text.showInt e.1 ++ (if e.2.1 then "m".toList else [])
    ++ " ".toList ++ IpAddr.showNat e.2.2

def poolLines (label : Text) (depths : List (Int × Bool × Nat)) :
    List Text :=
  label :: if depths.isEmpty then ["  (no slots)".toList]
    else depths.map slotLine

def stickyLine (e : Int × Text) : Text :=
  "  DC".toList ++ Text.showInt e.1 ++ " sticky ".toList ++ e.2

def stickyLines (sticky : List (Int × Text)) : List Text :=
  "cf proxy".toList :: if sticky.isEmpty then ["  (no sticky yet)".toList]
    else sticky.map stickyLine

def lines (s : Shown w) : List Text :=
  ("wrtg ".toList ++ s.version)
  :: ("connections active=".toList ++ IpAddr.showNat s.daemon.active
      ++ " capacity=".toList ++ IpAddr.showNat s.capacity)
  :: "counters".toList
  :: NAMES.map (counterLine s.daemon.counters)
  ++ poolLines "ws pool".toList s.wsPool
  ++ poolLines "cf worker pool".toList s.cfWorkerPool
  ++ stickyLines (proxyStickyDomains s.balancer)
  ++ Heap.render s.heapBytes s.heapAllocs

/-- Every line is pushed with its end. -/
def snapshot (s : Shown w) : Text :=
  (lines s).flatMap fun line => line ++ ['\n']

-- ================================================================ page

structure CfProxyHealth where
  ok : Nat
  failed : Nat
  sticky : List Text
  deriving DecidableEq, Repr

/-- `^  name ([0-9]+)$`. -/
def matchCounter (name line : Text) : Option Nat :=
  (("  ".toList ++ name ++ " ".toList).isPrefixOf? line).bind Text.parseDigits

/-- `^  DC([0-9]+) sticky ([^ ]+)$`. -/
def matchSticky (line : Text) : Option (Text × Text) :=
  ("  DC".toList.isPrefixOf? line).bind fun rest =>
    let dc := rest.takeWhile Text.isDigit
    (" sticky ".toList.isPrefixOf? (rest.drop dc.length)).bind fun domain =>
      if dc.isEmpty || domain.isEmpty || domain.contains ' ' then none
      else some (dc, domain)

/-- The body of the loop over the lines. -/
def readLine (h : CfProxyHealth) (line : Text) : CfProxyHealth :=
  match matchCounter "cf_proxy".toList line with
  | some ok => { h with ok }
  | none => match matchCounter "cf_proxy_dial_failed".toList line with
    | some failed => { h with failed }
    | none => match matchSticky line with
      | some (dc, domain) =>
          { h with sticky := h.sticky
                     ++ ["DC".toList ++ dc ++ " → ".toList ++ domain] }
      | none => h

/-- `sh` trims what the command prints. -/
def readStatus (output : Text) : CfProxyHealth :=
  (Settings.split '\n' (Settings.trim output)).foldl readLine
    { ok := 0, failed := 0, sticky := [] }

end Wrtg.Snapshot
