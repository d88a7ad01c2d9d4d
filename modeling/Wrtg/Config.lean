/-
Runtime configuration (`config.rs`): the config builder both the
startup and a reload use, the `KEY=VALUE` file, and what a SIGHUP puts
in place.

`Live` is the process-global configuration the daemon runs on. The
reload of the DC-learn map is its own component.
-/
import Wrtg.CfProxyDomains

namespace Wrtg.Config

open CfBalancer CfProxyDomains

structure WrtgConfig where
  listenAddr : Text
  frontIp : Text
  dcFrontIps : AList fun _ : Int => Text
  frontDcs : List Int
  cfWorkerDomains : List Text
  cfProxyDomains : List Text
  deriving DecidableEq

-- ============================================================ builders

def parseFrontDcs (raw : Text) : List Int :=
  let v := Text.trim (Text.trimMatches '\r' (Text.trim raw))
  if Text.eqIgnoreAsciiCase v "all".toList || v == ['*'] then [1, 2, 3, 4, 5]
  else if v.isEmpty || Text.eqIgnoreAsciiCase v "none".toList then []
  else
    let dcs := (Text.splitOn isListSeparator v).filterMap fun s =>
      Text.parseI32 (Text.trim s)
    let out := dcs.filter fun dc => (1 ≤ dc && dc ≤ 5) || dc == 203
    (out.mergeSort fun a b => decide (a ≤ b)).eraseReps

/-- The DCs the global front applies to; an empty value is unset. -/
def loadFrontDcsWith (get : Getter) : List Int :=
  match get "WRTG_FRONT_DCS".toList with
  | some v =>
      if !(Text.trim (Text.trimMatches '\r' (Text.trim v))).isEmpty then
        parseFrontDcs v
      else [2, 4]
  | none => [2, 4]

/-- The domains two keys name, one list after the other. -/
def loadDomainsWith (get : Getter) (key list : Text) : List Text :=
  let named := fun k => match get k with
    | some v => parseDomainList v
    | none => []
  normalizeDomainPool (named key ++ named list)

def loadWorkerDomainsWith (get : Getter) : List Text :=
  loadDomainsWith get "CF_WORKER_DOMAIN".toList
    "WRTG_CF_WORKER_DOMAINS".toList

def loadProxyDomainsWith (get : Getter) : List Text :=
  loadDomainsWith get "CF_PROXY_DOMAIN".toList
    "WRTG_CF_PROXY_DOMAINS".toList

/-- One `dc:ip` entry of `WRTG_DC_IPS`. -/
def insertDcIp (map : AList fun _ : Int => Text) (part : Text) :
    AList fun _ : Int => Text :=
  match Text.splitOnce ':' (Text.trim part) with
  | none => map
  | some (dcS, ip) =>
      match Text.parseI32 (Text.trim dcS) with
      | none => map
      | some dc =>
          let ip := Text.trimMatches '\r' (Text.trim ip)
          if ip.isEmpty then map else map.insert dc ip

/-- One `DC{n}_FRONT_IP` key. -/
def insertDcKey (get : Getter) (map : AList fun _ : Int => Text)
    (dc : Int) : AList fun _ : Int => Text :=
  match get ("DC".toList ++ Text.showInt dc ++ "_FRONT_IP".toList) with
  | none => map
  | some ip =>
      let ip := Text.trimMatches '\r' (Text.trim ip)
      if ip.isEmpty then map else map.insert dc ip

def parseDcFrontIpsWith (get : Getter) : AList fun _ : Int => Text :=
  let map := match get "WRTG_DC_IPS".toList with
    | some raw =>
        (Text.splitOn (fun c => c == ',' || c == ';') raw).foldl insertDcIp ∅
    | none => ∅
  [1, 2, 3, 4, 5, 203].foldl (insertDcKey get) map

/-- `load_from`: the config a key lookup describes. -/
def loadFrom (get : Getter) : WrtgConfig :=
  let frontIp := (((get "WRTG_FRONT_IP".toList).or
    (get "FRONT_IP".toList)).or (get "TG_TPROXY_FRONT_IP".toList)).getD
      "149.154.167.220".toList
  { listenAddr := Text.trimMatches '\r'
      ((get "WRTG_LISTEN".toList).getD "0.0.0.0:8443".toList)
    frontIp := Text.trim (Text.trimMatches '\r' frontIp)
    dcFrontIps := parseDcFrontIpsWith get
    frontDcs := loadFrontDcsWith get
    cfWorkerDomains := loadWorkerDomainsWith get
    cfProxyDomains := loadProxyDomainsWith get }

-- ============================================================= the file

abbrev KvMap := AList fun _ : Text => Text

def KvMap.get (map : KvMap) : Getter := fun k => map.lookup k

def loadFromMap (map : KvMap) : WrtgConfig := loadFrom map.get

/-- Strips one layer of matching quotes, or takes the first word. -/
def unquote (raw : Text) : Text :=
  let quoted := fun q => raw.head? == some q && raw.getLast? == some q
  if raw.length ≥ 2 && (quoted '"' || quoted '\'') then
    (raw.drop 1).dropLast
  else (Text.splitWhitespace raw).head?.getD []

def parseKvLine (line : Text) : Option (Text × Text) :=
  let line := Text.trim line
  if line.isEmpty || line.head? == some '#' then none
  else (Text.splitOnce '=' line).bind fun r =>
    let key := Text.trim r.1
    if key.isEmpty || !key.all (fun c => Text.isAlnum c || c == '_') then none
    else some (key, unquote (Text.trim r.2))

def importConfigFile (file : FileContent) : KvMap :=
  file.lines.foldl (fun map line =>
    match parseKvLine line with
    | some (key, val) => map.insert key val
    | none => map) ∅

-- ============================================================= applying

structure Live where
  frontIp : Text
  dcFrontIps : AList fun _ : Int => Text
  frontDcs : List Int
  balancer : Pools
  deriving DecidableEq

def applyConfig (cfg : WrtgConfig) (live : Live) : Live where
  frontIp := cfg.frontIp
  dcFrontIps := cfg.dcFrontIps
  frontDcs := cfg.frontDcs
  balancer := (live.balancer.setWorkerDomains
    cfg.cfWorkerDomains).setProxyDomains cfg.cfProxyDomains

/-- The CF Proxy pool a reload leaves in place. -/
def proxyPoolAfterReload (fileDomains livePool : List Text) (auto : Bool) :
    List Text :=
  if !fileDomains.isEmpty || !auto then fileDomains
  else if livePool.isEmpty then defaultCfproxyDomains
  else livePool

/-- `reload_from_file`, with the content of the config file. -/
def reloadFromFile (env : Getter) (file : FileContent) (live : Live) :
    Live :=
  let map := importConfigFile file
  let cfg := loadFromMap map
  let livePool := live.balancer.proxyDomains
  let live := applyConfig cfg live
  let auto := !cfFallbackDisabled env
    && cfproxyAutoDecision (map.get "WRTG_CFPROXY_AUTO".toList)
  let pool := proxyPoolAfterReload cfg.cfProxyDomains livePool auto
  { live with balancer := live.balancer.setProxyDomains pool }

/-- `_add_env` of the init script: an empty value is not passed on. -/
def addEnv (get : Getter) : Getter := fun k =>
  (get k).filter fun v => !v.isEmpty

/-- The configuration part of `main`, before the refresh task starts. -/
def startup (env : Getter) : Live :=
  let live := applyConfig (loadFrom env)
    { frontIp := [], dcFrontIps := ∅, frontDcs := []
      balancer := Pools.empty }
  if cfproxyAutoEnabled env then
    { live with balancer := seedDefaultCfproxyDomains live.balancer }
  else live

-- =========================================================== the daemon

/-- The running daemon: what it was started with, what it runs on, and
the last file a reload read. -/
structure Daemon where
  env : Getter
  live : Live
  lastFile : Option KvMap

inductive Action where
  | reload (file : FileContent)
  | refresh (fetched : List Text)
  deriving DecidableEq, Repr

/-- One whole reload or refresh. The refresh task is started only where
the environment turns the shared pool on, and its body checks the same
again. -/
def apply : Action → Daemon → Option Daemon
  | .reload file, d =>
      some { d with live := reloadFromFile d.env file d.live
                    lastFile := some (importConfigFile file) }
  | .refresh fetched, d =>
      let balancer := refreshCfproxyDomains d.env fetched d.live.balancer
      some { d with live := { d.live with balancer } }

def start (env : Getter) : Daemon where
  env := env
  live := startup env
  lastFile := none

end Wrtg.Config
