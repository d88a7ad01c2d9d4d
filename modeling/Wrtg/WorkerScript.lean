/-
The script of the Cloudflare Worker (`openwrt/cf-worker.js`), up to the
answer of `fetch`; what its tunnel carries afterwards is left out.

A request is what the handler reads of it. A header's value is a byte
string, whose bytes are the code units of the string `headers.get`
returns. The URL comes parsed: its path, and the pairs of its query.
-/
import Wrtg.Lib.Ecma

namespace Wrtg.WorkerScript

open Lib.Ecma

def ALLOWED_PORTS : List Int := [80, 443, 5222]

def TELEGRAM_CIDRS : List (JsString × Int) :=
  [ (js "91.108.4.0", 22),
    (js "91.108.8.0", 22),
    (js "91.108.12.0", 22),
    (js "91.108.16.0", 22),
    (js "91.108.20.0", 22),
    (js "91.108.56.0", 22),
    (js "91.105.192.0", 23),
    (js "149.154.160.0", 20),
    (js "149.154.176.0", 20),
    (js "185.76.151.0", 24) ]

-- ========================================================== addresses

/-- `0|[1-9][0-9]{0,2}`. -/
def octetPattern : Pattern :=
  .char 0x30 + charRange 0x31 0x39 * counted (charRange 0x30 0x39) 0 2

/-- The loop of `ipv4ToInt`; `null` is `none`. -/
def octetsToInt : List JsString → Int → Option Int
  | [], result => some result
  | part :: parts, result =>
      if !test octetPattern part then none
      else
        let octet : Int := decimalValue part
        if octet > 255 then none
        else octetsToInt parts (unsignedShiftRight (result * 256 + octet) 0)

def ipv4ToInt (value : JsString) : Option Int :=
  let parts := value.splitOn 0x2E
  if parts.length ≠ 4 then none else octetsToInt parts 0

def inCidr (ip network : JsString) (pre : Int) : Bool :=
  match ipv4ToInt ip, ipv4ToInt network with
  | some value, some base =>
      let mask := if pre = 0 then 0
        else unsignedShiftRight (shiftLeft 0xffffffff (32 - pre)) 0
      bitAnd value mask == bitAnd base mask
  | _, _ => false

def isTelegramIp (ip : JsString) : Bool :=
  TELEGRAM_CIDRS.any fun (network, pre) => inCidr ip network pre

-- ============================================================== fetch

/-- `toLowerCase` of a string of code units below 256. -/
def toLowerCase (s : JsString) : JsString :=
  s.map fun c =>
    if (0x41 ≤ c ∧ c ≤ 0x5A) ∨ (0xC0 ≤ c ∧ c ≤ 0xDE ∧ c ≠ 0xD7) then c + 0x20
    else c

/-- The string of a byte string. -/
def isomorphicDecode (bytes : List UInt8) : JsString :=
  bytes.map UInt8.toUInt16

/-- `request`, with its URL parsed. -/
structure Request where
  headers : String → Option (List UInt8)
  pathname : JsString
  searchParams : List (JsString × JsString)

/-- `searchParams.get(name)`: the first value, if any. -/
def Request.param (r : Request) (name : String) : Option JsString :=
  r.searchParams.lookup (js name)

/-- A binding of the environment. -/
inductive Binding where
  | undefined
  | null
  | string (s : JsString)
  /-- Anything else, and whether it counts as true. -/
  | other (truthy : Bool)
  deriving DecidableEq

def Binding.truthy : Binding → Bool
  | .undefined => false
  | .null => false
  | .string s => !s.isEmpty
  | .other truthy => truthy

/-- `headers.get(name)`. -/
def Request.header (r : Request) (name : String) : Binding :=
  match r.headers name with
  | some value => .string (isomorphicDecode value)
  | none => .null

structure Env where
  WRTG_TOKEN : Binding

/-- A call of `connect`. -/
structure Address where
  hostname : JsString
  port : Int
  deriving DecidableEq

structure Response where
  status : Nat
  body : Option String
  deriving DecidableEq

/-- `s || fallback` of a string or null. -/
def orElse (s : Option JsString) (fallback : JsString) : JsString :=
  match s with
  | some s => if s.isEmpty then fallback else s
  | none => fallback

/-- `[0-9]{1,5}`. -/
def portPattern : Pattern := counted (charRange 0x30 0x39) 1 5

/-- The handler: the `connect` it makes, if any, and its answer. Whether
the socket opens is `opened`. -/
def fetch (request : Request) (env : Env) (opened : Bool) :
    Option Address × Response :=
  let upgrade := isomorphicDecode ((request.headers "Upgrade").getD [])
  if toLowerCase upgrade ≠ js "websocket" then
    (none, { status := 426, body := some "Expected websocket" })
  else if request.pathname ≠ js "/apiws" then
    (none, { status := 404, body := some "Not found" })
  else if !env.WRTG_TOKEN.truthy then
    (none, { status := 503
             body := some "Worker not configured: set the WRTG_TOKEN secret" })
  else if request.header "X-WRTG-Token" ≠ env.WRTG_TOKEN then
    (none, { status := 403, body := some "Forbidden" })
  else
    let dst := orElse (request.param "dst") []
    let portText := orElse (request.param "port") (js "443")
    if !test portPattern portText then
      (none, { status := 400, body := some "Invalid port" })
    else
      let port : Int := decimalValue portText
      if !isTelegramIp dst || !ALLOWED_PORTS.contains port then
        (none, { status := 403, body := some "Destination not allowed" })
      else
        (some { hostname := dst, port },
          if opened then { status := 101, body := none }
          else { status := 502, body := some "Upstream connect failed" })

end Wrtg.WorkerScript
