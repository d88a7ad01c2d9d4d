/-
The upgrade handshake of a WebSocket (`ws.rs`, `connect_ws_inner`): the
request it writes, the response it reads, and what it makes of both.

Under TLS the server is the bytes it sends and the error of the read
that finds no more of them: end of file, silence for the whole timeout,
or a broken connection. SHA-1 and Base64 come from other packages:
`accept` is `websocket_accept`, and `wsKey` the nonce as it is written.
The loop over the header lines takes its fuel from the unread bytes.
Left out are the socket options and the status line kept for the texts
of errors.
-/
import Wrtg.Lib.Utf8
import Wrtg.Ws

namespace Wrtg.WsUpgrade

open Lib Ws

def MAX_HTTP_LINE : Nat := 8 * 1024

def MAX_HTTP_HEADERS : Nat := 32 * 1024

def crlf : Text := ['\r', '\n']

-- ============================================================ request

/-- Neither a header's name nor its value breaks out of its line. -/
def headerAllowed (h : Text × Text) : Bool :=
  !(h.1.any fun c => c == '\r' || c == '\n' || c == ':')
    && !(h.2.any fun c => c == '\r' || c == '\n')

/-- `name: value\r\n`. -/
def headerLine (name value : Text) : Text :=
  name ++ ": ".toList ++ value ++ crlf

/-- The request, up to the headers of the caller. -/
def fixedRequest (path host wsKey : Text) : Text :=
  "GET ".toList ++ path ++ " HTTP/1.1".toList ++ crlf
    ++ headerLine "Host".toList host
    ++ headerLine "Upgrade".toList "websocket".toList
    ++ headerLine "Connection".toList "Upgrade".toList
    ++ headerLine "Sec-WebSocket-Key".toList wsKey
    ++ headerLine "Sec-WebSocket-Version".toList "13".toList
    ++ headerLine "Sec-WebSocket-Protocol".toList "binary".toList

/-- The loop over `extra_headers`; `none` is the refusal of one. -/
def pushHeaders : List (Text × Text) → Text → Option Text
  | [], req => some req
  | h :: hs, req =>
      if headerAllowed h then pushHeaders hs (req ++ headerLine h.1 h.2)
      else none

def upgradeRequest (path host wsKey : Text) (extra : List (Text × Text)) :
    Option Text :=
  (pushHeaders extra (fixedRequest path host wsKey)).map (· ++ crlf)

-- ======================================================= CF Worker paths

/-- `{}` of a `u16`. -/
def showU16 (n : UInt16) : Text := (toString n.toNat).toList

def cfWorkerPath (dstIp : Text) (dc : Int) : Text :=
  "/apiws?dst=".toList ++ dstIp ++ "&dc=".toList ++ Text.showInt dc

def cfWorkerTcpPath (dstIp : Text) (dstPort : UInt16) : Text :=
  "/apiws?dst=".toList ++ dstIp ++ "&dc=0&port=".toList ++ showU16 dstPort

/-- `connect_cf_worker`'s header: the token of the environment, if any. -/
def tokenHeaders (token : Option Text) : List (Text × Text) :=
  let token := Text.trim (token.getD [])
  if token.isEmpty then [] else [("X-WRTG-Token".toList, token)]

/-- The request of `connect_cf_worker`. -/
def cfWorkerRequest (token : Option Text) (workerDomain path wsKey : Text) :
    Option Text :=
  upgradeRequest path workerDomain wsKey (tokenHeaders token)

-- =========================================================== response

/-- How a read fails, as `map_read_err` sorts it. -/
inductive ReadErr where
  | timedOut
  | other (e : IoError)
  deriving DecidableEq

def mapReadErr : ReadErr → WsConnectError
  | .timedOut => .timeout
  | .other e => .io e

inductive Fault where
  | ws (e : WsConnectError)
  | outOfFuel
  deriving DecidableEq

abbrev Reader := EStateM Fault Bytes

abbrev Headers := AList fun _ : Text => Text

def invalidData (msg : String) : WsConnectError :=
  .io { kind := .invalidData, msg := msg }

/-- The loop of `read_line`, `buf` being what it has read. -/
def readLineGo (ending : ReadErr) (maxLen : Nat) :
    Bytes → Bytes → EStateM.Result ReadErr Bytes Bytes
  | _, [] => .error ending []
  | buf, byte :: rest =>
      let buf := buf ++ [byte]
      if buf.length > maxLen then
        .error (.other { kind := .invalidData
                         msg := "HTTP response line too long" }) rest
      else if byte = 0x0A then .ok buf rest
      else readLineGo ending maxLen buf rest

/-- `read_line`, with its error mapped as both callers do. -/
def readLine (ending : ReadErr) : Reader Bytes := fun input =>
  match readLineGo ending MAX_HTTP_LINE [] input with
  | .ok line rest => .ok line rest
  | .error e rest => .error (.ws (mapReadErr e)) rest

/-- `entry(name).and_modify(..).or_insert_with(..)`. -/
def addHeader (headers : Headers) (name value : Text) : Headers :=
  match headers.lookup name with
  | some old => headers.insert name (old ++ ',' :: value)
  | none => headers.insert name value

/-- The name and the value of a header line. -/
def splitHeader (line : Bytes) : Option (Text × Text) :=
  (Text.splitOnce ':' (Text.trimEnd (Utf8.lossy line))).map fun r =>
    (Text.toAsciiLowercase (Text.trim r.1), Text.trim r.2)

/-- The loop over the header lines. -/
def readHeaders (ending : ReadErr) : Nat → Nat → Headers → Reader Headers
  | 0, _, _ => throw .outOfFuel
  | fuel + 1, headersLen, headers => do
      let line ← readLine ending
      if headersLen + line.length > MAX_HTTP_HEADERS then
        throw (.ws (invalidData "WebSocket response headers too large"))
      else if line = [0x0D, 0x0A] ∨ line = [0x0A] then pure headers
      else match splitHeader line with
        | none => throw (.ws (invalidData "malformed WebSocket response header"))
        | some (name, value) =>
            readHeaders ending fuel (headersLen + line.length)
              (addHeader headers name value)

/-- The status code of a status line; zero if it has none. -/
def statusCode (statusLine : Bytes) : Nat :=
  ((Text.splitWhitespace (Utf8.lossy statusLine))[1]?.bind
    Text.parseU16).getD 0

/-- `upgrade_ok`. -/
def upgradeOk (headers : Headers) : Bool :=
  (headers.lookup "upgrade".toList).any fun v =>
    Text.eqIgnoreAsciiCase v "websocket".toList

/-- `connection_ok`. -/
def connectionOk (headers : Headers) : Bool :=
  (headers.lookup "connection".toList).any fun v =>
    (Text.splitOn (· == ',') v).any fun token =>
      Text.eqIgnoreAsciiCase (Text.trim token) "upgrade".toList

/-- `accept_ok`. -/
def acceptOk (accept : Text → Text) (wsKey : Text) (headers : Headers) :
    Bool :=
  (headers.lookup "sec-websocket-accept".toList).any (· == accept wsKey)

/-- What is made of a response that has been read. -/
def checkResponse (accept : Text → Text) (wsKey : Text) (statusLine : Bytes)
    (headers : Headers) : Except WsConnectError Unit :=
  if statusCode statusLine ≠ 101 then
    .error (.handshake { statusCode := statusCode statusLine, headers })
  else if !upgradeOk headers || !connectionOk headers
      || !acceptOk accept wsKey headers then
    .error (invalidData "invalid WebSocket upgrade response")
  else .ok ()

/-- `connect_ws_inner` from the response on: the unread bytes are what
the WebSocket starts with. -/
def readResponse (accept : Text → Text) (wsKey : Text) (ending : ReadErr) :
    Reader Unit := do
  let statusLine ← readLine ending
  let headers ← fun s =>
    readHeaders ending (s.length + 1) statusLine.length ∅ s
  match checkResponse accept wsKey statusLine headers with
  | .ok () => pure ()
  | .error e => throw (.ws e)

-- ============================================================== errors

def isWsRedirect (e : IoError) : Bool :=
  [" 302 ", " 301 ", " 303 ", " 307 ", " 308 "].any fun code =>
    (Text.splitOnceStr code.toList e.msg.toList).isSome

def isWsRedirectErr : WsConnectError → Bool
  | .handshake h => [301, 302, 303, 307, 308].contains h.statusCode
  | .io e => isWsRedirect e
  | _ => false

end Wrtg.WsUpgrade
