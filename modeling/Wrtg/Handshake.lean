/-
Client init classification (`handshake.rs`) and the connection handler
over it (`main.rs`, `handle_conn`, `handle_handshake`).

A client socket is the bytes the client has still in flight and a
schedule of what each further `read` call meets: some bytes, a timeout
(of the step or of the whole budget), or an I/O error. End of file is a
`ready` event with nothing left to read; a schedule that runs out is
the deadline passing. `buf` is the filled part of the 4096-byte init
buffer, so every buffer length is a `usize` that fits.

What the handler asks of the rest of the daemon — the learned DC, the
relay init, and how each bridge path ends — is the record `Paths`. A
path that fails hands the client back as it got it. `blind_relay`
(`bridge.rs`) is followed up to the bytes it sends ahead of what it
copies from the socket.
-/
import Wrtg.Media
import Wrtg.Mtproto

namespace Wrtg.Handshake

open Mtproto

def INIT_READ_MAX : Nat := 4096

-- ============================================================ reading

/-- What one timed `read` call meets: up to `k + 1` bytes, a timeout,
or an error. -/
inductive ReadEvent where
  | ready (k : Nat)
  | timeout
  | fail (msg : String)
  deriving DecidableEq, Repr

/-- What a timed `read` call gives the loop: a reason to break (timeout
or end of file), an error, or bytes. -/
inductive ReadResult where
  | stop
  | failed (msg : String)
  | bytes (bs : Bytes)
  deriving DecidableEq, Repr

/-- `stream.read(&mut buf[..space])` under a timeout. -/
def ReadEvent.read (unread : Bytes) (space : Nat) : ReadEvent → ReadResult
  | .timeout => .stop
  | .fail msg => .failed msg
  | .ready k =>
      let got := unread.take (min (k + 1) space)
      if got.isEmpty then .stop else .bytes got

/-- A client socket: bytes not yet read, and what the next reads
meet. -/
structure TcpStream where
  unread : Bytes
  events : List ReadEvent
  deriving DecidableEq, Repr

structure PrefixedStream where
  inner : TcpStream
  prefixBuf : Bytes
  off : Nat
  deriving DecidableEq, Repr

def PrefixedStream.intoParts (s : PrefixedStream) : TcpStream × Bytes :=
  (s.inner, if s.off < s.prefixBuf.length then s.prefixBuf.drop s.off
    else [])

structure ParsedInit where
  info : HandshakeInfo
  stream : PrefixedStream
  deriving DecidableEq, Repr

/-- The `Result` of `read_client_init`. -/
abbrev InitResult := Except (TcpStream × Bytes × String) (Option ParsedInit)

-- ======================================================== classifiers

/-- `windows(pat.len()).position(|w| w == pat)`. -/
def windowsPosition (pat : Bytes) : Bytes → Option Nat
  | [] => none
  | b :: bs =>
      if pat.isPrefixOf (b :: bs) then some 0
      else (windowsPosition pat bs).map (· + 1)

/-- The bytes that end an HTTP header block. -/
def CRLF2 : Bytes := [0x0D, 0x0A, 0x0D, 0x0A]

def hasCompleteHttpHeaders (data : Bytes) : Bool :=
  (windowsPosition CRLF2 data).isSome

def isHttpTransport (data : Bytes) : Bool :=
  if data.length < 4 then false
  else data.take 4 == [0x50, 0x4F, 0x53, 0x54]
    || (decide (data.length ≥ 3) && data.take 3 == [0x47, 0x45, 0x54])
    || data.take 4 == [0x48, 0x45, 0x41, 0x44]
    || (decide (data.length ≥ 7)
      && data.take 7 == [0x4F, 0x50, 0x54, 0x49, 0x4F, 0x4E, 0x53])

def looksLikeTlsStream : Bytes → Bool
  | b0 :: b1 :: _ => b1 == 0x03 && (b0 == 0x16 || b0 == 0x17)
  | _ => false

/-- The first offset whose 64-byte window parses as an init packet. -/
def findHandshakeOffset (aes : Aes256) (buf : Bytes) : Option Nat :=
  if buf.length < HANDSHAKE_LEN then none
  else (List.range (buf.length - HANDSHAKE_LEN + 1)).find? fun off =>
    (parseDirectHandshake aes (sub buf off (off + HANDSHAKE_LEN))).isOk

-- ===================================================== HTTP read-ahead

def toAsciiLowercase (b : UInt8) : UInt8 :=
  if 0x41 ≤ b ∧ b ≤ 0x5A then b + 0x20 else b

def isAsciiDigit (b : UInt8) : Bool := decide (0x30 ≤ b ∧ b ≤ 0x39)

/-- `str::parse::<usize>` on ASCII digits. -/
def parseUsize (w : Word) (digits : Bytes) : Option Nat :=
  let n := digits.foldl (fun acc b => acc * 10 + (b.toNat - 0x30)) 0
  if n < w.size then some n else none

/-- `\ncontent-length:`, in lower case. -/
def CONTENT_LENGTH : Bytes :=
  [0x0A, 0x63, 0x6F, 0x6E, 0x74, 0x65, 0x6E, 0x74, 0x2D, 0x6C, 0x65, 0x6E,
    0x67, 0x74, 0x68, 0x3A]

/-- The search of `parse_http_content_length` for one pattern, from
`search` on: `none` if no occurrence is followed by digits. -/
def contentLengthFrom (w : Word) (lower pat : Bytes) :
    Nat → Nat → Option (Option Nat)
  | 0, _ => none
  | fuel + 1, search =>
      if search + pat.length ≤ lower.length then
        match windowsPosition pat (lower.drop search) with
        | none => none
        | some rel =>
            let start := search + rel + pat.length
            let value := (lower.drop start).dropWhile fun b =>
              b == 0x20 || b == 0x09
            let digits := value.takeWhile isAsciiDigit
            if digits.isEmpty then contentLengthFrom w lower pat fuel start
            else some (parseUsize w digits)
      else none

def parseHttpContentLength (w : Word) (headers : Bytes) : Option Nat :=
  let lower := headers.map toAsciiLowercase
  match contentLengthFrom w lower (0x0D :: CONTENT_LENGTH) lower.length 0 with
  | some r => r
  | none =>
      match contentLengthFrom w lower CONTENT_LENGTH lower.length 0 with
      | some r => r
      | none => none

/-- `usize::saturating_add`. -/
def Word.saturatingAdd (w : Word) (a b : Nat) : Nat := min (a + b) (w.size - 1)

/-- The body loop of `read_full_http_request`. -/
def readBody (total : Nat) (buf unread : Bytes) :
    List ReadEvent → TcpStream × Bytes × String
  | [] => ({ unread, events := [] }, buf, "http passthrough")
  | ev :: evs =>
      if buf.length < total ∧ buf.length < INIT_READ_MAX then
        match ev.read unread
            (min (total - buf.length) (INIT_READ_MAX - buf.length)) with
        | .stop => ({ unread, events := evs }, buf, "http passthrough")
        | .failed msg => ({ unread, events := evs }, buf, msg)
        | .bytes got =>
            readBody total (buf ++ got) (unread.drop got.length) evs
      else ({ unread, events := ev :: evs }, buf, "http passthrough")

def readFullHttpRequest (w : Word) (stream : TcpStream) (buf : Bytes) :
    TcpStream × Bytes × String :=
  match windowsPosition CRLF2 buf with
  | none => (stream, buf, "http passthrough")
  | some i =>
      let headerEnd := i + 4
      match parseHttpContentLength w (buf.take headerEnd) with
      | none => (stream, buf, "http passthrough")
      | some contentLen =>
          readBody (Word.saturatingAdd w headerEnd contentLen) buf
            stream.unread stream.events

-- ====================================================== the init buffer

/-- The exits behind the read loop. -/
def initExhausted (buf : Bytes) (stream : TcpStream) : InitResult :=
  if buf.length = 0 then .error (stream, [], "EOF")
  else if buf.length < HANDSHAKE_LEN then
    .error (stream, buf, "short read " ++ toString buf.length)
  else .error (stream, buf, "unrecognized handshake")

/-- The read loop of `read_init_buffer`. -/
def readInitLoop (w : Word) (aes : Aes256) (buf unread : Bytes) :
    List ReadEvent → Res InitResult
  | [] => .ok (initExhausted buf { unread, events := [] })
  | ev :: evs =>
      if buf.length < INIT_READ_MAX then
        match ev.read unread (INIT_READ_MAX - buf.length) with
        | .stop => .ok (initExhausted buf { unread, events := evs })
        | .failed msg => .ok (.error ({ unread, events := evs }, buf, msg))
        | .bytes got =>
            let buf := buf ++ got
            let unread := unread.drop got.length
            if isHttpTransport buf && hasCompleteHttpHeaders buf then
              .ok (.error (readFullHttpRequest w { unread, events := evs } buf))
            else if looksLikeTlsStream buf then
              .ok (.error ({ unread, events := evs }, buf, "tls passthrough"))
            else
              match findHandshakeOffset aes buf with
              | some off => do
                  let rem ← sliceFrom buf (off + HANDSHAKE_LEN)
                  let window ← slice buf off (off + HANDSHAKE_LEN)
                  match parseDirectHandshake aes window with
                  | .error _ => .error (.panic .unwrap)
                  | .ok info =>
                      .ok (.ok (some
                        { info
                          stream := { inner := { unread, events := evs }
                                      prefixBuf := rem, off := 0 } }))
              | none => readInitLoop w aes buf unread evs
      else .ok (initExhausted buf { unread, events := ev :: evs })

def readInitBuffer (w : Word) (aes : Aes256) (stream : TcpStream) :
    Res InitResult :=
  readInitLoop w aes [] stream.unread stream.events

def readClientInit (w : Word) (aes : Aes256) (stream : TcpStream) :
    Res InitResult :=
  readInitBuffer w aes stream

-- ============================================== the connection handler

/-- What the handler gets from the rest of the daemon: the DC known for
the original address, the relay init, and how each path ends. -/
structure Paths where
  dcFromOrigDst : String → Option (Int × Bool)
  generateRelayInit : Bytes → Int → Except String Bytes
  wsSkipped : Bool
  wsConnected : Bool
  cfConnected : Bool
  tcpConnected : Bool

/-- A `blind_relay` call: the socket and the initial bytes it sends
upstream. -/
abbrev BlindRelay := TcpStream × Bytes

/-- The initial bytes of a fallback behind a parsed handshake, as
`blind_relay_prefixed` and the two in-line copies of it build them. -/
def blindRelayPrefixed (client : PrefixedStream) (hs : HandshakeInfo) :
    BlindRelay :=
  let (stream, extra) := client.intoParts
  (stream, hs.handshake ++ extra)

/-- The DC of a handshake, completed from the original address. -/
def resolveDc (paths : Paths) (origIp : String) (hs : HandshakeInfo) :
    HandshakeInfo :=
  if hs.dcInPkt ∧ origIp ≠ "" then hs
  else if origIp ≠ "" then
    match paths.dcFromOrigDst origIp with
    | some (dc, media) => { hs with dc, isMedia := media }
    | none => hs
  else hs

/-- `handle_handshake`: the blind relay it falls back to, or `none`
once a path has taken the session. -/
def handleHandshake (aes : Aes256) (paths : Paths) (hs : HandshakeInfo)
    (client : PrefixedStream) (origIp : String) :
    Res (Option BlindRelay) :=
  let hs := resolveDc paths origIp hs
  if hs.dc = 0 then .ok (some (blindRelayPrefixed client hs))
  else
    let dcIdx := if hs.isMedia then -hs.dc else hs.dc
    match paths.generateRelayInit (protoTagFor hs.protoInt) dcIdx with
    | .error _ => .ok (some (blindRelayPrefixed client hs))
    | .ok relayInit =>
        match CryptoCtx.buildDirect aes hs.handshake relayInit with
        | .error (.panic why) => .error (.panic why)
        | .error (.err _) => .ok (some (blindRelayPrefixed client hs))
        | .ok _ =>
            if ¬ paths.wsSkipped ∧ paths.wsConnected then .ok none
            else if paths.cfConnected then .ok none
            else if paths.tcpConnected then .ok none
            else .ok (some (blindRelayPrefixed client hs))

/-- The bytes that `blind_relay` sends upstream ahead of what it copies
from the socket: through a CF Worker, where it may try one, and to the
front. -/
structure Upstream where
  worker : Option Bytes
  front : Bytes
  deriving DecidableEq, Repr

/-- `blind_relay` up to its copy loops; `learned` is what the router has
learned by then. -/
def blindRelay (learned : DcLearn.LearnMap) (origIp : String)
    (origPort : Nat) (call : BlindRelay) : Res Upstream := do
  let initial := call.2
  let httpPayload ←
    if origPort = 80 then
      Media.httpFrontPassthroughPayload learned initial origIp.toList origPort
    else .ok initial
  let worker := if Media.shouldTryWorkerPassthrough origPort then
    some httpPayload else none
  let front := if origPort = 80 then httpPayload else initial
  .ok { worker, front }

/-- `handle_conn` from the init read on. -/
def handleConn (w : Word) (aes : Aes256) (paths : Paths) (origIp : String)
    (stream : TcpStream) : Res (Option BlindRelay) := do
  match ← readClientInit w aes stream with
  | .ok (some parsed) =>
      handleHandshake aes paths parsed.info parsed.stream origIp
  | .ok none => .ok none
  | .error (stream, raw, _) => .ok (some (stream, raw))

end Wrtg.Handshake
