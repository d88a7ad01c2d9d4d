/-
The WebSocket client (`ws.rs`): what a failed connect says, and the
receive path with `read_frame`, `assemble_data_message`, `recv_binary`
and the masked pong frames it pushes.

The socket is the list of bytes the server has sent and the client has
not read, then end of file. The pong channel is the list of frames
pushed into it; `pongOpen` says whether its receiver still lives. Mask
keys come from the random source `rng`, draw by draw. `recv_binary`'s
loop takes its fuel from the unread bytes — every frame costs at least
two — and running out of it would be `RecvFault.outOfFuel`.
-/
import Mathlib.Data.List.AList
import Wrtg.Mtproto
import Wrtg.Rust.Io

namespace Wrtg.Ws

open Mtproto

-- ========================================================== connecting

/-- The answer to an upgrade request that is not a 101. -/
structure WsHandshakeError where
  statusCode : Nat
  headers : AList fun _ : Text => Text
  deriving DecidableEq

inductive WsConnectError where
  | io (e : IoError)
  | tls (e : IoError)
  | handshake (h : WsHandshakeError)
  | timeout
  deriving DecidableEq

def WsConnectError.httpStatus : WsConnectError → Option Nat
  | .handshake h => some h.statusCode
  | _ => none

/-- The kind of `into_io`. -/
def WsConnectError.intoIoKind : WsConnectError → ErrorKind
  | .io e => e.kind
  | .tls e => e.kind
  | .timeout => .timedOut
  | .handshake _ => .invalidData

/-- `retry_after_from_err`: the seconds of a `Retry-After`, else zero. -/
def retryAfterFromErr : WsConnectError → Nat
  | .handshake h =>
      match Text.parseU64 (Text.trim
          ((h.headers.lookup "retry-after".toList).getD [])) with
      | some seconds => Duration.fromSecs seconds
      | none => 0
  | _ => 0

-- ============================================================= frames

def wsProtocolError (message : String) : IoError :=
  { kind := .invalidData, msg := message }

def wsFrameTooLarge (length : Nat) : IoError :=
  { kind := .invalidData, msg := "WS frame too large: " ++ toString length }

/-- `read_frame`: final flag, opcode and payload of the next frame. -/
def readFrame : Read (Bool × UInt8 × Bytes) := do
  let hdr ← readExact 2
  let b0 := hdr.getD 0 0
  let b1 := hdr.getD 1 0
  if b0 &&& 0x70 ≠ 0 then throw (wsProtocolError "WebSocket RSV bits are set")
  else
    let fin := b0 &&& 0x80 ≠ 0
    let opcode := b0 &&& 0x0F
    if b1 &&& 0x80 ≠ 0 then
      throw (wsProtocolError "masked server WebSocket frame")
    else
      let length ← readLength (b1 &&& 0x7F).toNat
      if length > MAX_WS_PAYLOAD then throw (wsFrameTooLarge length)
      else if opcode ≥ 0x8 ∧ (¬ fin ∨ length > 125) then
        throw (wsProtocolError "invalid WebSocket control frame")
      else
        let payload ← readExact length
        pure (decide fin, opcode, payload)
where
  /-- The seven-bit length and its two extended forms. -/
  readLength (length : Nat) : Read Nat := do
    if length = 126 then
      let ext ← readExact 2
      pure (beNat ext)
    else if length = 127 then
      let ext ← readExact 8
      let len64 := beNat ext
      if len64 > MAX_WS_PAYLOAD then throw (wsFrameTooLarge len64)
      else pure len64
    else pure length

/-- `assemble_data_message`: the message a data frame completes, and
the fragments kept for the next one. -/
def assembleDataMessage (fin : Bool) (opcode : UInt8) (payload : Bytes)
    (fragmented : Option Bytes) :
    Except IoError (Option Bytes × Option Bytes) :=
  if opcode = 0x1 ∨ opcode = 0x2 then
    if fragmented.isSome then
      .error (wsProtocolError
        "new WebSocket data frame during fragmented message")
    else if fin then .ok (some payload, fragmented)
    else .ok (none, some payload)
  else if opcode = 0x0 then
    match fragmented with
    | none =>
        .error (wsProtocolError
          "WebSocket continuation without initial frame")
    | some message =>
        if message.length + payload.length > MAX_WS_PAYLOAD then
          .error (wsProtocolError "fragmented WebSocket message too large")
        else if fin then .ok (some (message ++ payload), none)
        else .ok (none, some (message ++ payload))
  else .error (wsProtocolError "not a WebSocket data frame")

-- ============================================================ sending

abbrev MaskKey := Vector UInt8 4

def xorMaskOwned (data : Bytes) (mask : MaskKey) : Bytes :=
  data.mapIdx fun i b => b ^^^ mask.get ⟨i % 4, Nat.mod_lt i (by decide)⟩

/-- The length bytes of a header, `top` being the mask bit. -/
def wsLength (top : UInt8) (length : Nat) : Bytes :=
  if length < 126 then [top ||| UInt8.ofNat length]
  else if length < 65536 then (top ||| 126) :: beBytes 2 length
  else (top ||| 127) :: beBytes 8 length

def wsHeaderUnmasked (fb : UInt8) (length : Nat) : Bytes :=
  fb :: wsLength 0 length

def wsHeaderMasked (fb : UInt8) (length : Nat) (maskKey : MaskKey) : Bytes :=
  fb :: (wsLength 0x80 length ++ maskKey.toList)

/-- `build_ws_frame`; `maskKey` is the key it draws when it masks. -/
def buildWsFrame (opcode : UInt8) (data : Bytes) (mask : Bool)
    (maskKey : MaskKey) : Bytes :=
  let fb := 0x80 ||| opcode
  if mask then
    wsHeaderMasked fb data.length maskKey ++ xorMaskOwned data maskKey
  else wsHeaderUnmasked fb data.length ++ data

/-- `send_batch`, where every write goes through: the bytes it writes,
with mask keys from draw `draws` on. -/
def sendBatch (rng : Nat → MaskKey) : Nat → List Bytes → Bytes
  | _, [] => []
  | draws, part :: parts =>
      buildWsFrame 0x2 part true (rng draws)
        ++ sendBatch rng (draws + 1) parts

-- ========================================================== receiving

/-- The read half and the pong channel: unread bytes, frames pushed to
the channel, whether its receiver lives, and mask keys drawn so far. -/
structure RecvState where
  read : Bytes
  pongs : List Bytes
  pongOpen : Bool
  draws : Nat
  deriving DecidableEq, Repr

inductive RecvFault where
  | io (e : IoError)
  | outOfFuel
  deriving DecidableEq, Repr

abbrev Recv := EStateM RecvFault RecvState

/-- A reader of the socket inside `recv_binary`. -/
def onSocket {α : Type} (r : Read α) : Recv α := fun s =>
  match r s.read with
  | .ok a rest => .ok a { s with read := rest }
  | .error e rest => .error (.io e) { s with read := rest }

/-- `pong_tx.send(build_ws_frame(0xA, payload, true))`. -/
def sendPong (rng : Nat → MaskKey) (payload : Bytes) : Recv Unit := fun s =>
  let pong := buildWsFrame 0xA payload true (rng s.draws)
  let s := { s with draws := s.draws + 1 }
  if s.pongOpen then .ok () { s with pongs := s.pongs ++ [pong] }
  else .error (.io { kind := .brokenPipe, msg := "WebSocket writer closed" }) s

/-- The loop of `recv_binary`. -/
def recvLoop (rng : Nat → MaskKey) : Nat → Option Bytes → Recv (Option Bytes)
  | 0, _ => throw .outOfFuel
  | fuel + 1, fragmented => do
      let (fin, opcode, payload) ← onSocket readFrame
      if opcode = 0x8 then pure none
      else if opcode = 0x9 then do
        sendPong rng payload
        recvLoop rng fuel fragmented
      else if opcode = 0xA then recvLoop rng fuel fragmented
      else if opcode ≤ 0x2 then
        match assembleDataMessage fin opcode payload fragmented with
        | .error e => throw (.io e)
        | .ok (some message, _) => pure (some message)
        | .ok (none, fragmented) => recvLoop rng fuel fragmented
      else throw (.io (wsProtocolError "unsupported WebSocket opcode"))

/-- `recv_binary`. -/
def recvBinary (rng : Nat → MaskKey) : Recv (Option Bytes) := fun s =>
  recvLoop rng (s.read.length + 1) none s

end Wrtg.Ws
