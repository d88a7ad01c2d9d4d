/-
A relay session over a WebSocket, `bridge_ws` of `bridge.rs`: the tasks
it spawns, the channels between them, and its own select and teardown.

A step is what one task does between two points where another can run.
A task waits where its step is not enabled: a send for room in the
channel, a receive for a value or for the last sender to go. An abort is
a request (`aborts`), and it takes effect (`cancelled`) only where the
task is at an `await`; the send driver is not while it collects a batch.
What comes from outside is in the actions: the bytes the client sends,
the messages and pings the server sends, how a read or a write ends, the
ticks, the timers, and the keys that mask what the client side sends. A
write to the client that fails or is aborted may have got some of its
bytes out; how many is in the action. A frame that is cut short is no
message, so the WebSocket keeps whole frames only.

`put` is what the up task has put on the send channel.
-/
import Wrtg.Splitter
import Wrtg.Ws
import Wrtg.Lib.Chan

namespace Wrtg.Bridge

open Mtproto Splitter Ws Lib

def RELAY_BUF_SIZE : Nat := 128 * 1024

def WS_CHANNEL_CAP : Nat := 32

def WS_SEND_BATCH_MAX : Nat := 32

def PONG_CHANNEL_CAP : Nat := 8

-- ============================================================== tasks

/-- Why the up task has ended. -/
inductive UpEnd where
  | eof
  | readFailed
  | sendFailed
  | panicked
  | cancelled
  deriving DecidableEq, Repr

/-- The client-to-server direction: reading, putting the parts of a
chunk, and putting the splitter's tail behind the loop. -/
inductive UpPc where
  | reading
  | sending (part : Bytes) (rest : List Bytes)
  | flushing (why : UpEnd) (tail : Bytes) (rest : List Bytes)
  | ended (why : UpEnd)
  deriving DecidableEq, Repr

/-- The parts of a chunk are put one by one, then the loop goes on. -/
def UpPc.afterChunk : List Bytes → UpPc
  | [] => .reading
  | part :: rest => .sending part rest

/-- The tails are put one by one, then the task is over. -/
def UpPc.afterLoop (why : UpEnd) : List Bytes → UpPc
  | [] => .ended why
  | tail :: rest => .flushing why tail rest

def UpPc.isEnded : UpPc → Bool
  | .ended _ => true
  | _ => false

/-- The WebSocket writer: waiting in its select, collecting a batch,
writing the frames of a batch, or writing a frame as it is. -/
inductive SendPc where
  | selecting
  | batching (first : Bytes) (more : List Bytes)
  | writing (part : Bytes) (rest : List Bytes)
  | writingRaw (frame : Bytes)
  | ended
  deriving DecidableEq, Repr

/-- `send_binary` and `send_batch`: a frame for each part, in turn. -/
def SendPc.afterFrame : List Bytes → SendPc
  | [] => .selecting
  | part :: rest => .writing part rest

inductive PingPc where
  | ticking
  | sending (frame : Bytes)
  | ended
  deriving DecidableEq, Repr

/-- The WebSocket reader: in `recv_binary`, with a pong to send there,
or with a message for the down task. -/
inductive RecvPc where
  | receiving
  | sendingPong (frame : Bytes)
  | sending (payload : Bytes)
  | ended
  deriving DecidableEq, Repr

/-- The server-to-client direction. -/
inductive DownPc where
  | receiving
  | writing (out : Bytes)
  | ended
  deriving DecidableEq, Repr

inductive Task where
  | up
  | down
  | pingDriver
  | sendDriver
  | recvDriver
  deriving DecidableEq, Repr

/-- `bridge_ws` behind its spawns: the select, the grace period for the
surviving direction, the aborts still to come, and the end. -/
inductive MainPc where
  | selecting
  | draining (upFinished : Bool)
  | aborting (todo : List Task)
  | done
  deriving DecidableEq, Repr

/-- What the WebSocket has been given: `send_binary` frames, and raw
ones. -/
inductive Sent where
  | binary (data : Bytes)
  | raw (frame : Bytes)
  deriving DecidableEq, Repr

def Sent.data? : Sent → Option Bytes
  | .binary data => some data
  | .raw _ => none

structure State where
  /-- `session_idle_timeout`. -/
  idle : Option Nat
  upCrypto : CryptoUp
  downCrypto : CryptoDown
  splitter : Option MsgSplitter
  sendChan : Chan Bytes WS_CHANNEL_CAP
  recvChan : Chan Bytes WS_CHANNEL_CAP
  pongChan : Chan Bytes PONG_CHANNEL_CAP
  up : UpPc
  send : SendPc
  ping : PingPc
  recv : RecvPc
  down : DownPc
  main : MainPc
  aborts : List Task
  wire : List Sent
  toClient : Bytes
  put : List Bytes

/-- The parts on the WebSocket, in the order they were written. -/
def State.written (s : State) : List Bytes := s.wire.filterMap Sent.data?

def State.isEnded (s : State) : Task → Bool
  | .up => s.up.isEnded
  | .down => s.down == .ended
  | .pingDriver => s.ping == .ended
  | .sendDriver => s.send == .ended
  | .recvDriver => s.recv == .ended

/-- Every `send_tx` is gone: the one of `bridge_ws` goes behind its
select, the clone with the up task. -/
def State.sendersGone (s : State) : Bool :=
  s.main != .selecting && s.up.isEnded

/-- Every `pong_tx` is gone. -/
def State.pongSendersGone (s : State) : Bool :=
  s.main != .selecting && s.ping == .ended && s.recv == .ended

-- ============================================================ actions

inductive UpAction where
  | read (data : Bytes)
  | eof
  | readFailed
  | send
  | cancelled
  deriving DecidableEq, Repr

inductive SendAction where
  | recv
  | tryRecv
  | pongRecv
  | wrote
  | writeFailed
  | cancelled
  deriving DecidableEq, Repr

inductive PingAction where
  | tick (maskKey : MaskKey)
  | send
  | cancelled
  deriving DecidableEq

/-- `closed` is any end of `recv_binary` that is not a message. -/
inductive RecvAction where
  | message (payload : Bytes)
  | ping (payload : Bytes) (maskKey : MaskKey)
  | closed
  | send
  | cancelled
  deriving DecidableEq

inductive DownAction where
  | recv
  | wrote
  | writeFailed (sent : Nat)
  | cancelled (sent : Nat)
  deriving DecidableEq, Repr

inductive MainAction where
  | upEnded
  | downEnded
  | idleReached
  | drained
  | drainExpired
  | abort
  | join
  deriving DecidableEq, Repr

inductive Action where
  | up (a : UpAction)
  | send (a : SendAction)
  | ping (a : PingAction)
  | recv (a : RecvAction)
  | down (a : DownAction)
  | main (a : MainAction)
  deriving DecidableEq

-- ======================================================== the up task

/-- Behind the read loop: what the splitter holds leaves as tails. -/
def State.flush (s : State) (why : UpEnd) : State :=
  match s.splitter with
  | some sp =>
      let (tails, sp) := sp.flush
      { s with splitter := some sp, up := .afterLoop why tails }
  | none => { s with up := .ended why }

/-- `send_tx_up.send(part)`, `next` being where the task goes on; `none`
while the channel is full. -/
def State.putPart (s : State) (part : Bytes) (next : UpPc) : Option State :=
  match s.sendChan.send part with
  | some sendChan =>
      some { s with sendChan, put := s.put ++ [part], up := next }
  | none => none

def applyUp (w : Word) (aes : Aes256) : UpAction → State → Option State
  | .read data, s => match s.up with
      | .reading =>
          if data.isEmpty || decide (RELAY_BUF_SIZE < data.length) then none
          else
            let (chunk, upCrypto) := s.upCrypto.clientToTelegram aes data
            match s.splitter with
            | some sp => match sp.split w aes chunk with
                | .ok (parts, sp) =>
                    some { s with upCrypto, splitter := some sp
                                  up := .afterChunk parts }
                | .error _ => some { s with upCrypto, up := .ended .panicked }
            | none => some { s with upCrypto, up := .sending chunk [] }
      | _ => none
  | .eof, s => match s.up with
      | .reading => some (s.flush .eof)
      | _ => none
  | .readFailed, s => match s.up with
      | .reading => some (s.flush .readFailed)
      | _ => none
  | .send, s => match s.up with
      | .sending part rest =>
          -- the receiver went with the send driver; with a splitter the
          -- task returns, without one it leaves its loop
          if s.send = .ended then match s.splitter with
            | some _ => some { s with up := .ended .sendFailed }
            | none => some (s.flush .sendFailed)
          else s.putPart part (.afterChunk rest)
      | .flushing why tail rest =>
          if s.send = .ended then some { s with up := .afterLoop why rest }
          else s.putPart tail (.afterLoop why rest)
      | _ => none
  | .cancelled, s =>
      if Task.up ∈ s.aborts ∧ s.up.isEnded = false then
        some { s with up := .ended .cancelled }
      else none

-- ============================================================ drivers

def applySend : SendAction → State → Option State
  | .recv, s => match s.send with
      | .selecting => match s.sendChan.recv with
          | some (first, sendChan) =>
              some { s with sendChan, send := .batching first [] }
          | none =>
              if s.sendersGone then some { s with send := .ended } else none
      | _ => none
  | .tryRecv, s => match s.send with
      | .batching first more =>
          if more.length + 1 < WS_SEND_BATCH_MAX then
            match s.sendChan.recv with
            | some (part, sendChan) =>
                some { s with
                  sendChan, send := .batching first (more ++ [part]) }
            | none => some { s with send := .writing first more }
          else some { s with send := .writing first more }
      | _ => none
  | .pongRecv, s => match s.send with
      | .selecting => match s.pongChan.recv with
          | some (frame, pongChan) =>
              some { s with pongChan, send := .writingRaw frame }
          | none =>
              if s.pongSendersGone then some { s with send := .ended }
              else none
      | _ => none
  | .wrote, s => match s.send with
      | .writing part rest =>
          some { s with wire := s.wire ++ [.binary part]
                        send := .afterFrame rest }
      | .writingRaw frame =>
          some { s with wire := s.wire ++ [.raw frame], send := .selecting }
      | _ => none
  | .writeFailed, s => match s.send with
      | .writing _ _ => some { s with send := .ended }
      | .writingRaw _ => some { s with send := .ended }
      | _ => none
  | .cancelled, s =>
      if Task.sendDriver ∈ s.aborts then match s.send with
        | .selecting => some { s with send := .ended }
        | .writing _ _ => some { s with send := .ended }
        | .writingRaw _ => some { s with send := .ended }
        | _ => none
      else none

/-- `pong_tx.send(frame)`: what it leaves, or `none` while the channel is
full; the send driver lives. -/
def State.putPong (s : State) (frame : Bytes) : Option State :=
  match s.pongChan.send frame with
  | some pongChan => some { s with pongChan }
  | none => none

def applyPing : PingAction → State → Option State
  | .tick maskKey, s => match s.ping with
      | .ticking =>
          some { s with ping := .sending (buildWsFrame 0x9 [] true maskKey) }
      | _ => none
  | .send, s => match s.ping with
      | .sending frame =>
          if s.send = .ended then some { s with ping := .ended }
          else (s.putPong frame).map fun s => { s with ping := .ticking }
      | _ => none
  | .cancelled, s =>
      if Task.pingDriver ∈ s.aborts ∧ s.ping ≠ .ended then
        some { s with ping := .ended }
      else none

def applyRecv : RecvAction → State → Option State
  | .message payload, s => match s.recv with
      | .receiving => some { s with recv := .sending payload }
      | _ => none
  | .ping payload maskKey, s => match s.recv with
      | .receiving =>
          some { s with
            recv := .sendingPong (buildWsFrame 0xA payload true maskKey) }
      | _ => none
  | .closed, s => match s.recv with
      | .receiving => some { s with recv := .ended }
      | _ => none
  | .send, s => match s.recv with
      | .sendingPong frame =>
          if s.send = .ended then some { s with recv := .ended }
          else (s.putPong frame).map fun s => { s with recv := .receiving }
      | .sending payload =>
          if s.down = .ended then some { s with recv := .ended }
          else match s.recvChan.send payload with
            | some recvChan => some { s with recvChan, recv := .receiving }
            | none => none
      | _ => none
  | .cancelled, s =>
      if Task.recvDriver ∈ s.aborts ∧ s.recv ≠ .ended then
        some { s with recv := .ended }
      else none

-- ====================================================== the down task

def applyDown (aes : Aes256) : DownAction → State → Option State
  | .recv, s => match s.down with
      | .receiving => match s.recvChan.recv with
          | some (payload, recvChan) =>
              let (out, downCrypto) := s.downCrypto.telegramToClient aes payload
              some { s with recvChan, downCrypto, down := .writing out }
          | none =>
              if s.recv = .ended then some { s with down := .ended } else none
      | _ => none
  | .wrote, s => match s.down with
      | .writing out =>
          some { s with toClient := s.toClient ++ out, down := .receiving }
      | _ => none
  | .writeFailed sent, s => match s.down with
      | .writing out =>
          some { s with toClient := s.toClient ++ out.take sent
                        down := .ended }
      | _ => none
  | .cancelled sent, s =>
      if Task.down ∈ s.aborts then match s.down with
        | .receiving => some { s with down := .ended }
        | .writing out =>
            some { s with toClient := s.toClient ++ out.take sent
                          down := .ended }
        | .ended => none
      else none

-- ========================================================== bridge_ws

/-- The direction that did not end the session. -/
def other (upFinished : Bool) : Task := if upFinished then .down else .up

def tasks : List Task := [.up, .down, .pingDriver, .sendDriver, .recvDriver]

def applyMain : MainAction → State → Option State
  | .upEnded, s =>
      if s.main = .selecting ∧ s.isEnded .up = true then
        some { s with main := .draining true }
      else none
  | .downEnded, s =>
      if s.main = .selecting ∧ s.isEnded .down = true then
        some { s with main := .draining false }
      else none
  | .idleReached, s =>
      if s.main = .selecting ∧ s.idle.isSome = true then
        some { s with main := .aborting tasks }
      else none
  | .drained, s => match s.main with
      | .draining upFinished =>
          if s.isEnded (other upFinished) then
            some { s with
              main := .aborting [.pingDriver, .sendDriver, .recvDriver] }
          else none
      | _ => none
  | .drainExpired, s => match s.main with
      | .draining upFinished =>
          if s.isEnded (other upFinished) then none
          else some { s with
            main := .aborting
              [.pingDriver, .sendDriver, .recvDriver, other upFinished] }
      | _ => none
  | .abort, s => match s.main with
      | .aborting (task :: todo) =>
          some { s with aborts := task :: s.aborts, main := .aborting todo }
      | _ => none
  | .join, s =>
      if s.main = .aborting [] ∧ (∀ task ∈ tasks, s.isEnded task = true) then
        some { s with main := .done }
      else none

def apply (w : Word) (aes : Aes256) : Action → State → Option State
  | .up a, s => applyUp w aes a s
  | .send a, s => applySend a s
  | .ping a, s => applyPing a s
  | .recv a, s => applyRecv a s
  | .down a, s => applyDown aes a s
  | .main a, s => applyMain a s

/-- The tasks have been spawned. -/
def start (ctx : CryptoCtx) (splitter : Option MsgSplitter)
    (idle : Option Nat) : State where
  idle := idle
  upCrypto := ctx.split.1
  downCrypto := ctx.split.2
  splitter := splitter
  sendChan := .empty
  recvChan := .empty
  pongChan := .empty
  up := .reading
  send := .selecting
  ping := .ticking
  recv := .receiving
  down := .receiving
  main := .selecting
  aborts := []
  wire := []
  toClient := []
  put := []

end Wrtg.Bridge
