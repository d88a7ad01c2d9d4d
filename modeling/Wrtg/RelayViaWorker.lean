/-
The raw tunnel of a worker passthrough, `relay_via_worker` of
`bridge.rs`: its two directions, the writer of the WebSocket, the
channels between them, and its own select and teardown.

Steps and aborts are those of `Wrtg.Bridge`: a step is what one task does
between two points where another can run, an abort is a request that
takes effect at an `await`. There is no splitter and no crypto, the
writer takes one chunk at a time, and nobody drains: the direction that
ends first ends the session. A write that fails or is aborted may have
got some of its bytes out; how many is in the action. A frame that is cut
short is no message, so the WebSocket keeps whole frames only. The end of
the down task stands for its `shutdown` too. `downBytes` is a `usize`,
and wraps.
-/
import Wrtg.Bridge

namespace Wrtg.RelayViaWorker

open Lib Ws
open Bridge (RELAY_BUF_SIZE WS_CHANNEL_CAP PONG_CHANNEL_CAP Sent)

-- ============================================================== tasks

/-- The client-to-Worker direction. An end may come over a chunk that is
read and not put. -/
inductive UpPc where
  | reading
  | sending (chunk : Bytes)
  | ended (dropped : Bytes)
  deriving DecidableEq, Repr

def UpPc.isEnded : UpPc → Bool
  | .ended _ => true
  | _ => false

inductive WriterPc where
  | selecting
  | writing (chunk : Bytes)
  | writingRaw (frame : Bytes)
  | ended
  deriving DecidableEq, Repr

/-- The Worker-to-client direction: in `recv_binary`, with a pong to send
there, or writing a message to the client. -/
inductive DownPc where
  | receiving
  | sendingPong (frame : Bytes)
  | writing (payload : Bytes)
  | ended
  deriving DecidableEq, Repr

inductive Task where
  | up
  | down
  | writer
  deriving DecidableEq, Repr

/-- The select, the aborts still to come, and the end: whether the
session was reaped idle, and whether no data came back. -/
inductive MainPc where
  | selecting
  | aborting (idleReaped : Bool) (todo : List Task)
  | done (idleReaped noData : Bool)
  deriving DecidableEq, Repr

structure State where
  /-- `session_idle_timeout`. -/
  idle : Option Nat
  dataChan : Chan Bytes WS_CHANNEL_CAP
  pongChan : Chan Bytes PONG_CHANNEL_CAP
  up : UpPc
  writer : WriterPc
  down : DownPc
  main : MainPc
  aborts : List Task
  downBytes : Nat
  wire : List Sent
  toClient : Bytes

/-- The messages on the WebSocket, in the order they were written. -/
def State.written (s : State) : List Bytes := s.wire.filterMap Sent.data?

-- ============================================================ actions

inductive UpAction where
  | read (data : Bytes)
  | closed
  | send
  | cancelled
  deriving DecidableEq, Repr

inductive WriterAction where
  | recv
  | pongRecv
  | wrote
  | writeFailed
  | cancelled
  deriving DecidableEq, Repr

inductive DownAction where
  | message (payload : Bytes)
  | ping (payload : Bytes) (maskKey : MaskKey)
  | closed
  | sendPong
  | wrote
  | writeFailed (sent : Nat)
  | cancelled (sent : Nat)
  deriving DecidableEq

inductive MainAction where
  | upEnded
  | downEnded
  | idleReached
  | abort
  | join
  deriving DecidableEq, Repr

inductive Action where
  | up (a : UpAction)
  | writer (a : WriterAction)
  | down (a : DownAction)
  | main (a : MainAction)
  deriving DecidableEq

-- ============================================================== steps

def applyUp : UpAction → State → Option State
  | .read data, s => match s.up with
      | .reading =>
          if data.isEmpty || decide (RELAY_BUF_SIZE < data.length) then none
          else some { s with up := .sending data }
      | _ => none
  | .closed, s => match s.up with
      | .reading => some { s with up := .ended [] }
      | _ => none
  | .send, s => match s.up with
      | .sending chunk =>
          if s.writer = .ended then some { s with up := .ended chunk }
          else match s.dataChan.send chunk with
            | some dataChan => some { s with dataChan, up := .reading }
            | none => none
      | _ => none
  | .cancelled, s =>
      if Task.up ∈ s.aborts then match s.up with
        | .reading => some { s with up := .ended [] }
        | .sending chunk => some { s with up := .ended chunk }
        | .ended _ => none
      else none

/-- The data channel closes with the up task, the pong channel with the
down task. -/
def applyWriter : WriterAction → State → Option State
  | .recv, s => match s.writer with
      | .selecting => match s.dataChan.recv with
          | some (chunk, dataChan) =>
              some { s with dataChan, writer := .writing chunk }
          | none =>
              if s.up.isEnded then some { s with writer := .ended } else none
      | _ => none
  | .pongRecv, s => match s.writer with
      | .selecting => match s.pongChan.recv with
          | some (frame, pongChan) =>
              some { s with pongChan, writer := .writingRaw frame }
          | none =>
              if s.down = .ended then some { s with writer := .ended }
              else none
      | _ => none
  | .wrote, s => match s.writer with
      | .writing chunk =>
          some { s with wire := s.wire ++ [.binary chunk]
                        writer := .selecting }
      | .writingRaw frame =>
          some { s with wire := s.wire ++ [.raw frame], writer := .selecting }
      | _ => none
  | .writeFailed, s => match s.writer with
      | .writing _ => some { s with writer := .ended }
      | .writingRaw _ => some { s with writer := .ended }
      | _ => none
  | .cancelled, s =>
      if Task.writer ∈ s.aborts ∧ s.writer ≠ .ended then
        some { s with writer := .ended }
      else none

def applyDown (w : Word) : DownAction → State → Option State
  | .message payload, s => match s.down with
      | .receiving =>
          some { s with downBytes := (s.downBytes + payload.length) % w.size
                        down := .writing payload }
      | _ => none
  | .ping payload maskKey, s => match s.down with
      | .receiving =>
          some { s with
            down := .sendingPong (buildWsFrame 0xA payload true maskKey) }
      | _ => none
  | .closed, s => match s.down with
      | .receiving => some { s with down := .ended }
      | _ => none
  | .sendPong, s => match s.down with
      | .sendingPong frame =>
          if s.writer = .ended then some { s with down := .ended }
          else match s.pongChan.send frame with
            | some pongChan => some { s with pongChan, down := .receiving }
            | none => none
      | _ => none
  | .wrote, s => match s.down with
      | .writing payload =>
          some { s with toClient := s.toClient ++ payload, down := .receiving }
      | _ => none
  | .writeFailed sent, s => match s.down with
      | .writing payload =>
          some { s with toClient := s.toClient ++ payload.take sent
                        down := .ended }
      | _ => none
  | .cancelled sent, s =>
      if Task.down ∈ s.aborts then match s.down with
        | .receiving => some { s with down := .ended }
        | .sendingPong _ => some { s with down := .ended }
        | .writing payload =>
            some { s with toClient := s.toClient ++ payload.take sent
                          down := .ended }
        | .ended => none
      else none

def applyMain : MainAction → State → Option State
  | .upEnded, s =>
      if s.main = .selecting ∧ s.up.isEnded = true then
        some { s with main := .aborting false [.down, .writer] }
      else none
  | .downEnded, s =>
      if s.main = .selecting ∧ s.down = .ended then
        some { s with main := .aborting false [.up, .writer] }
      else none
  | .idleReached, s =>
      if s.main = .selecting ∧ s.idle.isSome = true then
        some { s with main := .aborting true [.up, .down, .writer] }
      else none
  | .abort, s => match s.main with
      | .aborting idleReaped (task :: todo) =>
          some { s with aborts := task :: s.aborts
                        main := .aborting idleReaped todo }
      | _ => none
  | .join, s => match s.main with
      | .aborting idleReaped [] =>
          if s.writer = .ended then
            some { s with main := .done idleReaped (s.downBytes == 0) }
          else none
      | _ => none

def apply (w : Word) : Action → State → Option State
  | .up a, s => applyUp a s
  | .writer a, s => applyWriter a s
  | .down a, s => applyDown w a s
  | .main a, s => applyMain a s

/-- The initial bytes are sent, where there are any, and the tasks
spawned. -/
def start (initial : Bytes) (idle : Option Nat) : State where
  idle := idle
  dataChan := .empty
  pongChan := .empty
  up := .reading
  writer := .selecting
  down := .receiving
  main := .selecting
  aborts := []
  downBytes := 0
  wire := if initial.isEmpty then [] else [.binary initial]
  toClient := []

end Wrtg.RelayViaWorker
