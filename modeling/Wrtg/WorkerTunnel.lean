/-
The tunnel a Worker keeps behind `connect` (`openwrt/cf-worker.js`): the
chain of writes its `message` listener builds, its `close` listener, and
the loop that reads from the DC and sends to the client.

The isolate runs one callback at a time, so a step is what happens
between two `await`s. `chain` is the links of `writeChain` that have not
settled, each with what it has still to write. A write gets its bytes out
bit by bit (`flowed`), while the socket is open; a link rejects over what
is left of its own (`writeFailed`), and behind it the socket takes no
more, so that the links still to come reject too. `close` of the server,
from either side, comes once. `buffered` is `bufferedAmount`; the network
takes bytes off it at any time.
-/
import Wrtg.Rust.Basic

namespace Wrtg.WorkerTunnel

/-- Bytes allowed to queue toward the client before the read loop
pauses. -/
def SEND_HIGH_WATER : Nat := 1 <<< 20

/-- The read loop: at `tcpReader.read`, in its timer, or behind its
`finally`. -/
inductive ReaderPc where
  | reading
  | pausing
  | ended
  deriving DecidableEq, Repr

/-- The `close` listener: not called, waiting for the chain, or through
with closing the socket. -/
inductive Closing where
  | no
  | awaiting
  | done
  deriving DecidableEq, Repr

structure State where
  received : List Bytes
  chain : List Bytes
  toDc : Bytes
  /-- The socket takes writes. -/
  writable : Bool
  /-- `server` takes a `send`. -/
  serverOpen : Bool
  closing : Closing
  reader : ReaderPc
  sent : List Bytes
  buffered : Nat
  deriving DecidableEq, Repr

inductive Action where
  | message (data : Bytes)
  | flowed (bytes : Nat)
  | wrote
  | writeFailed
  | close
  | chainSettled
  | dcRead (value : Bytes)
  | dcEnded
  | timer
  | drained (bytes : Nat)
  deriving DecidableEq, Repr

/-- The `finally` of the read loop. -/
def State.finally (s : State) : State :=
  { s with reader := .ended, writable := false, serverOpen := false }

/-- `while (server.bufferedAmount > SEND_HIGH_WATER)`. -/
def State.pace (s : State) : State :=
  { s with
    reader := if SEND_HIGH_WATER < s.buffered then .pausing else .reading }

def apply : Action → State → Option State
  | .message data, s =>
      if s.closing = .no then
        some { s with received := s.received ++ [data]
                      chain := s.chain ++ [data] }
      else none
  | .flowed bytes, s => match s.chain with
      | data :: chain =>
          if s.writable then
            some { s with chain := data.drop bytes :: chain
                          toDc := s.toDc ++ data.take bytes }
          else none
      | [] => none
  | .wrote, s => match s.chain with
      | [] :: chain => some { s with chain }
      | _ => none
  | .writeFailed, s => match s.chain with
      | _ :: chain =>
          some { s with chain, writable := false, serverOpen := false }
      | [] => none
  | .close, s =>
      if s.closing = .no then
        some { s with closing := .awaiting, serverOpen := false }
      else none
  | .chainSettled, s =>
      if s.closing = .awaiting ∧ s.chain = [] then
        some { s with closing := .done, writable := false }
      else none
  | .dcRead value, s =>
      if s.reader = .reading then
        -- a send on a closed server throws
        if s.serverOpen then
          some { s with sent := s.sent ++ [value]
                        buffered := s.buffered + value.length }.pace
        else some s.finally
      else none
  | .dcEnded, s => if s.reader = .reading then some s.finally else none
  | .timer, s => if s.reader = .pausing then some s.pace else none
  | .drained bytes, s =>
      if bytes ≤ s.buffered then
        some { s with buffered := s.buffered - bytes }
      else none

/-- The socket is open and the pair accepted. -/
def start : State where
  received := []
  chain := []
  toDc := []
  writable := true
  serverOpen := true
  closing := .no
  reader := .reading
  sent := []
  buffered := 0

end Wrtg.WorkerTunnel
