/-
A worker passthrough from end to end: the LAN client, `relay_via_worker`
on the router (`bridge.rs`), the WebSocket, the tunnel of the Worker
(`openwrt/cf-worker.js`), and the DC.

A step is a step of either party. The WebSocket hands on, in both
directions and in order, the messages that have been written to it, each
when the receiver gets to it; what stands on the wire of one party and
has not come to the other is on its way, and stays there once a party
listens no more. That a message is delivered as it was sent is
`Wrtg.Proofs.Ws.Send` and `Wrtg.Proofs.Ws.Recv`.
-/
import Wrtg.RelayViaWorker
import Wrtg.WorkerTunnel

namespace Wrtg.Tunnel

structure State where
  relay : RelayViaWorker.State
  worker : WorkerTunnel.State
  /-- The messages of the Worker that have come to the router. -/
  delivered : List Bytes

inductive Action where
  | relay (a : RelayViaWorker.Action)
  | worker (a : WorkerTunnel.Action)
  deriving DecidableEq

/-- The next message for the router. -/
def State.forRouter (s : State) : Option Bytes :=
  s.worker.sent[s.delivered.length]?

/-- The next message for the Worker. -/
def State.forWorker (s : State) : Option Bytes :=
  s.relay.written[s.worker.received.length]?

def apply (w : Word) : Action → State → Option State
  | .relay (.down (.message payload)), s =>
      if s.forRouter = some payload then
        (RelayViaWorker.apply w (.down (.message payload)) s.relay).map
          fun relay => { s with
            relay, delivered := s.delivered ++ [payload] }
      else none
  | .relay a, s =>
      (RelayViaWorker.apply w a s.relay).map fun relay => { s with relay }
  | .worker (.message data), s =>
      if s.forWorker = some data then
        (WorkerTunnel.apply (.message data) s.worker).map
          fun worker => { s with worker }
      else none
  | .worker a, s =>
      (WorkerTunnel.apply a s.worker).map fun worker => { s with worker }

/-- The Worker has answered 101, and the initial bytes are sent. -/
def start (initial : Bytes) (idle : Option Nat) : State where
  relay := RelayViaWorker.start initial idle
  worker := WorkerTunnel.start
  delivered := []

end Wrtg.Tunnel
