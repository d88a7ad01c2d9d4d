/-
A dial of the CF Worker, seen from both ends: the request of
`connect_cf_worker` (`ws.rs`) and what `fetch` (`openwrt/cf-worker.js`)
answers to it.

The platform between the two is no part of the program: it makes a
`Request`, or nothing, of the head it has read, and is given.
-/
import Wrtg.Lib.Http
import Wrtg.WorkerScript
import Wrtg.WsUpgrade

namespace Wrtg.WorkerDial

open Lib WsUpgrade

/-- What a tunnel is asked for: `connect_cf_worker_ws` and
`connect_cf_worker_tcp`. -/
inductive Tunnel where
  | relay (dc : Int)
  | tcp (dstPort : UInt16)
  deriving DecidableEq

def Tunnel.path (dstIp : Text) : Tunnel → Text
  | .relay dc => cfWorkerPath dstIp dc
  | .tcp dstPort => cfWorkerTcpPath dstIp dstPort

/-- The port a tunnel goes to; the script's own for a relay. -/
def Tunnel.port : Tunnel → Int
  | .relay _ => 443
  | .tcp dstPort => dstPort.toNat

/-- The script's answer to a request of the daemon, if it gets one: the
`connect` it makes. -/
def dialled (platform : Http.Head → Option WorkerScript.Request)
    (token : Option Text) (workerDomain dstIp wsKey : Text) (tunnel : Tunnel)
    (env : WorkerScript.Env) (opened : Bool) : Option WorkerScript.Address :=
  (cfWorkerRequest token workerDomain (tunnel.path dstIp) wsKey).bind
    fun req => (Http.read req).bind fun r => (platform r.1).bind fun request =>
      (WorkerScript.fetch request env opened).1

end Wrtg.WorkerDial
