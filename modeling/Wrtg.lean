import Wrtg.Proofs.Splitter.Run
import Wrtg.Proofs.Splitter.Bounds
import Wrtg.Proofs.Ws.Recv
import Wrtg.Proofs.Ws.Send
import Wrtg.Proofs.Handshake
import Wrtg.Proofs.Segmentation
import Wrtg.Proofs.DcLearn
import Wrtg.Proofs.CfPool
import Wrtg.Proofs.CfProxyRetry
import Wrtg.Proofs.CfProxyWindow
import Wrtg.Proofs.RelayInit
import Wrtg.Proofs.RelayStart
import Wrtg.Proofs.Backoff
import Wrtg.Proofs.WsSkip
import Wrtg.Proofs.Activity
import Wrtg.Proofs.Settings.SetKey
import Wrtg.Proofs.Settings.KvLine
import Wrtg.Proofs.Bridge
import Wrtg.Proofs.CfWorkerMarks
import Wrtg.Proofs.CfRace
import Wrtg.Proofs.Fronts
import Wrtg.Proofs.TtlMap
import Wrtg.Proofs.Cidr
import Wrtg.Proofs.WorkerScript
import Wrtg.Proofs.ConnPool.Idle
import Wrtg.Proofs.ConnPool.Refill
import Wrtg.Proofs.ConnPool.Safety
import Wrtg.Proofs.TlsSni.HttpHost
import Wrtg.Proofs.Media
import Wrtg.Proofs.Doh.Answer
import Wrtg.Proofs.Tunnel
import Wrtg.Proofs.BridgeStream
import Wrtg.Proofs.TcpBridge
import Wrtg.Proofs.Daemon
import Wrtg.Proofs.WsUpgrade
import Wrtg.Proofs.WorkerDial
import Wrtg.Proofs.CfProxyFetch
import Wrtg.Proofs.DohResolver
import Wrtg.Proofs.CfProxy
import Wrtg.Proofs.CfProxyCooldown
import Wrtg.Proofs.DirectDial
import Wrtg.Proofs.Heap
import Wrtg.Proofs.Snapshot
import Wrtg.Proofs.CfWorker
