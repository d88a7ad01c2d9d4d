/-
A GET over TLS (`https.rs`, `get_over`), from the response on.

The server is the bytes it sends in time, and whether it closes behind
them in time. The two callers tell a body from an error and nothing else
but log its text, so an error is `none`. The handshake, the request and
the socket options are left out.
-/
import Wrtg.Lib.Search
import Wrtg.Lib.Utf8
import Wrtg.Rust.Basic
import Wrtg.Rust.Text

namespace Wrtg.Https

open Lib

structure Served where
  bytes : Bytes
  closed : Bool
  deriving DecidableEq, Repr

def headEnd : Bytes := [0x0D, 0x0A, 0x0D, 0x0A]

/-- `status.contains(" 200 ")` over the head's first bytes. -/
def statusOk (head : Bytes) : Bool :=
  (Text.splitOnceStr " 200 ".toList (Utf8.lossy (head.take 32))).isSome

/-- `get_over`: the body, without the head. -/
def getOver (maxBody : Nat) (served : Served) : Option Bytes :=
  -- a stream cut off at its limit needs no end of file
  if !served.closed && decide (served.bytes.length ≤ maxBody) then none
  else
    let buf := served.bytes.take (maxBody + 1)
    if buf.length > maxBody then none
    else match position headEnd buf with
      | none => none
      | some k =>
          if statusOk (buf.take k) then some (buf.drop (k + 4)) else none

end Wrtg.Https
