/-
The message splitter (`splitter.rs`): cuts the relay's ciphertext into
one part per MTProto transport packet by decrypting a copy of it and
reading packet lengths off the plaintext.

`split` keeps two buffers in lock step, the ciphertext it will emit and
the plaintext it measures. A header it cannot decode disables it: the
buffered rest leaves as one part and every later chunk passes through.
The scan loop takes its fuel from the buffer length; running out of it
is a `Panic.outOfFuel`, so a run that returns has terminated.
-/
import Wrtg.Mtproto

namespace Wrtg.Splitter

open Mtproto

structure MsgSplitter where
  dec : Aes256Ctr
  proto : UInt32
  cipherBuf : Bytes
  plainBuf : Bytes
  disabled : Bool
  deriving DecidableEq, Repr

def MsgSplitter.new (aes : Aes256) (relayInit : Bytes) (protoInt : UInt32) :
    Res MsgSplitter := do
  let dec ← newRelayDecryptStream aes relayInit
  .ok { dec, proto := protoInt, cipherBuf := [], plainBuf := []
        disabled := false }

-- ===================================================== packet lengths

/-- The closing test both header formats share: a packet over the cap
is undecodable, an incomplete one waits. -/
def packetVerdict (packetLen avail : Nat) : Int :=
  if packetLen > MAX_MTPROTO_PACKET then 0
  else if avail < packetLen then -1
  else asI32 packetLen

def MsgSplitter.nextAbridgedLen (w : Word) (sp : MsgSplitter)
    (offset avail : Nat) : Res Int := do
  let first ← idx sp.plainBuf offset
  if first = 0x7F ∨ first = 0xFF then
    if avail < 4 then .ok (-1)
    else
      let b ← slice sp.plainBuf (offset + 1) (offset + 4)
      let b0 ← idx b 0
      let b1 ← idx b 1
      let b2 ← idx b 2
      let payloadLen ←
        w.mul (b0.toNat ||| (b1.toNat <<< 8) ||| (b2.toNat <<< 16)) 4
      let packetLen ← w.add 4 payloadLen
      .ok (packetVerdict packetLen avail)
  else
    let payloadLen ← w.mul (first &&& 0x7F).toNat 4
    if payloadLen = 0 then .ok 0
    else
      let packetLen ← w.add 1 payloadLen
      .ok (packetVerdict packetLen avail)

def MsgSplitter.nextIntermediateLen (w : Word) (sp : MsgSplitter)
    (offset avail : Nat) : Res Int := do
  if avail < 4 then .ok (-1)
  else
    let b ← slice sp.plainBuf offset (offset + 4)
    let payloadLen := leNat b &&& 0x7FFFFFFF
    if payloadLen = 0 then .ok 0
    else
      let packetLen ← w.add 4 payloadLen
      .ok (packetVerdict packetLen avail)

def MsgSplitter.nextPacketLen (w : Word) (sp : MsgSplitter)
    (offset avail : Nat) : Res Int :=
  if avail = 0 then .ok (-1)
  else if sp.proto = PROTO_ABRIDGED_INT then sp.nextAbridgedLen w offset avail
  else if sp.proto = PROTO_INTERMEDIATE_INT
      ∨ sp.proto = PROTO_PADDED_INTERMEDIATE_INT then
    sp.nextIntermediateLen w offset avail
  else .ok 0

-- ============================================================== split

/-- The scan loop of `split`: parts, final offset, and whether a header
was undecodable. -/
def MsgSplitter.scan (w : Word) (sp : MsgSplitter) :
    Nat → Nat → Res (List Bytes × Nat × Bool)
  | 0, offset =>
      if offset < sp.cipherBuf.length then .error (.panic .outOfFuel)
      else .ok ([], offset, false)
  | fuel + 1, offset => do
      if offset < sp.cipherBuf.length then
        let bufLen := sp.cipherBuf.length
        let packetLen ← sp.nextPacketLen w offset (bufLen - offset)
        if packetLen = -1 then .ok ([], offset, false)
        else if packetLen = 0 then
          let rest ← sliceFrom sp.cipherBuf offset
          .ok ([rest], bufLen, true)
        else
          let n := w.ofI32 packetLen
          let part ← slice sp.cipherBuf offset (offset + n)
          let r ← sp.scan w fuel (offset + n)
          .ok (part :: r.1, r.2)
      else .ok ([], offset, false)

def MsgSplitter.split (w : Word) (aes : Aes256) (sp : MsgSplitter)
    (chunk : Bytes) : Res (List Bytes × MsgSplitter) := do
  if chunk.isEmpty then .ok ([], sp)
  else if sp.disabled then .ok ([chunk], sp)
  else
    let plain := sp.dec.applyKeystream aes chunk
    let sp := { sp with cipherBuf := sp.cipherBuf ++ chunk
                        dec := plain.2
                        plainBuf := sp.plainBuf ++ plain.1 }
    let (parts, offset, undecodable) ← sp.scan w sp.cipherBuf.length 0
    let sp := { sp with disabled := undecodable }
    if offset > 0 then
      let cipherBuf ← sliceFrom sp.cipherBuf offset
      let plainBuf ← sliceFrom sp.plainBuf offset
      .ok (parts, { sp with cipherBuf, plainBuf })
    else .ok (parts, sp)

def MsgSplitter.flush (sp : MsgSplitter) : List Bytes × MsgSplitter :=
  if sp.cipherBuf.isEmpty then ([], sp)
  else ([sp.cipherBuf], { sp with cipherBuf := [], plainBuf := [] })

end Wrtg.Splitter
