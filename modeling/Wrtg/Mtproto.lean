/-
The obfuscated-MTProto layer (`mtproto.rs`): AES-CTR streams, the init
packet parser, and the two cipher halves a relay session runs.

AES-256 is the third-party block function, the parameter `aes`: a key
and a counter block to sixteen bytes. `Ctr128BE` is the usual counter
mode over it — block `i` of the keystream is the encryption of
`iv + i` as a 128-bit big-endian integer — so a stream object is its
key, its iv and the number of keystream bytes already used.
-/
import Wrtg.Lib.Keystream
import Wrtg.Rust.Basic
import Wrtg.Rust.Text

namespace Wrtg.Mtproto

open Lib

-- ========================================================== constants

def HANDSHAKE_LEN : Nat := 64
def SKIP_LEN : Nat := 8
def PREKEY_LEN : Nat := 32
def IV_LEN : Nat := 16
def PROTO_TAG_POS : Nat := 56

def PROTO_ABRIDGED_INT : UInt32 := 0xEFEFEFEF
def PROTO_INTERMEDIATE_INT : UInt32 := 0xEEEEEEEE
def PROTO_PADDED_INTERMEDIATE_INT : UInt32 := 0xDDDDDDDD

def PROTO_TAG_ABRIDGED : Bytes := [0xef, 0xef, 0xef, 0xef]
def PROTO_TAG_INTERMEDIATE : Bytes := [0xee, 0xee, 0xee, 0xee]
def PROTO_TAG_SECURE : Bytes := [0xdd, 0xdd, 0xdd, 0xdd]

/-- MTProto transport max payload (16 MiB) plus the largest header. -/
def MAX_MTPROTO_PACKET : Nat := 16 * 1024 * 1024 + 4

/-- WebSocket binary frame cap. -/
def MAX_WS_PAYLOAD : Nat := 16 * 1024 * 1024 + 64

-- ============================================================ AES-CTR

/-- The block function: key, counter block, sixteen output bytes. -/
abbrev Aes256 := Bytes → Bytes → Vector UInt8 16

/-- A `Ctr128BE<Aes256>`: `pos` keystream bytes are used up. -/
structure Aes256Ctr where
  key : Bytes
  iv : Bytes
  pos : Nat
  deriving DecidableEq, Repr

/-- The `i`-th counter block: `iv + i` modulo `2 ^ 128`, big-endian. -/
def ctrBlock (iv : Bytes) (i : Nat) : Bytes :=
  beBytes IV_LEN ((beNat iv + i) % 2 ^ 128)

/-- Byte `n` of the keystream of a key and an iv. -/
def keystream (aes : Aes256) (key iv : Bytes) (n : Nat) : UInt8 :=
  (aes key (ctrBlock iv (n / 16))).get ⟨n % 16, Nat.mod_lt n (by decide)⟩

/-- Bytewise combination with a keystream byte. -/
def xorByte (a k : UInt8) : UInt8 := a ^^^ k

/-- `new_from_slices`: the key is 32 bytes and the iv 16, or it is the
crate's `InvalidLength`. -/
def newCtr (key iv : Bytes) : Res Aes256Ctr :=
  if key.length = PREKEY_LEN ∧ iv.length = IV_LEN then
    .ok { key, iv, pos := 0 }
  else .error (.err "Invalid Length")

/-- `apply_keystream`: the processed buffer and the advanced stream. -/
def Aes256Ctr.applyKeystream (aes : Aes256) (c : Aes256Ctr) (buf : Bytes) :
    Bytes × Aes256Ctr :=
  (maskFrom xorByte (keystream aes c.key c.iv) c.pos buf,
    { c with pos := c.pos + buf.length })

-- ======================================================== datacenters

def dcDefaultIps : List (Int × Text) :=
  [(1, "149.154.175.50".toList), (2, "149.154.167.51".toList),
   (3, "149.154.175.100".toList), (4, "149.154.167.91".toList),
   (5, "149.154.171.5".toList), (203, "91.105.192.100".toList)]

structure DcAltEntry where
  dc : Int
  isMedia : Bool
  deriving DecidableEq, Repr

def dcAltIps : List (Text × DcAltEntry) :=
  [("149.154.162.123".toList, { dc := 2, isMedia := true }),
   ("149.154.175.211".toList, { dc := 1, isMedia := true }),
   ("149.154.171.255".toList, { dc := 5, isMedia := true }),
   ("91.108.56.155".toList, { dc := 5, isMedia := true }),
   ("149.154.175.58".toList, { dc := 1, isMedia := false }),
   ("149.154.175.53".toList, { dc := 1, isMedia := false }),
   ("149.154.167.41".toList, { dc := 2, isMedia := false }),
   ("149.154.167.50".toList, { dc := 2, isMedia := false }),
   ("149.154.167.35".toList, { dc := 2, isMedia := false })]

/-- The compiled-in lookup: the alternative table, then the defaults. -/
def dcFromHardcoded (ip : Text) : Option (Int × Bool) :=
  match dcAltIps.lookup ip with
  | some ep => some (ep.dc, ep.isMedia)
  | none => (dcDefaultIps.find? fun d => d.2 == ip).map fun d => (d.1, false)

-- ======================================================= init packets

def validDc (dc : Int) : Bool := (1 ≤ dc && dc ≤ 5) || dc == 203

structure HandshakeInfo where
  dc : Int
  isMedia : Bool
  dcInPkt : Bool
  protoInt : UInt32
  handshake : Bytes
  deriving DecidableEq, Repr

/-- `{:02x}` of one byte. -/
def hex2 (b : UInt8) : String :=
  let digits := "0123456789abcdef".toList
  String.ofList [digits.getD (b.toNat / 16) '0', digits.getD (b.toNat % 16) '0']

/-- `{:02x?}` of a byte array. -/
def hexArray (bs : Bytes) : String :=
  "[" ++ ", ".intercalate (bs.map hex2) ++ "]"

/-- `i16::from_le_bytes`. -/
def i16FromLe (bs : Bytes) : Int := (leNat bs : Int).bmod (2 ^ 16)

/-- Decrypts a direct (non-MTProxy) obfuscated2 init packet. -/
def parseDirectHandshake (aes : Aes256) (handshake : Bytes) :
    Res HandshakeInfo := do
  if handshake.length ≠ HANDSHAKE_LEN then
    .error (.err ("handshake length " ++ toString handshake.length))
  else
    let decKey ← slice handshake SKIP_LEN (SKIP_LEN + PREKEY_LEN)
    let decIv ← slice handshake (SKIP_LEN + PREKEY_LEN)
      (SKIP_LEN + PREKEY_LEN + IV_LEN)
    let stream ← newCtr decKey decIv
    let skip := stream.applyKeystream aes (List.replicate PROTO_TAG_POS 0)
    let enc ← sliceFrom handshake PROTO_TAG_POS
    let tail := (skip.2.applyKeystream aes enc).1
    let tag ← slice tail 0 4
    if tag ≠ PROTO_TAG_ABRIDGED ∧ tag ≠ PROTO_TAG_INTERMEDIATE
        ∧ tag ≠ PROTO_TAG_SECURE then
      .error (.err ("unknown proto tag " ++ hexArray tag))
    else
      let dcIdx := i16FromLe (← slice tail 4 6)
      let dc := if dcIdx < 0 then -dcIdx else dcIdx
      let valid := validDc dc
      let protoInt :=
        if tag = PROTO_TAG_ABRIDGED then PROTO_ABRIDGED_INT
        else if tag = PROTO_TAG_INTERMEDIATE then PROTO_INTERMEDIATE_INT
        else PROTO_PADDED_INTERMEDIATE_INT
      .ok { dc := if valid then dc else 0
            isMedia := valid && decide (dcIdx < 0)
            dcInPkt := valid
            protoInt
            handshake }

def protoTagFor (protoInt : UInt32) : Bytes :=
  if protoInt = PROTO_ABRIDGED_INT then PROTO_TAG_ABRIDGED
  else if protoInt = PROTO_INTERMEDIATE_INT then PROTO_TAG_INTERMEDIATE
  else PROTO_TAG_SECURE

-- ========================================================= relay init

def reservedFirstBytes : List UInt8 := [0xEF]

def reservedStarts : List Bytes :=
  [[0x48, 0x45, 0x41, 0x44], [0x50, 0x4F, 0x53, 0x54],
   [0x47, 0x45, 0x54, 0x20], [0xee, 0xee, 0xee, 0xee],
   [0xdd, 0xdd, 0xdd, 0xdd], [0x16, 0x03, 0x01, 0x02], [0, 0, 0, 0]]

/-- `generate_relay_init` does not draw again after these bytes. -/
def acceptsDraw (rnd : Bytes) : Bool :=
  !(sub rnd 0 1).any reservedFirstBytes.contains
    && !reservedStarts.contains (sub rnd 0 4)
    && !(sub rnd 4 8 == [0, 0, 0, 0])

/-- The signed DC index of a session, as `handle_handshake` casts it. -/
def relayDcIdx (dc : Int) (isMedia : Bool) : Int :=
  (if isMedia then -dc else dc).bmod (2 ^ 16)

/-- The init packet made of an accepted draw. -/
def relayInitFrom (aes : Aes256) (protoTag : Bytes) (dcIdx : Int)
    (rnd : Bytes) : Res Bytes := do
  let encKey ← slice rnd SKIP_LEN (SKIP_LEN + PREKEY_LEN)
  let encIv ← slice rnd (SKIP_LEN + PREKEY_LEN)
    (SKIP_LEN + PREKEY_LEN + IV_LEN)
  let stream ← newCtr encKey encIv
  let encryptedFull := (stream.applyKeystream aes rnd).1
  let dcBytes := leBytes 2 (dcIdx % 2 ^ 16).toNat
  let tailPlain := protoTag ++ dcBytes ++ [← idx rnd 62, ← idx rnd 63]
  let encrypted ← slice encryptedFull PROTO_TAG_POS (PROTO_TAG_POS + 8)
  let drawn ← slice rnd PROTO_TAG_POS (PROTO_TAG_POS + 8)
  let encryptedTail :=
    List.zipWith xorByte (List.zipWith xorByte tailPlain encrypted) drawn
  .ok (rnd.take PROTO_TAG_POS ++ encryptedTail)

/-- Draws until one is accepted; `none` while none was. -/
def generateRelayInit (aes : Aes256) (protoTag : Bytes) (dcIdx : Int) :
    List Bytes → Option (Res Bytes)
  | [] => none
  | rnd :: draws =>
      if !acceptsDraw rnd then generateRelayInit aes protoTag dcIdx draws
      else some (relayInitFrom aes protoTag dcIdx rnd)

-- ===================================================== relay ciphers

structure CryptoCtx where
  cltDec : Aes256Ctr
  cltEnc : Aes256Ctr
  tgEnc : Aes256Ctr
  tgDec : Aes256Ctr
  deriving DecidableEq, Repr

/-- Client to Telegram cipher halves. -/
structure CryptoUp where
  cltDec : Aes256Ctr
  tgEnc : Aes256Ctr
  deriving DecidableEq, Repr

/-- Telegram to client cipher halves. -/
structure CryptoDown where
  tgDec : Aes256Ctr
  cltEnc : Aes256Ctr
  deriving DecidableEq, Repr

/-- Decrypt with `a`, re-encrypt with `b`; both streams advance. -/
def recrypt (aes : Aes256) (a b : Aes256Ctr) (input : Bytes) :
    Bytes × Aes256Ctr × Aes256Ctr :=
  let out := a.applyKeystream aes input
  let out' := b.applyKeystream aes out.1
  (out'.1, out.2, out'.2)

def CryptoCtx.split (c : CryptoCtx) : CryptoUp × CryptoDown :=
  ({ cltDec := c.cltDec, tgEnc := c.tgEnc },
    { tgDec := c.tgDec, cltEnc := c.cltEnc })

def CryptoCtx.buildDirect (aes : Aes256) (handshake relayInit : Bytes) :
    Res CryptoCtx := do
  let cltDecKey ← slice handshake SKIP_LEN (SKIP_LEN + PREKEY_LEN)
  let cltDecIv ← slice handshake (SKIP_LEN + PREKEY_LEN)
    (SKIP_LEN + PREKEY_LEN + IV_LEN)
  let prekeyIv ← slice handshake SKIP_LEN (SKIP_LEN + PREKEY_LEN + IV_LEN)
  let rev := prekeyIv.reverse
  let cltEncKey ← slice rev 0 PREKEY_LEN
  let cltEncIv ← sliceFrom rev PREKEY_LEN
  let cltDec ← newCtr cltDecKey cltDecIv
  let cltEnc ← newCtr cltEncKey cltEncIv
  let cltDec := (cltDec.applyKeystream aes (List.replicate HANDSHAKE_LEN 0)).2
  let relayEncKey ← slice relayInit SKIP_LEN (SKIP_LEN + PREKEY_LEN)
  let relayEncIv ← slice relayInit (SKIP_LEN + PREKEY_LEN)
    (SKIP_LEN + PREKEY_LEN + IV_LEN)
  let relayPrekeyIv ← slice relayInit SKIP_LEN
    (SKIP_LEN + PREKEY_LEN + IV_LEN)
  let relayRev := relayPrekeyIv.reverse
  let relayDecKey ← slice relayRev 0 PREKEY_LEN
  let relayDecIv ← sliceFrom relayRev PREKEY_LEN
  let tgEnc ← newCtr relayEncKey relayEncIv
  let tgDec ← newCtr relayDecKey relayDecIv
  let tgEnc := (tgEnc.applyKeystream aes (List.replicate HANDSHAKE_LEN 0)).2
  .ok { cltDec, cltEnc, tgEnc, tgDec }

def CryptoUp.clientToTelegram (aes : Aes256) (c : CryptoUp) (input : Bytes) :
    Bytes × CryptoUp :=
  let r := recrypt aes c.cltDec c.tgEnc input
  (r.1, { cltDec := r.2.1, tgEnc := r.2.2 })

def CryptoDown.telegramToClient (aes : Aes256) (c : CryptoDown)
    (input : Bytes) : Bytes × CryptoDown :=
  let r := recrypt aes c.tgDec c.cltEnc input
  (r.1, { tgDec := r.2.1, cltEnc := r.2.2 })

/-- CTR stream for the message splitter (relay-side decrypt). -/
def newRelayDecryptStream (aes : Aes256) (relayInit : Bytes) :
    Res Aes256Ctr := do
  let encKey ← slice relayInit SKIP_LEN (SKIP_LEN + PREKEY_LEN)
  let encIv ← slice relayInit (SKIP_LEN + PREKEY_LEN)
    (SKIP_LEN + PREKEY_LEN + IV_LEN)
  let dec ← newCtr encKey encIv
  .ok (dec.applyKeystream aes (List.replicate HANDSHAKE_LEN 0)).2

-- =================================================== small lemmas

@[simp] theorem xorByte_xorByte (a k : UInt8) :
    xorByte (xorByte a k) k = a := by
  unfold xorByte
  rw [UInt8.xor_assoc, UInt8.xor_self, UInt8.xor_zero]

@[simp] theorem applyKeystream_fst (aes : Aes256) (c : Aes256Ctr)
    (buf : Bytes) :
    (c.applyKeystream aes buf).1
      = maskFrom xorByte (keystream aes c.key c.iv) c.pos buf := rfl

@[simp] theorem applyKeystream_snd (aes : Aes256) (c : Aes256Ctr)
    (buf : Bytes) :
    (c.applyKeystream aes buf).2 = { c with pos := c.pos + buf.length } :=
  rfl

theorem newCtr_ok {key iv : Bytes} (hk : key.length = 32)
    (hi : iv.length = 16) : newCtr key iv = .ok { key, iv, pos := 0 } := by
  unfold newCtr
  rw [if_pos ⟨hk, hi⟩]

end Wrtg.Mtproto
