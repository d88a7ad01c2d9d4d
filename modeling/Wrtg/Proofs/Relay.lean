/-
The re-encrypting relay is transparent end to end (`mtproto.rs`,
`CryptoCtx`).

# The abstract relay

An init packet fixes two keystreams: the forward one, keyed by bytes
`8..40` with iv `40..56`, and the reverse one, keyed by the reversal of
bytes `8..56`. The client owns one init packet and the relay another;
the first 64 keystream bytes of a forward stream are spent on the init
packet itself, those of a reverse stream are not. So the uplink is

    P  --forward H, from 64-->  wire  --relay-->  P under forward R, from 64

and the downlink the same with the reverse streams from 0.

# Why the cut cannot matter

Each half of `CryptoCtx` is two keystreams in a row, a keystream is a
chunk homomorphism, homomorphisms compose, and the two halves share no
state: `feed_flatten` and `feed_par_left`/`feed_par_right` then leave
only the four key slices to check (`buildDirect_ok`).
-/
import Wrtg.Mtproto

namespace Wrtg.Mtproto

open Lib

variable (aes : Aes256)

-- ================================================ the two keystreams

/-- The keystream an init packet encrypts its own direction with. -/
def forwardKs (init : Bytes) : Nat → UInt8 :=
  keystream aes (sub init 8 40) (sub init 40 56)

/-- The keystream of the opposite direction: key and iv are read off
the reversal of bytes `8..56`. -/
def reverseKs (init : Bytes) : Nat → UInt8 :=
  keystream aes ((sub init 8 56).reverse.take 32)
    ((sub init 8 56).reverse.drop 32)

/-- The context two init packets build, field by field. -/
def directCtx (handshake relayInit : Bytes) : CryptoCtx where
  cltDec := { key := sub handshake 8 40, iv := sub handshake 40 56, pos := 64 }
  cltEnc := { key := (sub handshake 8 56).reverse.take 32
              iv := (sub handshake 8 56).reverse.drop 32
              pos := 0 }
  tgEnc := { key := sub relayInit 8 40, iv := sub relayInit 40 56, pos := 64 }
  tgDec := { key := (sub relayInit 8 56).reverse.take 32
             iv := (sub relayInit 8 56).reverse.drop 32
             pos := 0 }

/-- The straight and reversed slices of a 64-byte init packet are in
range and have the lengths the cipher wants. -/
theorem init_slices {init : Bytes} (h : init.length = HANDSHAKE_LEN) :
    slice init SKIP_LEN (SKIP_LEN + PREKEY_LEN) = .ok (sub init 8 40)
      ∧ slice init (SKIP_LEN + PREKEY_LEN) (SKIP_LEN + PREKEY_LEN + IV_LEN)
          = .ok (sub init 40 56)
      ∧ slice init SKIP_LEN (SKIP_LEN + PREKEY_LEN + IV_LEN)
          = .ok (sub init 8 56)
      ∧ slice (sub init 8 56).reverse 0 PREKEY_LEN
          = .ok ((sub init 8 56).reverse.take 32)
      ∧ sliceFrom (sub init 8 56).reverse PREKEY_LEN
          = .ok ((sub init 8 56).reverse.drop 32) := by
  have h64 : init.length = 64 := h
  have hmid : (sub init 8 56).length = 48 := by
    rw [sub_length, h64]
    decide
  refine ⟨slice_ok (by decide) ?_, slice_ok (by decide) ?_,
    slice_ok (by decide) ?_, ?_, sliceFrom_ok ?_⟩
  · rw [h64]; decide
  · rw [h64]; decide
  · rw [h64]; decide
  · rw [slice_ok (by decide) (by rw [List.length_reverse, hmid]; decide)]
    rfl
  · rw [List.length_reverse, hmid]; decide

/-- The key and iv lengths of a 64-byte init packet. -/
theorem init_lengths {init : Bytes}
    (h : init.length = HANDSHAKE_LEN) :
    (sub init 8 40).length = 32 ∧ (sub init 40 56).length = 16
      ∧ ((sub init 8 56).reverse.take 32).length = 32
      ∧ ((sub init 8 56).reverse.drop 32).length = 16 := by
  have h64 : init.length = 64 := h
  simp [sub_length, h64]

/-- Two 64-byte init packets always build a context, and it is the one
the key slices say. -/
theorem buildDirect_ok {handshake relayInit : Bytes}
    (hH : handshake.length = HANDSHAKE_LEN)
    (hR : relayInit.length = HANDSHAKE_LEN) :
    CryptoCtx.buildDirect aes handshake relayInit
      = .ok (directCtx handshake relayInit) := by
  obtain ⟨h1, h2, h3, h4, h5⟩ := init_slices hH
  obtain ⟨r1, r2, r3, r4, r5⟩ := init_slices hR
  obtain ⟨lh1, lh2, lh3, lh4⟩ := init_lengths hH
  obtain ⟨lr1, lr2, lr3, lr4⟩ := init_lengths hR
  unfold CryptoCtx.buildDirect
  simp only [h1, h2, h3, h4, h5, r1, r2, r3, r4, r5, bind, Except.bind,
    newCtr_ok lh1 lh2, newCtr_ok lh3 lh4, newCtr_ok lr1 lr2,
    newCtr_ok lr3 lr4, applyKeystream_snd, List.length_replicate]
  rfl

/-- The splitter's decryption stream is the forward one, 64 bytes
in. -/
theorem newRelayDecryptStream_ok {relayInit : Bytes}
    (hR : relayInit.length = HANDSHAKE_LEN) :
    newRelayDecryptStream aes relayInit
      = .ok { key := sub relayInit 8 40, iv := sub relayInit 40 56
              pos := 64 } := by
  obtain ⟨h1, h2, -, -, -⟩ := init_slices hR
  obtain ⟨l1, l2, -, -⟩ := init_lengths hR
  unfold newRelayDecryptStream
  simp only [h1, h2, bind, Except.bind, newCtr_ok l1 l2, applyKeystream_snd,
    List.length_replicate]
  rfl

-- ==================================================== the two halves

/-- The uplink half answers one chunk with the re-encrypted chunk. -/
theorem clientToTelegram_eq (c : CryptoUp) (input : Bytes) :
    c.clientToTelegram aes input
      = (maskFrom xorByte (keystream aes c.tgEnc.key c.tgEnc.iv) c.tgEnc.pos
          (maskFrom xorByte (keystream aes c.cltDec.key c.cltDec.iv)
            c.cltDec.pos input),
        { cltDec := { c.cltDec with pos := c.cltDec.pos + input.length }
          tgEnc := { c.tgEnc with pos := c.tgEnc.pos + input.length } }) := by
  simp [CryptoUp.clientToTelegram, recrypt, applyKeystream_fst,
    applyKeystream_snd]

/-- The downlink half answers one chunk with the re-encrypted chunk. -/
theorem telegramToClient_eq (c : CryptoDown) (input : Bytes) :
    c.telegramToClient aes input
      = (maskFrom xorByte (keystream aes c.cltEnc.key c.cltEnc.iv)
          c.cltEnc.pos
          (maskFrom xorByte (keystream aes c.tgDec.key c.tgDec.iv)
            c.tgDec.pos input),
        { tgDec := { c.tgDec with pos := c.tgDec.pos + input.length }
          cltEnc := { c.cltEnc with
                      pos := c.cltEnc.pos + input.length } }) := by
  simp [CryptoDown.telegramToClient, recrypt, applyKeystream_fst,
    applyKeystream_snd]

/-- The uplink half cannot see where the stream was cut. -/
theorem clientToTelegram_hom : ChunkHom (CryptoUp.clientToTelegram aes) where
  nil s := by simp [clientToTelegram_eq]
  append s a b := by
    simp only [clientToTelegram_eq, maskFrom_append, maskFrom_length,
      List.length_append, Nat.add_assoc]

/-- The downlink half cannot see where the stream was cut. -/
theorem telegramToClient_hom :
    ChunkHom (CryptoDown.telegramToClient aes) where
  nil s := by simp [telegramToClient_eq]
  append s a b := by
    simp only [telegramToClient_eq, maskFrom_append, maskFrom_length,
      List.length_append, Nat.add_assoc]

/-- The context of two init packets makes of a stream under the client's
the stream under the relay's. -/
theorem directCtx_up (H R P : Bytes) :
    ((directCtx H R).split.1.clientToTelegram aes
        (maskFrom xorByte (forwardKs aes H) 64 P)).1
      = maskFrom xorByte (forwardKs aes R) 64 P := by
  rw [clientToTelegram_eq]
  exact congrArg _ (maskFrom_maskFrom xorByte (forwardKs aes H)
    xorByte_xorByte 64 P)

/-- And the other way round. -/
theorem directCtx_down (H R Q : Bytes) :
    ((directCtx H R).split.2.telegramToClient aes
        (maskFrom xorByte (reverseKs aes R) 0 Q)).1
      = maskFrom xorByte (reverseKs aes H) 0 Q := by
  rw [telegramToClient_eq]
  exact congrArg _ (maskFrom_maskFrom xorByte (reverseKs aes R)
    xorByte_xorByte 0 Q)

-- ==================================================== the relay session

/-- A relay session: chunks of the two directions in any order, the
client's on the left and the server's on the right. -/
def relaySession (halves : CryptoUp × CryptoDown)
    (ops : List (Bytes ⊕ Bytes)) : List (Bytes ⊕ Bytes) :=
  (feed (par (CryptoUp.clientToTelegram aes)
    (CryptoDown.telegramToClient aes)) halves ops).1

/-- The uplink of a session is one application of the uplink half to
the whole client stream. -/
theorem relaySession_up (halves : CryptoUp × CryptoDown)
    (ops : List (Bytes ⊕ Bytes)) :
    (lefts (relaySession aes halves ops)).flatten
      = (halves.1.clientToTelegram aes (lefts ops).flatten).1 := by
  unfold relaySession
  rw [feed_par_left]
  exact congrArg Prod.fst
    (feed_flatten (clientToTelegram_hom aes) halves.1 (lefts ops))

/-- The downlink of a session is one application of the downlink half
to the whole server stream. -/
theorem relaySession_down (halves : CryptoUp × CryptoDown)
    (ops : List (Bytes ⊕ Bytes)) :
    (rights (relaySession aes halves ops)).flatten
      = (halves.2.telegramToClient aes (rights ops).flatten).1 := by
  unfold relaySession
  rw [feed_par_right]
  exact congrArg Prod.fst
    (feed_flatten (telegramToClient_hom aes) halves.2 (rights ops))

/-- End-to-end transparency: whatever the chunks and however the two
directions interleave, what leaves the relay upwards is the client's
plaintext under the relay's own forward stream, and what leaves it
downwards is the server's plaintext under the client's reverse
stream. -/
theorem relay_transparent (H R P Q : Bytes)
    (hH : H.length = HANDSHAKE_LEN) (hR : R.length = HANDSHAKE_LEN)
    (ops : List (Bytes ⊕ Bytes))
    (hup : (lefts ops).flatten = maskFrom xorByte (forwardKs aes H) 64 P)
    (hdown : (rights ops).flatten
      = maskFrom xorByte (reverseKs aes R) 0 Q) :
    ∃ ctx, CryptoCtx.buildDirect aes H R = .ok ctx
      ∧ (lefts (relaySession aes ctx.split ops)).flatten
          = maskFrom xorByte (forwardKs aes R) 64 P
      ∧ (rights (relaySession aes ctx.split ops)).flatten
          = maskFrom xorByte (reverseKs aes H) 0 Q := by
  refine ⟨directCtx H R, buildDirect_ok aes hH hR, ?_, ?_⟩
  · rw [relaySession_up, hup, clientToTelegram_eq]
    show maskFrom xorByte (forwardKs aes R) 64
      (maskFrom xorByte (forwardKs aes H) 64
        (maskFrom xorByte (forwardKs aes H) 64 P)) = _
    rw [maskFrom_maskFrom xorByte _ xorByte_xorByte]
  · rw [relaySession_down, hdown, telegramToClient_eq]
    show maskFrom xorByte (reverseKs aes H) 0
      (maskFrom xorByte (reverseKs aes R) 0
        (maskFrom xorByte (reverseKs aes R) 0 Q)) = _
    rw [maskFrom_maskFrom xorByte _ xorByte_xorByte]

-- ==================================================== the test vector

/-- The client init packet of `crypto_matches_go_deterministic`. -/
def sampleClient : Bytes := beBytes 64
  0x5514212e050607086f7c8996a3b0bdcad7e4f1fe0b1825323f4c596673808d9aa7b4c1cedbe8f5020f1c293643505d6a7784919eabb8c5d214afaf44beeb4655

/-- The relay init packet of `crypto_matches_go_deterministic`. -/
def sampleRelay : Bytes := beBytes 64
  0x4230415201020304a7b8c9daebfc0d1e2f405162738495a6b7c8d9eafb0c1d2e3f5061728394a5b6c7d8e9fa0b1c2d3e4f60718293a4b5c6a3a408a01644ebfc

/-- AES-256 at the counter blocks the sample packets reach: key, block
and ciphertext as numbers. -/
def sampleBlocks : List (Nat × Nat × Nat) :=
  [(0x6f7c8996a3b0bdcad7e4f1fe0b1825323f4c596673808d9aa7b4c1cedbe8f502,
    0x0f1c293643505d6a7784919eabb8c5d5, 0xccb98b4bbe38f473fb4040abbfeb6b6f),
   (0x6f7c8996a3b0bdcad7e4f1fe0b1825323f4c596673808d9aa7b4c1cedbe8f502,
    0x0f1c293643505d6a7784919eabb8c5d6, 0x419f6555eff2d7356b594d66daa2822a),
   (0xa7b8c9daebfc0d1e2f405162738495a6b7c8d9eafb0c1d2e3f5061728394a5b6,
    0xc7d8e9fa0b1c2d3e4f60718293a4b5ca, 0x156e85001793e59163dd5d72add71af8),
   (0xd2c5b8ab9e9184776a5d504336291c0f02f5e8dbcec1b4a79a8d807366594c3f,
    0x3225180bfef1e4d7cabdb0a396897c6f, 0xb0ff09123086679dbcb31a1ca535e254),
   (0xc6b5a4938271604f3e2d1c0bfae9d8c7b6a594837261503f2e1d0cfbead9c8b7,
    0xa69584736251402f1e0dfcebdac9b8a7, 0x4346e6d0154e851fb1663aac485bee10)]

/-- AES-256 on the blocks of `sampleBlocks`, zero elsewhere. -/
def sampleAes : Aes256 := fun key block =>
  let hit := sampleBlocks.find? fun e =>
    e.1 == beNat key && e.2.1 == beNat block
  let out := beBytes 16 ((hit.map fun e => e.2.2).getD 0)
  Vector.ofFn fun i => out.getD i 0

/-- The eight bytes the deterministic test feeds both directions. -/
def sampleIn : Bytes := [0x10, 0x20, 0x30, 0x40, 0x50, 0x60, 0x70, 0x80]

/-- The sample session, cut and interleaved. -/
def sampleOps : List (Bytes ⊕ Bytes) :=
  [.inl (sampleIn.take 3), .inr (sampleIn.take 5), .inl [],
    .inr (sampleIn.drop 5), .inl (sampleIn.drop 3)]

/-- The transparency statement on the repository's own test vector. -/
theorem relay_transparent_sample :
    ∃ ctx, CryptoCtx.buildDirect sampleAes sampleClient sampleRelay = .ok ctx
      ∧ (lefts (relaySession sampleAes ctx.split sampleOps)).flatten
          = maskFrom xorByte (forwardKs sampleAes sampleRelay) 64
              (maskFrom xorByte (forwardKs sampleAes sampleClient) 64 sampleIn)
      ∧ (rights (relaySession sampleAes ctx.split sampleOps)).flatten
          = maskFrom xorByte (reverseKs sampleAes sampleClient) 0
              (maskFrom xorByte (reverseKs sampleAes sampleRelay) 0
                sampleIn) :=
  relay_transparent sampleAes sampleClient sampleRelay _ _
    (by decide) (by decide) sampleOps
    (by rw [maskFrom_maskFrom xorByte _ xorByte_xorByte]; rfl)
    (by rw [maskFrom_maskFrom xorByte _ xorByte_xorByte]; rfl)

example : (maskFrom xorByte (forwardKs sampleAes sampleRelay) 64
    (maskFrom xorByte (forwardKs sampleAes sampleClient) 64 sampleIn))
    = beBytes 8 0x44d1d015a8014224 := by decide +kernel

example : (maskFrom xorByte (reverseKs sampleAes sampleClient) 0
    (maskFrom xorByte (reverseKs sampleAes sampleRelay) 0 sampleIn))
    = beBytes 8 0xe399df8275a89202 := by decide +kernel

end Wrtg.Mtproto
