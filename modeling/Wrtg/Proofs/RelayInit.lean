/-
The DC, the media flag and the transport survive the re-handshake
(`mtproto.rs`, `generate_relay_init` against `parse_direct_handshake`).

# One decryption

Encoder and decoder both work on the packet under its own forward
keystream, `decryptedInit`. The encoder keeps bytes `0..56` of its draw,
so the keystream it patches the tail with is the one the decoder
derives (`forwardKs_congr`), and the last eight bytes it writes are
`tail_plain` under that keystream: the two other terms of its double
exclusive or are the draw and the draw again (`zipWith_cancel`). What
the decoder reads at `56..62` is then the tag and the DC index, and the
index is a signed 16-bit number on both sides (`i16FromLe_relayDcIdx`).
-/
import Wrtg.Proofs.Relay

namespace Wrtg.Mtproto

open Lib

-- ======================================================= the decryption

/-- The three transport tags. -/
def protoTags : List Bytes :=
  [PROTO_TAG_ABRIDGED, PROTO_TAG_INTERMEDIATE, PROTO_TAG_SECURE]

/-- An init packet under its own forward keystream. -/
def decryptedInit (aes : Aes256) (init : Bytes) : Bytes :=
  maskFrom xorByte (forwardKs aes init) 0 init

/-- The tag an init packet carries. -/
def initTag (aes : Aes256) (init : Bytes) : Bytes :=
  sub (decryptedInit aes init) 56 60

/-- The signed DC index an init packet carries. -/
def initDcIdx (aes : Aes256) (init : Bytes) : Int :=
  i16FromLe (sub (decryptedInit aes init) 60 62)

/-- The transport a tag stands for. -/
def protoOfTag (tag : Bytes) : UInt32 :=
  if tag = PROTO_TAG_ABRIDGED then PROTO_ABRIDGED_INT
  else if tag = PROTO_TAG_INTERMEDIATE then PROTO_INTERMEDIATE_INT
  else PROTO_PADDED_INTERMEDIATE_INT

/-- What the parser makes of a packet whose tag it knows. -/
def infoOf (aes : Aes256) (init : Bytes) : HandshakeInfo :=
  let dcIdx := initDcIdx aes init
  let dc := if dcIdx < 0 then -dcIdx else dcIdx
  { dc := if validDc dc then dc else 0
    isMedia := validDc dc && decide (dcIdx < 0)
    dcInPkt := validDc dc
    protoInt := protoOfTag (initTag aes init)
    handshake := init }

/-- A 16-bit index is one, and its absolute value fits an `i32`. -/
theorem i16FromLe_bounds (bs : Bytes) :
    -(2 ^ 15) ≤ i16FromLe bs ∧ i16FromLe bs < 2 ^ 15 := by
  unfold i16FromLe
  have hlo := Int.le_bmod (x := (leNat bs : Int)) (m := 2 ^ 16) (by decide)
  have hhi := Int.bmod_lt (x := (leNat bs : Int)) (m := 2 ^ 16) (by decide)
  omega

/-- The parser reads the tag and the index off the decrypted packet. -/
theorem parseDirectHandshake_eq (aes : Aes256) {init : Bytes}
    (h : init.length = HANDSHAKE_LEN) :
    parseDirectHandshake aes init
      = if initTag aes init ∉ protoTags then
          .error (.err
            ("unknown proto tag " ++ hexArray (initTag aes init)))
        else .ok (infoOf aes init) := by
  have h64 : init.length = 64 := h
  obtain ⟨hkey, hiv, -, -, -⟩ := init_slices h
  obtain ⟨lkey, liv, -, -⟩ := init_lengths h
  -- the stream stands at 56 when it meets the tail
  have htail : maskFrom xorByte
        (keystream aes (sub init 8 40) (sub init 40 56))
        (0 + PROTO_TAG_POS) (init.drop PROTO_TAG_POS)
      = (decryptedInit aes init).drop 56 := by
    unfold decryptedInit forwardKs
    rw [maskFrom_drop]
    rfl
  have hlen : ((decryptedInit aes init).drop 56).length = 8 := by
    rw [List.length_drop, decryptedInit, maskFrom_length, h64]
  have htag : slice ((decryptedInit aes init).drop 56) 0 4
      = .ok (initTag aes init) := by
    rw [slice_ok (by decide) (by rw [hlen]; decide)]
    rfl
  have hidx : slice ((decryptedInit aes init).drop 56) 4 6
      = .ok (sub (decryptedInit aes init) 60 62) := by
    rw [slice_ok (by decide) (by rw [hlen]; decide)]
    simp [sub]
  have hmem : (initTag aes init ≠ PROTO_TAG_ABRIDGED
      ∧ initTag aes init ≠ PROTO_TAG_INTERMEDIATE
      ∧ initTag aes init ≠ PROTO_TAG_SECURE)
      ↔ initTag aes init ∉ protoTags := by
    simp [protoTags]
  unfold parseDirectHandshake
  rw [if_neg (not_not.mpr h)]
  simp only [hkey, hiv, bind, Except.bind, newCtr_ok lkey liv,
    sliceFrom_ok (show PROTO_TAG_POS ≤ init.length by rw [h64]; decide),
    applyKeystream_fst, applyKeystream_snd, List.length_replicate]
  rw [htail, htag]
  simp only [hmem, hidx]
  rfl

-- ======================================================== the encoder

/-- A keystream belongs to the first 56 bytes of its packet. -/
theorem forwardKs_congr (aes : Aes256) {a b : Bytes}
    (h : a.take 56 = b.take 56) : forwardKs aes a = forwardKs aes b := by
  have hcut : ∀ xs : Bytes, ∀ i j : Nat, j ≤ 56 →
      sub xs i j = sub (xs.take 56) i j := by
    intro xs i j hj
    simp only [sub, List.drop_take, List.take_take]
    rw [show min (j - i) (56 - i) = j - i by omega]
  unfold forwardKs
  rw [hcut a 8 40 (by decide), hcut a 40 56 (by decide), h,
    ← hcut b 8 40 (by decide), ← hcut b 40 56 (by decide)]

/-- The two draws in the encoder's double exclusive or cancel. -/
theorem zipWith_cancel {ks : Nat → UInt8} {off : Nat} {plain drawn : Bytes}
    (h : plain.length = drawn.length) :
    List.zipWith xorByte
        (List.zipWith xorByte plain (maskFrom xorByte ks off drawn)) drawn
      = maskFrom xorByte ks off plain := by
  induction plain generalizing off drawn with
  | nil => rfl
  | cons p ps ih =>
      cases drawn with
      | nil => simp at h
      | cons d ds =>
          have hps : ps.length = ds.length := by simpa using h
          have hone : xorByte (xorByte p (xorByte d (ks off))) d
              = xorByte p (ks off) := by
            unfold xorByte
            rw [UInt8.xor_comm d, ← UInt8.xor_assoc, UInt8.xor_assoc,
              UInt8.xor_self, UInt8.xor_zero]
          simp only [maskFrom, List.zipWith_cons_cons, ih hps, hone]

/-- The eight bytes the encoder writes under the keystream. -/
def tailPlain (protoTag : Bytes) (dcIdx : Int) (rnd : Bytes) : Bytes :=
  protoTag ++ leBytes 2 (dcIdx % 2 ^ 16).toNat
    ++ [rnd.getD 62 0, rnd.getD 63 0]

/-- The packet the encoder returns. -/
def relayPacket (aes : Aes256) (protoTag : Bytes) (dcIdx : Int)
    (rnd : Bytes) : Bytes :=
  rnd.take 56
    ++ maskFrom xorByte (forwardKs aes rnd) 56 (tailPlain protoTag dcIdx rnd)

@[simp] theorem tailPlain_length {protoTag : Bytes} (dcIdx : Int)
    (rnd : Bytes) (ht : protoTag.length = 4) :
    (tailPlain protoTag dcIdx rnd).length = 8 := by
  simp [tailPlain, ht]

/-- A 64-byte draw always makes a packet. -/
theorem relayInitFrom_eq (aes : Aes256) {protoTag : Bytes} (dcIdx : Int)
    {rnd : Bytes} (ht : protoTag.length = 4)
    (h : rnd.length = HANDSHAKE_LEN) :
    relayInitFrom aes protoTag dcIdx rnd
      = .ok (relayPacket aes protoTag dcIdx rnd) := by
  have h64 : rnd.length = 64 := h
  obtain ⟨hkey, hiv, -, -, -⟩ := init_slices h
  obtain ⟨lkey, liv, -, -⟩ := init_lengths h
  have henc : slice (maskFrom xorByte
        (keystream aes (sub rnd 8 40) (sub rnd 40 56)) 0 rnd)
        PROTO_TAG_POS (PROTO_TAG_POS + 8)
      = .ok (maskFrom xorByte (forwardKs aes rnd) 56 (sub rnd 56 64)) := by
    rw [slice_ok (by decide) (by rw [maskFrom_length, h64]; decide)]
    show Except.ok ((List.drop 56 (maskFrom xorByte (forwardKs aes rnd) 0
      rnd)).take 8) = _
    rw [maskFrom_drop, maskFrom_take]
    rfl
  have hdrawn : slice rnd PROTO_TAG_POS (PROTO_TAG_POS + 8)
      = .ok (sub rnd 56 64) :=
    slice_ok (by decide) (by rw [h64]; decide)
  have h62 : idx rnd 62 = .ok (rnd.getD 62 0) := by
    rw [idx_ok (show 62 < rnd.length by omega)]
    simp [h64]
  have h63 : idx rnd 63 = .ok (rnd.getD 63 0) := by
    rw [idx_ok (show 63 < rnd.length by omega)]
    simp [h64]
  have hdlen : (tailPlain protoTag dcIdx rnd).length
      = (sub rnd 56 64).length := by
    rw [tailPlain_length dcIdx rnd ht, sub_length, h64]
    rfl
  unfold relayInitFrom
  simp only [hkey, hiv, bind, Except.bind, newCtr_ok lkey liv,
    applyKeystream_fst, henc, hdrawn, h62, h63]
  exact congrArg (fun tail => Except.ok (rnd.take 56 ++ tail))
    (zipWith_cancel hdlen)

/-- Draws that are refused do not show in the packet. -/
theorem generateRelayInit_skip (aes : Aes256) (protoTag : Bytes)
    (dcIdx : Int) {refused : List Bytes} {rnd : Bytes} (rest : List Bytes)
    (hno : ∀ r ∈ refused, acceptsDraw r = false)
    (hyes : acceptsDraw rnd = true) :
    generateRelayInit aes protoTag dcIdx (refused ++ rnd :: rest)
      = some (relayInitFrom aes protoTag dcIdx rnd) := by
  induction refused with
  | nil => simp [generateRelayInit, hyes]
  | cons r rs ih =>
      have hr : acceptsDraw r = false := hno r (List.mem_cons_self ..)
      have hrs := ih fun x hx => hno x (List.mem_cons_of_mem _ hx)
      simpa [generateRelayInit, hr] using hrs

-- ===================================================== the round trip

/-- The decoder sees the encoder's plaintext tail. -/
theorem decryptedInit_relayPacket (aes : Aes256) (protoTag : Bytes)
    (dcIdx : Int) {rnd : Bytes} (h : rnd.length = HANDSHAKE_LEN) :
    (decryptedInit aes (relayPacket aes protoTag dcIdx rnd)).drop 56
      = tailPlain protoTag dcIdx rnd := by
  have h64 : rnd.length = 64 := h
  have htake : (rnd.take 56).length = 56 := by
    rw [List.length_take, h64]
    rfl
  have hks : forwardKs aes (relayPacket aes protoTag dcIdx rnd)
      = forwardKs aes rnd := by
    apply forwardKs_congr
    unfold relayPacket
    rw [List.take_append_of_le_length (by omega), List.take_take]
    rfl
  unfold decryptedInit
  rw [hks, maskFrom_drop]
  unfold relayPacket
  rw [List.drop_append_of_le_length (by omega),
    List.drop_of_length_le (by omega), List.nil_append, Nat.zero_add,
    maskFrom_maskFrom xorByte _ xorByte_xorByte]

/-- A signed index of a valid DC comes back from its two bytes. -/
theorem i16FromLe_relayDcIdx {dc : Int} (hdc : validDc dc = true)
    (isMedia : Bool) :
    i16FromLe (leBytes 2 (relayDcIdx dc isMedia % 2 ^ 16).toNat)
      = if isMedia then -dc else dc := by
  have hrange : 1 ≤ dc ∧ dc ≤ 203 := by
    simp [validDc] at hdc
    omega
  have hlt : (relayDcIdx dc isMedia % 2 ^ 16).toNat < 256 ^ 2 := by
    omega
  unfold i16FromLe
  rw [leNat_leBytes hlt]
  unfold relayDcIdx
  cases isMedia with
  | false => simp only [Bool.false_eq_true, if_false]; grind [Int.bmod_def]
  | true => simp only [if_true]; grind [Int.bmod_def]

theorem protoTagFor_length (protoInt : UInt32) :
    (protoTagFor protoInt).length = 4 := by
  unfold protoTagFor
  split
  · rfl
  · split <;> rfl

/-- The three transports the parser can answer. -/
def protoInts : List UInt32 :=
  [PROTO_ABRIDGED_INT, PROTO_INTERMEDIATE_INT, PROTO_PADDED_INTERMEDIATE_INT]

/-- A transport's tag is known and stands for that transport. -/
theorem protoTagFor_mem {protoInt : UInt32} (h : protoInt ∈ protoInts) :
    protoTagFor protoInt ∈ protoTags
      ∧ protoOfTag (protoTagFor protoInt) = protoInt := by
  simp only [protoInts, List.mem_cons, List.not_mem_nil, or_false] at h
  rcases h with rfl | rfl | rfl <;> decide

/-- The tag it was made with reads back. -/
theorem initTag_relayPacket (aes : Aes256) {protoTag : Bytes} (dcIdx : Int)
    {rnd : Bytes} (ht : protoTag.length = 4)
    (h : rnd.length = HANDSHAKE_LEN) :
    initTag aes (relayPacket aes protoTag dcIdx rnd) = protoTag := by
  show ((decryptedInit aes _).drop 56).take 4 = _
  rw [decryptedInit_relayPacket aes protoTag dcIdx h, tailPlain,
    List.append_assoc, List.take_append_of_le_length (by omega), ← ht,
    List.take_length]

/-- So do the DC and its sign. -/
theorem initDcIdx_relayPacket (aes : Aes256) {protoTag : Bytes} {dc : Int}
    (isMedia : Bool) {rnd : Bytes} (ht : protoTag.length = 4)
    (hdc : validDc dc = true) (h : rnd.length = HANDSHAKE_LEN) :
    initDcIdx aes (relayPacket aes protoTag (relayDcIdx dc isMedia) rnd)
      = if isMedia then -dc else dc := by
  have hplain := decryptedInit_relayPacket aes protoTag
    (relayDcIdx dc isMedia) h
  generalize relayPacket aes protoTag (relayDcIdx dc isMedia) rnd = init
    at hplain ⊢
  have hdrop : (decryptedInit aes init).drop 60
      = ((decryptedInit aes init).drop 56).drop 4 := by
    rw [List.drop_drop]
  have hcut : sub (decryptedInit aes init) 60 62
      = leBytes 2 (relayDcIdx dc isMedia % 2 ^ 16).toNat := by
    rw [sub, hdrop, hplain, tailPlain, List.append_assoc, ← ht,
      List.drop_left, List.take_append_of_le_length
        (by rw [leBytes_length]), List.take_of_length_le
        (by rw [leBytes_length])]
  rw [initDcIdx, hcut, i16FromLe_relayDcIdx hdc]

/-- The packet made of a draw reads back as the session it was
made for. -/
theorem parse_relayPacket (aes : Aes256) {dc : Int} (isMedia : Bool)
    {protoInt : UInt32} {rnd : Bytes} (hdc : validDc dc = true)
    (hp : protoInt ∈ protoInts) (h : rnd.length = HANDSHAKE_LEN) :
    let init := relayPacket aes (protoTagFor protoInt)
      (relayDcIdx dc isMedia) rnd
    init.length = HANDSHAKE_LEN ∧ init.take 56 = rnd.take 56
      ∧ parseDirectHandshake aes init
          = .ok { dc, isMedia, dcInPkt := true, protoInt
                  handshake := init } := by
  intro init
  have h64 : rnd.length = 64 := h
  have htl := protoTagFor_length protoInt
  have htake : (rnd.take 56).length = 56 := by
    rw [List.length_take, h64]
    rfl
  have hlen : init.length = HANDSHAKE_LEN := by
    show (relayPacket aes _ _ rnd).length = _
    rw [relayPacket, List.length_append, htake, maskFrom_length,
      tailPlain_length _ rnd htl]
    rfl
  have htag : initTag aes init = protoTagFor protoInt :=
    initTag_relayPacket aes _ htl h
  have hidx : initDcIdx aes init = if isMedia then -dc else dc :=
    initDcIdx_relayPacket aes isMedia htl hdc h
  have hpos : 1 ≤ dc := by
    simp [validDc] at hdc
    omega
  obtain ⟨hmem, hof⟩ := protoTagFor_mem hp
  refine ⟨hlen, ?_, ?_⟩
  · show (relayPacket aes _ _ rnd).take 56 = _
    rw [relayPacket, List.take_append_of_le_length (by omega),
      List.take_take]
    rfl
  · rw [parseDirectHandshake_eq aes hlen, htag,
      if_neg (not_not.mpr hmem)]
    have hsign : (decide ((if isMedia then -dc else dc) < 0)) = isMedia := by
      cases isMedia <;> simp <;> omega
    have habs : (if (if isMedia then -dc else dc) < 0
        then -(if isMedia then -dc else dc)
        else (if isMedia then -dc else dc)) = dc := by
      cases isMedia <;> simp <;> omega
    simp only [infoOf, htag, hof, hidx, hsign, habs, hdc, if_true,
      Bool.true_and]

/-- However many draws the generator refuses first, the packet it makes
reads back as the session it was made for. -/
theorem generateRelayInit_parses (aes : Aes256) {dc : Int} (isMedia : Bool)
    {protoInt : UInt32} {refused : List Bytes} {rnd : Bytes}
    (rest : List Bytes) (hdc : validDc dc = true) (hp : protoInt ∈ protoInts)
    (hno : ∀ r ∈ refused, acceptsDraw r = false)
    (hlen : rnd.length = HANDSHAKE_LEN) (hyes : acceptsDraw rnd = true) :
    ∃ init,
      generateRelayInit aes (protoTagFor protoInt) (relayDcIdx dc isMedia)
          (refused ++ rnd :: rest) = some (.ok init)
        ∧ init.length = HANDSHAKE_LEN
        ∧ init.take 56 = rnd.take 56
        ∧ parseDirectHandshake aes init
            = .ok { dc, isMedia, dcInPkt := true, protoInt
                    handshake := init } := by
  obtain ⟨h64, hkeep, hparse⟩ := parse_relayPacket aes isMedia hdc hp hlen
  refine ⟨_, ?_, h64, hkeep, hparse⟩
  rw [generateRelayInit_skip aes _ _ rest hno hyes,
    relayInitFrom_eq aes _ (protoTagFor_length protoInt) hlen]

section Parsed

variable {aes : Aes256} {init : Bytes}

theorem parse_ok_iff (hlen : init.length = HANDSHAKE_LEN) :
    (∃ info, parseDirectHandshake aes init = .ok info)
      ↔ initTag aes init ∈ protoTags := by
  have heq := parseDirectHandshake_eq aes hlen
  by_cases htag : initTag aes init ∈ protoTags
  · rw [if_neg (not_not.mpr htag)] at heq
    exact iff_of_true ⟨_, heq⟩ htag
  · rw [if_pos htag] at heq
    refine iff_of_false ?_ htag
    intro h
    obtain ⟨info, h⟩ := h
    rw [heq] at h
    cases h

theorem parse_ne_panic (hlen : init.length = HANDSHAKE_LEN) (why : Panic) :
    parseDirectHandshake aes init ≠ .error (.panic why) := by
  rw [parseDirectHandshake_eq aes hlen]
  split <;> exact nofun

/-- An index that is no valid DC, whatever its sign, gives none. -/
theorem parse_unknown {info : HandshakeInfo}
    (hlen : init.length = HANDSHAKE_LEN)
    (h : parseDirectHandshake aes init = .ok info)
    (hnone : ∀ dc, validDc dc = true →
      initDcIdx aes init ≠ dc ∧ initDcIdx aes init ≠ -dc) :
    (info.dc, info.isMedia) = (0, false) := by
  rw [parseDirectHandshake_eq aes hlen] at h
  split at h
  · cases h
  · rw [Except.ok.injEq] at h
    subst h
    have hinv : validDc (if initDcIdx aes init < 0
        then -initDcIdx aes init else initDcIdx aes init) = false := by
      rw [Bool.eq_false_iff]
      intro hv
      have hno := hnone _ hv
      split at hno <;> omega
    simp [infoOf, hinv]

end Parsed

/-- The re-handshake keeps the session. However many draws are refused
first, the packet made for a valid DC, a media flag and a transport is
64 bytes, keeps the draw's first 56 and parses back as exactly that. And
every 64-byte packet parses just when its tag is known, an index that is
no valid DC giving `(0, false)`, and no index overflows its negation. -/
theorem rehandshake_roundtrip (aes : Aes256) :
    (∀ (dc : Int) (isMedia : Bool) (protoInt : UInt32)
        (refused : List Bytes) (rnd : Bytes) (rest : List Bytes),
      validDc dc = true → protoInt ∈ protoInts →
      (∀ r ∈ refused, acceptsDraw r = false) →
      rnd.length = HANDSHAKE_LEN → acceptsDraw rnd = true →
      ∃ init,
        generateRelayInit aes (protoTagFor protoInt) (relayDcIdx dc isMedia)
            (refused ++ rnd :: rest) = some (.ok init)
          ∧ init.length = HANDSHAKE_LEN
          ∧ init.take 56 = rnd.take 56
          ∧ parseDirectHandshake aes init
              = .ok { dc, isMedia, dcInPkt := true, protoInt
                      handshake := init })
    ∧ (∀ init : Bytes, init.length = HANDSHAKE_LEN →
        ((∃ info, parseDirectHandshake aes init = .ok info)
            ↔ initTag aes init ∈ protoTags)
          ∧ (∀ why, parseDirectHandshake aes init ≠ .error (.panic why))
          ∧ (∀ info, parseDirectHandshake aes init = .ok info →
              (∀ dc, validDc dc = true →
                initDcIdx aes init ≠ dc ∧ initDcIdx aes init ≠ -dc) →
              (info.dc, info.isMedia) = (0, false))
          ∧ -(2 ^ 15) ≤ initDcIdx aes init ∧ initDcIdx aes init < 2 ^ 15
          ∧ -initDcIdx aes init < 2 ^ 31) := by
  refine ⟨?_, ?_⟩
  · intro dc isMedia protoInt refused rnd rest hdc hp hno hlen hyes
    exact generateRelayInit_parses aes isMedia rest hdc hp hno hlen hyes
  · intro init hlen
    have hb := i16FromLe_bounds (sub (decryptedInit aes init) 60 62)
    refine ⟨parse_ok_iff hlen, parse_ne_panic hlen, ?_, hb.1, hb.2, ?_⟩
    · intro info hinfo hnone
      exact parse_unknown hlen hinfo hnone
    · show -i16FromLe _ < _
      omega

/-- The round trip for a media session of DC 2, on the sample draw. -/
theorem rehandshake_roundtrip_sample :
    ∃ init,
      generateRelayInit sampleAes (protoTagFor PROTO_INTERMEDIATE_INT)
          (relayDcIdx 2 true) [sampleRelay] = some (.ok init)
        ∧ init.length = HANDSHAKE_LEN
        ∧ init.take 56 = sampleRelay.take 56
        ∧ parseDirectHandshake sampleAes init
            = .ok { dc := 2, isMedia := true, dcInPkt := true
                    protoInt := PROTO_INTERMEDIATE_INT
                    handshake := init } :=
  (rehandshake_roundtrip sampleAes).1 2 true PROTO_INTERMEDIATE_INT []
    sampleRelay [] (by decide) (by decide) (by simp) (by decide) (by decide)

end Wrtg.Mtproto
