/-
The start of a relay init, against the program's own classifier
(`generate_relay_init` of `mtproto.rs`, the tests of `handshake.rs`).

The packet keeps the first 56 bytes of the draw, so it starts as the
draw does. Of the request names the generator refuses `POST`, `HEAD` and
`GET` with a blank, and of the TLS records the handshake of one version
and length; the classifier knows `GET` before any byte, `OPTIONS` and
two record types of any length. What is left between the two is
`Collides`.

Behind a start that is none of these the packet is found at offset 0
with the read that brings its last byte (`readInitLoop_init`).
-/
import Wrtg.Proofs.RelayInit
import Wrtg.Proofs.Segmentation
import Wrtg.Lib.Tally

namespace Wrtg.Handshake

open Lib Mtproto

-- ======================================================= the condition

/-- The draw starts like a request or a TLS record. -/
def Collides (rnd : Bytes) : Prop :=
  rnd.take 3 = [0x47, 0x45, 0x54]
    ∨ rnd.take 7 = [0x4F, 0x50, 0x54, 0x49, 0x4F, 0x4E, 0x53]
    ∨ rnd.take 2 = [0x16, 0x03]
    ∨ rnd.take 2 = [0x17, 0x03]

instance (rnd : Bytes) : Decidable (Collides rnd) :=
  inferInstanceAs (Decidable (_ ∨ _ ∨ _ ∨ _))

/-- Neither test of a stream's start knows the packet, and a stream that
begins with it is read as its handshake, from the first byte on: however
its first 64 bytes arrive, and whatever the reads behind them meet. -/
structure NotMistaken (w : Word) (aes : Aes256) (init : Bytes)
    (info : HandshakeInfo) : Prop where
  notHttp : isHttpTransport init = false
  notTls : looksLikeTlsStream init = false
  read : ∀ (rest : Bytes) (sizes : List Nat) (later : List ReadEvent),
    64 ≤ tally (· + 1) sizes →
    ∃ (early : Bytes) (inner : TcpStream),
      readClientInit w aes { unread := init ++ rest
                             events := sizes.map .ready ++ later }
          = .ok (.ok (some
              { info, stream := { inner, prefixBuf := early, off := 0 } }))
        ∧ early ++ inner.unread = rest

-- ========================================================== the starts

theorem isHttpTransport_take {a : Bytes} (h : 7 ≤ a.length) :
    isHttpTransport (a.take 7) = isHttpTransport a := by
  conv_rhs => rw [← List.take_append_drop 7 a]
  refine (isHttpTransport_append _ ?_).symm
  rw [List.length_take]
  omega

theorem looksLikeTlsStream_take {a : Bytes} (h : 7 ≤ a.length) :
    looksLikeTlsStream (a.take 7) = looksLikeTlsStream a := by
  conv_rhs => rw [← List.take_append_drop 7 a]
  refine (looksLikeTlsStream_append _ ?_).symm
  rw [List.length_take]
  omega

/-- A draw that is not refused starts like a request if it starts like
one of two. -/
theorem isHttpTransport_accepted {rnd : Bytes}
    (hlen : rnd.length = HANDSHAKE_LEN) (hyes : acceptsDraw rnd = true) :
    isHttpTransport rnd = true
      ↔ rnd.take 3 = [0x47, 0x45, 0x54]
        ∨ rnd.take 7 = [0x4F, 0x50, 0x54, 0x49, 0x4F, 0x4E, 0x53] := by
  have h64 : rnd.length = 64 := hlen
  unfold acceptsDraw at hyes
  simp only [Bool.and_eq_true, Bool.not_eq_true'] at hyes
  have hstart : rnd.take 4 ∉ reservedStarts := by
    intro hmem
    have hno := hyes.1.2
    rw [show sub rnd 0 4 = rnd.take 4 from rfl,
      List.contains_iff_mem.mpr hmem] at hno
    cases hno
  have hhead : rnd.take 4 ≠ [0x48, 0x45, 0x41, 0x44] := by
    intro heq
    exact hstart (heq ▸ by decide)
  have hpost : rnd.take 4 ≠ [0x50, 0x4F, 0x53, 0x54] := by
    intro heq
    exact hstart (heq ▸ by decide)
  unfold isHttpTransport
  rw [if_neg (by omega)]
  simp [hhead, hpost, h64]

theorem looksLikeTlsStream_iff {rnd : Bytes} (hlen : 2 ≤ rnd.length) :
    looksLikeTlsStream rnd = true
      ↔ rnd.take 2 = [0x16, 0x03] ∨ rnd.take 2 = [0x17, 0x03] := by
  match rnd with
  | [] => cases hlen
  | [_] => exact absurd hlen (Nat.not_succ_le_self 1)
  | b0 :: b1 :: rest => simp [looksLikeTlsStream, and_comm, and_or_left]

/-- The packet starts like a request or a record exactly when the draw
does. -/
theorem start_iff {rnd init : Bytes} (hlen : rnd.length = HANDSHAKE_LEN)
    (hyes : acceptsDraw rnd = true) (h64 : init.length = HANDSHAKE_LEN)
    (hkeep : init.take 56 = rnd.take 56) :
    (isHttpTransport init = false ∧ looksLikeTlsStream init = false)
      ↔ ¬ Collides rnd := by
  have hrnd : rnd.length = 64 := hlen
  have hinit : init.length = 64 := h64
  have htake : init.take 7 = rnd.take 7 := by
    have := congrArg (List.take 7) hkeep
    rwa [List.take_take, List.take_take] at this
  have hhttp : isHttpTransport init = isHttpTransport rnd := by
    rw [← isHttpTransport_take (by omega), htake,
      isHttpTransport_take (by omega)]
  have htls : looksLikeTlsStream init = looksLikeTlsStream rnd := by
    rw [← looksLikeTlsStream_take (by omega), htake,
      looksLikeTlsStream_take (by omega)]
  rw [hhttp, htls, Bool.eq_false_iff, Bool.eq_false_iff, ne_eq, ne_eq,
    isHttpTransport_accepted hlen hyes,
    looksLikeTlsStream_iff (by omega), ← not_or, or_assoc]
  rfl

-- =========================================================== the read

/-- A packet that parses is found at the start of the buffer. -/
theorem findHandshakeOffset_init {aes : Aes256} {init : Bytes}
    {info : HandshakeInfo} (h64 : init.length = HANDSHAKE_LEN)
    (hparse : parseDirectHandshake aes init = .ok info) (tail : Bytes) :
    findHandshakeOffset aes (init ++ tail) = some 0 := by
  refine findHandshakeOffset_append aes tail ?_
  unfold findHandshakeOffset
  rw [if_neg (by omega), List.find?_range_eq_some]
  refine ⟨?_, List.mem_range.mpr (Nat.succ_pos _), ?_⟩
  · have hsub : sub init 0 (0 + HANDSHAKE_LEN) = init := by
      rw [← h64, sub, List.drop_zero, Nat.zero_add, Nat.sub_zero,
        List.take_length]
    rw [hsub, hparse]
    rfl
  · intro j hj
    cases hj

/-- What is read behind the packet goes in front of the socket. -/
theorem handshake_taken {aes : Aes256} {init : Bytes}
    {info : HandshakeInfo} (h64 : init.length = HANDSHAKE_LEN)
    (hparse : parseDirectHandshake aes init = .ok info) (early : Bytes)
    (inner : TcpStream) :
    (do
      let rem ← sliceFrom (init ++ early) (0 + HANDSHAKE_LEN)
      let window ← slice (init ++ early) 0 (0 + HANDSHAKE_LEN)
      match parseDirectHandshake aes window with
      | .error _ => .error (.panic .unwrap)
      | .ok info => .ok (.ok (some
          { info, stream := { inner, prefixBuf := rem, off := 0 } }))
        : Res InitResult)
      = .ok (.ok (some
          { info, stream := { inner, prefixBuf := early, off := 0 } })) := by
  have hle : 0 + HANDSHAKE_LEN ≤ (init ++ early).length := by
    rw [List.length_append]
    omega
  have hrem : (init ++ early).drop (0 + HANDSHAKE_LEN) = early := by
    rw [Nat.zero_add, ← h64, List.drop_left]
  have hwindow : sub (init ++ early) 0 (0 + HANDSHAKE_LEN) = init := by
    rw [sub, List.drop_zero, Nat.zero_add, Nat.sub_zero, ← h64,
      List.take_left]
  rw [sliceFrom_ok hle, slice_ok (Nat.zero_le _) hle, hrem, hwindow]
  simp only [bind, Except.bind, hparse]

/-- A start of the packet is nothing yet. -/
theorem classify_short (aes : Aes256) {init : Bytes} {n : Nat} (hn : n < 64)
    (hhttp : isHttpTransport init = false)
    (htls : looksLikeTlsStream init = false) :
    isHttpTransport (init.take n) = false
      ∧ looksLikeTlsStream (init.take n) = false
      ∧ findHandshakeOffset aes (init.take n) = none := by
  have hsplit := List.take_append_drop n init
  refine ⟨?_, ?_, ?_⟩
  · by_contra h
    rw [← hsplit, isHttpTransport_mono _ (eq_true_of_ne_false h)] at hhttp
    cases hhttp
  · by_contra h
    have h := eq_true_of_ne_false h
    rw [← hsplit, looksLikeTlsStream_append _ (two_le_of_tls h), h] at htls
    cases htls
  · refine if_pos ?_
    rw [List.length_take]
    unfold HANDSHAKE_LEN
    omega

/-- The loop goes on while the packet is not all there, and takes it
with the read that brings the rest. -/
theorem readInitLoop_init (w : Word) {aes : Aes256} {init : Bytes}
    {info : HandshakeInfo} (h64 : init.length = HANDSHAKE_LEN)
    (hhttp : isHttpTransport init = false)
    (htls : looksLikeTlsStream init = false)
    (hparse : parseDirectHandshake aes init = .ok info)
    (rest : Bytes) (later : List ReadEvent) (sizes : List Nat) {n : Nat}
    (hn : n < 64) (hsum : 64 ≤ n + tally (· + 1) sizes) :
    ∃ (early : Bytes) (inner : TcpStream),
      readInitLoop w aes (init.take n) (init.drop n ++ rest)
          (sizes.map .ready ++ later)
        = .ok (.ok (some
            { info, stream := { inner, prefixBuf := early, off := 0 } }))
      ∧ early ++ inner.unread = rest := by
  have hinit : init.length = 64 := h64
  induction sizes generalizing n with
  | nil =>
      rw [tally_nil] at hsum
      omega
  | cons k sizes ih =>
      rw [tally_cons] at hsum
      rw [List.map_cons, List.cons_append, readInitLoop,
        if_pos (by rw [List.length_take]; unfold INIT_READ_MAX; omega)]
      have hroom : (init.take n).length = n := by
        rw [List.length_take]
        omega
      have hread : (ReadEvent.ready k).read (init.drop n ++ rest)
            (INIT_READ_MAX - (init.take n).length)
          = .bytes ((init.drop n ++ rest).take
              (min (k + 1) (INIT_READ_MAX - n))) := by
        simp only [ReadEvent.read]
        rw [hroom]
        refine if_neg ?_
        rw [List.isEmpty_iff_length_eq_zero, List.length_take,
          List.length_append, List.length_drop]
        unfold INIT_READ_MAX
        omega
      rw [hread]
      simp only
      by_cases hshort : n + (k + 1) < 64
      · have hgot : (init.drop n ++ rest).take
              (min (k + 1) (INIT_READ_MAX - n))
            = (init.drop n).take (k + 1) := by
          rw [List.take_append_of_le_length (by
            rw [List.length_drop]; omega)]
          congr 1
          unfold INIT_READ_MAX
          omega
        have hunread : (init.drop n ++ rest).drop
              ((init.drop n).take (k + 1)).length
            = init.drop (n + (k + 1)) ++ rest := by
          rw [List.length_take, List.length_drop,
            List.drop_append_of_le_length (by
              rw [List.length_drop]; omega), List.drop_drop]
          congr 2
          omega
        obtain ⟨hhttp', htls', hfind⟩ :=
          classify_short aes hshort hhttp htls
        rw [hgot, hunread, ← List.take_add, hhttp', htls', hfind]
        exact ih hshort (by omega)
      · -- the read brings the rest of the packet
        have hlen : (init.drop n).length = 64 - n := by
          rw [List.length_drop, hinit]
        have hfull : 64 - n ≤ min (k + 1) (INIT_READ_MAX - n) := by
          unfold INIT_READ_MAX
          omega
        generalize min (k + 1) (INIT_READ_MAX - n) = m at hfull
        have hbuf : init.take n ++ (init.drop n ++ rest).take m
            = init ++ rest.take (m - (64 - n)) := by
          rw [List.take_append, List.take_of_length_le (hlen.trans_le hfull),
            hlen, ← List.append_assoc, List.take_append_drop]
        have hunread : (init.drop n ++ rest).drop
              ((init.drop n ++ rest).take m).length
            = rest.drop (m - (64 - n)) := by
          have hdrop : ((init.drop n ++ rest).take m
                ++ (init.drop n ++ rest).drop m).drop
                ((init.drop n ++ rest).take m).length
              = (init.drop n ++ rest).drop m := List.drop_left
          rw [List.take_append_drop] at hdrop
          rw [hdrop, List.drop_append,
            List.drop_of_length_le (hlen.trans_le hfull), hlen,
            List.nil_append]
        rw [hbuf, hunread, isHttpTransport_append _ (by omega), hhttp,
          looksLikeTlsStream_append _ (by omega), htls,
          findHandshakeOffset_init h64 hparse]
        refine ⟨rest.take (m - (64 - n)),
          { unread := rest.drop (m - (64 - n))
            events := sizes.map .ready ++ later }, ?_,
          List.take_append_drop _ _⟩
        exact handshake_taken h64 hparse _ _

-- ========================================================== the packet

/-- The packet made of an accepted draw is not mistaken for anything,
exactly when the draw does not start like a request or a TLS record. -/
theorem relay_init_not_mistaken (w : Word) (aes : Aes256) (dc : Int)
    (isMedia : Bool) (protoInt : UInt32) (refused : List Bytes)
    (rnd : Bytes) (draws : List Bytes) (hdc : validDc dc = true)
    (hp : protoInt ∈ protoInts) (hno : ∀ r ∈ refused, acceptsDraw r = false)
    (hlen : rnd.length = HANDSHAKE_LEN) (hyes : acceptsDraw rnd = true) :
    ∃ init,
      generateRelayInit aes (protoTagFor protoInt) (relayDcIdx dc isMedia)
          (refused ++ rnd :: draws) = some (.ok init)
        ∧ (NotMistaken w aes init
              { dc, isMedia, dcInPkt := true, protoInt, handshake := init }
            ↔ ¬ Collides rnd) := by
  obtain ⟨init, hinit, h64, hkeep, hparse⟩ :=
    generateRelayInit_parses aes isMedia draws hdc hp hno hlen hyes
  have hstart := start_iff hlen hyes h64 hkeep
  refine ⟨init, hinit, ?_⟩
  constructor
  · intro h
    exact hstart.mp ⟨h.notHttp, h.notTls⟩
  · intro h
    obtain ⟨hhttp, htls⟩ := hstart.mpr h
    refine ⟨hhttp, htls, ?_⟩
    intro rest sizes later hsum
    exact readInitLoop_init w h64 hhttp htls hparse rest later sizes
      (Nat.zero_lt_succ 63) (by omega)

/-- The sample draw starts like neither. -/
theorem relay_init_not_mistaken_sample :
    ∃ init,
      generateRelayInit sampleAes (protoTagFor PROTO_ABRIDGED_INT)
          (relayDcIdx 2 false) [sampleRelay] = some (.ok init)
        ∧ (NotMistaken .w32 sampleAes init
              { dc := 2, isMedia := false, dcInPkt := true
                protoInt := PROTO_ABRIDGED_INT, handshake := init }
            ↔ ¬ Collides sampleRelay) :=
  relay_init_not_mistaken .w32 sampleAes 2 false PROTO_ABRIDGED_INT []
    sampleRelay [] (by decide) (by decide) (by simp) (by decide) (by decide)

/-- The sample draw behind the head of a TLS record. -/
def recordDraw : Bytes := [0x16, 0x03, 0x03, 0x00] ++ sampleRelay.drop 4

/-- It is accepted, and the packet made of it is a TLS record to the
classifier. -/
theorem relay_init_mistaken :
    ∃ init,
      acceptsDraw recordDraw = true
        ∧ generateRelayInit sampleAes (protoTagFor PROTO_ABRIDGED_INT)
            (relayDcIdx 2 false) [recordDraw] = some (.ok init)
        ∧ looksLikeTlsStream init = true
        ∧ reached (readClientInit .w32 sampleAes
            { unread := init, events := [.ready 63] })
          = some (.error "tls passthrough") := by
  refine ⟨relayPacket sampleAes (protoTagFor PROTO_ABRIDGED_INT)
    (relayDcIdx 2 false) recordDraw, ?_, ?_, ?_, ?_⟩
  · decide
  · decide +kernel
  · decide +kernel
  · decide +kernel

end Wrtg.Handshake
