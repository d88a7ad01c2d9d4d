/-
Which client bytes init classification keeps (`handshake.rs`,
`main.rs`).

# The account

`buf ++ unread` is the client stream in every round of both read loops
(`readBody_conserves`, `readInitLoop_spec`): a read moves bytes from the
right of the cut to its left. All exits but one hand the whole buffer
on. The exit that does not is the handshake found behind offset 0: it
hands on the buffer from that offset.

# The condition

`examined` is the list of buffers the loop looks at, read off the
stream and the schedule alone; `classify` is the order of its three
tests, and `recognisedOf` the first buffer they say something of.
`LateHandshake` says that it is a handshake at a positive offset, and
`SetsHost` that it is one at offset 0 which a blind relay on port 80
takes for a request: `init_keeps_bytes_iff` says that these are exactly
the ways for bytes to be lost, in the init read and in every fallback of
`handle_handshake` behind it.
-/
import Wrtg.Handshake
import Wrtg.Proofs.Media
import Wrtg.Proofs.Relay

namespace Wrtg.Handshake

open Lib Mtproto

variable (w : Word) (aes : Aes256)

-- ====================================================== the condition

/-- What a buffer is recognised as, by the tests of the read loop in
their order. -/
inductive Class where
  | http
  | tls
  | handshake (off : Nat)
  deriving DecidableEq, Repr

def classify (buf : Bytes) : Option Class :=
  if isHttpTransport buf && hasCompleteHttpHeaders buf then some .http
  else if looksLikeTlsStream buf then some .tls
  else (findHandshakeOffset aes buf).map Class.handshake

/-- The buffers a schedule of reads builds up from a stream: one more
a successful read, until a read stops or the buffer is full. -/
def examined (buf unread : Bytes) : List ReadEvent → List Bytes
  | [] => []
  | ev :: evs =>
      if buf.length < INIT_READ_MAX then
        match ev.read unread (INIT_READ_MAX - buf.length) with
        | .bytes got =>
            (buf ++ got)
              :: examined (buf ++ got) (unread.drop got.length) evs
        | _ => []
      else []

/-- The first buffer that is recognised, and what as. -/
def firstRecognised (buffers : List Bytes) : Option (Bytes × Class) :=
  buffers.findSome? fun buf => (classify aes buf).map fun c => (buf, c)

def recognisedOf (stream : TcpStream) : Option (Bytes × Class) :=
  firstRecognised aes (examined [] stream.unread stream.events)

/-- The first recognised buffer is a handshake behind other bytes. -/
def LateHandshake (stream : TcpStream) : Prop :=
  ∃ buf off, 0 < off ∧ recognisedOf aes stream = some (buf, .handshake off)

/-- The first recognised buffer is a handshake that goes to port 80 of a
media address, and behind it stands what looks like a `Host` header with
another value than the front's. -/
def SetsHost (learned : DcLearn.LearnMap) (origIp : String)
    (origPort : Nat) (stream : TcpStream) : Prop :=
  origPort = 80
    ∧ Media.needsHttpHostRewrite learned origIp.toList = true
    ∧ ∃ buf, recognisedOf aes stream = some (buf, .handshake 0)
      ∧ Media.ReplacesHost buf (Utf8.encode
        (Media.httpFrontHost learned origIp.toList origPort))

/-- The bytes in front of a recognised handshake. -/
def skipped : Option (Bytes × Class) → Nat
  | some (_, .handshake off) => off
  | _ => 0

-- ============================================================ one read

/-- A read that gives bytes gives the next unread ones. -/
theorem read_bytes {ev : ReadEvent} {unread got : Bytes} {space : Nat}
    (h : ev.read unread space = .bytes got) :
    got ++ unread.drop got.length = unread := by
  cases ev with
  | timeout => cases h
  | fail msg => cases h
  | ready k =>
      simp only [ReadEvent.read] at h
      split at h
      · cases h
      · injection h with h
        rw [← h]
        exact (List.prefix_iff_eq_append.mp (List.take_prefix _ _))

/-- The body loop hands on the buffer it got and what it read. -/
theorem readBody_conserves (total : Nat) (buf unread : Bytes)
    (events : List ReadEvent) :
    (readBody total buf unread events).2.1
        ++ (readBody total buf unread events).1.unread
      = buf ++ unread := by
  induction events generalizing buf unread with
  | nil => rfl
  | cons ev evs ih =>
      rw [readBody]
      split
      · cases hr : ev.read unread
            (min (total - buf.length) (INIT_READ_MAX - buf.length)) with
        | stop => rfl
        | failed msg => rfl
        | bytes got =>
            rw [ih, List.append_assoc, read_bytes hr]
      · rfl

/-- So does the whole read-ahead of an HTTP request. -/
theorem readFullHttpRequest_conserves (stream : TcpStream) (buf : Bytes) :
    (readFullHttpRequest w stream buf).2.1
        ++ (readFullHttpRequest w stream buf).1.unread
      = buf ++ stream.unread := by
  unfold readFullHttpRequest
  cases windowsPosition CRLF2 buf with
  | none => rfl
  | some i =>
      simp only
      cases parseHttpContentLength w (buf.take (i + 4)) with
      | none => rfl
      | some contentLen => exact readBody_conserves _ _ _ _

-- ====================================================== the handshake

/-- The offset found is a window of the buffer, and it parses. -/
theorem findHandshakeOffset_some {buf : Bytes} {off : Nat}
    (h : findHandshakeOffset aes buf = some off) :
    off + HANDSHAKE_LEN ≤ buf.length
      ∧ ∃ info, parseDirectHandshake aes
          (sub buf off (off + HANDSHAKE_LEN)) = .ok info := by
  unfold findHandshakeOffset at h
  split at h
  · cases h
  · next hlen =>
      have hmem := List.mem_of_find?_eq_some h
      have hok := List.find?_some h
      rw [List.mem_range] at hmem
      refine ⟨by omega, ?_⟩
      cases hp : parseDirectHandshake aes
          (sub buf off (off + HANDSHAKE_LEN)) with
      | ok info => exact ⟨info, rfl⟩
      | error e =>
          rw [hp] at hok
          cases hok

/-- A parsed handshake carries the bytes it was parsed from. -/
theorem parseDirectHandshake_handshake {handshake : Bytes}
    {info : HandshakeInfo}
    (h : parseDirectHandshake aes handshake = .ok info) :
    info.handshake = handshake := by
  unfold parseDirectHandshake at h
  split at h
  · cases h
  · obtain ⟨decKey, -, h⟩ := Res.bind_ok h
    obtain ⟨decIv, -, h⟩ := Res.bind_ok h
    obtain ⟨stream, -, h⟩ := Res.bind_ok h
    obtain ⟨enc, -, h⟩ := Res.bind_ok h
    obtain ⟨tag, -, h⟩ := Res.bind_ok h
    split at h
    · cases h
    · obtain ⟨idx, -, h⟩ := Res.bind_ok h
      injection h with h
      rw [← h]

/-- The bytes a parsed init hands on: the 64 handshake bytes, then the
prefix of the stream. -/
def ParsedInit.raw (p : ParsedInit) : Bytes :=
  p.info.handshake ++ p.stream.prefixBuf.drop p.stream.off

/-- What `read_client_init` hands on: the raw buffer on `Err`, the
handshake and the prefix on `Ok`, each with the socket. -/
def handedOn : InitResult → Option BlindRelay
  | .ok (some parsed) => some (parsed.stream.inner, parsed.raw)
  | .ok none => none
  | .error (stream, raw, _) => some (stream, raw)

/-- The bytes of a blind relay: the initial ones, and the rest of the
socket. -/
def relayed (r : BlindRelay) : Bytes := r.2 ++ r.1.unread

/-- What the init read comes to: the recognised handshake, as far as the
buffer went, or an error. -/
def Reads (r : InitResult) : Option (Bytes × Class) → Prop
  | some (buf, .handshake off) =>
      ∃ p, r = .ok (some p) ∧ p.raw = buf.drop off
  | _ => ∃ e, r = .error e

/-- Behind the loop the whole buffer is handed on. -/
theorem initExhausted_handedOn (buf : Bytes) (stream : TcpStream) :
    ∃ r, handedOn (initExhausted buf stream) = some r
      ∧ relayed r = buf ++ stream.unread
      ∧ Reads (initExhausted buf stream) none := by
  unfold initExhausted
  split
  · next h =>
      refine ⟨_, rfl, ?_, _, rfl⟩
      rw [List.eq_nil_of_length_eq_zero h]
      rfl
  · split
    · exact ⟨_, rfl, rfl, _, rfl⟩
    · exact ⟨_, rfl, rfl, _, rfl⟩

/-- The window at an offset, and what is behind it, are the buffer from
the offset on. -/
theorem window_append (buf : Bytes) (off k : Nat) :
    sub buf off (off + k) ++ buf.drop (off + k) = buf.drop off := by
  have hsub : sub buf off (off + k) = (buf.drop off).take k := by
    rw [sub]
    congr 1
    omega
  rw [hsub, ← List.drop_drop, List.take_append_drop]

/-- The exit at a handshake: it parses again, and hands on the buffer
from its offset on. -/
theorem handshake_exit {buf : Bytes} {off : Nat}
    (h : findHandshakeOffset aes buf = some off) (inner : TcpStream) :
    ∃ r out, (do
          let rem ← sliceFrom buf (off + HANDSHAKE_LEN)
          let window ← slice buf off (off + HANDSHAKE_LEN)
          match parseDirectHandshake aes window with
          | .error _ => .error (.panic .unwrap)
          | .ok info =>
              .ok (.ok (some
                { info, stream := { inner, prefixBuf := rem, off := 0 } }))
            : Res InitResult) = .ok r
      ∧ handedOn r = some out
      ∧ relayed out = (buf ++ inner.unread).drop off
      ∧ ∃ p, r = .ok (some p) ∧ p.raw = buf.drop off := by
  obtain ⟨hle, info, hinfo⟩ := findHandshakeOffset_some aes h
  rw [sliceFrom_ok hle, slice_ok (Nat.le_add_right _ _) hle]
  simp only [bind, Except.bind, hinfo]
  have hraw : info.handshake ++ buf.drop (off + HANDSHAKE_LEN)
      = buf.drop off := by
    rw [parseDirectHandshake_handshake aes hinfo, window_append]
  refine ⟨_, _, rfl, rfl, ?_, _, rfl, hraw⟩
  show info.handshake ++ buf.drop (off + HANDSHAKE_LEN) ++ inner.unread = _
  rw [hraw, List.drop_append_of_le_length (by omega)]

/-- The first buffer read, recognised or not. -/
theorem firstRecognised_cons (buf : Bytes) (buffers : List Bytes) :
    firstRecognised aes (buf :: buffers)
      = match classify aes buf with
        | some c => some (buf, c)
        | none => firstRecognised aes buffers := by
  unfold firstRecognised
  rw [List.findSome?_cons]
  cases classify aes buf with
  | none => rfl
  | some c => rfl

/-- The spec of the read loop: it returns, without a panic, what it
recognised, and hands on the stream from the first recognised handshake
on — all of the stream, when the first recognised buffer is not a
handshake. -/
theorem readInitLoop_spec (events : List ReadEvent) (buf unread : Bytes) :
    ∃ r out, readInitLoop w aes buf unread events = .ok r
      ∧ handedOn r = some out
      ∧ relayed out = (buf ++ unread).drop (skipped
          (firstRecognised aes (examined buf unread events)))
      ∧ Reads r (firstRecognised aes (examined buf unread events))
      ∧ skipped (firstRecognised aes (examined buf unread events))
          ≤ (buf ++ unread).length := by
  induction events generalizing buf unread with
  | nil =>
      obtain ⟨out, hout, hrel, hreads⟩ := initExhausted_handedOn buf
        { unread, events := [] }
      exact ⟨_, out, rfl, hout, hrel, hreads, Nat.zero_le _⟩
  | cons ev evs ih =>
      rw [readInitLoop, examined]
      by_cases hlen : buf.length < INIT_READ_MAX
      · rw [if_pos hlen, if_pos hlen]
        cases hr : ev.read unread (INIT_READ_MAX - buf.length) with
        | stop =>
            obtain ⟨out, hout, hrel, hreads⟩ := initExhausted_handedOn buf
              { unread, events := evs }
            exact ⟨_, out, rfl, hout, hrel, hreads, Nat.zero_le _⟩
        | failed msg =>
            exact ⟨_, _, rfl, rfl, rfl, ⟨_, rfl⟩, Nat.zero_le _⟩
        | bytes got =>
            have hstream : buf ++ got ++ unread.drop got.length
                = buf ++ unread := by
              rw [List.append_assoc, read_bytes hr]
            simp only [firstRecognised_cons]
            rw [← hstream]
            generalize buf ++ got = buf'
            generalize unread.drop got.length = unread'
            cases hhttp : isHttpTransport buf'
                && hasCompleteHttpHeaders buf' with
            | true =>
                rw [if_pos rfl, show classify aes buf' = some .http by
                  simp [classify, hhttp]]
                exact ⟨_, _, rfl, rfl,
                  readFullHttpRequest_conserves w _ buf', ⟨_, rfl⟩,
                  Nat.zero_le _⟩
            | false =>
                rw [if_neg Bool.false_ne_true]
                cases htls : looksLikeTlsStream buf' with
                | true =>
                    rw [if_pos rfl, show classify aes buf' = some .tls by
                      simp [classify, hhttp, htls]]
                    exact ⟨_, _, rfl, rfl, rfl, ⟨_, rfl⟩, Nat.zero_le _⟩
                | false =>
                    rw [if_neg Bool.false_ne_true,
                      show classify aes buf'
                          = (findHandshakeOffset aes buf').map
                            Class.handshake by
                        simp [classify, hhttp, htls]]
                    cases hfind : findHandshakeOffset aes buf' with
                    | none => exact ih buf' unread'
                    | some off =>
                        obtain ⟨r, out, hr, hout, hrel, hreads⟩ :=
                          handshake_exit aes hfind
                            { unread := unread', events := evs }
                        refine ⟨r, out, hr, hout, hrel, hreads, ?_⟩
                        have hle := (findHandshakeOffset_some aes hfind).1
                        show off ≤ _
                        rw [List.length_append]
                        omega
      · rw [if_neg hlen, if_neg hlen]
        obtain ⟨out, hout, hrel, hreads⟩ := initExhausted_handedOn buf
          { unread, events := ev :: evs }
        exact ⟨_, out, rfl, hout, hrel, hreads, Nat.zero_le _⟩

-- ========================================================= the fallbacks

theorem intoParts_snd (s : PrefixedStream) :
    s.intoParts.2 = s.prefixBuf.drop s.off := by
  unfold PrefixedStream.intoParts
  split
  · rfl
  · next h => exact (List.drop_of_length_le (by omega)).symm

/-- Looking up the DC leaves the handshake bytes alone. -/
theorem resolveDc_handshake (paths : Paths) (origIp : String)
    (hs : HandshakeInfo) :
    (resolveDc paths origIp hs).handshake = hs.handshake := by
  unfold resolveDc
  split
  · rfl
  · split
    · cases paths.dcFromOrigDst origIp with
      | none => rfl
      | some r => rfl
    · rfl

/-- Every fallback behind a parsed init hands on the same bytes. -/
theorem handleHandshake_fallback {paths : Paths} {p : ParsedInit}
    {origIp : String} {out : BlindRelay}
    (h : handleHandshake aes paths p.info p.stream origIp
      = .ok (some out)) : out = (p.stream.inner, p.raw) := by
  have hraw : blindRelayPrefixed p.stream (resolveDc paths origIp p.info)
      = (p.stream.inner, p.raw) := by
    show (p.stream.inner, (resolveDc paths origIp p.info).handshake
      ++ p.stream.intoParts.2) = _
    rw [resolveDc_handshake, intoParts_snd]
    rfl
  unfold handleHandshake at h
  simp only [hraw] at h
  split at h
  · cases h
    rfl
  · split at h
    · cases h
      rfl
    · split at h
      · cases h
      · cases h
        rfl
      · split at h
        · cases h
        · split at h
          · cases h
          · split at h
            · cases h
            · cases h
              rfl

/-- A blind relay behind a parsed init gets what the init read handed
on. -/
theorem handleConn_relay {paths : Paths} {origIp : String}
    {stream : TcpStream} {p : ParsedInit} {call : BlindRelay}
    (hr : readClientInit w aes stream = .ok (.ok (some p)))
    (h : handleConn w aes paths origIp stream = .ok (some call)) :
    call = (p.stream.inner, p.raw) := by
  unfold handleConn at h
  rw [hr] at h
  exact handleHandshake_fallback aes h

/-- No relay init can be drawn, and no path connects. -/
def noInit : Paths where
  dcFromOrigDst _ := none
  generateRelayInit _ _ := .error "randomness"
  wsSkipped := false
  wsConnected := false
  cfConnected := false
  tcpConnected := false

/-- Without a relay init a parsed init falls back. -/
theorem handleConn_noInit {stream : TcpStream} {p : ParsedInit}
    (hr : readClientInit w aes stream = .ok (.ok (some p)))
    (origIp : String) :
    ∃ call, handleConn w aes noInit origIp stream = .ok (some call) := by
  unfold handleConn
  rw [hr]
  show ∃ call, handleHandshake aes noInit p.info p.stream origIp = _
  unfold handleHandshake
  by_cases hdc : (resolveDc noInit origIp p.info).dc = 0
  · exact ⟨_, if_pos hdc⟩
  · exact ⟨_, if_neg hdc⟩

-- ============================================================ upstream

/-- The initial bytes sent upstream, to whomever, and the rest of the
socket are `bs`. -/
def Sent (bs : Bytes) (call : BlindRelay) (up : Upstream) : Prop :=
  up.front ++ call.1.unread = bs
    ∧ ∀ initial ∈ up.worker, initial ++ call.1.unread = bs

/-- What a blind relay sends is what it got, unless on port 80 it sets
a header in it. -/
theorem blindRelay_spec (learned : DcLearn.LearnMap) (origIp : String)
    (origPort : Nat) (call : BlindRelay) :
    ∃ up, blindRelay learned origIp origPort call = .ok up
      ∧ (Sent (relayed call) call up ↔ ¬ (origPort = 80
          ∧ Media.needsHttpHostRewrite learned origIp.toList = true
          ∧ Media.ReplacesHost call.2 (Utf8.encode
            (Media.httpFrontHost learned origIp.toList origPort)))) := by
  unfold blindRelay
  by_cases hport : origPort = 80
  · subst hport
    obtain ⟨out, hout, hkept⟩ := Media.httpFrontPassthroughPayload_spec
      learned call.2 origIp.toList 80
    rw [if_pos rfl, hout]
    refine ⟨_, rfl, ?_⟩
    rw [← hkept]
    constructor
    · intro h
      exact List.append_cancel_right h.1
    · intro h
      refine ⟨congrArg (· ++ call.1.unread) h, ?_⟩
      intro initial hinitial
      cases hinitial
  · rw [if_neg hport]
    refine ⟨_, rfl, fun _ h => hport h.1, fun _ => ?_⟩
    simp only [if_neg hport]
    refine ⟨rfl, ?_⟩
    intro initial hinitial
    split at hinitial
    · rw [← Option.some.inj hinitial]
      rfl
    · cases hinitial

-- ============================================================ the result

/-- The init read keeps every client byte, and so does every fallback
of `handle_handshake` behind it, exactly when the first recognised buffer
is not a handshake behind other bytes, nor one that a blind relay on
port 80 takes for a request with a `Host` header. -/
theorem init_keeps_bytes_iff (learned : DcLearn.LearnMap) (origIp : String)
    (origPort : Nat) (stream : TcpStream) :
    ((∃ r out, readClientInit w aes stream = .ok r
        ∧ handedOn r = some out ∧ relayed out = stream.unread)
      ∧ ∀ paths p call,
          readClientInit w aes stream = .ok (.ok (some p)) →
          handleConn w aes paths origIp stream = .ok (some call) →
          ∃ up, blindRelay learned origIp origPort call = .ok up
            ∧ Sent stream.unread call up)
      ↔ ¬ LateHandshake aes stream
        ∧ ¬ SetsHost aes learned origIp origPort stream := by
  obtain ⟨r, out, hr, hout, hrel, hreads, hle⟩ :=
    readInitLoop_spec w aes stream.events [] stream.unread
  rw [List.nil_append] at hrel hle
  have hr : readClientInit w aes stream = .ok r := hr
  constructor
  · rintro ⟨⟨r', out', hr', hout', hkept⟩, hfallback⟩
    obtain rfl : r = r' := Except.ok.inj (hr.symm.trans hr')
    obtain rfl : out = out' := Option.some.inj (hout.symm.trans hout')
    refine ⟨?_, ?_⟩
    · rintro ⟨buf, off, hoff, hv⟩
      have hskip : skipped (firstRecognised aes
          (examined [] stream.unread stream.events)) = off :=
        congrArg skipped hv
      rw [hskip] at hrel hle
      have hlen := congrArg List.length (hrel.symm.trans hkept)
      rw [List.length_drop] at hlen
      omega
    · rintro ⟨hport, hneeds, buf, hv, hsets⟩
      rw [show firstRecognised aes (examined [] stream.unread stream.events)
        = some (buf, .handshake 0) from hv] at hreads
      obtain ⟨p, rfl, hraw⟩ := hreads
      -- without a relay init there is a fallback
      obtain ⟨call, hcall⟩ := handleConn_noInit w aes hr origIp
      obtain ⟨up, hup, hsent⟩ := hfallback noInit p call hr hcall
      obtain ⟨up', hup', hiff⟩ := blindRelay_spec learned origIp origPort call
      obtain rfl : up = up' := Except.ok.inj (hup.symm.trans hup')
      have hcall := handleConn_relay w aes hr hcall
      have hbytes : relayed call = stream.unread := by
        rw [hcall]
        rw [← Option.some.inj hout] at hkept
        exact hkept
      rw [← hbytes] at hsent
      refine hiff.mp hsent ⟨hport, hneeds, ?_⟩
      rw [hcall]
      show Media.ReplacesHost p.raw _
      rw [hraw]
      exact hsets
  · rintro ⟨hlate, hsets⟩
    have hskip : skipped (firstRecognised aes
        (examined [] stream.unread stream.events)) = 0 := by
      cases hv : firstRecognised aes
          (examined [] stream.unread stream.events) with
      | none => rfl
      | some found =>
          obtain ⟨buf, c⟩ := found
          cases c with
          | http => rfl
          | tls => rfl
          | handshake off =>
              by_contra hne
              exact hlate ⟨buf, off, Nat.pos_of_ne_zero hne, hv⟩
    rw [hskip, List.drop_zero] at hrel
    refine ⟨⟨r, out, hr, hout, hrel⟩, ?_⟩
    intro paths p call hp hcall
    obtain rfl : r = .ok (some p) := Except.ok.inj (hr.symm.trans hp)
    have hcall := handleConn_relay w aes hp hcall
    have hbytes : relayed call = stream.unread := by
      rw [hcall]
      rw [← Option.some.inj hout] at hrel
      exact hrel
    obtain ⟨up, hup, hiff⟩ := blindRelay_spec learned origIp origPort call
    refine ⟨up, hup, ?_⟩
    rw [← hbytes]
    refine hiff.mpr ?_
    rintro ⟨hport, hneeds, hreplaces⟩
    refine hsets ⟨hport, hneeds, ?_⟩
    -- only a handshake parses, and this one is at offset 0
    cases hv : firstRecognised aes
        (examined [] stream.unread stream.events) with
    | none =>
        rw [hv] at hreads
        obtain ⟨e, he⟩ := hreads
        cases he
    | some found =>
        obtain ⟨buf, c⟩ := found
        rw [hv] at hreads hskip
        cases c with
        | http =>
            obtain ⟨e, he⟩ := hreads
            cases he
        | tls =>
            obtain ⟨e, he⟩ := hreads
            cases he
        | handshake off =>
            obtain rfl : off = 0 := hskip
            obtain ⟨p', hp', hraw⟩ := hreads
            cases hp'
            refine ⟨buf, hv, ?_⟩
            rw [hcall] at hreplaces
            have hreplaces : Media.ReplacesHost p.raw _ := hreplaces
            rw [hraw] at hreplaces
            exact hreplaces

/-- AES-256 for a stream of one zero byte and the sample client init:
`sampleAes`, and the counter block the window at offset 0 reaches. -/
def lateAes : Aes256 := fun key block =>
  if beNat key
        = 0x086f7c8996a3b0bdcad7e4f1fe0b1825323f4c596673808d9aa7b4c1cedbe8f5
      ∧ beNat block = 0x020f1c293643505d6a7784919eabb8c8 then
    Vector.ofFn fun i =>
      (beBytes 16 0x873bfcfadda5285b62bb936cf57112b1).getD i 0
  else sampleAes key block

/-- One zero byte and the sample client init, in one read. -/
def lateStream : TcpStream :=
  { unread := 0 :: sampleClient, events := [.ready 64] }

/-- A DC that is in the packet, a relay init, and no path that
connects. -/
def noPaths : Paths where
  dcFromOrigDst _ := none
  generateRelayInit _ _ := .ok sampleRelay
  wsSkipped := false
  wsConnected := false
  cfConnected := false
  tcpConnected := false

/-- The sample client init and what looks like a header, in one
read. -/
def hostStream : TcpStream :=
  { unread := sampleClient ++ Utf8.encode "\r\nHost: a".toList
    events := [.ready 73] }

/-- The zero byte is lost: the blind relay behind the failed paths
starts with the handshake. And at port 80 of a media address the bytes
behind a handshake are rewritten. -/
theorem init_drops_junk :
    ((readClientInit .w64 lateAes lateStream).map handedOn
        = .ok (some ({ unread := [], events := [] }, sampleClient))
      ∧ handleConn .w64 lateAes noPaths "149.154.175.50" lateStream
        = .ok (some ({ unread := [], events := [] }, sampleClient))
      ∧ blindRelay ∅ "149.154.175.50" 443
          ({ unread := [], events := [] }, sampleClient)
        = .ok { worker := some sampleClient, front := sampleClient }
      ∧ sampleClient ≠ lateStream.unread)
    ∧ handleConn .w64 sampleAes noPaths "149.154.162.123" hostStream
        = .ok (some ({ unread := [], events := [] }, hostStream.unread))
      ∧ (blindRelay ∅ "149.154.162.123" 80
            ({ unread := [], events := [] }, hostStream.unread)).map
          Upstream.front
        = .ok (sampleClient ++ Utf8.encode
          "\r\nHost: kws2-1.web.telegram.org".toList)
      ∧ sampleClient ++ Utf8.encode
          "\r\nHost: kws2-1.web.telegram.org".toList
        ≠ hostStream.unread := by
  decide +kernel

end Wrtg.Handshake
