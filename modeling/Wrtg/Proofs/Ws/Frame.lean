/-
One WebSocket frame: what `read_frame` makes of a header.

`RawHeader` is any two bytes with the extended length they ask for,
well-formed or not; `readFrame_bad` and `readFrame_good` say what
`read_frame` does on it, whatever follows. `Frame` is a frame a server
may send (RFC 6455): an opcode, a final flag, a payload within the cap,
any length form that fits, controls short and unfragmented;
`readFrame_frame` reads it back. `unmaskPong` is the server's reading
of a client's pong.
-/
import Wrtg.Ws
import Mathlib.Data.List.GetD

namespace Wrtg.Ws

open Lib Mtproto

-- ======================================================= raw headers

/-- Two header bytes and the extended length they ask for. -/
structure RawHeader where
  b0 : UInt8
  b1 : UInt8
  ext : Bytes
  hext : ext.length = if (b1 &&& 0x7F).toNat = 126 then 2
    else if (b1 &&& 0x7F).toNat = 127 then 8 else 0

def RawHeader.bytes (h : RawHeader) : Bytes := h.b0 :: h.b1 :: h.ext

/-- The payload length a header declares. -/
def RawHeader.length (h : RawHeader) : Nat :=
  if (h.b1 &&& 0x7F).toNat = 126 ∨ (h.b1 &&& 0x7F).toNat = 127 then
    beNat h.ext
  else (h.b1 &&& 0x7F).toNat

def RawHeader.fin (h : RawHeader) : Bool := decide (h.b0 &&& 0x80 ≠ 0)

def RawHeader.opcode (h : RawHeader) : UInt8 := h.b0 &&& 0x0F

/-- The violations `read_frame` rejects by the header alone. -/
def RawHeader.Bad (h : RawHeader) : Prop :=
  h.b0 &&& 0x70 ≠ 0 ∨ h.b1 &&& 0x80 ≠ 0 ∨ h.length > MAX_WS_PAYLOAD
    ∨ (h.opcode ≥ 0x8 ∧ (h.fin = false ∨ h.length > 125))

/-- The length bytes of a header, read: the declared length, or the
early rejection of the eight-byte form. -/
theorem readLength_eq (h : RawHeader) (rest : Bytes) :
    readFrame.readLength (h.b1 &&& 0x7F).toNat (h.ext ++ rest)
      = if (h.b1 &&& 0x7F).toNat = 127 ∧ h.length > MAX_WS_PAYLOAD then
          .error (wsFrameTooLarge h.length) rest
        else .ok h.length rest := by
  have hext := h.hext
  unfold readFrame.readLength RawHeader.length
  by_cases h126 : (h.b1 &&& 0x7F).toNat = 126
  · rw [if_pos h126] at hext
    simp only [h126, if_true, true_or, bind, EStateM.bind,
      readExact_of_length hext]
    rfl
  · by_cases h127 : (h.b1 &&& 0x7F).toNat = 127
    · rw [if_neg h126, if_pos h127] at hext
      simp only [h127, if_true, or_true, bind, EStateM.bind,
        readExact_of_length hext, if_neg (show ¬ 127 = 126 by decide),
        true_and]
      split
      · rfl
      · rfl
    · rw [if_neg h126, if_neg h127] at hext
      rw [List.eq_nil_of_length_eq_zero hext]
      simp only [h126, h127, or_self, if_false, false_and, List.nil_append]
      rfl

/-- The spec of `read_frame`: its checks in their order, then the
payload. -/
theorem readFrame_eq (h : RawHeader) (rest : Bytes) :
    readFrame (h.bytes ++ rest)
      = if h.b0 &&& 0x70 ≠ 0 then
          .error (wsProtocolError "WebSocket RSV bits are set") (h.ext ++ rest)
        else if h.b1 &&& 0x80 ≠ 0 then
          .error (wsProtocolError "masked server WebSocket frame")
            (h.ext ++ rest)
        else if h.length > MAX_WS_PAYLOAD then
          .error (wsFrameTooLarge h.length) rest
        else if h.opcode ≥ 0x8 ∧ (h.fin = false ∨ h.length > 125) then
          .error (wsProtocolError "invalid WebSocket control frame") rest
        else match readExact h.length rest with
          | .ok payload rest' => .ok (h.fin, h.opcode, payload) rest'
          | .error e rest' => .error e rest' := by
  have hhdr : readExact 2 (h.bytes ++ rest)
      = .ok [h.b0, h.b1] (h.ext ++ rest) :=
    readExact_append [h.b0, h.b1] (h.ext ++ rest)
  have hctl : (h.opcode ≥ 0x8 ∧ (h.fin = false ∨ h.length > 125))
      = (h.b0 &&& 0x0F ≥ 0x8
        ∧ (¬ (h.b0 &&& 0x80 ≠ 0) ∨ h.length > 125)) := by
    simp [RawHeader.opcode, RawHeader.fin]
  unfold readFrame
  simp only [bind, EStateM.bind, hhdr, List.getD_cons_zero,
    List.getD_cons_succ, hctl]
  split
  · rfl
  · split
    · rfl
    · simp only [EStateM.bind, readLength_eq]
      by_cases hlen : h.length > MAX_WS_PAYLOAD
      · rw [if_pos hlen]
        by_cases h127 : (h.b1 &&& 0x7F).toNat = 127
        · rw [if_pos ⟨h127, hlen⟩]
        · rw [if_neg fun h => h127 h.1]
          simp only [hlen, if_true]
          rfl
      · rw [if_neg hlen, if_neg (by simp [hlen])]
        simp only [hlen, if_false]
        split
        · rfl
        · simp only [EStateM.bind]
          cases readExact h.length rest with
          | ok payload rest' => rfl
          | error e rest' => rfl

/-- A header that is not bad: the payload follows, or the stream ends
in it. -/
theorem readFrame_good {h : RawHeader} (hb : ¬ h.Bad) (rest : Bytes) :
    readFrame (h.bytes ++ rest)
      = match readExact h.length rest with
        | .ok payload rest' => .ok (h.fin, h.opcode, payload) rest'
        | .error e rest' => .error e rest' := by
  unfold RawHeader.Bad at hb
  push Not at hb
  obtain ⟨hrsv, hmask, hlen, hctl⟩ := hb
  rw [readFrame_eq, if_neg (not_not_intro hrsv), if_neg (not_not_intro hmask),
    if_neg (by omega), if_neg]
  intro h
  obtain ⟨hop, hor⟩ := h
  obtain ⟨hfin, hle⟩ := hctl hop
  rcases hor with h0 | h0
  · exact hfin h0
  · omega

/-- `read_frame` rejects a bad header, whatever follows it. -/
theorem readFrame_bad {h : RawHeader} (hb : h.Bad) (rest : Bytes) :
    ∃ e s, readFrame (h.bytes ++ rest) = .error e s := by
  rw [readFrame_eq]
  split
  · exact ⟨_, _, rfl⟩
  · next h1 =>
      split
      · exact ⟨_, _, rfl⟩
      · next h2 =>
          split
          · exact ⟨_, _, rfl⟩
          · next h3 =>
              split
              · exact ⟨_, _, rfl⟩
              · next h4 =>
                  rcases hb with h | h | h | h
                  · exact absurd h h1
                  · exact absurd h h2
                  · exact absurd h h3
                  · exact absurd h h4

-- ================================================== the server's frames

inductive Opcode where
  | continuation
  | text
  | binary
  | close
  | ping
  | pong
  deriving DecidableEq, Repr

def Opcode.code : Opcode → UInt8
  | .continuation => 0x0
  | .text => 0x1
  | .binary => 0x2
  | .close => 0x8
  | .ping => 0x9
  | .pong => 0xA

def Opcode.control : Opcode → Bool
  | .close | .ping | .pong => true
  | _ => false

/-- The three length forms. -/
inductive LenForm where
  | short
  | mid
  | long
  deriving DecidableEq, Repr

def LenForm.fits : LenForm → Nat → Prop
  | .short, n => n < 126
  | .mid, n => n < 2 ^ 16
  | .long, n => n < 2 ^ 64

/-- The second header byte and the extended length. -/
def LenForm.bytes : LenForm → Nat → UInt8 × Bytes
  | .short, n => (UInt8.ofNat n, [])
  | .mid, n => (126, beBytes 2 n)
  | .long, n => (127, beBytes 8 n)

/-- A length that fits a form, read back by the form's own rules: the
extended bytes asked for, no mask bit, and the value. -/
theorem LenForm.bytes_spec {form : LenForm} {n : Nat} (h : form.fits n) :
    let b := form.bytes n
    (b.2.length = if (b.1 &&& 0x7F).toNat = 126 then 2
        else if (b.1 &&& 0x7F).toNat = 127 then 8 else 0)
      ∧ b.1 &&& 0x80 = 0
      ∧ (if (b.1 &&& 0x7F).toNat = 126 ∨ (b.1 &&& 0x7F).toNat = 127 then
          beNat b.2 else (b.1 &&& 0x7F).toNat) = n := by
  cases form with
  | short =>
      have hlt : n < 126 := h
      have hval : ∀ k < 126, (UInt8.ofNat k &&& 0x7F).toNat = k
          ∧ UInt8.ofNat k &&& 0x80 = 0 := by decide
      obtain ⟨hv, hm⟩ := hval n hlt
      simp only [LenForm.bytes, hv]
      refine ⟨?_, hm, ?_⟩
      · rw [if_neg (by omega), if_neg (by omega), List.length_nil]
      · rw [if_neg (by omega)]
  | mid =>
      have hlt : n < 256 ^ 2 := h
      have hmask : (126 : UInt8) &&& 0x80 = 0 := by decide
      exact ⟨by simp [LenForm.bytes], hmask,
        by simp [LenForm.bytes, beNat_beBytes hlt]⟩
  | long =>
      have hlt : n < 256 ^ 8 := h
      have hmask : (127 : UInt8) &&& 0x80 = 0 := by decide
      exact ⟨by simp [LenForm.bytes], hmask,
        by simp [LenForm.bytes, beNat_beBytes hlt]⟩

/-- A frame as RFC 6455 lets a server send it. -/
structure Frame where
  fin : Bool
  opcode : Opcode
  form : LenForm
  payload : Bytes
  hfits : form.fits payload.length
  hcap : payload.length ≤ MAX_WS_PAYLOAD
  hctl : opcode.control = true → fin = true ∧ payload.length ≤ 125

/-- The first header byte of a final flag and an opcode. -/
def firstByte (fin : Bool) (opcode : Opcode) : UInt8 :=
  (if fin then 0x80 else 0) ||| opcode.code

theorem firstByte_spec (fin : Bool) (opcode : Opcode) :
    firstByte fin opcode &&& 0x70 = 0
      ∧ decide (firstByte fin opcode &&& 0x80 ≠ 0) = fin
      ∧ firstByte fin opcode &&& 0x0F = opcode.code := by
  cases fin <;> cases opcode <;> decide

/-- The header of a server frame. -/
def Frame.header (f : Frame) : RawHeader where
  b0 := firstByte f.fin f.opcode
  b1 := (f.form.bytes f.payload.length).1
  ext := (f.form.bytes f.payload.length).2
  hext := (LenForm.bytes_spec f.hfits).1

/-- The wire bytes of a server frame. -/
def Frame.encode (f : Frame) : Bytes := f.header.bytes ++ f.payload

/-- A server frame's header declares its payload. -/
theorem Frame.header_length (f : Frame) :
    f.header.length = f.payload.length :=
  (LenForm.bytes_spec f.hfits).2.2

theorem Frame.header_fin (f : Frame) : f.header.fin = f.fin :=
  (firstByte_spec f.fin f.opcode).2.1

theorem Frame.header_opcode (f : Frame) :
    f.header.opcode = f.opcode.code :=
  (firstByte_spec f.fin f.opcode).2.2

/-- A server frame's header is not bad. -/
theorem Frame.header_not_bad (f : Frame) : ¬ f.header.Bad := by
  have hcode : f.opcode.code ≥ 0x8 → f.opcode.control = true := by
    cases f.opcode <;> decide
  unfold RawHeader.Bad
  rw [f.header_length, f.header_fin, f.header_opcode]
  intro h
  rcases h with h | h | h | ⟨hop, h⟩
  · exact h (firstByte_spec f.fin f.opcode).1
  · exact h (LenForm.bytes_spec f.hfits).2.1
  · exact absurd f.hcap (by omega)
  · obtain ⟨hfin, hle⟩ := f.hctl (hcode hop)
    rcases h with h | h
    · rw [hfin] at h
      cases h
    · omega

/-- `read_frame` reads a server frame back. -/
theorem readFrame_frame (f : Frame) (rest : Bytes) :
    readFrame (f.encode ++ rest)
      = .ok (f.fin, f.opcode.code, f.payload) rest := by
  rw [Frame.encode, List.append_assoc, readFrame_good f.header_not_bad,
    f.header_length, readExact_append, f.header_fin, f.header_opcode]

-- ============================================================ masking

/-- A server's reading of a payload under a masking key. -/
def unmask (key data : Bytes) : Bytes :=
  data.mapIdx fun i b => b ^^^ key.getD (i % 4) 0

/-- Masking is a keystream of period four. -/
theorem xorMaskOwned_eq (data : Bytes) (mask : MaskKey) :
    xorMaskOwned data mask = maskFrom xorByte
      (fun i => mask.get ⟨i % 4, Nat.mod_lt i (by decide)⟩) 0 data := by
  refine List.ext_getElem? ?_
  intro i
  rw [xorMaskOwned, List.getElem?_mapIdx, maskFrom_getElem?]
  simp only [Nat.zero_add]
  rfl

theorem xorMaskOwned_length (data : Bytes) (mask : MaskKey) :
    (xorMaskOwned data mask).length = data.length := by
  rw [xorMaskOwned_eq, maskFrom_length]

/-- Masking twice with one key gives the payload back. -/
theorem xorMaskOwned_xorMaskOwned (data : Bytes) (mask : MaskKey) :
    xorMaskOwned (xorMaskOwned data mask) mask = data := by
  rw [xorMaskOwned_eq, xorMaskOwned_eq,
    maskFrom_maskFrom xorByte _ xorByte_xorByte]

/-- A server takes the mask off again. -/
theorem unmask_xorMaskOwned (data : Bytes) (key : MaskKey) :
    unmask key.toList (xorMaskOwned data key) = data := by
  have hkey : unmask key.toList (xorMaskOwned data key)
      = xorMaskOwned (xorMaskOwned data key) key := by
    unfold unmask
    conv_rhs => rw [xorMaskOwned]
    refine List.mapIdx_eq_mapIdx_iff.mpr ?_
    intro i hi
    have hlt : i % 4 < key.toList.length := by
      rw [Vector.length_toList]
      exact Nat.mod_lt i (by decide)
    rw [List.getD_eq_getElem _ _ hlt]
    rfl
  rw [hkey, xorMaskOwned_xorMaskOwned]

-- ============================================================== pongs

/-- A server's reading of a client's pong: final, masked, of at most
125 bytes; the payload is unmasked with the key in the frame. -/
def unmaskPong : Bytes → Option Bytes
  | b0 :: b1 :: k0 :: k1 :: k2 :: k3 :: masked =>
      if b0 = 0x8A ∧ b1 &&& 0x80 ≠ 0 ∧ (b1 &&& 0x7F).toNat ≤ 125
          ∧ (b1 &&& 0x7F).toNat = masked.length then
        some (unmask [k0, k1, k2, k3] masked)
      else none
  | _ => none

/-- The server reads a pong's payload back, whatever the mask key. -/
theorem unmaskPong_buildWsFrame {payload : Bytes}
    (h : payload.length ≤ 125) (key : MaskKey) :
    unmaskPong (buildWsFrame 0xA payload true key) = some payload := by
  obtain ⟨⟨key⟩, hkey⟩ := key
  match key, hkey with
  | [k0, k1, k2, k3], hkey =>
      have hlen : ∀ n < 126, (0x80 ||| UInt8.ofNat n) &&& 0x80 ≠ 0
          ∧ ((0x80 ||| UInt8.ofNat n) &&& 0x7F).toNat = n := by decide
      obtain ⟨hmask, hval⟩ := hlen payload.length (by omega)
      have hbytes : wsLength 0x80 payload.length
          = [0x80 ||| UInt8.ofNat payload.length] := by
        unfold wsLength
        rw [if_pos (by omega)]
      show unmaskPong ((0x80 ||| 0xA) :: (wsLength 0x80 payload.length
        ++ [k0, k1, k2, k3] ++ xorMaskOwned payload _)) = _
      rw [hbytes]
      simp only [List.cons_append, List.nil_append, unmaskPong,
        xorMaskOwned_length, hval]
      rw [if_pos ⟨rfl, hmask, h, trivial⟩]
      exact congrArg some (unmask_xorMaskOwned payload ⟨⟨_⟩, hkey⟩)

end Wrtg.Ws
