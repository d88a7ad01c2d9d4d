/-
The frames the client sends (`ws.rs`), read by a server.

`serverDecode` is RFC 6455's reading of a client's frame: reserved bits
clear, masked, the length in its shortest form and below 2^63, controls
final and short. `build_ws_frame` writes the length in the form
`shortest` (`wsLength_eq`), which both this reader and `read_frame` take
back (`serverDecode_frame`, `readFrame_unmasked`).
-/
import Wrtg.Proofs.Ws.Frame

namespace Wrtg.Ws

open Lib Mtproto

-- ================================================== the server's reading

/-- The length, and what follows its extended bytes; no other form than
the shortest is taken. -/
def serverLength (length : Nat) (bs : Bytes) : Option (Nat × Bytes) :=
  if length = 126 then
    if bs.length < 2 ∨ beNat (bs.take 2) < 126 then none
    else some (beNat (bs.take 2), bs.drop 2)
  else if length = 127 then
    if bs.length < 8 ∨ beNat (bs.take 8) < 65536
        ∨ 2 ^ 63 ≤ beNat (bs.take 8) then none
    else some (beNat (bs.take 8), bs.drop 8)
  else some (length, bs)

/-- The next frame: final flag, opcode and payload, and what follows
it. -/
def serverDecode : Bytes → Option ((Bool × UInt8 × Bytes) × Bytes)
  | b0 :: b1 :: bs =>
      let fin := decide (b0 &&& 0x80 ≠ 0)
      let opcode := b0 &&& 0x0F
      if b0 &&& 0x70 ≠ 0 ∨ b1 &&& 0x80 = 0 then none
      else match serverLength (b1 &&& 0x7F).toNat bs with
        | none => none
        | some (length, bs) =>
            if opcode ≥ 0x8 ∧ (fin = false ∨ length > 125) then none
            else if bs.length < 4 + length then none
            else
              some ((fin, opcode, unmask (bs.take 4) ((bs.drop 4).take length)),
                bs.drop (4 + length))
  | _ => none

/-- The next `n` frames, and what follows them. -/
def serverFrames : Nat → Bytes → Option (List (Bool × UInt8 × Bytes) × Bytes)
  | 0, bs => some ([], bs)
  | n + 1, bs =>
      (serverDecode bs).bind fun r =>
        (serverFrames n r.2).map fun t => (r.1 :: t.1, t.2)

-- ============================================================== lengths

/-- The form of a length with the fewest bytes. -/
def shortest (n : Nat) : LenForm :=
  if n < 126 then .short else if n < 65536 then .mid else .long

/-- The extended length bytes of a form. -/
def LenForm.extended : LenForm → Nat
  | .short => 0
  | .mid => 2
  | .long => 8

theorem shortest_fits {n : Nat} (h : n < 2 ^ 64) : (shortest n).fits n := by
  unfold shortest
  split
  · assumption
  · split
    · assumption
    · exact h

/-- No form that fits has fewer bytes. -/
theorem shortest_le {form : LenForm} {n : Nat} (h : form.fits n) :
    (shortest n).extended ≤ form.extended := by
  unfold shortest
  cases form with
  | short =>
      rw [if_pos (show n < 126 from h)]
  | mid =>
      split
      · exact Nat.zero_le _
      · rw [if_pos (show n < 65536 from h)]
  | long =>
      split
      · exact Nat.zero_le _
      · split <;> decide

/-- The length bytes of a header are those of the shortest form. -/
theorem wsLength_eq (top : UInt8) (n : Nat) :
    wsLength top n
      = (top ||| ((shortest n).bytes n).1) :: ((shortest n).bytes n).2 := by
  unfold wsLength shortest
  split
  · rfl
  · split <;> rfl

/-- The mask bit is set, and hides nothing of a form's first byte. -/
theorem masked_byte (form : LenForm) {n : Nat} (h : form.fits n) :
    (0x80 ||| (form.bytes n).1) &&& 0x80 ≠ 0
      ∧ ((0x80 ||| (form.bytes n).1) &&& 0x7F).toNat
        = ((form.bytes n).1 &&& 0x7F).toNat := by
  cases form with
  | short =>
      have hval : ∀ k < 126, (0x80 ||| UInt8.ofNat k) &&& 0x80 ≠ 0
          ∧ ((0x80 ||| UInt8.ofNat k) &&& 0x7F).toNat
            = (UInt8.ofNat k &&& 0x7F).toNat := by decide
      exact hval n h
  | mid =>
      have hval : (0x80 ||| (126 : UInt8)) &&& 0x80 ≠ 0
          ∧ ((0x80 ||| (126 : UInt8)) &&& 0x7F).toNat
            = ((126 : UInt8) &&& 0x7F).toNat := by decide
      exact hval
  | long =>
      have hval : (0x80 ||| (127 : UInt8)) &&& 0x80 ≠ 0
          ∧ ((0x80 ||| (127 : UInt8)) &&& 0x7F).toNat
            = ((127 : UInt8) &&& 0x7F).toNat := by decide
      exact hval

/-- A length in its shortest form is read back. -/
theorem serverLength_shortest {n : Nat} (h : n < 2 ^ 63) (bs : Bytes) :
    serverLength (((shortest n).bytes n).1 &&& 0x7F).toNat
        (((shortest n).bytes n).2 ++ bs) = some (n, bs) := by
  have hread : ∀ k, n < 256 ^ k →
      beNat ((beBytes k n ++ bs).take k) = n
        ∧ (beBytes k n ++ bs).drop k = bs
        ∧ k ≤ (beBytes k n ++ bs).length := by
    intro k hk
    have hlen := beBytes_length k n
    refine ⟨?_, ?_, ?_⟩
    · rw [List.take_append_of_le_length (by omega), List.take_of_length_le
        (by omega), beNat_beBytes hk]
    · rw [List.drop_append_of_le_length (by omega), List.drop_of_length_le
        (by omega), List.nil_append]
    · rw [List.length_append, hlen]
      omega
  unfold serverLength shortest
  by_cases h1 : n < 126
  · have hval : ∀ k < 126, (UInt8.ofNat k &&& 0x7F).toNat = k := by decide
    simp only [h1, if_true, LenForm.bytes, hval n h1, List.nil_append]
    rw [if_neg (by omega), if_neg (by omega)]
  · by_cases h2 : n < 65536
    · obtain ⟨hnat, hdrop, hlen⟩ := hread 2 h2
      have hmid : ((126 : UInt8) &&& 0x7F).toNat = 126 := by decide
      simp only [h1, h2, if_true, if_false, LenForm.bytes, hmid]
      rw [hnat, hdrop, if_neg (by omega)]
    · obtain ⟨hnat, hdrop, hlen⟩ := hread 8 (by omega)
      have hlong : ((127 : UInt8) &&& 0x7F).toNat = 127 := by decide
      simp only [h1, h2, if_false, LenForm.bytes, hlong]
      rw [hnat, hdrop, if_neg (by decide), if_pos trivial, if_neg (by omega)]

-- =============================================================== frames

/-- The opcodes the client sends. -/
def sentOpcodes : List UInt8 := [0x2, 0x8, 0x9, 0xA]

theorem sentOpcode_byte {opcode : UInt8} (h : opcode ∈ sentOpcodes) :
    (0x80 ||| opcode) &&& 0x70 = 0 ∧ (0x80 ||| opcode) &&& 0x80 ≠ 0
      ∧ (0x80 ||| opcode) &&& 0x0F = opcode
      ∧ (opcode ≥ 0x8 → opcode ≠ 0x2) := by
  simp only [sentOpcodes, List.mem_cons, List.not_mem_nil, or_false] at h
  rcases h with rfl | rfl | rfl | rfl <;> decide

/-- A server reads a masked frame back, and what follows it. -/
theorem serverDecode_frame {opcode : UInt8} {payload : Bytes}
    (hop : opcode ∈ sentOpcodes) (hlen : payload.length < 2 ^ 63)
    (hctl : opcode ≠ 0x2 → payload.length ≤ 125) (key : MaskKey)
    (rest : Bytes) :
    serverDecode (buildWsFrame opcode payload true key ++ rest)
      = some ((true, opcode, payload), rest) := by
  obtain ⟨hrsv, hfin, hcode, hctl'⟩ := sentOpcode_byte hop
  obtain ⟨hmask, hseven⟩ := masked_byte (shortest payload.length)
    (shortest_fits (by omega))
  have hkey : key.toList.length = 4 := Vector.length_toList
  have hxor := xorMaskOwned_length payload key
  have hframe : buildWsFrame opcode payload true key ++ rest
      = (0x80 ||| opcode)
        :: (0x80 ||| ((shortest payload.length).bytes payload.length).1)
        :: (((shortest payload.length).bytes payload.length).2
          ++ (key.toList ++ (xorMaskOwned payload key ++ rest))) := by
    unfold buildWsFrame wsHeaderMasked
    simp [wsLength_eq]
  rw [hframe, serverDecode, if_neg (by simp [hrsv, hmask]), hseven,
    serverLength_shortest hlen]
  simp only [hcode]
  rw [if_neg, if_neg]
  · rw [List.take_append_of_le_length (by omega), List.take_of_length_le
      (by omega), List.drop_append_of_le_length (by omega),
      List.drop_of_length_le (by omega), List.nil_append,
      List.take_append_of_le_length (by omega), List.take_of_length_le
      (by omega), unmask_xorMaskOwned, ← List.append_assoc,
      List.drop_left' (by rw [List.length_append, hkey, hxor])]
    simp [hfin]
  · rw [List.length_append, List.length_append]
    omega
  · intro h
    obtain ⟨hge, h⟩ := h
    have hle := hctl (hctl' hge)
    rcases h with h | h
    · simp [hfin] at h
    · omega

/-- `read_frame` reads an unmasked frame back. -/
theorem readFrame_unmasked {opcode : UInt8} {payload : Bytes}
    (hop : opcode ∈ sentOpcodes) (hlen : payload.length ≤ MAX_WS_PAYLOAD)
    (hctl : opcode ≠ 0x2 → payload.length ≤ 125) (key : MaskKey)
    (rest : Bytes) :
    readFrame (buildWsFrame opcode payload false key ++ rest)
      = .ok (true, opcode, payload) rest := by
  have hcap : payload.length < 2 ^ 64 := by
    have hmax : MAX_WS_PAYLOAD < 2 ^ 64 := by decide
    omega
  obtain ⟨op, rfl, hcontrol⟩ : ∃ op : Opcode, op.code = opcode
      ∧ (op.control = true → op.code ≠ 0x2) := by
    simp only [sentOpcodes, List.mem_cons, List.not_mem_nil, or_false] at hop
    rcases hop with rfl | rfl | rfl | rfl
    · exact ⟨.binary, rfl, by decide⟩
    · exact ⟨.close, rfl, by decide⟩
    · exact ⟨.ping, rfl, by decide⟩
    · exact ⟨.pong, rfl, by decide⟩
  let frame : Frame :=
    { fin := true, opcode := op, form := shortest payload.length, payload
      hfits := shortest_fits hcap, hcap := hlen
      hctl := fun hc => ⟨rfl, hctl (hcontrol hc)⟩ }
  have hframe : buildWsFrame op.code payload false key = frame.encode := by
    have hzero : ∀ b : UInt8, 0 ||| b = b := fun b => UInt8.zero_or
    unfold buildWsFrame wsHeaderUnmasked
    simp [wsLength_eq, hzero, Frame.encode, Frame.header, RawHeader.bytes,
      firstByte, frame]
  rw [hframe]
  exact readFrame_frame frame rest

theorem buildWsFrame_length (opcode : UInt8) (payload : Bytes)
    (key : MaskKey) :
    (buildWsFrame opcode payload true key).length
      = 6 + (shortest payload.length).extended + payload.length := by
  have hext : ((shortest payload.length).bytes payload.length).2.length
      = (shortest payload.length).extended := by
    cases shortest payload.length with
    | short => rfl
    | mid => exact beBytes_length ..
    | long => exact beBytes_length ..
  unfold buildWsFrame wsHeaderMasked
  simp only [if_true, wsLength_eq, List.length_append, List.length_cons,
    hext, Vector.length_toList, xorMaskOwned_length]
  omega

/-- A batch is read back part by part. -/
theorem serverFrames_sendBatch (rng : Nat → MaskKey) (draws : Nat)
    {parts : List Bytes} (h : ∀ part ∈ parts, part.length < 2 ^ 63)
    (rest : Bytes) :
    serverFrames parts.length (sendBatch rng draws parts ++ rest)
      = some (parts.map fun part => (true, 0x2, part), rest) := by
  induction parts generalizing draws with
  | nil => rfl
  | cons part parts ih =>
      have hpart := @serverDecode_frame 0x2 part (by decide)
        (h part (List.mem_cons_self ..)) (fun hne => absurd rfl hne)
        (rng draws) (sendBatch rng (draws + 1) parts ++ rest)
      rw [List.length_cons, serverFrames, sendBatch, List.append_assoc, hpart,
        Option.bind_some,
        ih (draws + 1) fun p hp => h p (List.mem_cons_of_mem part hp)]
      rfl

/-- What the client sends decodes to what was sent: a masked frame, for a
server, whatever the mask key, in the fewest bytes, and a batch part by
part; and an unmasked one for `read_frame`. -/
theorem sent_decodes :
    (∀ opcode ∈ sentOpcodes, ∀ payload : Bytes, payload.length < 2 ^ 63 →
      (opcode ≠ 0x2 → payload.length ≤ 125) → ∀ (key : MaskKey) (rest : Bytes),
        serverDecode (buildWsFrame opcode payload true key ++ rest)
            = some ((true, opcode, payload), rest)
          ∧ ∀ form : LenForm, form.fits payload.length →
            (buildWsFrame opcode payload true key).length
              ≤ 6 + form.extended + payload.length)
    ∧ (∀ opcode ∈ sentOpcodes, ∀ payload : Bytes,
      payload.length ≤ MAX_WS_PAYLOAD →
      (opcode ≠ 0x2 → payload.length ≤ 125) → ∀ (key : MaskKey) (rest : Bytes),
        readFrame (buildWsFrame opcode payload false key ++ rest)
          = .ok (true, opcode, payload) rest)
    ∧ ∀ (rng : Nat → MaskKey) (draws : Nat) (parts : List Bytes),
      (∀ part ∈ parts, part.length < 2 ^ 63) → ∀ rest : Bytes,
        serverFrames parts.length (sendBatch rng draws parts ++ rest)
          = some (parts.map fun part => (true, 0x2, part), rest) := by
  refine ⟨?_, ?_, ?_⟩
  · intro opcode hop payload hlen hctl key rest
    refine ⟨serverDecode_frame hop hlen hctl key rest, ?_⟩
    intro form hfits
    have hle := shortest_le hfits
    rw [buildWsFrame_length]
    omega
  · intro opcode hop payload hlen hctl key rest
    exact readFrame_unmasked hop hlen hctl key rest
  · intro rng draws parts h rest
    exact serverFrames_sendBatch rng draws h rest

/-- A ping of three bytes and a batch of two parts, masked, and the ping
unmasked, each with a byte behind it. -/
theorem sent_decodes_sample :
    serverDecode (buildWsFrame 0x9 [1, 2, 3] true #v[9, 8, 7, 6] ++ [5])
        = some ((true, 0x9, [1, 2, 3]), [5])
      ∧ readFrame (buildWsFrame 0x9 [1, 2, 3] false #v[9, 8, 7, 6] ++ [5])
        = .ok (true, 0x9, [1, 2, 3]) [5]
      ∧ serverFrames 2
          (sendBatch (fun _ => #v[9, 8, 7, 6]) 0 [[1], [2, 3]] ++ [5])
        = some ([(true, 0x2, [1]), (true, 0x2, [2, 3])], [5]) := by
  refine ⟨?_, ?_, ?_⟩
  · exact (sent_decodes.1 0x9 (by decide) [1, 2, 3] (by decide)
      (fun _ => by decide) #v[9, 8, 7, 6] [5]).1
  · exact sent_decodes.2.1 0x9 (by decide) [1, 2, 3] (by decide)
      (fun _ => by decide) #v[9, 8, 7, 6] [5]
  · exact sent_decodes.2.2 (fun _ => #v[9, 8, 7, 6]) 0 [[1], [2, 3]]
      (by decide) [5]

end Wrtg.Ws
