/-
The packet headers of the three MTProto transports, as a grammar of
plaintext bytes, and the length functions of the splitter read as that
grammar.

`header proto` is the grammar: what the bytes at the head of a decrypted
stream say. `nextPacketLen_eq` is the one spec lemma of the source's
three length functions: from any position with `avail` bytes behind it
they return the grammar's verdict, coded `-1`/`0`/`n`, without an
out-of-range access and without overflow on a 32-bit `usize`.
`packetFramer` packages the grammar as a `Framer`, whose stability laws
are what makes an incremental splitter possible at all. `Packet` is the
sender's side: the well-formed packets of a transport and their
encodings, each of them exactly one frame of the grammar.
-/
import Wrtg.Lib.Framing
import Wrtg.Splitter

namespace Wrtg.Splitter

open Lib Mtproto

-- ======================================================= the grammar

/-- The verdict on a packet of known total length. -/
def packetHead (packetLen avail : Nat) : Verdict :=
  if packetLen > MAX_MTPROTO_PACKET then .bad
  else if avail < packetLen then .more
  else .frame packetLen

/-- Word count of the long abridged form. -/
def wordCount (b0 b1 b2 : UInt8) : Nat :=
  b0.toNat ||| (b1.toNat <<< 8) ||| (b2.toNat <<< 16)

def abridgedHead : Bytes → Verdict
  | [] => .more
  | first :: rest =>
      if first = 0x7F ∨ first = 0xFF then
        match rest with
        | b0 :: b1 :: b2 :: _ =>
            packetHead (4 + wordCount b0 b1 b2 * 4) (rest.length + 1)
        | _ => .more
      else if (first &&& 0x7F).toNat * 4 = 0 then .bad
      else packetHead (1 + (first &&& 0x7F).toNat * 4) (rest.length + 1)

def intermediateHead : Bytes → Verdict
  | b0 :: b1 :: b2 :: b3 :: rest =>
      if leNat [b0, b1, b2, b3] &&& 0x7FFFFFFF = 0 then .bad
      else packetHead (4 + (leNat [b0, b1, b2, b3] &&& 0x7FFFFFFF))
        (rest.length + 4)
  | _ => .more

/-- What the head of a decrypted stream says, by transport. -/
def header (proto : UInt32) (plain : Bytes) : Verdict :=
  if plain = [] then .more
  else if proto = PROTO_ABRIDGED_INT then abridgedHead plain
  else if proto = PROTO_INTERMEDIATE_INT
      ∨ proto = PROTO_PADDED_INTERMEDIATE_INT then intermediateHead plain
  else .bad

-- ============================================== stability of verdicts

theorem packetHead_frame {p a n : Nat} (h : packetHead p a = .frame n) :
    n = p ∧ n ≤ a := by
  unfold packetHead at h
  split at h
  · cases h
  · split at h
    · cases h
    · injection h with h
      omega

/-- A frame is within the cap. -/
theorem packetHead_cap {p a n : Nat} (h : packetHead p a = .frame n) :
    n ≤ MAX_MTPROTO_PACKET := by
  unfold packetHead at h
  split at h
  · cases h
  · split at h
    · cases h
    · injection h with h
      omega

theorem packetHead_frame_le {p a b n : Nat} (hab : a ≤ b)
    (h : packetHead p a = .frame n) : packetHead p b = .frame n := by
  obtain ⟨rfl, hle⟩ := packetHead_frame h
  unfold packetHead at h ⊢
  split at h
  · cases h
  · next hmax => rw [if_neg hmax, if_neg (by omega)]

theorem packetHead_bad {p a b : Nat} (h : packetHead p a = .bad) :
    packetHead p b = .bad := by
  unfold packetHead at h ⊢
  split at h
  · next hmax => rw [if_pos hmax]
  · split at h
    · cases h
    · cases h

/-- A whole packet within the cap is a frame. -/
theorem packetHead_of_le {p a : Nat} (hmax : p ≤ MAX_MTPROTO_PACKET)
    (h : p ≤ a) : packetHead p a = .frame p := by
  unfold packetHead
  rw [if_neg (by omega), if_neg (by omega)]

/-- An abridged frame is positive and within the string. -/
theorem abridgedHead_frame {xs : Bytes} {n : Nat}
    (h : abridgedHead xs = .frame n) : 0 < n ∧ n ≤ xs.length := by
  match xs with
  | [] => cases h
  | first :: rest =>
      simp only [abridgedHead] at h
      split at h
      · split at h
        · obtain ⟨hn, hle⟩ := packetHead_frame h
          exact ⟨by omega, hle⟩
        · cases h
      · split at h
        · cases h
        · obtain ⟨hn, hle⟩ := packetHead_frame h
          exact ⟨by omega, hle⟩

/-- Further bytes do not change an abridged frame. -/
theorem abridgedHead_frame_append {xs : Bytes} {n : Nat} (ys : Bytes)
    (h : abridgedHead xs = .frame n) :
    abridgedHead (xs ++ ys) = .frame n := by
  match xs with
  | [] => cases h
  | first :: rest =>
      simp only [List.cons_append, abridgedHead] at h ⊢
      split at h
      · next hl =>
          rw [if_pos hl]
          match rest with
          | b0 :: b1 :: b2 :: rest' =>
              refine packetHead_frame_le ?_ h
              simp
          | [] | [_] | [_, _] => cases h
      · next hs =>
          rw [if_neg hs]
          split at h
          · cases h
          · next hz =>
              rw [if_neg hz]
              refine packetHead_frame_le ?_ h
              simp

/-- Further bytes do not repair an abridged header. -/
theorem abridgedHead_bad_append {xs : Bytes} (ys : Bytes)
    (h : abridgedHead xs = .bad) : abridgedHead (xs ++ ys) = .bad := by
  match xs with
  | [] => cases h
  | first :: rest =>
      simp only [List.cons_append, abridgedHead] at h ⊢
      split at h
      · next hl =>
          rw [if_pos hl]
          match rest with
          | b0 :: b1 :: b2 :: rest' => exact packetHead_bad h
          | [] | [_] | [_, _] => cases h
      · next hs =>
          rw [if_neg hs]
          split at h
          · next hz => rw [if_pos hz]
          · next hz =>
              rw [if_neg hz]
              exact packetHead_bad h

/-- An intermediate frame is positive and within the string. -/
theorem intermediateHead_frame {xs : Bytes} {n : Nat}
    (h : intermediateHead xs = .frame n) : 0 < n ∧ n ≤ xs.length := by
  match xs with
  | b0 :: b1 :: b2 :: b3 :: rest =>
      simp only [intermediateHead] at h
      split at h
      · cases h
      · obtain ⟨hn, hle⟩ := packetHead_frame h
        exact ⟨by omega, hle⟩
  | [] | [_] | [_, _] | [_, _, _] => cases h

/-- Further bytes do not change an intermediate frame. -/
theorem intermediateHead_frame_append {xs : Bytes} {n : Nat} (ys : Bytes)
    (h : intermediateHead xs = .frame n) :
    intermediateHead (xs ++ ys) = .frame n := by
  match xs with
  | b0 :: b1 :: b2 :: b3 :: rest =>
      simp only [List.cons_append, intermediateHead] at h ⊢
      split at h
      · cases h
      · next hz =>
          rw [if_neg hz]
          refine packetHead_frame_le ?_ h
          simp
  | [] | [_] | [_, _] | [_, _, _] => cases h

/-- Further bytes do not repair an intermediate header. -/
theorem intermediateHead_bad_append {xs : Bytes} (ys : Bytes)
    (h : intermediateHead xs = .bad) :
    intermediateHead (xs ++ ys) = .bad := by
  match xs with
  | b0 :: b1 :: b2 :: b3 :: rest =>
      simp only [List.cons_append, intermediateHead] at h ⊢
      split at h
      · next hz => rw [if_pos hz]
      · next hz =>
          rw [if_neg hz]
          exact packetHead_bad h
  | [] | [_] | [_, _] | [_, _, _] => cases h

/-- The header grammar of a transport, as a framer of plaintext
bytes. -/
def packetFramer (proto : UInt32) : Framer UInt8 where
  head := header proto
  head_nil := rfl
  frame_pos {xs n} h := by
    unfold header at h
    split at h
    · cases h
    · split at h
      · exact (abridgedHead_frame h).1
      · split at h
        · exact (intermediateHead_frame h).1
        · cases h
  frame_le {xs n} h := by
    unfold header at h
    split at h
    · cases h
    · split at h
      · exact (abridgedHead_frame h).2
      · split at h
        · exact (intermediateHead_frame h).2
        · cases h
  frame_append {xs n} ys h := by
    unfold header at h ⊢
    split at h
    · cases h
    · next hne =>
        rw [if_neg (by simp [hne])]
        split at h
        · next ha =>
            rw [if_pos ha]
            exact abridgedHead_frame_append ys h
        · next ha =>
            rw [if_neg ha]
            split at h
            · next hi =>
                rw [if_pos hi]
                exact intermediateHead_frame_append ys h
            · cases h
  bad_append {xs} ys h := by
    unfold header at h ⊢
    split at h
    · cases h
    · next hne =>
        rw [if_neg (by simp [hne])]
        split at h
        · next ha =>
            rw [if_pos ha]
            exact abridgedHead_bad_append ys h
        · next ha =>
            rw [if_neg ha]
            split at h
            · next hi =>
                rw [if_pos hi]
                exact intermediateHead_bad_append ys h
            · next hi => rw [if_neg hi]

/-- Every frame of the grammar is within the packet cap. -/
theorem header_cap {proto : UInt32} {xs : Bytes} {n : Nat}
    (h : header proto xs = .frame n) : n ≤ MAX_MTPROTO_PACKET := by
  unfold header at h
  split at h
  · cases h
  · split at h
    · match xs with
      | [] => cases h
      | first :: rest =>
          simp only [abridgedHead] at h
          split at h
          · split at h
            · exact packetHead_cap h
            · cases h
          · split at h
            · cases h
            · exact packetHead_cap h
    · split at h
      · match xs with
        | b0 :: b1 :: b2 :: b3 :: rest =>
            simp only [intermediateHead] at h
            split at h
            · cases h
            · exact packetHead_cap h
        | [] | [_] | [_, _] | [_, _, _] => cases h
      · cases h

-- ============================================== the length functions

/-- The source's coding of a verdict as an `i32`. -/
def verdictCode : Verdict → Int
  | .more => -1
  | .bad => 0
  | .frame n => n

theorem packetVerdict_eq (p a : Nat) :
    packetVerdict p a = verdictCode (packetHead p a) := by
  unfold packetVerdict packetHead
  split
  · rfl
  · next hmax =>
      split
      · rfl
      · have hcap : MAX_MTPROTO_PACKET < 2 ^ 31 := by decide
        rw [asI32_of_lt (by omega)]
        rfl

/-- The three count bytes stay below `2 ^ 24`. -/
theorem wordCount_lt (b0 b1 b2 : UInt8) : wordCount b0 b1 b2 < 2 ^ 24 := by
  have h0 : b0.toNat < 2 ^ 24 := Nat.lt_trans b0.toNat_lt (by decide)
  have h1 : b1.toNat <<< 8 < 2 ^ 24 := by
    have := b1.toNat_lt
    rw [Nat.shiftLeft_eq]
    omega
  have h2 : b2.toNat <<< 16 < 2 ^ 24 := by
    have := b2.toNat_lt
    rw [Nat.shiftLeft_eq]
    omega
  exact Nat.or_lt_two_pow (Nat.or_lt_two_pow h0 h1) h2

theorem masked_lt (b : UInt8) : (b &&& 0x7F).toNat < 128 := by
  have : (b &&& 0x7F).toNat ≤ (0x7F : UInt8).toNat := by
    rw [UInt8.toNat_and]
    exact Nat.and_le_right
  exact Nat.lt_succ_of_le this

private theorem drop_cons {xs : Bytes} {i : Nat} (h : i < xs.length) :
    xs.drop i = xs[i] :: xs.drop (i + 1) :=
  List.drop_eq_getElem_cons h

/-- The abridged length function reads the grammar. -/
theorem nextAbridgedLen_eq (w : Word) (sp : MsgSplitter)
    {offset avail : Nat} (hlen : sp.plainBuf.length = offset + avail)
    (hpos : 0 < avail) :
    sp.nextAbridgedLen w offset avail
      = .ok (verdictCode (abridgedHead (sp.plainBuf.drop offset))) := by
  have h0 : offset < sp.plainBuf.length := by omega
  unfold MsgSplitter.nextAbridgedLen
  rw [idx_ok h0, drop_cons h0]
  have hrest : (sp.plainBuf.drop (offset + 1)).length + 1 = avail := by
    rw [List.length_drop]
    omega
  simp only [bind, Except.bind, abridgedHead, hrest]
  by_cases hl : sp.plainBuf[offset] = 0x7F ∨ sp.plainBuf[offset] = 0xFF
  · rw [if_pos hl, if_pos hl]
    by_cases h4 : avail < 4
    · rw [if_pos h4]
      have hshort : (sp.plainBuf.drop (offset + 1)).length < 3 := by omega
      match hd : sp.plainBuf.drop (offset + 1) with
      | [] | [_] | [_, _] => rfl
      | _ :: _ :: _ :: _ =>
          rw [hd] at hshort
          simp at hshort
          omega
    · rw [if_neg h4, slice_ok (by omega) (by omega)]
      match hd : sp.plainBuf.drop (offset + 1) with
      | [] | [_] | [_, _] =>
          rw [hd] at hrest
          simp at hrest
          omega
      | b0 :: b1 :: b2 :: rest =>
          have hsub : sub sp.plainBuf (offset + 1) (offset + 4)
              = [b0, b1, b2] := by
            rw [sub, hd, show offset + 4 - (offset + 1) = 3 by omega]
            rfl
          have hlt := wordCount_lt b0 b1 b2
          have hmul : w.mul
              (b0.toNat ||| (b1.toNat <<< 8) ||| (b2.toNat <<< 16)) 4
              = .ok (wordCount b0 b1 b2 * 4) :=
            Word.mul_ok (show wordCount b0 b1 b2 * 4 < _ by omega)
          have hadd : w.add 4 (wordCount b0 b1 b2 * 4)
              = .ok (4 + wordCount b0 b1 b2 * 4) := Word.add_ok (by omega)
          simp only [hsub, idx, List.getElem?_cons_zero,
            List.getElem?_cons_succ, hmul, hadd, packetVerdict_eq]
  · have hlt := masked_lt sp.plainBuf[offset]
    rw [if_neg hl, if_neg hl, Word.mul_ok (by omega)]
    show (if (sp.plainBuf[offset] &&& 0x7F).toNat * 4 = 0
      then _ else _) = _
    split
    · rfl
    · rw [Word.add_ok (by omega)]
      exact congrArg _ (packetVerdict_eq _ _)

theorem and_mask31 (n : Nat) : n &&& 0x7FFFFFFF = n % 2 ^ 31 :=
  Nat.and_two_pow_sub_one_eq_mod n 31

/-- The intermediate length function reads the grammar. -/
theorem nextIntermediateLen_eq (w : Word) (sp : MsgSplitter)
    {offset avail : Nat} (hlen : sp.plainBuf.length = offset + avail) :
    sp.nextIntermediateLen w offset avail
      = .ok (verdictCode (intermediateHead (sp.plainBuf.drop offset))) := by
  have hdrop : (sp.plainBuf.drop offset).length = avail := by
    rw [List.length_drop]
    omega
  unfold MsgSplitter.nextIntermediateLen
  by_cases h4 : avail < 4
  · rw [if_pos h4]
    match hd : sp.plainBuf.drop offset with
    | [] | [_] | [_, _] | [_, _, _] => rfl
    | _ :: _ :: _ :: _ :: _ =>
        rw [hd] at hdrop
        simp at hdrop
        omega
  · rw [if_neg h4, slice_ok (by omega) (by omega)]
    match hd : sp.plainBuf.drop offset with
    | [] | [_] | [_, _] | [_, _, _] =>
        rw [hd] at hdrop
        simp at hdrop
        omega
    | b0 :: b1 :: b2 :: b3 :: rest =>
        have hsub : sub sp.plainBuf offset (offset + 4)
            = [b0, b1, b2, b3] := by
          rw [sub, hd, show offset + 4 - offset = 4 by omega]
          rfl
        have havail : rest.length + 4 = avail := by
          rw [hd] at hdrop
          simpa using hdrop
        simp only [bind, Except.bind, hsub, intermediateHead, havail]
        split
        · rfl
        · have hlt : leNat [b0, b1, b2, b3] &&& 0x7FFFFFFF < 2 ^ 31 := by
            rw [and_mask31]
            exact Nat.mod_lt _ (by decide)
          rw [Word.add_ok (by omega)]
          exact congrArg _ (packetVerdict_eq _ _)

/-- The spec of `next_packet_len`: it reads the header grammar at the
offset, in range and without overflow on either target width. -/
theorem nextPacketLen_eq (w : Word) (sp : MsgSplitter)
    {offset avail : Nat} (hlen : sp.plainBuf.length = offset + avail) :
    sp.nextPacketLen w offset avail
      = .ok (verdictCode (header sp.proto (sp.plainBuf.drop offset))) := by
  have hdrop : (sp.plainBuf.drop offset).length = avail := by
    rw [List.length_drop]
    omega
  unfold MsgSplitter.nextPacketLen header
  by_cases h0 : avail = 0
  · have hnil : sp.plainBuf.drop offset = [] :=
      List.eq_nil_of_length_eq_zero (by omega)
    rw [if_pos h0, if_pos hnil]
    rfl
  · have hne : sp.plainBuf.drop offset ≠ [] := by
      intro hnil
      rw [hnil] at hdrop
      exact h0 hdrop.symm
    rw [if_neg h0, if_neg hne]
    split
    · exact nextAbridgedLen_eq w sp hlen (by omega)
    · split
      · exact nextIntermediateLen_eq w sp hlen
      · rfl

-- ================================================ the sender's packets

/-- The transports the splitter knows. -/
inductive Transport where
  | abridged
  | intermediate
  | padded
  deriving DecidableEq, Repr

def Transport.protoInt : Transport → UInt32
  | .abridged => PROTO_ABRIDGED_INT
  | .intermediate => PROTO_INTERMEDIATE_INT
  | .padded => PROTO_PADDED_INTERMEDIATE_INT

/-- The well-formed packets of a transport; `quickAck` is the top bit
of the length. -/
inductive Packet : Transport → Type where
  | short (quickAck : Bool) (words : Nat) (payload : Bytes)
      (hwords : 1 ≤ words ∧ words ≤ 126)
      (hlen : payload.length = words * 4) : Packet .abridged
  | long (quickAck : Bool) (words : Nat) (payload : Bytes)
      (hwords : words < 2 ^ 24) (hlen : payload.length = words * 4)
      (hcap : 4 + payload.length ≤ MAX_MTPROTO_PACKET) : Packet .abridged
  | sized {t : Transport} (ht : t ≠ .abridged) (quickAck : Bool)
      (payload : Bytes)
      (hlen : 0 < payload.length ∧ payload.length < 2 ^ 31)
      (hcap : 4 + payload.length ≤ MAX_MTPROTO_PACKET) : Packet t

/-- The wire bytes of a packet, before encryption. -/
def Packet.encode {t : Transport} : Packet t → Bytes
  | .short q words payload _ _ =>
      UInt8.ofNat (words + if q then 128 else 0) :: payload
  | .long q words payload _ _ _ =>
      (if q then 0xFF else 0x7F) :: (leBytes 3 words ++ payload)
  | .sized _ q payload _ _ =>
      leBytes 4 (payload.length + if q then 2 ^ 31 else 0) ++ payload

/-- Three little-endian count bytes, as the source assembles them. -/
theorem wordCount_leBytes {n : Nat} (h : n < 2 ^ 24) :
    ∃ b0 b1 b2, leBytes 3 n = [b0, b1, b2] ∧ wordCount b0 b1 b2 = n := by
  refine ⟨_, _, _, rfl, ?_⟩
  unfold wordCount
  simp only [UInt8.toNat_ofNat']
  have h0 : n % 256 % 2 ^ 8 < 2 ^ 8 := Nat.mod_lt _ (by decide)
  have h1 : n / 256 % 256 % 2 ^ 8 < 2 ^ 8 := Nat.mod_lt _ (by decide)
  rw [Nat.or_comm (n % 256 % 2 ^ 8), ← Nat.shiftLeft_add_eq_or_of_lt h0,
    Nat.or_comm, ← Nat.shiftLeft_add_eq_or_of_lt (by
      rw [Nat.shiftLeft_eq]
      omega)]
  simp only [Nat.shiftLeft_eq]
  omega

/-- The short form's first byte: its value, and that it is neither of
the long form's. -/
private theorem shortByte {words : Nat} (q : Bool)
    (h : 1 ≤ words ∧ words ≤ 126) :
    ¬ (UInt8.ofNat (words + if q then 128 else 0) = 0x7F
        ∨ UInt8.ofNat (words + if q then 128 else 0) = 0xFF)
      ∧ (UInt8.ofNat (words + if q then 128 else 0) &&& 0x7F).toNat
          = words := by
  have hv : (UInt8.ofNat (words + if q then 128 else 0)).toNat
      = words + if q then 128 else 0 := by
    rw [UInt8.toNat_ofNat']
    split <;> omega
  constructor
  · intro hor
    rcases hor with he | he
    · have := congrArg UInt8.toNat he
      rw [hv] at this
      simp at this
      split at this <;> omega
    · have := congrArg UInt8.toNat he
      rw [hv] at this
      simp at this
      split at this <;> omega
  · rw [UInt8.toNat_and, hv]
    show (words + if q then 128 else 0) &&& (2 ^ 7 - 1) = words
    rw [Nat.and_two_pow_sub_one_eq_mod]
    split <;> omega

/-- A well-formed packet is exactly one frame of its transport's
grammar. -/
theorem Packet.isFrame {t : Transport} (p : Packet t) :
    IsFrame (packetFramer t.protoInt) p.encode := by
  show header t.protoInt p.encode = .frame p.encode.length
  cases p with
  | short q words payload hwords hlen =>
      obtain ⟨hfirst, hmask⟩ := shortByte q hwords
      have hcap : 1 + words * 4 ≤ MAX_MTPROTO_PACKET := by
        have : MAX_MTPROTO_PACKET = 16777220 := by decide
        omega
      unfold header
      rw [if_neg (by simp [Packet.encode]),
        if_pos (show Transport.abridged.protoInt = PROTO_ABRIDGED_INT
          from rfl)]
      simp only [Packet.encode, abridgedHead, List.length_cons, hlen]
      rw [if_neg hfirst, hmask, if_neg (by omega),
        packetHead_of_le hcap (by omega)]
      congr 1
      omega
  | long q words payload hwords hlen hcap =>
      obtain ⟨b0, b1, b2, hb, hw⟩ := wordCount_leBytes hwords
      have hfirst : (if q then 0xFF else 0x7F : UInt8) = 0x7F
          ∨ (if q then 0xFF else 0x7F : UInt8) = 0xFF := by
        cases q
        · exact .inl rfl
        · exact .inr rfl
      unfold header
      rw [if_neg (by simp [Packet.encode]),
        if_pos (show Transport.abridged.protoInt = PROTO_ABRIDGED_INT
          from rfl)]
      simp only [Packet.encode, abridgedHead, hb, List.cons_append,
        List.nil_append, List.length_cons, hlen]
      rw [if_pos hfirst, hw, packetHead_of_le (by omega) (by omega)]
      congr 1
      omega
  | sized ht q payload hlen hcap =>
      have hb : leNat (leBytes 4 (payload.length + if q then 2 ^ 31 else 0))
          &&& 0x7FFFFFFF = payload.length := by
        rw [leNat_leBytes (by split <;> omega), and_mask31]
        split <;> omega
      have hproto : t.protoInt ≠ PROTO_ABRIDGED_INT
          ∧ (t.protoInt = PROTO_INTERMEDIATE_INT
            ∨ t.protoInt = PROTO_PADDED_INTERMEDIATE_INT) := by
        cases t with
        | abridged => exact absurd rfl ht
        | intermediate => exact ⟨by decide, .inl rfl⟩
        | padded => exact ⟨by decide, .inr rfl⟩
      unfold header
      rw [if_neg (by simp [Packet.encode, leBytes]), if_neg hproto.1,
        if_pos hproto.2]
      simp only [Packet.encode]
      generalize hl : payload.length + (if q then 2 ^ 31 else 0) = v at hb ⊢
      obtain ⟨b0, b1, b2, b3, hbs⟩ :
          ∃ b0 b1 b2 b3, leBytes 4 v = [b0, b1, b2, b3] :=
        ⟨_, _, _, _, rfl⟩
      rw [hbs] at hb
      simp only [hbs, List.cons_append, List.nil_append, intermediateHead, hb,
        List.length_cons]
      rw [if_neg (by omega), packetHead_of_le hcap (by omega)]
      congr 1
      omega

end Wrtg.Splitter
