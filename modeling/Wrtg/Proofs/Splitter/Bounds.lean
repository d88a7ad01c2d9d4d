/-
What the splitter holds and sends, in bytes (`splitter.rs`).

Between two calls it holds an open rest: less than a header, or a packet
of a known length within the cap (`header_more`). So a header that
cannot be decoded was not complete before the call that brings it, or
came with that call, and the part in which a call gives up is that
call's chunk and three bytes at most (`cut_broken_le`).
-/
import Wrtg.Bridge
import Wrtg.Proofs.Splitter.Run

namespace Wrtg.Splitter

open Lib Mtproto

-- ========================================================= open rests

/-- A packet that waits is within the cap, and no more bytes make it
another. -/
theorem packetHead_more {p a b : Nat} (h : packetHead p a = .more) :
    a < p ∧ p ≤ MAX_MTPROTO_PACKET ∧ packetHead p b ≠ .bad := by
  unfold packetHead at h
  split at h
  · cases h
  · next hmax =>
      split at h
      · next hlt =>
          refine ⟨hlt, by omega, ?_⟩
          intro hbad
          unfold packetHead at hbad
          rw [if_neg hmax] at hbad
          split at hbad <;> cases hbad
      · cases h

/-- What an open rest `xs` promises of the bytes behind it. -/
structure Open (head : Bytes → Verdict) (xs : Bytes) : Prop where
  lt_cap : xs.length < MAX_MTPROTO_PACKET
  of_bad : ∀ ys, head (xs ++ ys) = .bad → xs.length ≤ 3
  of_frame : ∀ ys n, head (xs ++ ys) = .frame n → xs.length ≤ n

/-- Less than a header is open. -/
theorem Open.short {head : Bytes → Verdict} {xs : Bytes}
    (hlen : xs.length ≤ 3)
    (hframe : ∀ ys n, head (xs ++ ys) = .frame n → 3 ≤ n ∨ xs = []) :
    Open head xs := by
  refine ⟨Nat.lt_of_le_of_lt hlen (by decide), fun _ _ => hlen, ?_⟩
  intro ys n h
  rcases hframe ys n h with hn | rfl
  · omega
  · exact Nat.zero_le n

/-- So is a packet that waits for its rest. -/
theorem Open.waiting {head : Bytes → Verdict} {xs : Bytes} {p a : Nat}
    (hlen : xs.length = a) (hmore : packetHead p a = .more)
    (hhead : ∀ ys : Bytes, head (xs ++ ys) = packetHead p (a + ys.length)) :
    Open head xs := by
  refine ⟨?_, ?_, ?_⟩
  · obtain ⟨hlt, hcap, -⟩ := packetHead_more (b := a) hmore
    omega
  · intro ys hbad
    rw [hhead] at hbad
    exact absurd hbad (packetHead_more hmore).2.2
  · intro ys n hframe
    rw [hhead] at hframe
    have hlt := (packetHead_more (b := a) hmore).1
    have hn := (packetHead_frame hframe).1
    omega

/-- The long form needs its three count bytes. -/
theorem abridgedHead_short {first : UInt8} {rest : Bytes}
    (hl : first = 0x7F ∨ first = 0xFF) (hlen : rest.length ≤ 2) :
    Open abridgedHead (first :: rest) := by
  refine .short (Nat.succ_le_succ hlen) ?_
  intro ys n hn
  simp only [List.cons_append, abridgedHead] at hn
  rw [if_pos hl] at hn
  split at hn
  · have hlong := (packetHead_frame hn).1
    exact .inl (by omega)
  · cases hn

theorem abridgedHead_more {xs : Bytes} (h : abridgedHead xs = .more) :
    Open abridgedHead xs := by
  cases xs with
  | nil => exact .short (Nat.zero_le 3) fun _ _ _ => .inr rfl
  | cons first rest =>
      simp only [abridgedHead] at h
      split at h
      · next hl =>
          rcases rest with _ | ⟨b0, _ | ⟨b1, _ | ⟨b2, rest⟩⟩⟩
          · exact abridgedHead_short hl (Nat.zero_le 2)
          · exact abridgedHead_short hl (Nat.le_succ 1)
          · exact abridgedHead_short hl (Nat.le_refl 2)
          · refine .waiting rfl h ?_
            intro ys
            simp only [List.cons_append, abridgedHead]
            rw [if_pos hl]
            congr 1
            simp only [List.length_cons, List.length_append]
            omega
      · next hs =>
          split at h
          · cases h
          · next hz =>
              refine .waiting rfl h ?_
              intro ys
              simp only [List.cons_append, abridgedHead]
              rw [if_neg hs, if_neg hz]
              congr 1
              simp only [List.length_cons, List.length_append]
              omega

theorem intermediateHead_frame_ge {xs : Bytes} {n : Nat}
    (h : intermediateHead xs = .frame n) : 3 ≤ n := by
  match xs with
  | b0 :: b1 :: b2 :: b3 :: rest =>
      simp only [intermediateHead] at h
      split at h
      · cases h
      · have := (packetHead_frame h).1
        omega
  | [] | [_] | [_, _] | [_, _, _] => cases h

theorem intermediateHead_more {xs : Bytes}
    (h : intermediateHead xs = .more) : Open intermediateHead xs := by
  match xs with
  | b0 :: b1 :: b2 :: b3 :: rest =>
      simp only [intermediateHead] at h
      split at h
      · cases h
      · next hz =>
          refine .waiting rfl h ?_
          intro ys
          simp only [List.cons_append, intermediateHead]
          rw [if_neg hz]
          congr 1
          simp only [List.length_cons, List.length_append]
          omega
  | [] | [_] | [_, _] | [_, _, _] =>
      refine .short (by simp) ?_
      intro ys n hn
      exact .inl (intermediateHead_frame_ge hn)

theorem Open.congr {head head' : Bytes → Verdict} {xs : Bytes}
    (h : Open head' xs) (heq : ∀ ys, head (xs ++ ys) = head' (xs ++ ys)) :
    Open head xs :=
  ⟨h.lt_cap, fun ys hbad => h.of_bad ys (heq ys ▸ hbad),
    fun ys n hframe => h.of_frame ys n (heq ys ▸ hframe)⟩

/-- What the header grammar leaves open. -/
theorem header_more {proto : UInt32} {xs : Bytes}
    (h : header proto xs = .more) : Open (header proto) xs := by
  by_cases hnil : xs = []
  · subst hnil
    exact .short (Nat.zero_le 3) fun _ _ _ => .inr rfl
  · have hcons : ∀ ys, xs ++ ys ≠ [] := fun ys => by simp [hnil]
    unfold header at h
    rw [if_neg hnil] at h
    split at h
    · next ha =>
        refine (abridgedHead_more h).congr ?_
        intro ys
        rw [header, if_neg (hcons ys), if_pos ha]
    · next ha =>
        split at h
        · next hi =>
            refine (intermediateHead_more h).congr ?_
            intro ys
            rw [header, if_neg (hcons ys), if_neg ha, if_pos hi]
        · cases h

-- =========================================================== the state

/-- The buffers in lock step and below the cap, and empty behind the
call that gave up. -/
structure Bounded (sp : MsgSplitter) : Prop where
  lockstep : sp.cipherBuf.length = sp.plainBuf.length
  lt_cap : sp.cipherBuf.length < MAX_MTPROTO_PACKET
  disabled : sp.disabled = true → sp.cipherBuf = []

/-- A part fits a packet, so it fits a WebSocket payload. -/
structure Fits (part : Bytes) : Prop where
  packet : part.length ≤ MAX_MTPROTO_PACKET
  payload : part.length ≤ MAX_WS_PAYLOAD

theorem Fits.of_le {part : Bytes} (h : part.length ≤ MAX_MTPROTO_PACKET) :
    Fits part :=
  ⟨h, Nat.le_trans h (by decide)⟩

variable {proto : UInt32} {key iv : Bytes}

theorem Sim.bounded {sp : MsgSplitter} {s : Nat × CutState Pair}
    (h : Sim proto key iv sp s) : Bounded sp := by
  obtain ⟨pos, st⟩ := s
  cases st with
  | buffering buf =>
      obtain ⟨rfl, hmore⟩ := h
      have hopen := header_more (show header proto (buf.map Prod.snd)
        = .more from hmore)
      have hlt := hopen.lt_cap
      rw [List.length_map] at hlt
      refine ⟨?_, ?_, ?_⟩
      · rw [List.length_map, List.length_map]
      · rwa [List.length_map]
      · intro hdisabled
        cases hdisabled
  | broken =>
      obtain ⟨-, hcipher, hplain⟩ := h
      refine ⟨by rw [hcipher, hplain], ?_, fun _ => hcipher⟩
      rw [hcipher]
      decide

-- ============================================================ one call

/-- The parts of a call. -/
theorem pairSplit_fits (ks : Nat → UInt8) {sp : MsgSplitter}
    {s : Nat × CutState Pair} (h : Sim proto key iv sp s) {c : Bytes}
    (hc : c.length ≤ Bridge.RELAY_BUF_SIZE) :
    ∀ part ∈ (pairSplit proto ks s c).1, Fits part := by
  have hroom : 3 + c.length ≤ MAX_MTPROTO_PACKET := by
    have hbuf : 3 + Bridge.RELAY_BUF_SIZE ≤ MAX_MTPROTO_PACKET := by decide
    omega
  obtain ⟨pos, st⟩ := s
  cases st with
  | broken =>
      intro part hpart
      rw [pairSplit_broken] at hpart
      split at hpart
      · cases hpart
      · rw [List.mem_singleton.mp hpart]
        exact .of_le (by omega)
  | buffering buf =>
      obtain ⟨-, hmore⟩ := h
      have hopen := header_more (show header proto (buf.map Prod.snd)
        = .more from hmore)
      have hhead : ∀ ys, (pairFramer proto).head (buf ++ ys)
          = header proto (buf.map Prod.snd ++ ys.map Prod.snd) := by
        intro ys
        rw [← List.map_append]
        rfl
      -- the part a call gives up with
      have hrest : ∀ t, (cut (pairFramer proto)
          (buf ++ pairUp ks pos c)).2 = .broken t →
          t.length ≤ MAX_MTPROTO_PACKET := by
        intro t ht
        have hle : t.length ≤ 3 + (pairUp ks pos c).length := by
          refine cut_broken_le (pairFramer proto) ?_ ?_ ht
          · intro hbad
            rw [hhead] at hbad
            have hshort := hopen.of_bad _ hbad
            rwa [List.length_map] at hshort
          · intro n hframe
            rw [hhead] at hframe
            have hshort := hopen.of_frame _ n hframe
            rwa [List.length_map] at hshort
        rw [pairUp_length] at hle
        omega
      have hframes := cut_length_le (pairFramer proto)
        (fun xs n hn => header_cap hn) (buf ++ pairUp ks pos c)
      intro part hpart
      obtain ⟨f, hf, rfl⟩ := List.mem_map.mp hpart
      refine .of_le ?_
      rw [cipherPart, List.length_map]
      change f ∈ (cutStep (pairFramer proto) (.buffering buf)
        (pairUp ks pos c)).1 at hf
      simp only [cutStep] at hf
      split at hf
      · exact hframes f hf
      · next t ht =>
          rcases List.mem_append.mp hf with hf | hf
          · exact hframes f hf
          · rw [List.mem_singleton.mp hf]
            exact hrest t ht

-- ============================================================= the run

/-- The length functions read the header grammar, which knows no
overflow: what they return is `-1`, `0`, or the length of a packet, not
zero, within the cap, and within the bytes there are. -/
theorem nextPacketLen_bounds (w : Word) (sp : MsgSplitter)
    (offset avail : Nat) (hlen : sp.plainBuf.length = offset + avail) :
    ∃ v, sp.nextPacketLen w offset avail = .ok (verdictCode v)
      ∧ v = header sp.proto (sp.plainBuf.drop offset)
      ∧ ∀ n, v = .frame n → 0 < n ∧ n ≤ avail ∧ n ≤ MAX_MTPROTO_PACKET := by
  refine ⟨_, nextPacketLen_eq w sp hlen, rfl, ?_⟩
  intro n hn
  have hle := (packetFramer sp.proto).frame_le hn
  rw [List.length_drop] at hle
  exact ⟨(packetFramer sp.proto).frame_pos hn, by omega, header_cap hn⟩

/-- Every run of `split` calls on reads of the relay buffer returns, and
leaves the splitter bounded; its parts fit a packet and a WebSocket
payload. And at any header the length functions return without
overflow. -/
theorem split_bounds (w : Word) (aes : Aes256) (R : Bytes)
    (hR : R.length = HANDSHAKE_LEN) (proto : UInt32) (cs : List Bytes)
    (hcs : ∀ c ∈ cs, c.length ≤ Bridge.RELAY_BUF_SIZE) :
    (∃ sp outs sp', MsgSplitter.new aes R proto = .ok sp
      ∧ feedE (MsgSplitter.split w aes) sp cs = .ok (outs, sp')
      ∧ Bounded sp' ∧ ∀ parts ∈ outs, ∀ part ∈ parts, Fits part)
    ∧ ∀ (sp : MsgSplitter) (offset avail : Nat),
        sp.plainBuf.length = offset + avail →
        ∃ v, sp.nextPacketLen w offset avail = .ok (verdictCode v)
          ∧ v = header sp.proto (sp.plainBuf.drop offset)
          ∧ ∀ n, v = .frame n →
              0 < n ∧ n ≤ avail ∧ n ≤ MAX_MTPROTO_PACKET := by
  refine ⟨?_, fun sp offset avail => nextPacketLen_bounds w sp offset avail⟩
  obtain ⟨sp, hnew, hsim⟩ := new_sim aes hR proto
  obtain ⟨outs, sp', hrun, ⟨s, hsim'⟩, hfits⟩ := feedE_invariant
    (f := MsgSplitter.split w aes)
    (P := fun sp => ∃ s, Sim proto (sub R 8 40) (sub R 40 56) sp s)
    (C := fun c => c.length ≤ Bridge.RELAY_BUF_SIZE)
    (Q := fun parts => ∀ part ∈ parts, Fits part)
    (fun sp c h hc => by
      obtain ⟨s, hsim⟩ := h
      obtain ⟨sp', hstep, hsim'⟩ := split_sim w aes sp s c hsim
      exact ⟨_, sp', hstep, ⟨_, hsim'⟩, pairSplit_fits _ hsim hc⟩)
    ⟨_, hsim⟩ cs hcs
  exact ⟨sp, outs, sp', hnew, hrun, hsim'.bounded, hfits⟩

/-- Two reads of garbage under an unknown protocol value. -/
theorem split_bounds_sample :
    ∃ sp outs sp', MsgSplitter.new sampleAes sampleRelay 7 = .ok sp
      ∧ feedE (MsgSplitter.split .w32 sampleAes) sp [[1, 2], [3]]
          = .ok (outs, sp')
      ∧ Bounded sp' ∧ ∀ parts ∈ outs, ∀ part ∈ parts, Fits part :=
  (split_bounds .w32 sampleAes sampleRelay (by decide) 7 [[1, 2], [3]]
    (by decide)).1

end Wrtg.Splitter
