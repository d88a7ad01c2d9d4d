/-
Whole runs of the message splitter (`splitter.rs`).

# The refinement

The splitter's two buffers are one buffer of (ciphertext, plaintext)
pairs. On pairs the splitter is the library's incremental cutter
(`cutStep`) for the header grammar read off the plaintext half, fed by
the stage that decrypts a chunk at the stream position (`pairStage`).
`Sim` ties a `MsgSplitter` to a cutter state, `split_sim` is the step
lemma — no index or slice of `split` is ever out of range, its loop
ends — and `feedE_refines` lifts it to runs (`feed_split`).

# The two results

`split_conserves`: on arbitrary bytes the splitter neither loses nor
repeats nor reorders, never emits an empty part, and passes everything
through once it has met an undecodable header.
`split_one_part_per_packet`: on well-formed packets the parts are the
packets, each released by the call that delivers its last byte.
-/
import Wrtg.Proofs.Relay
import Wrtg.Proofs.Splitter.Header

namespace Wrtg.Splitter

open Lib Mtproto

-- ================================================== pairs and the stage

/-- A ciphertext byte with its decryption. -/
abbrev Pair := UInt8 × UInt8

/-- A chunk paired with its decryption at a stream position. -/
def pairUp (ks : Nat → UInt8) (pos : Nat) (c : Bytes) : List Pair :=
  c.zip (maskFrom xorByte ks pos c)

/-- The stage that pairs chunks up, position by position. -/
def pairStage (ks : Nat → UInt8) (pos : Nat) (c : Bytes) :
    List Pair × Nat :=
  (pairUp ks pos c, pos + c.length)

@[simp] theorem pairUp_fst (ks : Nat → UInt8) (pos : Nat) (c : Bytes) :
    (pairUp ks pos c).map Prod.fst = c := by
  unfold pairUp
  rw [List.map_fst_zip]
  rw [maskFrom_length]

@[simp] theorem pairUp_snd (ks : Nat → UInt8) (pos : Nat) (c : Bytes) :
    (pairUp ks pos c).map Prod.snd = maskFrom xorByte ks pos c := by
  unfold pairUp
  rw [List.map_snd_zip]
  rw [maskFrom_length]

@[simp] theorem pairUp_length (ks : Nat → UInt8) (pos : Nat) (c : Bytes) :
    (pairUp ks pos c).length = c.length := by
  rw [← List.length_map Prod.fst, pairUp_fst]

theorem pairUp_append (ks : Nat → UInt8) (pos : Nat) (a b : Bytes) :
    pairUp ks pos (a ++ b)
      = pairUp ks pos a ++ pairUp ks (pos + a.length) b := by
  unfold pairUp
  rw [maskFrom_append, List.zip_append (maskFrom_length ..).symm]

theorem pairUp_take (ks : Nat → UInt8) (pos : Nat) (c : Bytes) (m : Nat) :
    pairUp ks pos (c.take m) = (pairUp ks pos c).take m := by
  unfold pairUp
  rw [← maskFrom_take]
  exact List.take_zipWith.symm

/-- Pairing up cannot see where the stream was cut. -/
theorem pairStage_hom (ks : Nat → UInt8) : ChunkHom (pairStage ks) where
  nil _ := rfl
  append s a b := by
    simp only [pairStage, pairUp_append, List.length_append, Nat.add_assoc]

/-- The header grammar, read off the plaintext half of a pair. -/
def pairFramer (proto : UInt32) : Framer Pair :=
  (packetFramer proto).comap Prod.snd

/-- The ciphertext half of a released part. -/
def cipherPart (p : List Pair) : Bytes := p.map Prod.fst

/-- The abstract splitter: pair up, cut, keep the ciphertext. -/
def pairSplit (proto : UInt32) (ks : Nat → UInt8)
    (s : Nat × CutState Pair) (c : Bytes) :
    List Bytes × (Nat × CutState Pair) :=
  let r := andThen (pairStage ks) (cutStep (pairFramer proto)) s c
  (r.1.map cipherPart, r.2)

/-- A run of the abstract splitter is a run of the cutter over the
paired chunks. -/
theorem feed_pairSplit (proto : UInt32) (ks : Nat → UInt8)
    (s : Nat × CutState Pair) (cs : List Bytes) :
    feed (pairSplit proto ks) s cs
      = ((feed (cutStep (pairFramer proto)) s.2
            (feed (pairStage ks) s.1 cs).1).1.map (List.map cipherPart),
          ((feed (pairStage ks) s.1 cs).2,
            (feed (cutStep (pairFramer proto)) s.2
              (feed (pairStage ks) s.1 cs).1).2)) := by
  have hmap := feed_map (List.map cipherPart)
    (andThen (pairStage ks) (cutStep (pairFramer proto))) s cs
  rw [feed_andThen] at hmap
  exact hmap

-- ==================================================== the scan loop

/-- The scan loop cuts the buffered plaintext from its offset on. -/
theorem scan_eq (w : Word) (sp : MsgSplitter) (buf : List Pair)
    (hc : sp.cipherBuf = buf.map Prod.fst)
    (hp : sp.plainBuf = buf.map Prod.snd) :
    ∀ (fuel offset : Nat), offset ≤ buf.length →
      buf.length - offset ≤ fuel →
      sp.scan w fuel offset
        = .ok (match cut (pairFramer sp.proto) (buf.drop offset) with
          | (fs, .pending t) => (fs.map cipherPart, buf.length - t.length,
              false)
          | (fs, .broken t) => ((fs ++ [t]).map cipherPart, buf.length,
              true)) := by
  have hcl : sp.cipherBuf.length = buf.length := by rw [hc, List.length_map]
  have hpl : sp.plainBuf.length = buf.length := by rw [hp, List.length_map]
  intro fuel
  induction fuel with
  | zero =>
      intro offset hle hfuel
      have hnil : buf.drop offset = [] := by
        rw [List.drop_eq_nil_iff]
        omega
      rw [hnil, cut_more _ (Framer.head_nil _)]
      unfold MsgSplitter.scan
      rw [hcl, if_neg (by omega)]
      simp only [List.map_nil, List.length_nil, Nat.sub_zero]
      rw [show offset = buf.length by omega]
  | succ fuel ih =>
      intro offset hle hfuel
      unfold MsgSplitter.scan
      rw [hcl]
      by_cases hlt : offset < buf.length
      · have hlen : sp.plainBuf.length = offset + (buf.length - offset) := by
          omega
        have hhead : header sp.proto (sp.plainBuf.drop offset)
            = (pairFramer sp.proto).head (buf.drop offset) := by
          rw [hp, ← List.map_drop]
          rfl
        rw [if_pos hlt]
        simp only [nextPacketLen_eq w sp hlen, hhead, bind, Except.bind]
        cases hv : (pairFramer sp.proto).head (buf.drop offset) with
        | more =>
            rw [cut_more _ hv]
            simp only [verdictCode, if_true, List.map_nil]
            rw [List.length_drop,
              show buf.length - (buf.length - offset) = offset by omega]
        | bad =>
            rw [cut_bad _ hv]
            simp only [verdictCode]
            rw [if_neg (by decide), if_pos trivial,
              sliceFrom_ok (by rw [hcl]; omega), hc, ← List.map_drop]
            rfl
        | frame n =>
            have hpos := Framer.frame_pos _ hv
            have hfle := Framer.frame_le _ hv
            rw [List.length_drop] at hfle
            have hcap : n < 2 ^ 31 := by
              have hle : n ≤ MAX_MTPROTO_PACKET := header_cap hv
              have hmax : MAX_MTPROTO_PACKET < 2 ^ 31 := by decide
              omega
            rw [cut_frame _ hv]
            simp only [verdictCode, Word.ofI32_of_lt hcap]
            rw [if_neg (by omega), if_neg (by omega),
              slice_ok (by omega) (by rw [hcl]; omega),
              ih (offset + n) (by omega) (by omega), List.drop_drop]
            have hpart : sub sp.cipherBuf offset (offset + n)
                = cipherPart ((buf.drop offset).take n) := by
              rw [sub, hc, ← List.map_drop, ← List.map_take,
                show offset + n - offset = n by omega]
              rfl
            rw [hpart]
            cases hcut : cut (pairFramer sp.proto)
                (buf.drop (offset + n)) with
            | mk fs r =>
                cases r with
                | pending t => rfl
                | broken t => rfl
      · rw [if_neg hlt]
        have hnil : buf.drop offset = [] := by
          rw [List.drop_eq_nil_iff]
          omega
        rw [hnil, cut_more _ (Framer.head_nil _)]
        simp only [List.map_nil, List.length_nil, Nat.sub_zero]
        rw [show offset = buf.length by omega]

-- ==================================================== the step lemma

/-- The splitter in a cutter state, at stream position `pos`: buffers
in lock step while it cuts, empty once it is disabled. -/
def Sim (proto : UInt32) (key iv : Bytes) (sp : MsgSplitter) :
    Nat × CutState Pair → Prop
  | (pos, .buffering buf) =>
      sp = { dec := { key, iv, pos }, proto
             cipherBuf := buf.map Prod.fst, plainBuf := buf.map Prod.snd
             disabled := false }
        ∧ (pairFramer proto).head buf = .more
  | (_, .broken) =>
      sp.disabled = true ∧ sp.cipherBuf = [] ∧ sp.plainBuf = []

/-- A broken abstract splitter hands its chunk through. -/
theorem pairSplit_broken (proto : UInt32) (ks : Nat → UInt8) (pos : Nat)
    (c : Bytes) :
    pairSplit proto ks (pos, .broken) c
      = (if c.isEmpty then [] else [c], (pos + c.length, .broken)) := by
  cases c with
  | nil => rfl
  | cons b c =>
      show ((if (pairUp ks pos (b :: c)).isEmpty then []
        else [pairUp ks pos (b :: c)]).map cipherPart, _) = _
      have hpair : cipherPart (pairUp ks pos (b :: c)) = b :: c :=
        pairUp_fst ks pos (b :: c)
      rw [if_neg (by simp [pairUp, maskFrom])]
      simp only [List.map_cons, List.map_nil, hpair]
      rfl

/-- A settled abstract splitter ignores an empty chunk. -/
theorem pairSplit_nil (proto : UInt32) (ks : Nat → UInt8)
    {s : Nat × CutState Pair}
    (hs : CutState.Settled (pairFramer proto) s.2) :
    pairSplit proto ks s [] = ([], s) := by
  show ((cutStep (pairFramer proto) s.2 []).1.map cipherPart,
    (s.1 + 0, (cutStep (pairFramer proto) s.2 []).2)) = _
  rw [cutStep_nil _ hs]
  rfl

/-- What is behind the frames of a cut string. -/
private theorem drop_frames {buf t : List Pair} {fs : List (List Pair)}
    (h : fs.flatten ++ t = buf) : buf.drop (buf.length - t.length) = t := by
  have hlen : buf.length - t.length = fs.flatten.length := by
    rw [← h, List.length_append]
    omega
  rw [hlen, ← h, List.drop_left]

/-- A non-empty chunk into a buffering splitter: the buffers grow by
the chunk, the scan cuts them, and what is behind the last frame
stays. -/
theorem split_buffering (w : Word) (aes : Aes256) (proto : UInt32)
    (key iv : Bytes) (pos : Nat) (buf : List Pair) {c : Bytes}
    (hc : c ≠ []) :
    MsgSplitter.split w aes
        { dec := { key, iv, pos }, proto, cipherBuf := buf.map Prod.fst
          plainBuf := buf.map Prod.snd, disabled := false } c
      = .ok (match cut (pairFramer proto)
            (buf ++ pairUp (keystream aes key iv) pos c) with
        | (fs, .pending t) => (fs.map cipherPart,
            { dec := { key, iv, pos := pos + c.length }, proto
              cipherBuf := t.map Prod.fst, plainBuf := t.map Prod.snd
              disabled := false })
        | (fs, .broken t) => ((fs ++ [t]).map cipherPart,
            { dec := { key, iv, pos := pos + c.length }, proto
              cipherBuf := [], plainBuf := [], disabled := true })) := by
  generalize hbuf : buf ++ pairUp (keystream aes key iv) pos c = buf'
  have hcipher : buf.map Prod.fst ++ c = buf'.map Prod.fst := by
    rw [← hbuf, List.map_append, pairUp_fst]
  have hplain : buf.map Prod.snd
      ++ maskFrom xorByte (keystream aes key iv) pos c
      = buf'.map Prod.snd := by
    rw [← hbuf, List.map_append, pairUp_snd]
  have hne : c.isEmpty = false := by
    cases c with
    | nil => exact absurd rfl hc
    | cons b c => rfl
  have hpos : 0 < buf'.length := by
    rw [← hbuf, List.length_append, pairUp_length]
    have := List.length_pos_of_ne_nil hc
    omega
  have hscan := scan_eq w
    { dec := { key, iv, pos := pos + c.length }, proto
      cipherBuf := buf'.map Prod.fst, plainBuf := buf'.map Prod.snd
      disabled := false } buf' rfl rfl buf'.length 0 (Nat.zero_le _)
      (Nat.sub_le _ _)
  rw [List.drop_zero] at hscan
  have hflat := cut_flatten (pairFramer proto) buf'
  unfold MsgSplitter.split
  simp only [hne, applyKeystream_fst, applyKeystream_snd, hcipher, hplain,
    Bool.false_eq_true, if_false, List.length_map, bind, Except.bind, hscan]
  cases hcut : cut (pairFramer proto) buf' with
  | mk fs r =>
      rw [hcut] at hflat
      cases r with
      | pending t =>
          have hdrop : buf'.drop (buf'.length - t.length) = t :=
            drop_frames hflat
          simp only
          by_cases hoff : buf'.length - t.length > 0
          · rw [if_pos hoff, sliceFrom_ok (by rw [List.length_map]; omega),
              sliceFrom_ok (by rw [List.length_map]; omega),
              ← List.map_drop, ← List.map_drop, hdrop]
          · rw [if_neg hoff]
            rw [show buf'.length - t.length = 0 by omega,
              List.drop_zero] at hdrop
            rw [hdrop]
      | broken t =>
          simp only
          rw [if_pos hpos, sliceFrom_ok (by rw [List.length_map]),
            sliceFrom_ok (by rw [List.length_map]), ← List.map_drop,
            ← List.map_drop, List.drop_length]
          rfl

/-- One `split` call is one step of the abstract splitter: it returns,
with the same parts. -/
theorem split_sim (w : Word) (aes : Aes256) {proto : UInt32}
    {key iv : Bytes} (sp : MsgSplitter) (s : Nat × CutState Pair)
    (c : Bytes) (h : Sim proto key iv sp s) :
    ∃ sp', sp.split w aes c
        = .ok ((pairSplit proto (keystream aes key iv) s c).1, sp')
      ∧ Sim proto key iv sp'
          (pairSplit proto (keystream aes key iv) s c).2 := by
  obtain ⟨pos, st⟩ := s
  cases st with
  | broken =>
      refine ⟨sp, ?_, ?_⟩
      · rw [pairSplit_broken]
        unfold MsgSplitter.split
        rw [h.1]
        cases c with
        | nil => rfl
        | cons b c => rfl
      · rw [pairSplit_broken]
        exact h
  | buffering buf =>
      obtain ⟨rfl, hm⟩ := h
      by_cases hc : c = []
      · subst hc
        rw [pairSplit_nil proto _ (s := (pos, .buffering buf)) hm]
        exact ⟨_, rfl, rfl, hm⟩
      · rw [split_buffering w aes proto key iv pos buf hc]
        simp only [pairSplit, andThen, pairStage, cutStep]
        cases hcut : cut (pairFramer proto)
            (buf ++ pairUp (keystream aes key iv) pos c) with
        | mk fs r =>
            cases r with
            | pending t =>
                exact ⟨_, rfl, rfl, cut_pending (pairFramer proto)
                  (congrArg Prod.snd hcut)⟩
            | broken t => exact ⟨_, rfl, rfl, rfl, rfl⟩

-- ============================================================== runs

/-- A new splitter is a cutter with an empty buffer at stream position
64, under the relay init's forward key. -/
theorem new_sim (aes : Aes256) {R : Bytes} (hR : R.length = HANDSHAKE_LEN)
    (proto : UInt32) :
    ∃ sp, MsgSplitter.new aes R proto = .ok sp
      ∧ Sim proto (sub R 8 40) (sub R 40 56) sp (64, .buffering []) := by
  refine ⟨_, ?_, rfl, Framer.head_nil _⟩
  unfold MsgSplitter.new
  rw [newRelayDecryptStream_ok aes hR]
  rfl

/-- A whole run of `split` calls from a new splitter: it returns, its
parts are the cutter's on the paired stream, and so is its state. -/
theorem feed_split (w : Word) (aes : Aes256) {R : Bytes}
    (hR : R.length = HANDSHAKE_LEN) (proto : UInt32) (cs : List Bytes) :
    ∃ sp sp', MsgSplitter.new aes R proto = .ok sp
      ∧ feedE (MsgSplitter.split w aes) sp cs
          = .ok ((feed (pairSplit proto (forwardKs aes R))
              (64, .buffering []) cs).1, sp')
      ∧ Sim proto (sub R 8 40) (sub R 40 56) sp'
          (feed (pairSplit proto (forwardKs aes R))
            (64, .buffering []) cs).2 := by
  obtain ⟨sp, hnew, hsim⟩ := new_sim aes hR proto
  obtain ⟨sp', hrun, hsim'⟩ := feedE_refines
    (Sim proto (sub R 8 40) (sub R 40 56))
    (fun sp s c h => split_sim w aes sp s c h) hsim cs
  exact ⟨sp, sp', hnew, hrun, hsim'⟩

/-- The paired chunks of a run, joined. -/
theorem feed_pairStage_flatten (ks : Nat → UInt8) (pos : Nat)
    (cs : List Bytes) :
    (feed (pairStage ks) pos cs).1.flatten = pairUp ks pos cs.flatten :=
  congrArg Prod.fst (feed_flatten (pairStage_hom ks) pos cs)

/-- What the state of a run says: disabled if the joined stream meets a
bad header, and otherwise holding the open rest of the stream, with the
frames before it released. -/
theorem feed_split_state (w : Word) (aes : Aes256) {R : Bytes}
    (hR : R.length = HANDSHAKE_LEN) (proto : UInt32) (cs : List Bytes) :
    ∃ sp outs sp', MsgSplitter.new aes R proto = .ok sp
      ∧ feedE (MsgSplitter.split w aes) sp cs = .ok (outs, sp')
      ∧ match cut (pairFramer proto)
            (pairUp (forwardKs aes R) 64 cs.flatten) with
        | (fs, .pending t) => outs.flatten = fs.map cipherPart
            ∧ sp'.disabled = false ∧ sp'.cipherBuf = t.map Prod.fst
        | (_, .broken _) => sp'.disabled = true := by
  obtain ⟨sp, sp', hnew, hrun, hsim⟩ := feed_split w aes hR proto cs
  refine ⟨sp, _, sp', hnew, hrun, ?_⟩
  have hcut := feed_cutStep (pairFramer proto)
    (feed (pairStage (forwardKs aes R)) 64 cs).1
  rw [feed_pairSplit] at hsim ⊢
  rw [feed_pairStage_flatten] at hcut
  cases hc : cut (pairFramer proto)
      (pairUp (forwardKs aes R) 64 cs.flatten) with
  | mk fs r =>
      rw [hc] at hcut
      cases r with
      | pending t =>
          obtain ⟨hout, hst⟩ := hcut
          simp only [hst] at hsim
          obtain ⟨rfl, -⟩ := hsim
          refine ⟨?_, rfl, rfl⟩
          rw [← List.map_flatten, hout]
      | broken t =>
          have hst : (feed (cutStep (pairFramer proto)) (.buffering [])
              (feed (pairStage (forwardKs aes R)) 64 cs).1).2 = .broken :=
            hcut
          simp only [hst] at hsim
          exact hsim.1

/-- What `flush` hands out is what the cutter still holds. -/
theorem flush_sim {proto : UInt32} {key iv : Bytes} {sp : MsgSplitter}
    {s : Nat × CutState Pair} (h : Sim proto key iv sp s) :
    sp.flush.1.flatten = s.2.held.map Prod.fst
      ∧ ∀ p ∈ sp.flush.1, p ≠ [] := by
  have hbuf : sp.cipherBuf = s.2.held.map Prod.fst := by
    obtain ⟨pos, st⟩ := s
    cases st with
    | buffering buf => rw [h.1]; rfl
    | broken => rw [h.2.1]; rfl
  unfold MsgSplitter.flush
  cases hc : sp.cipherBuf with
  | nil => simpa [hc] using hbuf
  | cons b bs => simpa [hc] using hbuf

-- ============================================== conservation of bytes

/-- A decrypted stream that reaches an undecodable header. -/
def Undecodable (proto : UInt32) (plain : Bytes) : Prop :=
  ∃ t, (cut (packetFramer proto) plain).2 = .broken t

/-- The pairs break where their plaintext half does. -/
theorem undecodable_iff (proto : UInt32) (ks : Nat → UInt8) (pos : Nat)
    (c : Bytes) :
    Undecodable proto (maskFrom xorByte ks pos c)
      ↔ ∃ t, (cut (pairFramer proto) (pairUp ks pos c)).2 = .broken t := by
  unfold Undecodable
  rw [← pairUp_snd, cut_comap]
  show (∃ t, ((cut (pairFramer proto) (pairUp ks pos c)).2).map Prod.snd
    = .broken t) ↔ _
  cases h : (cut (pairFramer proto) (pairUp ks pos c)).2 with
  | pending t => simp [Rest.map]
  | broken t => simp [Rest.map]

/-- A disabled splitter returns its chunk unchanged. -/
theorem split_disabled (w : Word) (aes : Aes256) {sp : MsgSplitter}
    (h : sp.disabled = true) (c : Bytes) :
    sp.split w aes c = .ok (if c.isEmpty then [] else [c], sp) := by
  unfold MsgSplitter.split
  rw [h]
  cases c with
  | nil => rfl
  | cons b c => rfl

/-- The released parts and the flushed rest of a run are the chunks. -/
theorem feed_split_flatten {aes : Aes256} {R : Bytes} {proto : UInt32}
    {cs : List Bytes} {sp' : MsgSplitter}
    (hsim : Sim proto (sub R 8 40) (sub R 40 56) sp'
      (feed (pairSplit proto (forwardKs aes R))
        (64, .buffering []) cs).2) :
    ((feed (pairSplit proto (forwardKs aes R))
        (64, .buffering []) cs).1.flatten ++ sp'.flush.1).flatten
      = cs.flatten := by
  obtain ⟨hflush, -⟩ := flush_sim hsim
  have hcons := congrArg (List.map Prod.fst)
    (feed_cutStep_flatten (pairFramer proto) (.buffering [])
      (feed (pairStage (forwardKs aes R)) 64 cs).1)
  rw [feed_pairStage_flatten, List.map_append, List.map_append, pairUp_fst,
    List.map_flatten, List.map_flatten] at hcons
  rw [List.flatten_append, hflush, feed_pairSplit]
  exact hcons

/-- A run is disabled exactly when its decrypted stream has met an
undecodable header. -/
theorem feed_split_disabled (w : Word) (aes : Aes256) {R : Bytes}
    (hR : R.length = HANDSHAKE_LEN) (proto : UInt32) (cs : List Bytes) :
    ∃ sp outs mid, MsgSplitter.new aes R proto = .ok sp
      ∧ feedE (MsgSplitter.split w aes) sp cs = .ok (outs, mid)
      ∧ (mid.disabled = true ↔ Undecodable proto
          (maskFrom xorByte (forwardKs aes R) 64 cs.flatten)) := by
  obtain ⟨sp, outs, mid, hnew, hrun, hst⟩ :=
    feed_split_state w aes hR proto cs
  refine ⟨sp, outs, mid, hnew, hrun, ?_⟩
  rw [undecodable_iff]
  cases hc : cut (pairFramer proto)
      (pairUp (forwardKs aes R) 64 cs.flatten) with
  | mk fs r =>
      rw [hc] at hst
      cases r with
      | pending t => simp [hst.2.1]
      | broken t => simp [show mid.disabled = true from hst]

/-- Conservation: on arbitrary bytes under any protocol value, parts
and flushed rest are the chunks, byte for byte, and no part is empty.
The splitter is disabled by the call that brings the first undecodable
header, and from then on every chunk is its own part. -/
theorem split_conserves (w : Word) (aes : Aes256) (R : Bytes)
    (hR : R.length = HANDSHAKE_LEN) (proto : UInt32) (cs : List Bytes) :
    ∃ sp outs sp', MsgSplitter.new aes R proto = .ok sp
      ∧ feedE (MsgSplitter.split w aes) sp cs = .ok (outs, sp')
      ∧ (outs.flatten ++ sp'.flush.1).flatten = cs.flatten
      ∧ (∀ p ∈ outs.flatten ++ sp'.flush.1, p ≠ [])
      ∧ ∀ as c bs, cs = as ++ c :: bs →
          ∃ mid, feedE (MsgSplitter.split w aes) sp as
              = .ok (outs.take as.length, mid)
            ∧ (mid.disabled = true ↔ Undecodable proto
                (maskFrom xorByte (forwardKs aes R) 64 as.flatten))
            ∧ (mid.disabled = true →
                outs[as.length]? = some (if c.isEmpty then [] else [c])) := by
  obtain ⟨sp, sp', hnew, hrun, hsim⟩ := feed_split w aes hR proto cs
  refine ⟨sp, _, sp', hnew, hrun, feed_split_flatten hsim, ?_, ?_⟩
  · intro p hp
    rcases List.mem_append.mp hp with hp | hp
    · obtain ⟨ps, hps, hp⟩ := List.mem_flatten.mp hp
      rw [feed_pairSplit] at hps
      obtain ⟨qs, hqs, rfl⟩ := List.mem_map.mp hps
      obtain ⟨q, hq, rfl⟩ := List.mem_map.mp hp
      have hne := feed_cutStep_ne_nil (pairFramer proto) _ _ qs hqs q hq
      simpa [cipherPart] using hne
    · exact (flush_sim hsim).2 p hp
  · intro as c bs hcs
    obtain ⟨sp₁, os, mid, hnew₁, has, hiff⟩ :=
      feed_split_disabled w aes hR proto as
    obtain rfl : sp = sp₁ := by
      rw [hnew] at hnew₁
      injection hnew₁
    subst hcs
    obtain ⟨mid', r, has', hstep, hget⟩ := feedE_at hrun
    rw [has] at has'
    cases has'
    refine ⟨mid, has, hiff, ?_⟩
    intro hdis
    rw [split_disabled w aes hdis] at hstep
    cases hstep
    exact hget

/-- Garbage under an unknown protocol value, after the sample relay
init: nothing is lost. -/
theorem split_conserves_sample :
    ∃ sp outs sp', MsgSplitter.new sampleAes sampleRelay 7 = .ok sp
      ∧ feedE (MsgSplitter.split .w32 sampleAes) sp [[1, 2], [], [3]]
          = .ok (outs, sp')
      ∧ (outs.flatten ++ sp'.flush.1).flatten = [1, 2, 3] := by
  obtain ⟨sp, outs, sp', hnew, hrun, hflat, -, -⟩ :=
    split_conserves .w32 sampleAes sampleRelay (by decide) 7
      [[1, 2], [], [3]]
  exact ⟨sp, outs, sp', hnew, hrun, hflat⟩

-- =============================================== one part per packet

/-- Packets on the wire: encrypted one after another under the relay
init's forward stream, from position 64 on. -/
def encryptPackets (aes : Aes256) (R : Bytes) (ps : List Bytes) :
    List Bytes :=
  (feed (maskStage xorByte (forwardKs aes R)) 64 ps).1

/-- The wire packets, joined. -/
theorem encryptPackets_flatten (aes : Aes256) (R : Bytes)
    (ps : List Bytes) :
    (encryptPackets aes R ps).flatten
      = maskFrom xorByte (forwardKs aes R) 64 ps.flatten :=
  congrArg Prod.fst
    (feed_flatten (maskStage_hom xorByte (forwardKs aes R)) 64 ps)

/-- Encrypted packets, paired up again one by one: the ciphertext half
of each pair string is the wire packet, the plaintext half the packet. -/
theorem pairStage_maskStage (ks : Nat → UInt8) (pos : Nat)
    (ps : List Bytes) :
    let wire := (feed (maskStage xorByte ks) pos ps).1
    (feed (pairStage ks) pos wire).1.map cipherPart = wire
      ∧ (feed (pairStage ks) pos wire).1.map (List.map Prod.snd) = ps := by
  induction ps generalizing pos with
  | nil => exact ⟨rfl, rfl⟩
  | cons p ps ih =>
      obtain ⟨hfst, hsnd⟩ := ih (pos + p.length)
      simp only [feed_cons, maskStage, pairStage, maskFrom_length,
        List.map_cons, pairUp_snd]
      refine ⟨?_, ?_⟩
      · rw [show cipherPart (pairUp ks pos (maskFrom xorByte ks pos p))
          = maskFrom xorByte ks pos p from pairUp_fst ks pos _]
        exact congrArg _ hfst
      · rw [maskFrom_maskFrom xorByte ks xorByte_xorByte]
        exact congrArg _ hsnd

/-- The end of a stream that stops between two packets or inside
one. -/
def IsTail (t : Transport) (tail : Bytes) : Prop :=
  tail = [] ∨ ∃ (p : Packet t) (u : Bytes), p.encode = tail ++ u ∧ u ≠ []

/-- An encrypted tail, paired up, is an open rest of the pair
grammar. -/
theorem IsTail.pairs {t : Transport} {tail : Bytes} (h : IsTail t tail)
    (ks : Nat → UInt8) (pos : Nat) :
    pairUp ks pos (maskFrom xorByte ks pos tail) = []
      ∨ IsOpen (pairFramer t.protoInt)
          (pairUp ks pos (maskFrom xorByte ks pos tail)) := by
  rcases h with rfl | ⟨p, u, hp, hu⟩
  · exact .inl rfl
  · refine .inr ⟨pairUp ks pos (maskFrom xorByte ks pos p.encode),
      pairUp ks (pos + tail.length)
        (maskFrom xorByte ks (pos + tail.length) u), ?_, ?_, ?_⟩
    · have hframe : IsFrame (packetFramer t.protoInt) p.encode := p.isFrame
      show header t.protoInt ((pairUp ks pos _).map Prod.snd) = _
      rw [pairUp_snd, maskFrom_maskFrom xorByte ks xorByte_xorByte,
        pairUp_length, maskFrom_length]
      exact hframe
    · rw [hp, maskFrom_append, pairUp_append, maskFrom_length]
    · intro hnil
      have hlen := congrArg List.length hnil
      rw [pairUp_length, maskFrom_length] at hlen
      exact hu (List.eq_nil_of_length_eq_zero hlen)

/-- The wire packets of a stream as pair strings. -/
def pairPackets (aes : Aes256) (R : Bytes) (ps : List Bytes) :
    List (List Pair) :=
  (feed (pairStage (forwardKs aes R)) 64 (encryptPackets aes R ps)).1

/-- An encrypted stream of packets and a tail, paired up, is its pair
strings and the paired tail. -/
theorem pairUp_stream (aes : Aes256) (R : Bytes) (ps : List Bytes)
    (tail : Bytes) :
    let ks := forwardKs aes R
    let pos := 64 + ps.flatten.length
    pairUp ks 64 (maskFrom xorByte ks 64 (ps.flatten ++ tail))
      = (pairPackets aes R ps).flatten
        ++ pairUp ks pos (maskFrom xorByte ks pos tail) := by
  intro ks pos
  rw [maskFrom_append, pairUp_append, maskFrom_length, pairPackets,
    feed_pairStage_flatten, encryptPackets_flatten]

/-- Every pair string of a well-formed packet is a frame of the pair
grammar. -/
theorem pairPackets_isFrame (aes : Aes256) (R : Bytes) {t : Transport}
    (pkts : List (Packet t)) :
    ∀ f ∈ pairPackets aes R (pkts.map Packet.encode),
      IsFrame (pairFramer t.protoInt) f := by
  intro f hf
  have hsnd := (pairStage_maskStage (forwardKs aes R) 64
    (pkts.map Packet.encode)).2
  have hmem : f.map Prod.snd ∈ pkts.map Packet.encode :=
    hsnd ▸ List.mem_map_of_mem hf
  obtain ⟨p, -, hp⟩ := List.mem_map.mp hmem
  have hframe : IsFrame (packetFramer t.protoInt) p.encode := p.isFrame
  show header t.protoInt (f.map Prod.snd) = .frame f.length
  rw [← hp, ← List.length_map Prod.snd, ← hp]
  exact hframe

/-- A run over the first bytes of an encrypted packet stream: the
splitter stays enabled and has released the packets that end within
these bytes. -/
theorem feed_split_packets (w : Word) (aes : Aes256) {R : Bytes}
    (hR : R.length = HANDSHAKE_LEN) {t : Transport}
    (pkts : List (Packet t)) {tail : Bytes} (htail : IsTail t tail)
    {cs : List Bytes} {m : Nat}
    (hcut : cs.flatten = (maskFrom xorByte (forwardKs aes R) 64
      ((pkts.map Packet.encode).flatten ++ tail)).take m) :
    ∃ sp outs sp', MsgSplitter.new aes R t.protoInt = .ok sp
      ∧ feedE (MsgSplitter.split w aes) sp cs = .ok (outs, sp')
      ∧ sp'.disabled = false
      ∧ outs.flatten = framesWithin m
          (encryptPackets aes R (pkts.map Packet.encode)) := by
  obtain ⟨sp, outs, sp', hnew, hrun, hst⟩ :=
    feed_split_state w aes hR t.protoInt cs
  refine ⟨sp, outs, sp', hnew, hrun, ?_⟩
  obtain ⟨r, hr⟩ := cut_take_frames (pairFramer t.protoInt)
    (pairPackets_isFrame aes R pkts) (htail.pairs (forwardKs aes R)
      (64 + (pkts.map Packet.encode).flatten.length)) m
  have hfst : (pairPackets aes R (pkts.map Packet.encode)).map cipherPart
      = encryptPackets aes R (pkts.map Packet.encode) :=
    (pairStage_maskStage (forwardKs aes R) 64 _).1
  rw [hcut, pairUp_take, pairUp_stream, hr] at hst
  obtain ⟨hout, hdis, -⟩ := hst
  refine ⟨hdis, ?_⟩
  rw [hout, ← framesWithin_map cipherPart (fun x => List.length_map _), hfst]

/-- A run over a whole encrypted packet stream holds back exactly the
encrypted tail. -/
theorem feed_split_tail (w : Word) (aes : Aes256) {R : Bytes}
    (hR : R.length = HANDSHAKE_LEN) {t : Transport}
    (pkts : List (Packet t)) {tail : Bytes} (htail : IsTail t tail)
    {cs : List Bytes}
    (hcut : cs.flatten = maskFrom xorByte (forwardKs aes R) 64
      ((pkts.map Packet.encode).flatten ++ tail)) :
    ∃ sp outs sp', MsgSplitter.new aes R t.protoInt = .ok sp
      ∧ feedE (MsgSplitter.split w aes) sp cs = .ok (outs, sp')
      ∧ sp'.cipherBuf = maskFrom xorByte (forwardKs aes R)
          (64 + (pkts.map Packet.encode).flatten.length) tail := by
  obtain ⟨sp, outs, sp', hnew, hrun, hst⟩ :=
    feed_split_state w aes hR t.protoInt cs
  refine ⟨sp, outs, sp', hnew, hrun, ?_⟩
  have hmore : (pairFramer t.protoInt).head
      (pairUp (forwardKs aes R)
        (64 + (pkts.map Packet.encode).flatten.length)
        (maskFrom xorByte (forwardKs aes R)
          (64 + (pkts.map Packet.encode).flatten.length) tail)) = .more := by
    rcases htail.pairs (forwardKs aes R) _ with hnil | hopen
    · rw [hnil]
      exact Framer.head_nil _
    · exact IsOpen.head _ hopen
  rw [hcut, pairUp_stream, cut_frames _ (pairPackets_isFrame aes R pkts)
    hmore] at hst
  rw [hst.2.2, pairUp_fst]

/-- One part per packet: on an encrypted stream of well-formed packets,
however cut, the parts are the wire packets in order, each released by
the call that brings its last byte; the splitter never disables itself,
and `flush` returns exactly the bytes behind the last packet. -/
theorem split_one_part_per_packet (w : Word) (aes : Aes256) (R : Bytes)
    (hR : R.length = HANDSHAKE_LEN) (t : Transport)
    (pkts : List (Packet t)) (tail : Bytes) (htail : IsTail t tail)
    (cs : List Bytes)
    (hcut : cs.flatten = maskFrom xorByte (forwardKs aes R) 64
      ((pkts.map Packet.encode).flatten ++ tail)) :
    let wire := encryptPackets aes R (pkts.map Packet.encode)
    ∃ sp outs sp', MsgSplitter.new aes R t.protoInt = .ok sp
      ∧ feedE (MsgSplitter.split w aes) sp cs = .ok (outs, sp')
      ∧ outs.flatten = wire
      ∧ (∀ k, ∃ mid, feedE (MsgSplitter.split w aes) sp (cs.take k)
            = .ok (outs.take k, mid)
          ∧ mid.disabled = false
          ∧ (outs.take k).flatten
              = framesWithin (cs.take k).flatten.length wire)
      ∧ sp'.flush.1 = if tail = [] then []
          else [maskFrom xorByte (forwardKs aes R)
            (64 + (pkts.map Packet.encode).flatten.length) tail] := by
  intro wire
  obtain ⟨sp, outs, sp', hnew, hrun, hbuf⟩ :=
    feed_split_tail w aes hR pkts htail hcut
  have hprefix : ∀ k, ∃ mid, feedE (MsgSplitter.split w aes) sp (cs.take k)
        = .ok (outs.take k, mid)
      ∧ mid.disabled = false
      ∧ (outs.take k).flatten
          = framesWithin (cs.take k).flatten.length wire := by
    intro k
    have hk : (cs.take k).flatten = (maskFrom xorByte (forwardKs aes R) 64
        ((pkts.map Packet.encode).flatten ++ tail)).take
          (cs.take k).flatten.length := by
      rw [← hcut]
      conv => rhs; rw [← List.take_append_drop k cs, List.flatten_append]
      rw [List.take_append_drop, List.take_left]
    obtain ⟨sp₁, os, mid, hnew₁, hrun₁, hdis, hout⟩ :=
      feed_split_packets w aes hR pkts htail hk
    obtain ⟨mid', hmid⟩ := feedE_take hrun k
    rw [hnew] at hnew₁
    cases hnew₁
    rw [hmid] at hrun₁
    cases hrun₁
    exact ⟨mid, hmid, hdis, hout⟩
  refine ⟨sp, outs, sp', hnew, hrun, ?_, hprefix, ?_⟩
  · have hlen := feedE_length hrun
    obtain ⟨mid, -, -, hall⟩ := hprefix cs.length
    rw [List.take_length, ← hlen, List.take_length] at hall
    rw [hall]
    refine framesWithin_all ?_
    rw [hcut, maskFrom_length, encryptPackets_flatten, maskFrom_length,
      List.length_append]
    omega
  · unfold MsgSplitter.flush
    rw [hbuf]
    cases tail with
    | nil => rfl
    | cons b bs => rfl

/-- A quick-ack packet of one word. -/
def samplePacket : Packet .abridged :=
  .short true 1 [1, 2, 3, 4] (by decide) rfl

/-- One packet and the first two bytes of the next, under the sample
relay init. -/
def sampleWire : Bytes :=
  maskFrom xorByte (forwardKs sampleAes sampleRelay) 64
    (([samplePacket].map Packet.encode).flatten ++ [0x81, 1])

/-- The sample stream cut inside its packet: one part, and a two-byte
tail in `flush`. -/
theorem split_one_part_per_packet_sample :
    ∃ sp outs sp',
      MsgSplitter.new sampleAes sampleRelay PROTO_ABRIDGED_INT = .ok sp
      ∧ feedE (MsgSplitter.split .w64 sampleAes) sp
          [sampleWire.take 3, sampleWire.drop 3] = .ok (outs, sp')
      ∧ outs.flatten = encryptPackets sampleAes sampleRelay
          [[0x81, 1, 2, 3, 4]]
      ∧ sp'.flush.1
          = [maskFrom xorByte (forwardKs sampleAes sampleRelay) 69
              [0x81, 1]] := by
  obtain ⟨sp, outs, sp', hnew, hrun, hout, -, hflush⟩ :=
    split_one_part_per_packet .w64 sampleAes sampleRelay (by decide)
      .abridged [samplePacket] [0x81, 1]
      (.inr ⟨samplePacket, [2, 3, 4], rfl, by decide⟩)
      [sampleWire.take 3, sampleWire.drop 3]
      (by
        rw [List.flatten_cons, List.flatten_singleton,
          List.take_append_drop]
        rfl)
  exact ⟨sp, outs, sp', hnew, hrun, hout, hflush⟩

end Wrtg.Splitter
