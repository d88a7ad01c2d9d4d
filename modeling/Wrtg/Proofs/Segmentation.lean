/-
What init classification owes to the cuts of the client stream
(`handshake.rs`).

The loop looks at growing prefixes of the first 4096 bytes. What a
prefix is recognised as, every longer one is recognised as too
(`recognised_append`), and then the cuts do not matter
(`findSome?_persistent`); but for one case. A stream that starts like an
HTTP request is recognised when its headers are complete, and until then
the scan for a handshake goes on: a window of the headers that parses is
found if a read ends in time, and not if the headers come at once.
-/
import Wrtg.Proofs.Handshake
import Wrtg.Lib.Search

namespace Wrtg.Handshake

open Lib Mtproto

variable (w : Word) (aes : Aes256)

-- ========================================================= the outcome

/-- What the read reaches: the parsed fields with the 64 bytes they come
from, or the reason the client is passed through. -/
abbrev Outcome := Except String HandshakeInfo

def reached : Res InitResult → Option Outcome
  | .ok (.ok (some parsed)) => some (.ok parsed.info)
  | .ok (.error (_, _, why)) => some (.error why)
  | _ => none

/-- The outcome of a buffer that is recognised. -/
def Class.outcome (buf : Bytes) : Class → Option Outcome
  | .http => some (.error "http passthrough")
  | .tls => some (.error "tls passthrough")
  | .handshake off =>
      match parseDirectHandshake aes (sub buf off (off + HANDSHAKE_LEN)) with
      | .ok info => some (.ok info)
      | .error _ => none

def recognised (buf : Bytes) : Option Outcome :=
  (classify aes buf).bind (Class.outcome aes buf)

/-- The reads that give these chunks, and end of file. -/
def reads (chunks : List Bytes) : List ReadEvent :=
  chunks.map (fun c => .ready (c.length - 1)) ++ [.ready 0]

/-- A client stream that arrives in chunks. -/
def arriving (chunks : List Bytes) : TcpStream where
  unread := chunks.flatten
  events := reads chunks

/-- A way to cut the stream into reads that are not empty. -/
structure Cut (data : Bytes) (chunks : List Bytes) : Prop where
  flatten : chunks.flatten = data
  nonempty : ∀ c ∈ chunks, c ≠ []

/-- Every cut of the stream reaches one outcome. -/
def OneOutcome (data : Bytes) : Prop :=
  ∃ outcome, ∀ chunks, Cut data chunks →
    reached (readClientInit w aes (arriving chunks)) = some outcome

/-- The bytes the loop can see. -/
def seen (data : Bytes) : Bytes := data.take INIT_READ_MAX

/-- An HTTP request whose headers are complete, with a window that
parses as a handshake and ends before they are. -/
def HandshakeInHeaders (buf : Bytes) : Prop :=
  isHttpTransport buf = true ∧ hasCompleteHttpHeaders buf = true
    ∧ ∃ off, off + HANDSHAKE_LEN ≤ buf.length
      ∧ hasCompleteHttpHeaders (buf.take (off + HANDSHAKE_LEN)) = false
      ∧ (parseDirectHandshake aes
          (sub buf off (off + HANDSHAKE_LEN))).isOk = true

-- ============================================================ the tests

theorem isHttpTransport_append {a : Bytes} (b : Bytes)
    (h : 7 ≤ a.length) :
    isHttpTransport (a ++ b) = isHttpTransport a := by
  have htake : ∀ k ≤ 7, (a ++ b).take k = a.take k := fun k hk =>
    List.take_append_of_le_length (by omega)
  unfold isHttpTransport
  rw [htake 4 (by omega), htake 3 (by omega), htake 7 (by omega),
    if_neg (by rw [List.length_append]; omega), if_neg (by omega),
    List.length_append]
  have hlen : ∀ k ≤ 7, decide (a.length + b.length ≥ k)
      = decide (a.length ≥ k) := by
    intro k hk
    rw [decide_eq_true (by omega), decide_eq_true (by omega)]
  rw [hlen 3 (by omega), hlen 7 (by omega)]

/-- The start of a request stays one. -/
theorem isHttpTransport_mono {a : Bytes} (b : Bytes)
    (h : isHttpTransport a = true) : isHttpTransport (a ++ b) = true := by
  unfold isHttpTransport at h ⊢
  split at h
  · cases h
  · next h4 =>
      rw [if_neg (by rw [List.length_append]; omega),
        List.take_append_of_le_length (i := 4) (by omega),
        List.take_append_of_le_length (i := 3) (by omega),
        List.length_append]
      simp only [Bool.or_eq_true, Bool.and_eq_true, decide_eq_true_eq]
        at h ⊢
      rcases h with ((h | ⟨-, h⟩) | h) | ⟨h7, h⟩
      · exact .inl (.inl (.inl h))
      · exact .inl (.inl (.inr ⟨by omega, h⟩))
      · exact .inl (.inr h)
      · rw [List.take_append_of_le_length (i := 7) h7]
        exact .inr ⟨by omega, h⟩

theorem looksLikeTlsStream_append {a : Bytes} (b : Bytes)
    (h : 2 ≤ a.length) :
    looksLikeTlsStream (a ++ b) = looksLikeTlsStream a := by
  match a with
  | [] => cases h
  | [_] => cases h; contradiction
  | _ :: _ :: _ => rfl

/-- A TLS record has two bytes at least. -/
theorem two_le_of_tls {a : Bytes} (h : looksLikeTlsStream a = true) :
    2 ≤ a.length := by
  match a with
  | [] => cases h
  | [_] => cases h
  | _ :: _ :: _ => exact Nat.le_add_left 2 _

/-- No request starts like a TLS record. -/
theorem not_http_of_tls {a : Bytes} (h : looksLikeTlsStream a = true) :
    isHttpTransport a = false := by
  match a with
  | [] => cases h
  | [_] => cases h
  | b0 :: b1 :: rest =>
      simp only [looksLikeTlsStream, Bool.and_eq_true, Bool.or_eq_true,
        beq_iff_eq] at h
      obtain ⟨-, h0⟩ := h
      rcases h0 with rfl | rfl
      · simp [isHttpTransport]
      · simp [isHttpTransport]

theorem windowsPosition_eq (pat buf : Bytes) :
    windowsPosition pat buf = position pat buf := by
  induction buf with
  | nil => rfl
  | cons b bs ih => rw [windowsPosition, position, ih]

theorem hasCompleteHttpHeaders_iff (buf : Bytes) :
    hasCompleteHttpHeaders buf = true ↔ ∃ k, At CRLF2 buf k := by
  unfold hasCompleteHttpHeaders
  rw [windowsPosition_eq]
  cases h : position CRLF2 buf with
  | none =>
      refine ⟨fun h => (by cases h), ?_⟩
      intro hk
      obtain ⟨k, hk⟩ := hk
      exact absurd hk ((position_eq_none (by decide)).mp h k)
  | some k => exact ⟨fun _ => ⟨k, (position_eq_some h).1⟩, fun _ => rfl⟩

/-- Complete headers stay complete. -/
theorem hasCompleteHttpHeaders_mono {a : Bytes} (b : Bytes)
    (h : hasCompleteHttpHeaders a = true) :
    hasCompleteHttpHeaders (a ++ b) = true := by
  rw [hasCompleteHttpHeaders_iff] at h ⊢
  obtain ⟨k, hk⟩ := h
  exact ⟨k, (at_append_left (hk.le (by decide))).mpr hk⟩

theorem sub_append {a : Bytes} (b : Bytes) {i j : Nat}
    (h : j ≤ a.length) (hij : i ≤ j) : sub (a ++ b) i j = sub a i j := by
  unfold sub
  rw [List.drop_append_of_le_length (by omega),
    List.take_append_of_le_length (by rw [List.length_drop]; omega)]

/-- The handshake that is found stays the first. -/
theorem findHandshakeOffset_append {a : Bytes} (b : Bytes) {off : Nat}
    (h : findHandshakeOffset aes a = some off) :
    findHandshakeOffset aes (a ++ b) = some off := by
  have hle := (findHandshakeOffset_some aes h).1
  unfold findHandshakeOffset at h ⊢
  rw [if_neg (by omega), List.find?_range_eq_some] at h
  obtain ⟨hok, -, hbefore⟩ := h
  rw [if_neg (by rw [List.length_append]; omega),
    List.find?_range_eq_some]
  refine ⟨?_, ?_, ?_⟩
  · rw [sub_append b hle (Nat.le_add_right _ _)]
    exact hok
  · rw [List.mem_range, List.length_append]
    omega
  · intro j hj
    rw [sub_append b (by omega) (Nat.le_add_right _ _)]
    exact hbefore j hj

/-- A window that parses is one that is found, or there is an earlier
one. -/
theorem findHandshakeOffset_isSome {buf : Bytes} {off : Nat}
    (hle : off + HANDSHAKE_LEN ≤ buf.length)
    (hok : (parseDirectHandshake aes
      (sub buf off (off + HANDSHAKE_LEN))).isOk = true) :
    (findHandshakeOffset aes buf).isSome = true := by
  unfold findHandshakeOffset
  rw [if_neg (by omega), List.find?_isSome]
  exact ⟨off, List.mem_range.mpr (by omega), hok⟩

-- =================================================== growing prefixes

/-- A test that holds on to what it has said of a shorter prefix does
not depend on which prefixes it sees, but the last. -/
theorem findSome?_persistent {β : Type} {f : Nat → Option β} {last : Nat}
    (h : ∀ n ≤ last, ∀ b, f n = some b → f last = some b)
    {points : List Nat} (hle : ∀ n ∈ points, n ≤ last)
    (hlast : last ∈ points) : points.findSome? f = f last := by
  cases hf : points.findSome? f with
  | none => exact (List.findSome?_eq_none_iff.mp hf last hlast).symm
  | some b =>
      obtain ⟨n, hn, hb⟩ := List.exists_of_findSome?_eq_some hf
      exact (h n (hle n hn) b hb).symm

/-- What a buffer is recognised as, a longer one is too, unless a window
of its headers is. -/
theorem recognised_append {a b : Bytes} {outcome : Outcome}
    (hnot : ¬ HandshakeInHeaders aes (a ++ b))
    (h : recognised aes a = some outcome) :
    recognised aes (a ++ b) = some outcome := by
  unfold recognised classify at h
  unfold recognised classify
  split at h
  · next hhttp =>
      rw [Bool.and_eq_true] at hhttp
      rw [if_pos (by
        rw [isHttpTransport_mono b hhttp.1,
          hasCompleteHttpHeaders_mono b hhttp.2]
        rfl)]
      exact h
  · next hhttp =>
      split at h
      · next htls =>
          have htls' := looksLikeTlsStream_append b (two_le_of_tls htls)
          rw [htls] at htls'
          rw [not_http_of_tls htls', if_neg (by simp), if_pos htls']
          exact h
      · next htls =>
          cases hfind : findHandshakeOffset aes a with
          | none => rw [hfind] at h; cases h
          | some off =>
              obtain ⟨hle, info, hinfo⟩ := findHandshakeOffset_some aes hfind
              have hlen : 64 ≤ a.length := le_trans (Nat.le_add_left ..) hle
              rw [if_neg, looksLikeTlsStream_append b (by omega),
                if_neg htls, findHandshakeOffset_append aes b hfind]
              · rw [hfind] at h
                simp only [Option.map_some, Option.bind_some,
                  Class.outcome] at h ⊢
                rw [sub_append b hle (Nat.le_add_right _ _)]
                exact h
              · -- the headers would end behind the window
                intro hhttp'
                rw [Bool.and_eq_true] at hhttp'
                refine hnot ⟨hhttp'.1, hhttp'.2, off, ?_, ?_, ?_⟩
                · rw [List.length_append]
                  omega
                · rw [List.take_append_of_le_length hle]
                  rw [isHttpTransport_append b (by omega)] at hhttp'
                  rw [hhttp'.1, Bool.true_and] at hhttp
                  by_contra hcomplete
                  refine hhttp ?_
                  rw [← List.take_append_drop (off + HANDSHAKE_LEN) a]
                  exact hasCompleteHttpHeaders_mono _
                    (eq_true_of_ne_false hcomplete)
                · rw [sub_append b hle (Nat.le_add_right _ _), hinfo]
                  rfl

/-- A window that parses is reached as long as no headers are complete. -/
theorem recognised_handshake {buf : Bytes} {off : Nat}
    (hopen : hasCompleteHttpHeaders buf = false)
    (htls : looksLikeTlsStream buf = false)
    (hle : off + HANDSHAKE_LEN ≤ buf.length)
    (hok : (parseDirectHandshake aes
      (sub buf off (off + HANDSHAKE_LEN))).isOk = true) :
    ∃ info, recognised aes buf = some (.ok info) := by
  obtain ⟨first, hfirst⟩ := Option.isSome_iff_exists.mp
    (findHandshakeOffset_isSome aes hle hok)
  obtain ⟨-, info, hinfo⟩ := findHandshakeOffset_some aes hfirst
  refine ⟨info, ?_⟩
  unfold recognised classify
  rw [hopen, htls, hfirst]
  simp only [Bool.and_false, Bool.false_eq_true, if_false, Option.map_some,
    Option.bind_some, Class.outcome, hinfo]

-- ============================================================= the loop

/-- The prefixes the loop looks at, by length. -/
def lengths (n : Nat) : List Bytes → List Nat
  | [] => []
  | c :: cs =>
      if n < INIT_READ_MAX then
        min (n + c.length) INIT_READ_MAX
          :: lengths (min (n + c.length) INIT_READ_MAX) cs
      else []

/-- Reads that give bytes or end of file change nothing about the
message. -/
theorem readBody_why (total : Nat) (buf unread : Bytes)
    {events : List ReadEvent} (h : ∀ ev ∈ events, ∃ k, ev = .ready k) :
    (readBody total buf unread events).2.2 = "http passthrough" := by
  induction events generalizing buf unread with
  | nil => rfl
  | cons ev evs ih =>
      rw [readBody]
      split
      · obtain ⟨k, rfl⟩ := h ev (List.mem_cons_self ..)
        simp only [ReadEvent.read]
        split
        · next hread =>
            rfl
        · next msg hread =>
            split at hread <;> cases hread
        · next got hread =>
            exact ih _ _ fun ev hev => h ev (List.mem_cons_of_mem _ hev)
      · rfl

theorem readFullHttpRequest_why {stream : TcpStream} (buf : Bytes)
    (h : ∀ ev ∈ stream.events, ∃ k, ev = .ready k) :
    (readFullHttpRequest w stream buf).2.2 = "http passthrough" := by
  unfold readFullHttpRequest
  split
  · rfl
  · simp only
    split
    · rfl
    · exact readBody_why _ _ _ h

theorem reads_ready (chunks : List Bytes) :
    ∀ ev ∈ reads chunks, ∃ k, ev = .ready k := by
  intro ev hev
  rcases List.mem_append.mp hev with hev | hev
  · obtain ⟨c, -, rfl⟩ := List.mem_map.mp hev
    exact ⟨_, rfl⟩
  · exact ⟨0, List.mem_singleton.mp hev⟩

/-- Behind the loop a buffer of 64 bytes is not recognised. -/
theorem reached_exhausted {buf : Bytes} (h : 64 ≤ buf.length)
    (stream : TcpStream) :
    reached (.ok (initExhausted buf stream))
      = some (.error "unrecognized handshake") := by
  unfold initExhausted
  rw [if_neg (by omega), if_neg (by unfold HANDSHAKE_LEN; omega)]
  rfl

/-- What one prefix gives: the loop ends with its outcome, or goes on. -/
theorem reached_round (buf unread : Bytes) {evs : List ReadEvent}
    (hready : ∀ ev ∈ evs, ∃ k, ev = .ready k) {rest : Res InitResult} :
    reached (if isHttpTransport buf && hasCompleteHttpHeaders buf then
        .ok (.error (readFullHttpRequest w { unread, events := evs } buf))
      else if looksLikeTlsStream buf then
        .ok (.error ({ unread, events := evs }, buf, "tls passthrough"))
      else
        match findHandshakeOffset aes buf with
        | some off => do
            let rem ← sliceFrom buf (off + HANDSHAKE_LEN)
            let window ← slice buf off (off + HANDSHAKE_LEN)
            match parseDirectHandshake aes window with
            | .error _ => .error (.panic .unwrap)
            | .ok info =>
                .ok (.ok (some
                  { info
                    stream := { inner := { unread, events := evs }
                                prefixBuf := rem, off := 0 } }))
        | none => rest)
      = (recognised aes buf).or (reached rest) := by
  unfold recognised classify
  split
  · show some (Except.error (readFullHttpRequest w _ buf).2.2) = _
    rw [readFullHttpRequest_why w buf hready]
    rfl
  · split
    · rfl
    · cases hfind : findHandshakeOffset aes buf with
      | none => rfl
      | some off =>
          obtain ⟨hle, info, hinfo⟩ := findHandshakeOffset_some aes hfind
          have hout : Class.outcome aes buf (.handshake off)
              = some (.ok info) := by
            simp only [Class.outcome, hinfo]
          simp only [sliceFrom_ok hle, slice_ok (Nat.le_add_right _ _) hle,
            bind, Except.bind, hinfo, Option.map_some]
          show _ = (Class.outcome aes buf (.handshake off)).or _
          rw [hout]
          rfl

/-- The loop reaches the outcome of the first prefix that is
recognised. -/
theorem readInitLoop_reached {data : Bytes} (hlen : 64 ≤ data.length)
    (chunks : List Bytes) (hne : ∀ c ∈ chunks, c ≠ []) {n : Nat}
    (hn : n ≤ data.length) (hmax : n ≤ INIT_READ_MAX)
    (hrest : n < INIT_READ_MAX → data.drop n = chunks.flatten) :
    reached (readInitLoop w aes (data.take n) (data.drop n) (reads chunks))
      = some (((lengths n chunks).findSome? fun k =>
          recognised aes (data.take k)).getD
            (.error "unrecognized handshake")) := by
  have hmin : (data.take n).length = n := by
    rw [List.length_take]
    omega
  induction chunks generalizing n with
  | nil =>
      show reached (readInitLoop w aes _ _ [.ready 0]) = some (.error _)
      rw [readInitLoop]
      split
      · next hlt =>
          rw [hmin] at hlt
          have hall : data.length ≤ n := List.drop_eq_nil_iff.mp (hrest hlt)
          have hread : ∀ space, (ReadEvent.ready 0).read [] space = .stop := by
            intro space
            simp [ReadEvent.read]
          rw [hrest hlt, List.flatten_nil, hread]
          exact reached_exhausted (by omega) _
      · next hge =>
          rw [hmin] at hge
          exact reached_exhausted
            (by unfold INIT_READ_MAX at hge; omega) _
  | cons c cs ih =>
      have hc : 0 < c.length :=
        List.length_pos_iff.mpr (hne c (List.mem_cons_self ..))
      show reached (readInitLoop w aes _ _ (.ready (c.length - 1) :: reads cs))
        = _
      rw [readInitLoop, lengths, hmin]
      by_cases hlt : n < INIT_READ_MAX
      · rw [if_pos hlt, if_pos hlt]
        have hdrop := hrest hlt
        have hlong : n + c.length ≤ data.length := by
          have := congrArg List.length hdrop
          rw [List.length_drop, List.flatten_cons, List.length_append]
            at this
          omega
        -- the read gives the chunk, as far as there is room
        have hread : (ReadEvent.ready (c.length - 1)).read (data.drop n)
              (INIT_READ_MAX - n)
            = .bytes ((data.drop n).take
                (min (n + c.length) INIT_READ_MAX - n)) := by
          have hmin' : min (c.length - 1 + 1) (INIT_READ_MAX - n)
              = min (n + c.length) INIT_READ_MAX - n := by omega
          simp only [ReadEvent.read]
          rw [hmin']
          refine if_neg ?_
          rw [List.isEmpty_iff_length_eq_zero, List.length_take,
            List.length_drop]
          omega
        have hbuf : data.take n ++ (data.drop n).take
              (min (n + c.length) INIT_READ_MAX - n)
            = data.take (min (n + c.length) INIT_READ_MAX) := by
          rw [← List.take_add]
          congr 1
          omega
        have hunread : (data.drop n).drop ((data.drop n).take
              (min (n + c.length) INIT_READ_MAX - n)).length
            = data.drop (min (n + c.length) INIT_READ_MAX) := by
          rw [List.drop_drop, List.length_take, List.length_drop]
          congr 1
          omega
        rw [hread]
        simp only
        rw [hbuf, hunread]
        refine (reached_round w aes _ _ (reads_ready cs)).trans ?_
        rw [ih (fun c hc => hne c (List.mem_cons_of_mem _ hc)) (by omega)
            (by omega) ?_ (by rw [List.length_take]; omega),
          List.findSome?_cons]
        · cases recognised aes
            (data.take (min (n + c.length) INIT_READ_MAX)) with
          | none => rfl
          | some outcome => rfl
        · intro hlt'
          have hsum : min (n + c.length) INIT_READ_MAX = n + c.length := by
            omega
          rw [hsum, ← List.drop_drop, hdrop, List.flatten_cons,
            List.drop_left]
      · rw [if_neg hlt, if_neg hlt]
        refine reached_exhausted ?_ _
        rw [hmin]
        unfold INIT_READ_MAX at hlt
        omega

-- ============================================================ the cuts

theorem lengths_le {data : Bytes} (chunks : List Bytes) {n : Nat}
    (h : n + chunks.flatten.length ≤ data.length) :
    ∀ k ∈ lengths n chunks, k ≤ min data.length INIT_READ_MAX := by
  induction chunks generalizing n with
  | nil =>
      intro k hk
      cases hk
  | cons c cs ih =>
      rw [List.flatten_cons, List.length_append] at h
      intro k hk
      rw [lengths] at hk
      split at hk
      · rcases List.mem_cons.mp hk with rfl | hk
        · omega
        · exact ih (by omega) k hk
      · cases hk

/-- The last prefix is all that the loop can see. -/
theorem mem_lengths {data : Bytes} (chunks : List Bytes) {n : Nat}
    (hn : n < min data.length INIT_READ_MAX)
    (h : n + chunks.flatten.length = data.length) :
    min data.length INIT_READ_MAX ∈ lengths n chunks := by
  induction chunks generalizing n with
  | nil =>
      rw [List.flatten_nil, List.length_nil] at h
      omega
  | cons c cs ih =>
      rw [List.flatten_cons, List.length_append] at h
      rw [lengths, if_pos (by omega), List.mem_cons]
      by_cases hlast : min (n + c.length) INIT_READ_MAX
          < min data.length INIT_READ_MAX
      · exact .inr (ih hlast (by omega))
      · exact .inl (by omega)

/-- The outcome of a cut, by the prefixes it shows. -/
theorem readClientInit_reached {data : Bytes} (hlen : 64 ≤ data.length)
    {chunks : List Bytes} (hcut : Cut data chunks) :
    reached (readClientInit w aes (arriving chunks))
      = some (((lengths 0 chunks).findSome? fun k =>
          recognised aes (data.take k)).getD
            (.error "unrecognized handshake")) := by
  have hloop := readInitLoop_reached w aes hlen chunks hcut.nonempty
    (Nat.zero_le _) (Nat.zero_le _) (fun _ => hcut.flatten.symm)
  rw [List.take_zero, List.drop_zero, ← hcut.flatten] at hloop
  rw [← hcut.flatten]
  exact hloop

theorem seen_eq (data : Bytes) :
    seen data = data.take (min data.length INIT_READ_MAX) := by
  rw [seen, List.take_eq_take_iff]
  omega

theorem length_seen (data : Bytes) :
    (seen data).length = min data.length INIT_READ_MAX := by
  rw [seen, List.length_take, Nat.min_comm]

/-- The stream in one read. -/
theorem reached_whole {data : Bytes} (hlen : 64 ≤ data.length) :
    Cut data [data] ∧ reached (readClientInit w aes (arriving [data]))
      = some ((recognised aes (seen data)).getD
          (.error "unrecognized handshake")) := by
  have hcut : Cut data [data] := by
    refine ⟨List.append_nil data, ?_⟩
    intro c hc
    rw [List.mem_singleton.mp hc]
    exact List.length_pos_iff.mp (by omega)
  refine ⟨hcut, ?_⟩
  have hlengths : lengths 0 [data] = [min data.length INIT_READ_MAX] := by
    rw [lengths, if_pos (by decide), Nat.zero_add, lengths]
  rw [readClientInit_reached w aes hlen hcut, hlengths, seen_eq,
    List.findSome?_singleton]

/-- The stream in two reads, where the first prefix is recognised. -/
theorem reached_cut {data : Bytes} {n : Nat} (hlen : 64 ≤ data.length)
    (hpos : 0 < n) (hn : n < (seen data).length) {outcome : Outcome}
    (hrec : recognised aes (data.take n) = some outcome) :
    Cut data [data.take n, data.drop n]
      ∧ reached (readClientInit w aes
          (arriving [data.take n, data.drop n])) = some outcome := by
  rw [length_seen] at hn
  have htake : (data.take n).length = n := by
    rw [List.length_take]
    omega
  have hcut : Cut data [data.take n, data.drop n] := by
    refine ⟨?_, ?_⟩
    · rw [List.flatten_cons, List.flatten_cons, List.flatten_nil,
        List.append_nil, List.take_append_drop]
    · intro c hc
      rw [List.mem_cons, List.mem_singleton] at hc
      rcases hc with rfl | rfl
      · exact List.length_pos_iff.mp (htake.symm ▸ hpos)
      · exact List.length_pos_iff.mp (by
          rw [List.length_drop]
          omega)
  refine ⟨hcut, ?_⟩
  have hmin : min (0 + n) INIT_READ_MAX = n := by omega
  rw [readClientInit_reached w aes hlen hcut, lengths,
    if_pos (by decide), htake, hmin, List.findSome?_cons, hrec]
  rfl

/-- A handshake in the headers is reached by a cut behind it. -/
theorem recognised_in_headers {buf : Bytes}
    (h : HandshakeInHeaders aes buf) :
    ∃ n info, 0 < n ∧ n < buf.length
      ∧ recognised aes (buf.take n) = some (.ok info) := by
  obtain ⟨hhttp, hcomplete, off, hoff, hopen, hok⟩ := h
  have hlt : off + HANDSHAKE_LEN < buf.length := by
    refine lt_of_le_of_ne hoff ?_
    intro heq
    rw [heq, List.take_length, hcomplete] at hopen
    cases hopen
  have hlen : (buf.take (off + HANDSHAKE_LEN)).length
      = off + HANDSHAKE_LEN := by
    rw [List.length_take]
    omega
  have h64 : HANDSHAKE_LEN = 64 := rfl
  have hsplit := List.take_append_drop (off + HANDSHAKE_LEN) buf
  -- a request of seven bytes is no TLS record
  have htls : looksLikeTlsStream (buf.take (off + HANDSHAKE_LEN))
      = false := by
    by_contra htls
    rw [← hsplit, isHttpTransport_append _ (by omega),
      not_http_of_tls (eq_true_of_ne_false htls)] at hhttp
    cases hhttp
  rw [← hsplit, sub_append _ hlen.ge (Nat.le_add_right _ _)] at hok
  obtain ⟨info, hinfo⟩ :=
    recognised_handshake aes hopen htls hlen.ge hok
  exact ⟨off + HANDSHAKE_LEN, info, by omega, hlt, hinfo⟩

/-- A stream of 64 bytes or more reaches one outcome, however it is cut,
exactly when what the loop can see of it is no HTTP request with a
handshake in its headers. -/
theorem one_outcome (data : Bytes) (hlen : 64 ≤ data.length) :
    OneOutcome w aes data ↔ ¬ HandshakeInHeaders aes (seen data) := by
  constructor
  · intro hone hbad
    obtain ⟨outcome, hone⟩ := hone
    obtain ⟨n, info, hpos, hn, hinfo⟩ := recognised_in_headers aes hbad
    have hall : recognised aes (seen data)
        = some (.error "http passthrough") := by
      unfold recognised classify
      rw [hbad.1, hbad.2.1]
      rfl
    have htake : (seen data).take n = data.take n := by
      rw [seen, List.take_take]
      congr 1
      rw [length_seen] at hn
      omega
    rw [htake] at hinfo
    obtain ⟨hwhole, hreached⟩ := reached_whole w aes hlen
    obtain ⟨hcut, hreached'⟩ := reached_cut w aes hlen hpos hn hinfo
    rw [hone _ hwhole, hall] at hreached
    rw [hone _ hcut, hreached] at hreached'
    cases hreached'
  · intro hnot
    refine ⟨(recognised aes (seen data)).getD
      (.error "unrecognized handshake"), ?_⟩
    intro chunks hcut
    rw [readClientInit_reached w aes hlen hcut]
    have hflat : 0 + chunks.flatten.length = data.length := by
      rw [hcut.flatten, Nat.zero_add]
    rw [seen_eq] at hnot ⊢
    congr 2
    refine findSome?_persistent ?_ (lengths_le chunks hflat.le)
      (mem_lengths chunks (by unfold INIT_READ_MAX; omega) hflat)
    intro n hn outcome hrec
    obtain ⟨b, hb⟩ := List.take_prefix_take_left hn (l := data)
    rw [← hb] at hnot ⊢
    exact recognised_append aes hnot hrec

/-- The sample client init is no HTTP request. -/
theorem one_outcome_sample : OneOutcome .w64 sampleAes sampleClient :=
  (one_outcome .w64 sampleAes sampleClient (by decide)).mpr
    fun h => absurd h.1 (by decide)

/-- A request whose first 64 bytes decrypt to an abridged init of DC 2,
and the end of its headers. -/
def request : Bytes :=
  [0x47, 0x45, 0x54, 0x20, 0x2F] ++ List.replicate 51 0x61
    ++ [0x11, 0x4E, 0x6B, 0xB5, 0x5A, 0xB0, 0x61, 0x61] ++ CRLF2

/-- AES-256 on the block this takes, zero elsewhere. -/
def requestAes : Aes256 := fun key block =>
  if key = List.replicate 32 0x61
      ∧ block = List.replicate 15 0x61 ++ [0x64] then
    Vector.ofFn fun i =>
      (beBytes 16 0xc5fec96538ef3a9cfea1845a58b0c085).getD i 0
  else Vector.replicate 16 0

/-- At once it is an HTTP request, and with a read that ends behind the
64 bytes a handshake. -/
theorem request_two_outcomes :
    ¬ ∀ (w : Word) (aes : Aes256) (data : Bytes), 64 ≤ data.length →
      OneOutcome w aes data := by
  intro h
  obtain ⟨outcome, hone⟩ := h .w64 requestAes request (by decide)
  have hwhole := hone [request] ⟨by decide, by decide⟩
  have hcut := hone [request.take 64, request.drop 64]
    ⟨by decide, by decide⟩
  have hhttp : reached (readClientInit .w64 requestAes (arriving [request]))
      = some (.error "http passthrough") := by decide +kernel
  have hmtproto : reached (readClientInit .w64 requestAes
        (arriving [request.take 64, request.drop 64]))
      = some (.ok { dc := 2, isMedia := false, dcInPkt := true
                    protoInt := PROTO_ABRIDGED_INT
                    handshake := request.take 64 }) := by decide +kernel
  cases hhttp.symm.trans (hwhole.trans (hcut.symm.trans hmtproto))

end Wrtg.Handshake
