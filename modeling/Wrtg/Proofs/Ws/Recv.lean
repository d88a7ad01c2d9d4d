/-
Message reassembly over whole streams (`ws.rs`, `recv_binary`).

# The grammar of a stream

A message is a first fragment and any number of continuations, each
with control frames (pings, pongs) in front of it; the payloads add up
to at most `MAX_WS_PAYLOAD`. An opening is a message whose last
fragment has not come. A stream is messages, then possibly an opening,
then control frames, and then either a close frame or a violation: a
frame that is bad by its header (`RawHeader.Bad`), of an unsupported
opcode, or in the wrong place.

# The proof

`recvFrom` is the loop without its fuel (`recvFrom_eq`); one frame is
one step of it (`recvFrom_frame`). The grammar is then followed part by
part: controls (`recvFrom_controls`), fragments (`recvFrom_more_open`,
`recvFrom_more_close`), a message (`recvFrom_message`), and a run of calls
(`calls_messages`).
-/
import Wrtg.Proofs.Ws.Frame

namespace Wrtg.Ws

open Lib Mtproto

variable (rng : Nat → MaskKey)

-- ================================================= the loop, unfuelled

/-- A frame costs at least its two header bytes. -/
theorem consumes_readFrame : Consumes 2 readFrame := by
  unfold readFrame
  refine consumes_bind (consumes_readExact 2) (k := 0) ?_
  intro hdr
  refine consumes_ite (consumes_throw 0 _) (consumes_ite (consumes_throw 0 _)
    (consumes_bind (j := 0) (k := 0) ?_ ?_))
  · unfold readFrame.readLength
    refine consumes_ite ?_ (consumes_ite ?_ (consumes_pure _))
    · exact (consumes_bind (consumes_readExact 2)
        fun _ => consumes_pure _).mono (Nat.zero_le _)
    · exact (consumes_bind (k := 0) (consumes_readExact 8) fun _ =>
        consumes_ite (consumes_throw 0 _) (consumes_pure _)).mono
          (Nat.zero_le _)
  · intro length
    refine consumes_ite (consumes_throw 0 _)
      (consumes_ite (consumes_throw 0 _) ?_)
    exact (consumes_bind (consumes_readExact length)
      fun _ => consumes_pure _).mono (Nat.zero_le _)

/-- What the loop does with a frame it has read; `k` is its next
round. -/
def react (fragmented : Option Bytes)
    (k : Option Bytes → Recv (Option Bytes)) :
    Bool × UInt8 × Bytes → Recv (Option Bytes)
  | (fin, opcode, payload) =>
      if opcode = 0x8 then pure none
      else if opcode = 0x9 then do
        sendPong rng payload
        k fragmented
      else if opcode = 0xA then k fragmented
      else if opcode ≤ 0x2 then
        match assembleDataMessage fin opcode payload fragmented with
        | .error e => throw (.io e)
        | .ok (some message, _) => pure (some message)
        | .ok (none, fragmented) => k fragmented
      else throw (.io (wsProtocolError "unsupported WebSocket opcode"))

theorem recvLoop_succ (fuel : Nat) (fragmented : Option Bytes) :
    recvLoop rng (fuel + 1) fragmented
      = onSocket readFrame
        >>= react rng fragmented (recvLoop rng fuel) := rfl

/-- A reaction does not touch the socket before its next round. -/
theorem react_congr {fragmented : Option Bytes} {r : Bool × UInt8 × Bytes}
    {k k' : Option Bytes → Recv (Option Bytes)} {s : RecvState}
    (h : ∀ f s', s'.read = s.read → k f s' = k' f s') :
    react rng fragmented k r s = react rng fragmented k' r s := by
  obtain ⟨fin, opcode, payload⟩ := r
  simp only [react]
  split
  · rfl
  · split
    · simp only [bind, EStateM.bind, sendPong]
      cases s.pongOpen with
      | true => exact h _ _ rfl
      | false => rfl
    · split
      · exact h _ _ rfl
      · split
        · cases assembleDataMessage fin opcode payload fragmented with
          | error e => rfl
          | ok r =>
              obtain ⟨message, fragments⟩ := r
              cases message with
              | none => exact h _ _ rfl
              | some message => rfl
        · rfl

/-- The loop does not depend on its fuel, as long as it has one more
than the unread bytes. -/
theorem recvLoop_fuel {fuel fuel' : Nat} {fragmented : Option Bytes}
    {s : RecvState} (h : s.read.length < fuel)
    (h' : s.read.length < fuel') :
    recvLoop rng fuel fragmented s = recvLoop rng fuel' fragmented s := by
  induction fuel generalizing fuel' fragmented s with
  | zero => omega
  | succ fuel ih =>
      cases fuel' with
      | zero => omega
      | succ fuel' =>
          rw [recvLoop_succ, recvLoop_succ]
          simp only [bind, EStateM.bind, onSocket]
          cases hr : readFrame s.read with
          | error e rest => rfl
          | ok r rest =>
              have hlen := consumes_readFrame s.read r rest hr
              refine react_congr rng ?_
              intro f s' hs'
              have hs'' : s'.read.length = rest.length :=
                congrArg List.length hs'
              exact ih (by omega) (by omega)

/-- The loop with as much fuel as it can need. -/
def recvFrom (fragmented : Option Bytes) : Recv (Option Bytes) := fun s =>
  recvLoop rng (s.read.length + 1) fragmented s

theorem recvBinary_eq (s : RecvState) :
    recvBinary rng s = recvFrom rng none s := rfl

/-- The loop, frame by frame. -/
theorem recvFrom_eq (fragmented : Option Bytes) (s : RecvState) :
    recvFrom rng fragmented s
      = match readFrame s.read with
        | .error e rest => .error (.io e) { s with read := rest }
        | .ok r rest =>
            react rng fragmented (recvFrom rng) r { s with read := rest } := by
  show recvLoop rng (s.read.length + 1) fragmented s = _
  rw [recvLoop_succ]
  simp only [bind, EStateM.bind, onSocket]
  cases hr : readFrame s.read with
  | error e rest => rfl
  | ok r rest =>
      have hlen := consumes_readFrame s.read r rest hr
      refine react_congr rng ?_
      intro f s' hs'
      have hs'' : s'.read.length = rest.length := congrArg List.length hs'
      exact recvLoop_fuel rng (by omega) (by omega)

/-- The loop on a server frame. -/
theorem recvFrom_frame (fragmented : Option Bytes) (f : Frame)
    (rest : Bytes) (s : RecvState) :
    recvFrom rng fragmented { s with read := f.encode ++ rest }
      = react rng fragmented (recvFrom rng)
          (f.fin, f.opcode.code, f.payload) { s with read := rest } := by
  rw [recvFrom_eq]
  simp only [readFrame_frame]

-- ===================================================== control frames

/-- A ping or a pong between data frames. -/
structure Control where
  isPing : Bool
  form : LenForm
  payload : Bytes
  hfits : form.fits payload.length
  hlen : payload.length ≤ 125

private theorem small_cap {n : Nat} (h : n ≤ 125) : n ≤ MAX_WS_PAYLOAD := by
  have hmax : 125 ≤ MAX_WS_PAYLOAD := by decide
  omega

def Control.frame (c : Control) : Frame where
  fin := true
  opcode := if c.isPing then .ping else .pong
  form := c.form
  payload := c.payload
  hfits := c.hfits
  hcap := small_cap c.hlen
  hctl _ := ⟨rfl, c.hlen⟩

def encodeControls (cs : List Control) : Bytes :=
  cs.flatMap fun c => c.frame.encode

/-- The payloads that ask for a pong, in order. -/
def pings (cs : List Control) : List Bytes :=
  (cs.filter Control.isPing).map Control.payload

/-- The state after one ping has been answered. -/
def pushPong (s : RecvState) (payload : Bytes) : RecvState :=
  { s with
    pongs := s.pongs ++ [buildWsFrame 0xA payload true (rng s.draws)]
    draws := s.draws + 1 }

/-- The state after a ping of each payload has been answered. -/
def answer (s : RecvState) (payloads : List Bytes) : RecvState :=
  payloads.foldl (pushPong rng) s

theorem answer_append (s : RecvState) (ps qs : List Bytes) :
    answer rng s (ps ++ qs) = answer rng (answer rng s ps) qs :=
  List.foldl_append

/-- Answering touches neither the socket nor the channel's receiver. -/
theorem answer_frame (s : RecvState) (ps : List Bytes) :
    (answer rng s ps).read = s.read
      ∧ (answer rng s ps).pongOpen = s.pongOpen := by
  induction ps generalizing s with
  | nil => exact ⟨rfl, rfl⟩
  | cons p ps ih => exact ih _

/-- One pong a ping, in order, each of them the ping's payload to the
server. -/
theorem answer_pongs (s : RecvState) (ps : List Bytes)
    (h : ∀ p ∈ ps, p.length ≤ 125) :
    ∃ new, (answer rng s ps).pongs = s.pongs ++ new
      ∧ new.map unmaskPong = ps.map some := by
  induction ps generalizing s with
  | nil => exact ⟨[], (List.append_nil _).symm, rfl⟩
  | cons p ps ih =>
      obtain ⟨new, hnew, hmap⟩ := ih (pushPong rng s p)
        fun q hq => h q (List.mem_cons_of_mem p hq)
      refine ⟨buildWsFrame 0xA p true (rng s.draws) :: new, ?_, ?_⟩
      · show (answer rng (pushPong rng s p) ps).pongs = _
        rw [hnew, pushPong, List.append_assoc]
        rfl
      · rw [List.map_cons, List.map_cons, hmap,
          unmaskPong_buildWsFrame (h p (List.mem_cons_self ..))]

theorem sendPong_open (payload : Bytes) {s : RecvState}
    (hopen : s.pongOpen = true) :
    sendPong rng payload s = .ok () (pushPong rng s payload) :=
  if_pos hopen

/-- A ping is answered, as long as the channel is open. -/
theorem react_ping (fragmented : Option Bytes)
    (k : Option Bytes → Recv (Option Bytes)) (fin : Bool) (payload : Bytes)
    {s : RecvState} (hopen : s.pongOpen = true) :
    react rng fragmented k (fin, Opcode.ping.code, payload) s
      = k fragmented (pushPong rng s payload) := by
  show (sendPong rng payload >>= fun _ => k fragmented) s = _
  simp only [bind, EStateM.bind, sendPong_open rng payload hopen]

/-- The loop on control frames: pings are answered, pongs dropped. -/
theorem recvFrom_controls (fragmented : Option Bytes) (cs : List Control)
    (rest : Bytes) (s : RecvState) (hopen : s.pongOpen = true) :
    recvFrom rng fragmented { s with read := encodeControls cs ++ rest }
      = recvFrom rng fragmented
          { answer rng s (pings cs) with read := rest } := by
  induction cs generalizing s with
  | nil => rfl
  | cons c cs ih =>
      rw [encodeControls, List.flatMap_cons, List.append_assoc,
        recvFrom_frame]
      cases hp : c.isPing with
      | true =>
          rw [show c.frame.opcode = .ping by simp [Control.frame, hp],
            react_ping rng _ _ _ _ (by exact hopen),
            show pings (c :: cs) = c.payload :: pings cs by
              simp [pings, hp]]
          exact ih (pushPong rng s c.payload) hopen
      | false =>
          rw [show c.frame.opcode = .pong by simp [Control.frame, hp],
            show pings (c :: cs) = pings cs by simp [pings, hp]]
          exact ih s hopen

-- ========================================================= data frames

/-- A piece of a message, with the controls sent before it. -/
structure Fragment where
  before : List Control
  form : LenForm
  payload : Bytes
  hfits : form.fits payload.length
  hcap : payload.length ≤ MAX_WS_PAYLOAD

def Fragment.frame (f : Fragment) (fin : Bool) (opcode : Opcode)
    (h : opcode.control = false) : Frame where
  fin := fin
  opcode := opcode
  form := f.form
  payload := f.payload
  hfits := f.hfits
  hcap := f.hcap
  hctl hc := by rw [h] at hc; cases hc

def Fragment.encode (f : Fragment) (fin : Bool) (opcode : Opcode)
    (h : opcode.control = false) : Bytes :=
  encodeControls f.before ++ (f.frame fin opcode h).encode

/-- The opcodes of data frames lie below those of control frames. -/
theorem data_code {opcode : Opcode} (h : opcode.control = false) :
    opcode.code ≠ 0x8 ∧ opcode.code ≠ 0x9 ∧ opcode.code ≠ 0xA
      ∧ opcode.code ≤ 0x2 := by
  cases opcode with
  | continuation => decide
  | text => decide
  | binary => decide
  | close => cases h
  | ping => cases h
  | pong => cases h

/-- What the loop does with a data frame. -/
theorem react_data (fragmented : Option Bytes)
    (k : Option Bytes → Recv (Option Bytes)) (fin : Bool) {opcode : Opcode}
    (h : opcode.control = false) (payload : Bytes) (s : RecvState) :
    react rng fragmented k (fin, opcode.code, payload) s
      = match assembleDataMessage fin opcode.code payload fragmented with
        | .error e => .error (.io e) s
        | .ok (some message, _) => .ok (some message) s
        | .ok (none, fragmented) => k fragmented s := by
  have hop := data_code h
  simp only [react]
  rw [if_neg hop.1, if_neg hop.2.1, if_neg hop.2.2.1, if_pos hop.2.2.2]
  cases assembleDataMessage fin opcode.code payload fragmented with
  | error e => rfl
  | ok r =>
      obtain ⟨message, fragments⟩ := r
      cases message with
      | none => rfl
      | some message => rfl

/-- The loop on a fragment: its controls, then its data frame. -/
theorem recvFrom_fragment (fragmented : Option Bytes) (f : Fragment)
    (fin : Bool) {opcode : Opcode} (h : opcode.control = false)
    (rest : Bytes) {s : RecvState} (hopen : s.pongOpen = true) :
    recvFrom rng fragmented { s with read := f.encode fin opcode h ++ rest }
      = match assembleDataMessage fin opcode.code f.payload fragmented with
        | .error e =>
            .error (.io e) { answer rng s (pings f.before) with read := rest }
        | .ok (some message, _) =>
            .ok (some message)
              { answer rng s (pings f.before) with read := rest }
        | .ok (none, fragmented) =>
            recvFrom rng fragmented
              { answer rng s (pings f.before) with read := rest } := by
  rw [Fragment.encode, List.append_assoc, recvFrom_controls rng _ _ _ _ hopen]
  have hframe := recvFrom_frame rng fragmented (f.frame fin opcode h) rest
    (answer rng s (pings f.before))
  rw [hframe]
  exact react_data rng fragmented _ fin h f.payload _

inductive DataKind where
  | text
  | binary
  deriving DecidableEq, Repr

def DataKind.opcode : DataKind → Opcode
  | .text => .text
  | .binary => .binary

theorem DataKind.data (k : DataKind) : k.opcode.control = false := by
  cases k <;> rfl

theorem continuation_data : Opcode.continuation.control = false := rfl

/-- A first data frame outside a fragmented message. -/
theorem assemble_first (k : DataKind) (fin : Bool) (payload : Bytes) :
    assembleDataMessage fin k.opcode.code payload none
      = .ok (if fin then (some payload, none) else (none, some payload)) := by
  cases k <;> cases fin <;> rfl

/-- A continuation within the cap. -/
theorem assemble_more (fin : Bool) {acc payload : Bytes}
    (h : acc.length + payload.length ≤ MAX_WS_PAYLOAD) :
    assembleDataMessage fin Opcode.continuation.code payload (some acc)
      = .ok (if fin then (some (acc ++ payload), none)
          else (none, some (acc ++ payload))) := by
  have hnot : ¬ acc.length + payload.length > MAX_WS_PAYLOAD := by omega
  cases fin
  · show (if acc.length + payload.length > MAX_WS_PAYLOAD then _ else _) = _
    rw [if_neg hnot]
    rfl
  · show (if acc.length + payload.length > MAX_WS_PAYLOAD then _ else _) = _
    rw [if_neg hnot]
    rfl

-- ============================================================ messages

/-- The payload bytes of a list of fragments. -/
def payloads (fs : List Fragment) : Bytes := fs.flatMap Fragment.payload

/-- The pings sent between a list of fragments. -/
def fragmentPings (fs : List Fragment) : List Bytes :=
  fs.flatMap fun f => pings f.before

/-- A message in fragments, within the cap. -/
structure Message where
  kind : DataKind
  first : Fragment
  more : List Fragment
  hcap : (payloads (first :: more)).length ≤ MAX_WS_PAYLOAD

def Message.payload (m : Message) : Bytes := payloads (m.first :: m.more)

def Message.pings (m : Message) : List Bytes :=
  fragmentPings (m.first :: m.more)

/-- Continuations; the last one is final if `close` says so. -/
def encodeMore (close : Bool) : List Fragment → Bytes
  | [] => []
  | f :: fs =>
      f.encode (close && fs.isEmpty) .continuation continuation_data
        ++ encodeMore close fs

/-- A whole message on the wire. -/
def Message.encode (m : Message) : Bytes :=
  m.first.encode m.more.isEmpty m.kind.opcode m.kind.data
    ++ encodeMore true m.more

/-- A message on the wire whose last fragment is still to come. -/
def Message.encodeOpen (m : Message) : Bytes :=
  m.first.encode false m.kind.opcode m.kind.data ++ encodeMore false m.more

theorem payloads_cons (f : Fragment) (fs : List Fragment) :
    payloads (f :: fs) = f.payload ++ payloads fs := List.flatMap_cons

theorem fragmentPings_cons (f : Fragment) (fs : List Fragment) :
    fragmentPings (f :: fs) = pings f.before ++ fragmentPings fs :=
  List.flatMap_cons

/-- Continuations that do not end the message pile up. -/
theorem recvFrom_more_open (fs : List Fragment) {acc : Bytes}
    (rest : Bytes) {s : RecvState} (hopen : s.pongOpen = true)
    (h : acc.length + (payloads fs).length ≤ MAX_WS_PAYLOAD) :
    recvFrom rng (some acc) { s with read := encodeMore false fs ++ rest }
      = recvFrom rng (some (acc ++ payloads fs))
          { answer rng s (fragmentPings fs) with read := rest } := by
  induction fs generalizing acc s with
  | nil => rw [payloads, List.flatMap_nil, List.append_nil]; rfl
  | cons f fs ih =>
      rw [payloads_cons, List.length_append] at h
      rw [encodeMore, List.append_assoc, Bool.false_and,
        recvFrom_fragment rng _ _ _ _ _ hopen,
        assemble_more false (by omega)]
      have hopen' : (answer rng s (pings f.before)).pongOpen = true :=
        (answer_frame rng s _).2.trans hopen
      have hrec := @ih (acc ++ f.payload) _ hopen'
        (by rw [List.length_append]; omega)
      rw [fragmentPings_cons, answer_append, payloads_cons,
        ← List.append_assoc]
      exact hrec

/-- Continuations of which the last is final complete the message. -/
theorem recvFrom_more_close {fs : List Fragment} (hne : fs ≠ [])
    {acc : Bytes} (rest : Bytes) {s : RecvState} (hopen : s.pongOpen = true)
    (h : acc.length + (payloads fs).length ≤ MAX_WS_PAYLOAD) :
    recvFrom rng (some acc) { s with read := encodeMore true fs ++ rest }
      = .ok (some (acc ++ payloads fs))
          { answer rng s (fragmentPings fs) with read := rest } := by
  induction fs generalizing acc s with
  | nil => exact absurd rfl hne
  | cons f fs ih =>
      rw [payloads_cons, List.length_append] at h
      rw [encodeMore, List.append_assoc, Bool.true_and,
        recvFrom_fragment rng _ _ _ _ _ hopen,
        assemble_more _ (by omega), fragmentPings_cons, answer_append,
        payloads_cons, ← List.append_assoc]
      cases fs with
      | nil => simp [payloads, fragmentPings, answer, encodeMore]
      | cons g fs =>
          have hopen' : (answer rng s (pings f.before)).pongOpen = true :=
            (answer_frame rng s _).2.trans hopen
          exact ih (by simp) hopen' (by rw [List.length_append]; omega)

/-- The loop on a whole message. -/
theorem recvFrom_message (m : Message) (rest : Bytes) {s : RecvState}
    (hopen : s.pongOpen = true) :
    recvFrom rng none { s with read := m.encode ++ rest }
      = .ok (some m.payload)
          { answer rng s m.pings with read := rest } := by
  have hcap := m.hcap
  rw [payloads_cons, List.length_append] at hcap
  rw [Message.encode, List.append_assoc,
    recvFrom_fragment rng _ _ _ _ _ hopen, assemble_first, Message.payload,
    Message.pings, payloads_cons, fragmentPings_cons, answer_append]
  have hopen' : (answer rng s (pings m.first.before)).pongOpen = true :=
    (answer_frame rng s _).2.trans hopen
  cases hm : m.more with
  | nil => simp [payloads, fragmentPings, answer, encodeMore]
  | cons g fs =>
      rw [hm] at hcap
      exact recvFrom_more_close rng (by simp) rest hopen' hcap

/-- The loop on a message whose last fragment is missing. -/
theorem recvFrom_opening (m : Message) (rest : Bytes) {s : RecvState}
    (hopen : s.pongOpen = true) :
    recvFrom rng none { s with read := m.encodeOpen ++ rest }
      = recvFrom rng (some m.payload)
          { answer rng s m.pings with read := rest } := by
  have hcap := m.hcap
  rw [payloads_cons, List.length_append] at hcap
  rw [Message.encodeOpen, List.append_assoc,
    recvFrom_fragment rng _ _ _ _ _ hopen, assemble_first, Message.payload,
    Message.pings, payloads_cons, fragmentPings_cons, answer_append]
  have hopen' : (answer rng s (pings m.first.before)).pongOpen = true :=
    (answer_frame rng s _).2.trans hopen
  exact recvFrom_more_open rng m.more rest hopen' hcap

-- =============================================================== calls

/-- One `recv_binary` call as a stage: its result and the state it
leaves. -/
def call (s : RecvState) (_ : Unit) :
    Except RecvFault (Option Bytes) × RecvState :=
  match recvBinary rng s with
  | .ok a s' => (.ok a, s')
  | .error e s' => (.error e, s')

/-- `n` calls in a row. -/
def calls (n : Nat) (s : RecvState) :
    List (Except RecvFault (Option Bytes)) × RecvState :=
  feed (call rng) s (List.replicate n ())

/-- A run of calls and one call more. -/
theorem calls_succ (n : Nat) (s : RecvState) :
    calls rng (n + 1) s
      = ((calls rng n s).1 ++ [(call rng (calls rng n s).2 ()).1],
          (call rng (calls rng n s).2 ()).2) := by
  unfold calls
  rw [List.replicate_succ', feed_append]
  rfl

/-- One call a message. -/
theorem calls_messages (msgs : List Message) (rest : Bytes)
    {s : RecvState} (hopen : s.pongOpen = true) :
    calls rng msgs.length
        { s with read := msgs.flatMap Message.encode ++ rest }
      = (msgs.map fun m => .ok (some m.payload),
          { answer rng s (msgs.flatMap Message.pings) with read := rest }) := by
  induction msgs generalizing s with
  | nil => rfl
  | cons m msgs ih =>
      have hcall : call rng
          { s with read := m.encode ++ (msgs.flatMap Message.encode ++ rest) }
            ()
          = (.ok (some m.payload), { answer rng s m.pings with
              read := msgs.flatMap Message.encode ++ rest }) := by
        unfold call
        rw [recvBinary_eq, recvFrom_message rng m _ hopen]
      have hrest := ih (s := answer rng s m.pings)
        ((answer_frame rng s _).2.trans hopen)
      unfold calls at hrest ⊢
      rw [List.flatMap_cons, List.flatMap_cons, List.append_assoc,
        List.length_cons, List.replicate_succ, feed_cons, hcall, hrest,
        answer_append, List.map_cons]

/-- The close frame of a server. -/
structure Close where
  form : LenForm
  payload : Bytes
  hfits : form.fits payload.length
  hlen : payload.length ≤ 125

def Close.frame (c : Close) : Frame where
  fin := true
  opcode := .close
  form := c.form
  payload := c.payload
  hfits := c.hfits
  hcap := small_cap c.hlen
  hctl _ := ⟨rfl, c.hlen⟩

/-- The loop at a close frame, after any controls. -/
theorem recvFrom_close (fragmented : Option Bytes) (cs : List Control)
    (c : Close) (rest : Bytes) {s : RecvState} (hopen : s.pongOpen = true) :
    recvFrom rng fragmented
        { s with read := encodeControls cs ++ (c.frame.encode ++ rest) }
      = .ok none { answer rng s (pings cs) with read := rest } := by
  rw [recvFrom_controls rng _ _ _ _ hopen]
  have hframe := recvFrom_frame rng fragmented c.frame rest
    (answer rng s (pings cs))
  rw [hframe]
  rfl

-- ========================================================== violations

/-- The frame a stream may not go on with, after the fragments of
`opening`. -/
def Violates (opening : Option Message) (h : RawHeader) : Prop :=
  h.Bad
    ∨ (∀ op : Opcode, h.opcode ≠ op.code)
    ∨ match opening with
      | none => h.opcode = Opcode.continuation.code
      | some m => h.opcode = Opcode.text.code
          ∨ h.opcode = Opcode.binary.code
          ∨ (h.opcode = Opcode.continuation.code
            ∧ m.payload.length + h.length > MAX_WS_PAYLOAD)

/-- A data frame in the wrong place is an error whatever it carries. -/
theorem assemble_violation {opening : Option Message} {h : RawHeader}
    (hbad : ¬ h.Bad) (hv : Violates opening h) {payload : Bytes}
    (hlen : payload.length = h.length) (hdata : h.opcode ≤ 0x2) :
    ∃ e, assembleDataMessage h.fin h.opcode payload
      (opening.map Message.payload) = .error e := by
  rcases hv with hv | hv | hv
  · exact absurd hv hbad
  · have hsmall : ∀ b : UInt8, b ≤ 0x2 → b = 0 ∨ b = 1 ∨ b = 2 := by
      intro b hb
      have hb' : b.toNat ≤ 2 := UInt8.le_iff_toNat_le.mp hb
      rcases Nat.lt_or_ge b.toNat 1 with h0 | h0
      · exact .inl (UInt8.toNat_inj.mp (by show b.toNat = 0; omega))
      · rcases Nat.lt_or_ge b.toNat 2 with h1 | h1
        · exact .inr (.inl (UInt8.toNat_inj.mp (by show b.toNat = 1; omega)))
        · exact .inr (.inr (UInt8.toNat_inj.mp (by show b.toNat = 2; omega)))
    rcases hsmall _ hdata with h0 | h1 | h2
    · exact absurd h0 (hv .continuation)
    · exact absurd h1 (hv .text)
    · exact absurd h2 (hv .binary)
  · cases opening with
    | none =>
        rw [show h.opcode = 0 from hv]
        exact ⟨_, rfl⟩
    | some m =>
        rcases hv with hv | hv | ⟨hv, hover⟩
        · rw [show h.opcode = 1 from hv]
          exact ⟨_, rfl⟩
        · rw [show h.opcode = 2 from hv]
          exact ⟨_, rfl⟩
        · rw [show h.opcode = 0 from hv]
          refine ⟨_, if_pos (c := m.payload.length + payload.length
            > MAX_WS_PAYLOAD) ?_⟩
          omega

/-- The loop reacts to a violating frame with an error, once it has
read it. -/
theorem react_violation {opening : Option Message} {h : RawHeader}
    (hbad : ¬ h.Bad) (hv : Violates opening h) {payload : Bytes}
    (hlen : payload.length = h.length)
    (k : Option Bytes → Recv (Option Bytes)) (s : RecvState) :
    ∃ e s', react rng (opening.map Message.payload) k
      (h.fin, h.opcode, payload) s = .error (.io e) s' := by
  simp only [react]
  by_cases hdata : h.opcode ≤ 0x2
  · obtain ⟨e, he⟩ := assemble_violation hbad hv hlen hdata
    have hne : ∀ b : UInt8, ¬ b ≤ 0x2 → h.opcode ≠ b := by
      intro b hb heq
      rw [heq] at hdata
      exact hb hdata
    rw [if_neg (hne 0x8 (by decide)), if_neg (hne 0x9 (by decide)),
      if_neg (hne 0xA (by decide)), if_pos hdata, he]
    exact ⟨_, _, rfl⟩
  · have hun : ∀ op : Opcode, h.opcode ≠ op.code := by
      have hlow : ∀ op : Opcode, op.control = false → h.opcode ≠ op.code := by
        intro op hop heq
        rw [heq] at hdata
        exact hdata (data_code hop).2.2.2
      rcases hv with hv | hv | hv
      · exact absurd hv hbad
      · exact hv
      · cases opening with
        | none => exact absurd hv (hlow .continuation rfl)
        | some m =>
            rcases hv with hv | hv | ⟨hv, -⟩
            · exact absurd hv (hlow .text rfl)
            · exact absurd hv (hlow .binary rfl)
            · exact absurd hv (hlow .continuation rfl)
    have h8 : h.opcode ≠ 0x8 := hun .close
    have h9 : h.opcode ≠ 0x9 := hun .ping
    have hA : h.opcode ≠ 0xA := hun .pong
    rw [if_neg h8, if_neg h9, if_neg hA, if_neg hdata]
    exact ⟨_, _, rfl⟩

/-- The loop at a violation ends in an error, whatever follows it. -/
theorem recvFrom_violation {opening : Option Message} {h : RawHeader}
    (hv : Violates opening h) (rest : Bytes) (s : RecvState) :
    ∃ e s', recvFrom rng (opening.map Message.payload)
      { s with read := h.bytes ++ rest } = .error (.io e) s' := by
  rw [recvFrom_eq]
  by_cases hbad : h.Bad
  · obtain ⟨e, rest', he⟩ := readFrame_bad hbad rest
    simp only [he]
    exact ⟨_, _, rfl⟩
  · simp only [readFrame_good hbad]
    cases hread : readExact h.length rest with
    | error e rest' => exact ⟨_, _, rfl⟩
    | ok payload rest' =>
        exact react_violation rng hbad hv (readExact_length hread) _ _

/-- The bytes of an opening, if there is one. -/
def encodeOpening : Option Message → Bytes
  | none => []
  | some m => m.encodeOpen

/-- The loop at a violation inside a stream. -/
theorem recvFrom_broken {opening : Option Message} (cs : List Control)
    {h : RawHeader} (hv : Violates opening h) (rest : Bytes)
    {s : RecvState} (hopen : s.pongOpen = true) :
    ∃ e s', recvFrom rng none
      { s with read := encodeOpening opening
          ++ (encodeControls cs ++ (h.bytes ++ rest)) }
        = .error (.io e) s' := by
  cases opening with
  | none =>
      show ∃ e s', recvFrom rng none
        { s with read := encodeControls cs ++ (h.bytes ++ rest) } = _
      rw [recvFrom_controls rng _ _ _ _ hopen]
      exact recvFrom_violation rng hv rest _
  | some m =>
      have hopen' : (answer rng s m.pings).pongOpen = true :=
        (answer_frame rng s _).2.trans hopen
      rw [encodeOpening, recvFrom_opening rng m _ hopen,
        recvFrom_controls rng _ _ _ _ hopen']
      exact recvFrom_violation rng hv rest _

-- ==================================================== the whole stream

/-- What a stream of messages makes of the caller's state: `rest` is
unread, and one pong a ping has been pushed, in ping order and with the
ping's payload. -/
def Delivered (payloads : List Bytes) (rest : Bytes)
    (s s' : RecvState) : Prop :=
  s'.read = rest ∧ ∃ new, s'.pongs = s.pongs ++ new
    ∧ new.map unmaskPong = payloads.map some

theorem pings_length (cs : List Control) :
    ∀ p ∈ pings cs, p.length ≤ 125 := by
  intro p hp
  obtain ⟨c, -, rfl⟩ := List.mem_map.mp hp
  exact c.hlen

theorem messages_pings_length (msgs : List Message) :
    ∀ p ∈ msgs.flatMap Message.pings, p.length ≤ 125 := by
  intro p hp
  obtain ⟨m, -, hp⟩ := List.mem_flatMap.mp hp
  obtain ⟨f, -, hp⟩ := List.mem_flatMap.mp hp
  exact pings_length f.before p hp

/-- An answered state delivers. -/
theorem delivered_answer {ps : List Bytes} (h : ∀ p ∈ ps, p.length ≤ 125)
    (rest : Bytes) (s : RecvState) :
    Delivered ps rest s { answer rng s ps with read := rest } :=
  ⟨rfl, answer_pongs rng s ps h⟩

/-- Reassembly: successive `recv_binary` calls return exactly the
server's messages in order, answer every ping, and return `None` at the
close frame; and on a stream that goes on with a violation, the call
after the last whole message is an error. -/
theorem recv_reassembles (msgs : List Message) (s : RecvState)
    (hopen : s.pongOpen = true) :
    (∀ rest, ∃ s', calls rng msgs.length
          { s with read := msgs.flatMap Message.encode ++ rest }
        = (msgs.map fun m => .ok (some m.payload), s')
      ∧ Delivered (msgs.flatMap Message.pings) rest s s')
    ∧ (∀ (cs : List Control) (close : Close) rest, ∃ s',
        calls rng (msgs.length + 1)
            { s with read := msgs.flatMap Message.encode
                ++ (encodeControls cs ++ (close.frame.encode ++ rest)) }
          = ((msgs.map fun m => .ok (some m.payload)) ++ [.ok none], s')
        ∧ Delivered (msgs.flatMap Message.pings ++ pings cs) rest s s')
    ∧ (∀ (opening : Option Message) (cs : List Control) (h : RawHeader)
        rest, Violates opening h → ∃ e s',
          calls rng (msgs.length + 1)
              { s with read := msgs.flatMap Message.encode
                  ++ (encodeOpening opening
                    ++ (encodeControls cs ++ (h.bytes ++ rest))) }
            = ((msgs.map fun m => .ok (some m.payload))
                ++ [.error (.io e)], s')) := by
  have hopen' : (answer rng s (msgs.flatMap Message.pings)).pongOpen
      = true := (answer_frame rng s _).2.trans hopen
  refine ⟨?_, ?_, ?_⟩
  · intro rest
    exact ⟨_, calls_messages rng msgs rest hopen,
      delivered_answer rng (messages_pings_length msgs) rest s⟩
  · intro cs close rest
    refine ⟨{ answer rng s (msgs.flatMap Message.pings ++ pings cs) with
      read := rest }, ?_, delivered_answer rng ?_ rest s⟩
    · rw [calls_succ, calls_messages rng msgs _ hopen]
      simp only [call]
      rw [recvBinary_eq, recvFrom_close rng none cs close rest hopen',
        answer_append]
    · intro p hp
      rcases List.mem_append.mp hp with hp | hp
      · exact messages_pings_length msgs p hp
      · exact pings_length cs p hp
  · intro opening cs h rest hv
    obtain ⟨e, s', hs'⟩ := recvFrom_broken rng cs hv rest hopen'
    refine ⟨e, s', ?_⟩
    rw [calls_succ, calls_messages rng msgs _ hopen]
    simp only [call]
    rw [recvBinary_eq, hs']

def sampleFragment (before : List Control) (payload : Bytes)
    (h : payload.length < 126) : Fragment where
  before := before
  form := .short
  payload := payload
  hfits := h
  hcap := small_cap (by omega)

/-- The message of `fragmented_message_is_reassembled`, with a ping
before its second fragment. -/
def sampleMessage : Message where
  kind := .binary
  first := sampleFragment [] [0x74, 0x65, 0x6C, 0x65] (by decide)
  more := [sampleFragment
    [{ isPing := true, form := .mid, payload := [7, 8]
       hfits := (by decide : 2 < 2 ^ 16), hlen := by decide }]
    [0x67, 0x72, 0x61, 0x6D] (by decide)]
  hcap := by decide

def sampleState : RecvState :=
  { read := [], pongs := [], pongOpen := true, draws := 0 }

/-- The sample message, then an empty close frame: the message, `None`,
and one pong. -/
theorem recv_reassembles_sample :
    ∃ s', calls (fun _ => #v[1, 2, 3, 4]) 2
        { sampleState with read := sampleMessage.encode ++ [0x88, 0] }
      = ([.ok (some [0x74, 0x65, 0x6C, 0x65, 0x67, 0x72, 0x61, 0x6D]),
          .ok none], s')
      ∧ s'.pongs.map unmaskPong = [some [7, 8]] := by
  obtain ⟨-, hclose, -⟩ := recv_reassembles (fun _ => #v[1, 2, 3, 4])
    [sampleMessage] sampleState rfl
  obtain ⟨s', hcalls, -, new, hnew, hmap⟩ := hclose []
    { form := .short, payload := []
      hfits := (by decide : 0 < 126), hlen := by decide } []
  refine ⟨s', ?_, ?_⟩
  · exact hcalls
  · rw [hnew]
    exact hmap

end Wrtg.Ws
