/-
What becomes of the parts the up task has put, when the session closes
(`bridge.rs`).

# One ledger

While the send driver lives, what is on the WebSocket, what the driver
holds and what the send channel holds are, in this order, what was put
(`Inv`): no step loses a part, doubles one or lets one overtake another.
So what is missing at the end is what the driver leaves behind in the
step it ends with. Its own end, on a channel that is empty and has no
sender, leaves nothing. Its cancellation and the closed pong channel
leave whatever there is.

# The teardown

`bridge_ws` waits for the other direction, and not for the driver that
moves what this one has put. `Patient` is a schedule that hides it: by
the time the aborts begin, the send driver has run as far as it can. Then
it has written everything (`settled_step`), and nothing is put any more,
so that the abort comes too late to lose a part (`tail_kept`).
-/
import Wrtg.Bridge
import Wrtg.Lib.Run
import Wrtg.Proofs.Relay

namespace Wrtg.Bridge

open Mtproto Splitter Ws Lib

-- ======================================================== what is asked

/-- The parts the send driver has taken and not written. -/
def SendPc.inHand : SendPc → List Bytes
  | .batching first more => first :: more
  | .writing part rest => part :: rest
  | _ => []

/-- The parts put and not written. -/
def State.left (s : State) : List Bytes := s.send.inHand ++ s.sendChan.queue

/-- The client's EOF has ended the up task behind its flush, no WebSocket
write has failed, and the grace period has not run out. -/
structure QuietClose (xs : List Action) (s : State) : Prop where
  eof : s.up = .ended .eof
  writes : Action.send .writeFailed ∉ xs
  drain : Action.main .drainExpired ∉ xs

/-- The step does not end the send driver over parts it has not written:
its cancellation comes when there are none, and so does its look at a
pong channel that has closed. -/
def Orderly (s : State) : Action → Prop
  | .send .cancelled => s.left = []
  | .send .pongRecv => s.pongChan.queue = [] → s.left = []
  | _ => True

instance (s : State) (a : Action) : Decidable (Orderly s a) :=
  match a with
  | .send .cancelled => inferInstanceAs (Decidable (_ = _))
  | .send .pongRecv => inferInstanceAs (Decidable (_ → _))
  | .send .recv => .isTrue trivial
  | .send .tryRecv => .isTrue trivial
  | .send .wrote => .isTrue trivial
  | .send .writeFailed => .isTrue trivial
  | .up _ => .isTrue trivial
  | .ping _ => .isTrue trivial
  | .recv _ => .isTrue trivial
  | .down _ => .isTrue trivial
  | .main _ => .isTrue trivial

/-- The send driver cannot go on: it waits for something to come, or has
ended. -/
def State.sendWaits (s : State) : Bool :=
  [SendAction.recv, .tryRecv, .pongRecv, .wrote].all fun a =>
    (applySend a s).isNone

/-- The step does not begin the aborts while the send driver could take
a step of its own, nor, where it is the idle guard's, while the up task
is at work. -/
def Patient (s : State) : Action → Prop
  | .main .drained => s.sendWaits = true
  | .main .idleReached => s.up.isEnded = true ∧ s.sendWaits = true
  | _ => True

instance (s : State) (a : Action) : Decidable (Patient s a) :=
  match a with
  | .main .drained => inferInstanceAs (Decidable (_ = _))
  | .main .idleReached => inferInstanceAs (Decidable (_ ∧ _))
  | .main .upEnded => .isTrue trivial
  | .main .downEnded => .isTrue trivial
  | .main .drainExpired => .isTrue trivial
  | .main .abort => .isTrue trivial
  | .main .join => .isTrue trivial
  | .up _ => .isTrue trivial
  | .send _ => .isTrue trivial
  | .ping _ => .isTrue trivial
  | .recv _ => .isTrue trivial
  | .down _ => .isTrue trivial

-- =========================================================== the steps

/-- What a step does to the parts on their way: nothing, put one more,
move some along, or end the send driver. -/
inductive Moves (s : State) (a : Action) (s' : State) : Prop where
  | elsewhere (put : s'.put = s.put) (send : s'.send = s.send)
      (queue : s'.sendChan = s.sendChan) (wire : s'.wire = s.wire)
      (orderly : Orderly s a)
  | puts (part : Bytes) (alive : s.send ≠ .ended)
      (put : s'.put = s.put ++ [part]) (send : s'.send = s.send)
      (queue : s'.sendChan.queue = s.sendChan.queue ++ [part])
      (wire : s'.wire = s.wire) (orderly : Orderly s a)
  | along (alive : s.send ≠ .ended) (alive' : s'.send ≠ .ended)
      (put : s'.put = s.put)
      (order : s'.written ++ s'.left = s.written ++ s.left)
      (grows : s.written <+: s'.written)
      (orderly : Orderly s a)
  | ends (alive : s.send ≠ .ended) (ended : s'.send = .ended)
      (put : s'.put = s.put) (wire : s'.wire = s.wire)
      (orderly : a ≠ .send .writeFailed → (Orderly s a ↔ s.left = []))

variable {w : Word} {aes : Aes256} {s s' : State}

theorem flush_moves {a : UpAction} (why : UpEnd) :
    Moves s (.up a) (s.flush why) := by
  unfold State.flush
  split <;> exact .elsewhere rfl rfl rfl rfl trivial

theorem putPart_moves {a : UpAction} {part : Bytes} {next : UpPc}
    (h : s.putPart part next = some s') (hsend : s.send ≠ .ended) :
    Moves s (.up a) s' := by
  unfold State.putPart at h
  split at h
  · next sendChan hchan =>
      cases h
      exact .puts part hsend rfl rfl (Chan.send_queue hchan) rfl trivial
  · cases h

theorem applyUp_moves {a : UpAction} (h : applyUp w aes a s = some s') :
    Moves s (.up a) s' := by
  cases a with
  | read data =>
      simp only [applyUp] at h
      split at h
      · split at h
        · cases h
        · split at h
          · split at h <;> cases h <;> exact .elsewhere rfl rfl rfl rfl trivial
          · cases h
            exact .elsewhere rfl rfl rfl rfl trivial
      · cases h
  | eof =>
      simp only [applyUp] at h
      split at h
      · cases h
        exact flush_moves .eof
      · cases h
  | readFailed =>
      simp only [applyUp] at h
      split at h
      · cases h
        exact flush_moves .readFailed
      · cases h
  | send =>
      simp only [applyUp] at h
      split at h
      · split at h
        · split at h
          · cases h
            exact .elsewhere rfl rfl rfl rfl trivial
          · cases h
            exact flush_moves .sendFailed
        · next hsend => exact putPart_moves h hsend
      · split at h
        · cases h
          exact .elsewhere rfl rfl rfl rfl trivial
        · next hsend => exact putPart_moves h hsend
      · cases h
  | cancelled =>
      simp only [applyUp] at h
      split at h
      · cases h
        exact .elsewhere rfl rfl rfl rfl trivial
      · cases h

/-- What follows the frame of a part is the rest of its batch. -/
theorem afterFrame_inHand (rest : List Bytes) :
    (SendPc.afterFrame rest).inHand = rest := by
  cases rest <;> rfl

theorem afterFrame_alive (rest : List Bytes) :
    SendPc.afterFrame rest ≠ .ended := by
  cases rest <;> exact fun h => nomatch h

/-- The send driver takes no step behind its end. -/
theorem applySend_alive {a : SendAction} (h : applySend a s = some s') :
    s.send ≠ .ended := by
  intro hended
  cases a <;> simp [applySend, hended] at h

/-- The driver goes on with the parts it has in hand. -/
theorem holds_moves {a : Action} (alive : s.send ≠ .ended)
    (alive' : s'.send ≠ .ended) (put : s'.put = s.put)
    (hand : s'.send.inHand = s.send.inHand)
    (queue : s'.sendChan = s.sendChan) (wire : s'.wire = s.wire)
    (orderly : Orderly s a) : Moves s a s' := by
  have hwritten : s'.written = s.written := by
    rw [State.written, State.written, wire]
  refine .along alive alive' put ?_ (hwritten ▸ List.prefix_rfl) orderly
  rw [State.left, State.left, hwritten, hand, queue]

theorem recv_moves (h : applySend .recv s = some s') :
    Moves s (.send .recv) s' := by
  have halive := applySend_alive h
  simp only [applySend] at h
  split at h
  · next hpc =>
      split at h
      · next first sendChan hchan =>
          cases h
          refine .along halive nofun rfl ?_ List.prefix_rfl trivial
          show s.written ++ ([first] ++ sendChan.queue) = _
          rw [State.left, hpc, Chan.recv_queue hchan]
          rfl
      · next hchan =>
          split at h
          · cases h
            refine .ends halive rfl rfl rfl fun _ => iff_of_true trivial ?_
            rw [State.left, hpc, Chan.recv_eq_none.mp hchan]
            rfl
          · cases h
  · cases h

theorem tryRecv_moves (h : applySend .tryRecv s = some s') :
    Moves s (.send .tryRecv) s' := by
  have halive := applySend_alive h
  simp only [applySend] at h
  split at h
  · next first more hpc =>
      have hhand : s.send.inHand = first :: more := by
        rw [hpc]
        rfl
      split at h
      · split at h
        · next part sendChan hchan =>
            cases h
            refine .along halive nofun rfl ?_ List.prefix_rfl trivial
            show s.written ++ (first :: (more ++ [part])
              ++ sendChan.queue) = _
            rw [State.left, hhand, Chan.recv_queue hchan]
            simp
        · cases h
          exact holds_moves halive nofun rfl hhand.symm rfl rfl trivial
      · cases h
        exact holds_moves halive nofun rfl hhand.symm rfl rfl trivial
  · cases h

/-- A pong is taken where there is one; a closed pong channel ends the
driver whatever the send channel holds. -/
theorem pongRecv_moves (h : applySend .pongRecv s = some s') :
    Moves s (.send .pongRecv) s' := by
  have halive := applySend_alive h
  simp only [applySend] at h
  split at h
  · next hpc =>
      have hhand : s.send.inHand = [] := by
        rw [hpc]
        rfl
      split at h
      · next frame pongChan hchan =>
          cases h
          refine holds_moves halive nofun rfl hhand.symm rfl rfl ?_
          intro hnone
          rw [Chan.recv_queue hchan] at hnone
          cases hnone
      · next hchan =>
          split at h
          · cases h
            have hnone := Chan.recv_eq_none.mp hchan
            refine .ends halive rfl rfl rfl ?_
            intro _
            exact ⟨fun horderly => horderly hnone, fun hleft _ => hleft⟩
          · cases h
  · cases h

theorem written_prefix_of_wire {sent : Sent}
    (h : s'.wire = s.wire ++ [sent]) : s.written <+: s'.written := by
  unfold State.written
  rw [h, List.filterMap_append]
  exact List.prefix_append _ _

theorem wrote_moves (h : applySend .wrote s = some s') :
    Moves s (.send .wrote) s' := by
  have halive := applySend_alive h
  simp only [applySend] at h
  split at h
  · next part rest hpc =>
      cases h
      refine .along halive (afterFrame_alive rest) rfl ?_
        (written_prefix_of_wire rfl) trivial
      unfold State.left State.written
      show List.filterMap Sent.data? (s.wire ++ [.binary part])
        ++ ((SendPc.afterFrame rest).inHand ++ s.sendChan.queue) = _
      rw [hpc, afterFrame_inHand, List.filterMap_append]
      simp [Sent.data?, SendPc.inHand]
  · next frame hpc =>
      cases h
      refine .along halive nofun rfl ?_ (written_prefix_of_wire rfl) trivial
      unfold State.left State.written
      show List.filterMap Sent.data? (s.wire ++ [.raw frame])
        ++ ([] ++ s.sendChan.queue) = _
      rw [hpc, List.filterMap_append]
      simp [Sent.data?, SendPc.inHand]
  · cases h

theorem applySend_moves {a : SendAction} (h : applySend a s = some s') :
    Moves s (.send a) s' := by
  have halive := applySend_alive h
  cases a with
  | recv => exact recv_moves h
  | tryRecv => exact tryRecv_moves h
  | pongRecv => exact pongRecv_moves h
  | wrote => exact wrote_moves h
  | writeFailed =>
      simp only [applySend] at h
      split at h
      · cases h
        exact .ends halive rfl rfl rfl fun hne => absurd rfl hne
      · cases h
        exact .ends halive rfl rfl rfl fun hne => absurd rfl hne
      · cases h
  | cancelled =>
      simp only [applySend] at h
      split at h
      · split at h
        · cases h
          exact .ends halive rfl rfl rfl fun _ => Iff.rfl
        · cases h
          exact .ends halive rfl rfl rfl fun _ => Iff.rfl
        · cases h
          exact .ends halive rfl rfl rfl fun _ => Iff.rfl
        · cases h
      · cases h

/-- What the uplink's parts live in. -/
def State.uplink (s : State) :
    List Bytes × SendPc × Chan Bytes WS_CHANNEL_CAP × List Sent :=
  (s.put, s.send, s.sendChan, s.wire)

theorem moves_of_uplink {a : Action} (h : s'.uplink = s.uplink)
    (horderly : Orderly s a) : Moves s a s' := by
  simp only [State.uplink, Prod.mk.injEq] at h
  obtain ⟨hput, hsend, hqueue, hwire⟩ := h
  exact .elsewhere hput hsend hqueue hwire horderly

theorem putPong_uplink {frame : Bytes} (h : s.putPong frame = some s') :
    s'.uplink = s.uplink := by
  unfold State.putPong at h
  split at h <;> cases h
  rfl

theorem applyPing_uplink {a : PingAction} (h : applyPing a s = some s') :
    s'.uplink = s.uplink := by
  cases a <;> simp only [applyPing] at h <;> (repeat' split at h)
    <;> try (cases h <;> rfl)
  obtain ⟨t, ht, rfl⟩ := Option.map_eq_some_iff.mp h
  have hsame : t.uplink = s.uplink := putPong_uplink ht
  exact hsame

theorem applyRecv_uplink {a : RecvAction} (h : applyRecv a s = some s') :
    s'.uplink = s.uplink := by
  cases a <;> simp only [applyRecv] at h <;> (repeat' split at h)
    <;> try (cases h <;> rfl)
  obtain ⟨t, ht, rfl⟩ := Option.map_eq_some_iff.mp h
  have hsame : t.uplink = s.uplink := putPong_uplink ht
  exact hsame

theorem applyDown_uplink {a : DownAction}
    (h : applyDown aes a s = some s') : s'.uplink = s.uplink := by
  cases a <;> simp only [applyDown] at h <;> (repeat' split at h)
    <;> cases h <;> rfl

theorem applyMain_uplink {a : MainAction} (h : applyMain a s = some s') :
    s'.uplink = s.uplink := by
  cases a <;> simp only [applyMain] at h <;> (repeat' split at h)
    <;> cases h <;> rfl

theorem apply_moves {a : Action} (h : apply w aes a s = some s') :
    Moves s a s' := by
  cases a with
  | up a => exact applyUp_moves h
  | send a => exact applySend_moves h
  | ping a => exact moves_of_uplink (applyPing_uplink h) trivial
  | recv a => exact moves_of_uplink (applyRecv_uplink h) trivial
  | down a => exact moves_of_uplink (applyDown_uplink h) trivial
  | main a => exact moves_of_uplink (applyMain_uplink h) trivial

-- ========================================================= the ledger

/-- While the send driver lives, the WebSocket, the driver and the send
channel hold what was put, in order; and at no time is anything on the
WebSocket that was not put, or overtook what was. -/
structure Inv (s : State) : Prop where
  ledger : s.send ≠ .ended → s.written ++ s.left = s.put
  order : s.written <+: s.put

theorem inv_of_ledger (hledger : s.written ++ s.left = s.put) : Inv s :=
  ⟨fun _ => hledger, ⟨s.left, hledger⟩⟩

theorem written_of_wire (h : s'.wire = s.wire) : s'.written = s.written := by
  unfold State.written
  rw [h]

/-- Every step keeps the ledger. -/
theorem inv_step {a : Action} (h : apply w aes a s = some s') (hi : Inv s) :
    Inv s' := by
  cases apply_moves h with
  | elsewhere put send queue wire =>
      have hwritten := written_of_wire wire
      refine ⟨?_, ?_⟩
      · rw [State.left, hwritten, put, send, queue]
        exact hi.ledger
      · rw [hwritten, put]
        exact hi.order
  | puts part alive put send queue wire =>
      refine inv_of_ledger ?_
      rw [State.left, written_of_wire wire, put, send, queue,
        ← hi.ledger alive, State.left]
      simp only [List.append_assoc]
  | along alive alive' put order =>
      refine inv_of_ledger ?_
      rw [order, put]
      exact hi.ledger alive
  | ends alive ended put wire orderly =>
      refine ⟨fun h => absurd ended h, ?_⟩
      rw [written_of_wire wire, put]
      exact hi.order

/-- Nothing is missing where the send driver has ended. -/
def Kept (s : State) : Prop := s.send = .ended → s.written = s.put

/-- A step that is orderly and no failed write leaves nothing behind. -/
theorem kept_step {a : Action} (h : apply w aes a s = some s') (hi : Inv s)
    (hk : Kept s) (horderly : Orderly s a) (hwrite : a ≠ .send .writeFailed) :
    Kept s' := by
  cases apply_moves h with
  | elsewhere put send queue wire =>
      unfold Kept
      rw [send, written_of_wire wire, put]
      exact hk
  | puts part alive put send queue wire =>
      intro hended
      rw [send] at hended
      exact absurd hended alive
  | along alive alive' =>
      exact fun hended => absurd hended alive'
  | ends alive ended put wire orderly =>
      intro _
      have hledger := hi.ledger alive
      rw [(orderly hwrite).mp horderly, List.append_nil] at hledger
      rw [written_of_wire wire, put]
      exact hledger

/-- Behind the end of the send driver nothing is put and nothing is
written. -/
theorem ended_step {a : Action} (h : apply w aes a s = some s')
    (hended : s.send = .ended) :
    s'.send = .ended ∧ s'.written = s.written ∧ s'.put = s.put := by
  cases apply_moves h with
  | elsewhere put send queue wire =>
      exact ⟨send.trans hended, written_of_wire wire, put⟩
  | puts part alive => exact absurd hended alive
  | along alive => exact absurd hended alive
  | ends alive => exact absurd hended alive

-- ======================================================= the teardown

/-- The aborts have begun. -/
def MainPc.closing : MainPc → Bool
  | .selecting => false
  | .draining _ => false
  | .aborting _ => true
  | .done => true

/-- By the time the aborts begin, and by the end of the send driver, the
up task is over and all it has put is written. Before, nobody is aborted,
the ping driver outlives the send driver, and where the session ended
with the up task that task is over. -/
structure Settled (s : State) : Prop where
  written : s.main.closing = true ∨ s.send = .ended →
    s.up.isEnded = true ∧ s.written = s.put
  aborts : s.main.closing = false → s.aborts = []
  ping : s.main.closing = false → s.ping = .ended → s.send = .ended
  drain : s.main = .draining true → s.up.isEnded = true

/-- What the teardown is told of the other tasks. -/
def State.teardown (s : State) : Bool × PingPc × MainPc × List Task :=
  (s.up.isEnded, s.ping, s.main, s.aborts)

theorem settled_frame (hs : Settled s) (htear : s'.teardown = s.teardown)
    (hup : s'.uplink = s.uplink) : Settled s' := by
  simp only [State.teardown, State.uplink, Prod.mk.injEq] at htear hup
  obtain ⟨hended, hping, hmain, haborts⟩ := htear
  obtain ⟨hput, hsend, -, hwire⟩ := hup
  refine ⟨?_, ?_, ?_, ?_⟩
  · rw [hmain, hsend, hended, written_of_wire hwire, hput]
    exact hs.written
  · rw [hmain, haborts]
    exact hs.aborts
  · rw [hmain, hping, hsend]
    exact hs.ping
  · rw [hmain, hended]
    exact hs.drain

/-- The up task takes no step behind its end, and nobody else's. -/
theorem applyUp_frame {a : UpAction} (h : applyUp w aes a s = some s') :
    s.up.isEnded = false ∧ s'.send = s.send ∧ s'.ping = s.ping
      ∧ s'.main = s.main ∧ s'.aborts = s.aborts := by
  have hflush : ∀ why, (s.flush why).send = s.send
      ∧ (s.flush why).ping = s.ping ∧ (s.flush why).main = s.main
      ∧ (s.flush why).aborts = s.aborts := by
    intro why
    unfold State.flush
    split <;> exact ⟨rfl, rfl, rfl, rfl⟩
  have hput : ∀ part next, s.putPart part next = some s' →
      s'.send = s.send ∧ s'.ping = s.ping ∧ s'.main = s.main
        ∧ s'.aborts = s.aborts := by
    intro part next h
    unfold State.putPart at h
    split at h <;> cases h
    exact ⟨rfl, rfl, rfl, rfl⟩
  refine ⟨?_, ?_⟩
  · cases hpc : s.up with
    | ended why => cases a <;> simp [applyUp, hpc, UpPc.isEnded] at h
    | reading => rfl
    | sending part rest => rfl
    | flushing why tail rest => rfl
  · cases a <;> simp only [applyUp] at h <;> (repeat' split at h)
      <;> first
        | exact hput _ _ h
        | (cases h <;> first | exact ⟨rfl, rfl, rfl, rfl⟩ | exact hflush _)

theorem applySend_teardown {a : SendAction} (h : applySend a s = some s') :
    s'.teardown = s.teardown := by
  cases a <;> simp only [applySend] at h <;> (repeat' split at h)
    <;> cases h <;> rfl

theorem applyRecv_teardown {a : RecvAction} (h : applyRecv a s = some s') :
    s'.teardown = s.teardown := by
  cases a <;> simp only [applyRecv] at h <;> (repeat' split at h)
    <;> try (cases h <;> rfl)
  obtain ⟨t, ht, rfl⟩ := Option.map_eq_some_iff.mp h
  unfold State.putPong at ht
  split at ht <;> cases ht
  rfl

theorem applyDown_teardown {a : DownAction}
    (h : applyDown aes a s = some s') : s'.teardown = s.teardown := by
  cases a <;> simp only [applyDown] at h <;> (repeat' split at h)
    <;> cases h <;> rfl

/-- A driver that cannot go on has nothing left to write. -/
theorem left_of_waits (hwaits : s.sendWaits = true)
    (halive : s.send ≠ .ended) : s.left = [] := by
  simp only [State.sendWaits, List.all_cons, List.all_nil, Bool.and_true,
    Bool.and_eq_true, Option.isNone_iff_eq_none] at hwaits
  obtain ⟨hrecv, htry, -, hwrote⟩ := hwaits
  cases hpc : s.send with
  | ended => exact absurd hpc halive
  | batching first more =>
      exfalso
      simp only [applySend, hpc] at htry
      split at htry
      · split at htry <;> cases htry
      · cases htry
  | writing part rest =>
      simp only [applySend, hpc] at hwrote
      cases hwrote
  | writingRaw frame =>
      simp only [applySend, hpc] at hwrote
      cases hwrote
  | selecting =>
      simp only [applySend, hpc] at hrecv
      split at hrecv
      · cases hrecv
      · next hchan =>
          rw [State.left, hpc, Chan.recv_eq_none.mp hchan]
          rfl

/-- Where the driver waits, all that was put is written. -/
theorem written_of_waits (hi : Inv s) (hs : Settled s)
    (hwaits : s.sendWaits = true) : s.written = s.put := by
  by_cases hended : s.send = .ended
  · exact (hs.written (.inr hended)).2
  · rw [← hi.ledger hended, left_of_waits hwaits hended, List.append_nil]

/-- A step of the send driver that fails no write settles what it ends
with: it ends by itself, or the aborts have begun before. -/
theorem applySend_settled {a : SendAction} (h : applySend a s = some s')
    (hmoves : Moves s (.send a) s') (hi : Inv s) (hi' : Inv s')
    (hs : Settled s) (hwrite : a ≠ .writeFailed) : Settled s' := by
  have hframe := applySend_teardown h
  have halive := applySend_alive h
  simp only [State.teardown, Prod.mk.injEq] at hframe
  obtain ⟨hended, hping, hmain, haborts⟩ := hframe
  -- what is written stays so, while nothing is put
  have hkeeps : s.up.isEnded = true ∧ s.written = s.put →
      s.put = s'.put → s.written <+: s'.written →
      s'.up.isEnded = true ∧ s'.written = s'.put := by
    rintro ⟨hup, hkept⟩ hput hgrows
    refine ⟨hended.trans hup, hi'.order.eq_of_length_le ?_⟩
    rw [← hput, ← hkept]
    exact hgrows.length_le
  refine ⟨?_, ?_, ?_, ?_⟩
  · intro hover
    rw [hmain] at hover
    cases hmoves with
    | elsewhere put send queue wire =>
        rcases hover with hclosing | hsend
        · exact hkeeps (hs.written (.inl hclosing)) put.symm
            (written_of_wire wire ▸ List.prefix_rfl)
        · exact absurd (send.symm.trans hsend) halive
    | puts part alive put send queue wire =>
        -- the driver puts nothing
        exfalso
        have hput : s'.put = s.put := by
          cases a <;> simp only [applySend] at h <;> (repeat' split at h)
            <;> cases h <;> rfl
        rw [hput] at put
        exact absurd put (by simp)
    | along alive alive' put order grows =>
        rcases hover with hclosing | hsend
        · exact hkeeps (hs.written (.inl hclosing)) put.symm grows
        · exact absurd hsend alive'
    | ends alive ended put wire orderly =>
        have hsame : s.written <+: s'.written :=
          written_of_wire wire ▸ List.prefix_rfl
        by_cases hclosing : s.main.closing = true
        · exact hkeeps (hs.written (.inl hclosing)) put.symm hsame
        rw [Bool.not_eq_true] at hclosing
        cases a with
        | recv =>
            simp only [applySend] at h
            split at h
            · next hpc =>
                split at h
                · cases h
                  cases ended
                · next hchan =>
                    split at h
                    · next hgone =>
                        cases h
                        have hup : s.up.isEnded = true := by
                          unfold State.sendersGone at hgone
                          simp only [Bool.and_eq_true] at hgone
                          exact hgone.2
                        have hleft : s.left = [] := by
                          rw [State.left, hpc, Chan.recv_eq_none.mp hchan]
                          rfl
                        refine ⟨hup, ?_⟩
                        have hledger := hi.ledger alive
                        rw [hleft, List.append_nil] at hledger
                        exact hledger
                    · cases h
            · cases h
        | pongRecv =>
            -- the ping driver keeps its sender until the aborts
            simp only [applySend] at h
            split at h
            · split at h
              · cases h
                cases ended
              · split at h
                · next hgone =>
                    unfold State.pongSendersGone at hgone
                    simp only [Bool.and_eq_true, beq_iff_eq] at hgone
                    exact absurd (hs.ping hclosing hgone.1.2) alive
                · cases h
            · cases h
        | cancelled =>
            simp only [applySend, hs.aborts hclosing, List.not_mem_nil,
              if_false] at h
            cases h
        | tryRecv =>
            exfalso
            simp only [applySend] at h
            repeat' split at h
            all_goals cases h <;> cases ended
        | wrote =>
            exfalso
            simp only [applySend] at h
            split at h
            · next part rest hpc =>
                cases h
                exact afterFrame_alive rest ended
            · cases h
              cases ended
            · cases h
        | writeFailed => exact absurd rfl hwrite
  · rw [hmain, haborts]
    exact hs.aborts
  · intro hclosing hpingEnded
    rw [hmain] at hclosing
    rw [hping] at hpingEnded
    exact absurd (hs.ping hclosing hpingEnded) halive
  · rw [hmain, hended]
    exact hs.drain

theorem applyPing_settled {a : PingAction} (h : applyPing a s = some s')
    (hs : Settled s) : Settled s' := by
  have huplink := applyPing_uplink h
  have hrest : s'.up = s.up ∧ s'.main = s.main ∧ s'.aborts = s.aborts := by
    cases a <;> simp only [applyPing] at h <;> (repeat' split at h)
      <;> try (cases h <;> exact ⟨rfl, rfl, rfl⟩)
    obtain ⟨t, ht, rfl⟩ := Option.map_eq_some_iff.mp h
    unfold State.putPong at ht
    split at ht <;> cases ht
    exact ⟨rfl, rfl, rfl⟩
  obtain ⟨hup, hmain, haborts⟩ := hrest
  simp only [State.uplink, Prod.mk.injEq] at huplink
  obtain ⟨hput, hsend, -, hwire⟩ := huplink
  refine ⟨?_, ?_, ?_, ?_⟩
  · rw [hmain, hsend, hup, written_of_wire hwire, hput]
    exact hs.written
  · rw [hmain, haborts]
    exact hs.aborts
  · intro hclosing hended
    rw [hmain] at hclosing
    rw [hsend]
    cases a with
    | tick maskKey =>
        simp only [applyPing] at h
        split at h <;> cases h
        cases hended
    | send =>
        simp only [applyPing] at h
        split at h
        · split at h
          · next hover => exact hover
          · obtain ⟨t, ht, rfl⟩ := Option.map_eq_some_iff.mp h
            cases hended
        · cases h
    | cancelled =>
        simp only [applyPing, hs.aborts hclosing, List.not_mem_nil,
          false_and, if_false] at h
        cases h
  · rw [hmain, hup]
    exact hs.drain

/-- Where the aborts begin, the schedule has let the driver finish. -/
theorem applyMain_settled {a : MainAction} (h : applyMain a s = some s')
    (hi : Inv s) (hs : Settled s) (hpatient : Patient s (.main a))
    (hdrain : a ≠ .drainExpired) : Settled s' := by
  -- past the select, what was so before stays so
  have hgo : ∀ main aborts, s.main.closing = true → main.closing = true →
      (∀ b, main ≠ .draining b) → Settled { s with main, aborts } := by
    intro main aborts hclosing hclosing' hmain
    refine ⟨fun _ => hs.written (.inl hclosing), fun hnot => ?_,
      fun hnot => ?_, fun h => absurd h (hmain true)⟩
    · rw [show MainPc.closing main = false from hnot] at hclosing'
      cases hclosing'
    · rw [show MainPc.closing main = false from hnot] at hclosing'
      cases hclosing'
  have hbegin : ∀ main, s.up.isEnded = true → s.sendWaits = true →
      main.closing = true → (∀ b, main ≠ .draining b) →
      Settled { s with main } := by
    intro main hup hwaits hclosing hmain
    have hkept := written_of_waits hi hs hwaits
    refine ⟨fun _ => ⟨hup, hkept⟩, fun hnot => ?_,
      fun hnot => ?_, fun h => absurd h (hmain true)⟩
    · rw [show MainPc.closing main = false from hnot] at hclosing
      cases hclosing
    · rw [show MainPc.closing main = false from hnot] at hclosing
      cases hclosing
  have hselect : ∀ b, s.main = .selecting →
      (b = true → s.up.isEnded = true) →
      Settled { s with main := .draining b } := by
    intro b hmain hup
    have hclosing : s.main.closing = false := by
      rw [hmain]
      rfl
    refine ⟨?_, fun _ => hs.aborts hclosing, fun _ => hs.ping hclosing, ?_⟩
    · rintro (hnot | hended)
      · cases hnot
      · exact hs.written (.inr hended)
    · intro h
      exact hup (MainPc.draining.inj h)
  cases a with
  | upEnded =>
      simp only [applyMain] at h
      split at h <;> cases h
      next hcond => exact hselect true hcond.1 fun _ => hcond.2
  | downEnded =>
      simp only [applyMain] at h
      split at h <;> cases h
      next hcond => exact hselect false hcond.1 fun hb => nomatch hb
  | idleReached =>
      simp only [applyMain] at h
      split at h <;> cases h
      exact hbegin _ hpatient.1 hpatient.2 rfl fun _ => nofun
  | drained =>
      simp only [applyMain] at h
      split at h
      · next upFinished hmain =>
          split at h <;> cases h
          next hended =>
          refine hbegin _ ?_ hpatient rfl fun _ => nofun
          cases upFinished with
          | true => exact hs.drain hmain
          | false => exact hended
      · cases h
  | drainExpired => exact absurd rfl hdrain
  | abort =>
      simp only [applyMain] at h
      split at h
      · next task todo hmain =>
          cases h
          exact hgo _ _ (by rw [hmain]; rfl) rfl fun _ => nofun
      · cases h
  | join =>
      simp only [applyMain] at h
      split at h <;> cases h
      next hcond => exact hgo _ _ (by rw [hcond.1]; rfl) rfl fun _ => nofun

/-- Every patient step that is no failed write, and does not cut the
grace period short, settles what it ends with. -/
theorem settled_step {a : Action} (h : apply w aes a s = some s')
    (hi : Inv s) (hs : Settled s) (hpatient : Patient s a)
    (hwrite : a ≠ .send .writeFailed) (hdrain : a ≠ .main .drainExpired) :
    Settled s' := by
  cases a with
  | up a =>
      obtain ⟨hup, hsend, hping, hmain, haborts⟩ := applyUp_frame h
      have hlive : ¬ (s.main.closing = true ∨ s.send = .ended) := by
        intro hover
        rw [(hs.written hover).1] at hup
        cases hup
      refine ⟨?_, ?_, ?_, ?_⟩
      · rw [hmain, hsend]
        exact fun hover => absurd hover hlive
      · rw [hmain, haborts]
        exact hs.aborts
      · rw [hmain, hping, hsend]
        exact hs.ping
      · intro hdraining
        rw [hmain] at hdraining
        rw [hs.drain hdraining] at hup
        cases hup
  | send a =>
      exact applySend_settled h (apply_moves h) hi (inv_step h hi) hs
        fun ha => hwrite (congrArg Action.send ha)
  | ping a => exact applyPing_settled h hs
  | recv a =>
      exact settled_frame hs (applyRecv_teardown h) (applyRecv_uplink h)
  | down a =>
      exact settled_frame hs (applyDown_teardown h) (applyDown_uplink h)
  | main a =>
      exact applyMain_settled h hi hs hpatient
        fun ha => hdrain (congrArg Action.main ha)

-- ============================================================== runs

variable {ctx : CryptoCtx} {splitter : Option MsgSplitter}
  {idle : Option Nat} {xs : List Action}

theorem inv_start : Inv (start ctx splitter idle) :=
  ⟨fun _ => rfl, List.prefix_rfl⟩

theorem settled_start : Settled (start ctx splitter idle) where
  written h := by rcases h with h | h <;> cases h
  aborts _ := rfl
  ping _ h := nomatch h
  drain h := nomatch h

theorem inv_run (h : run (apply w aes) xs (start ctx splitter idle) = some s) :
    Inv s :=
  run_invariant (apply w aes) (C := fun _ _ => True) h
    (fun _ _ _ _ _ _ => trivial) inv_start
    fun _ _ _ ht _ hstep => inv_step hstep ht

/-- Whatever fails and whoever is aborted, the WebSocket has been given
the parts in order, none twice, from the first one on. -/
theorem written_prefix
    (h : run (apply w aes) xs (start ctx splitter idle) = some s) :
    s.written <+: s.put :=
  (inv_run h).order

/-- Where no write fails and every step is orderly, nothing is missing. -/
theorem kept_run (h : run (apply w aes) xs (start ctx splitter idle) = some s)
    (hwrites : Action.send .writeFailed ∉ xs)
    (horderly : StepsMeet (apply w aes) Orderly xs
      (start ctx splitter idle)) : Kept s := by
  refine (run_invariant (apply w aes)
    (C := fun t a => Orderly t a ∧ a ≠ .send .writeFailed)
    (P := fun t => Inv t ∧ Kept t) h ?_ ?_ ?_).2
  · intro pre a post t hxs hpre
    refine ⟨horderly pre a post t hxs hpre, fun ha => hwrites ?_⟩
    rw [hxs, ha]
    exact List.mem_append_right pre (List.mem_cons_self ..)
  · exact ⟨inv_start, fun h => nomatch h⟩
  · intro t a t' ht hstep happly
    exact ⟨inv_step happly ht.1,
      kept_step happly ht.1 ht.2 hstep.1 hstep.2⟩

/-- When the client's EOF has ended the up task, no write has failed, the
grace period has not run out, and the aborts do not begin while the send
driver can go on, then every part the up task put is on the WebSocket, in
order and once, before the send driver is aborted and by its end. -/
theorem tail_kept (w : Word) (aes : Aes256) (ctx : CryptoCtx)
    (splitter : Option MsgSplitter) (idle : Option Nat) (xs : List Action)
    (s : State)
    (hrun : run (apply w aes) xs (start ctx splitter idle) = some s)
    (hclose : QuietClose xs s)
    (hpatient : StepsMeet (apply w aes) Patient xs
      (start ctx splitter idle)) :
    Task.sendDriver ∈ s.aborts ∨ s.send = .ended → s.written = s.put := by
  have hsettled : Inv s ∧ Settled s := by
    refine run_invariant (apply w aes)
      (C := fun t a => Patient t a ∧ a ≠ .send .writeFailed
        ∧ a ≠ .main .drainExpired)
      (P := fun t => Inv t ∧ Settled t) hrun ?_
      ⟨inv_start, settled_start⟩ ?_
    · intro pre a post t hxs hpre
      have hmem : a ∈ xs := by
        rw [hxs]
        exact List.mem_append_right pre (List.mem_cons_self ..)
      exact ⟨hpatient pre a post t hxs hpre,
        fun ha => hclose.writes (ha ▸ hmem),
        fun ha => hclose.drain (ha ▸ hmem)⟩
    · intro t a t' ht hstep happly
      exact ⟨inv_step happly ht.1,
        settled_step happly ht.1 ht.2 hstep.1 hstep.2.1 hstep.2.2⟩
  rintro (habort | hended)
  · by_cases hclosing : s.main.closing = true
    · exact (hsettled.2.written (.inl hclosing)).2
    · rw [Bool.not_eq_true] at hclosing
      rw [hsettled.2.aborts hclosing] at habort
      cases habort
  · exact (hsettled.2.written (.inr hended)).2

-- ============================================================= sample

/-- The forward stream of an init packet, behind the packet itself. -/
def sampleForward (R : Bytes) : Aes256Ctr where
  key := sub R SKIP_LEN (SKIP_LEN + PREKEY_LEN)
  iv := sub R (SKIP_LEN + PREKEY_LEN) (SKIP_LEN + PREKEY_LEN + IV_LEN)
  pos := HANDSHAKE_LEN

def sampleBackward (R : Bytes) : Aes256Ctr :=
  let rev := (sub R SKIP_LEN (SKIP_LEN + PREKEY_LEN + IV_LEN)).reverse
  { key := rev.take PREKEY_LEN, iv := rev.drop PREKEY_LEN, pos := 0 }

def sampleCtx : CryptoCtx where
  cltDec := sampleForward sampleClient
  cltEnc := sampleBackward sampleClient
  tgEnc := sampleForward sampleRelay
  tgDec := sampleBackward sampleRelay

def sampleSplitter : MsgSplitter where
  dec := sampleForward sampleRelay
  proto := PROTO_ABRIDGED_INT
  cipherBuf := []
  plainBuf := []
  disabled := false

example : CryptoCtx.buildDirect sampleAes sampleClient sampleRelay
    = .ok sampleCtx := by decide +kernel

example : MsgSplitter.new sampleAes sampleRelay PROTO_ABRIDGED_INT
    = .ok sampleSplitter := by decide +kernel

/-- The session is set up. -/
def sampleStart : State :=
  start sampleCtx (some sampleSplitter) (some (Duration.fromSecs 600))

/-- The client sends a packet and the head of another, then EOF. -/
def sampleUp : List Action :=
  [.up (.read (maskFrom xorByte (forwardKs sampleAes sampleClient) 64
      [1, 1, 2, 3, 4, 1, 9])),
    .up .send, .up .eof, .up .send]

/-- The server closes, and the down task ends with its channel. -/
def sampleClose : List Action := [.recv .closed, .down .recv]

/-- `bridge_ws` aborts the drivers and is over, the send driver having
come to its end by itself, or not. -/
def sampleTeardown (sendEnded : Bool) : List Action :=
  [.main .drained, .main .abort, .main .abort, .main .abort]
    ++ (if sendEnded then [] else [.send .cancelled])
    ++ [.ping .cancelled, .main .join]

/-- The send driver gets to write both parts before the session ends. -/
def sampleKept : List Action :=
  sampleUp ++ [.main .upEnded, .send .recv, .send .tryRecv, .send .tryRecv,
    .send .wrote, .send .wrote, .send .recv] ++ sampleClose
    ++ sampleTeardown true

/-- The server has closed, so that the session ends with the up task, and
the send driver has not come to run since. -/
def sampleLost : List Action :=
  sampleClose ++ [.main .downEnded] ++ sampleUp ++ sampleTeardown false

/-- What a run of the sample session comes to: how the up task and the
send driver stand, and how many parts are written, of how many put. -/
def sampleEnd (xs : List Action) : Option (UpPc × SendPc × Nat × Nat) :=
  (run (apply .w32 sampleAes) xs sampleStart).map fun s =>
    (s.up, s.send, s.written.length, s.put.length)

theorem tail_kept_sample :
    ∃ s, run (apply .w32 sampleAes) sampleKept sampleStart = some s
      ∧ s.put.length = 2 ∧ s.written = s.put := by
  have hend : sampleEnd sampleKept = some (.ended .eof, .ended, 2, 2) := by
    decide +kernel
  obtain ⟨s, hrun, hobs⟩ := Option.map_eq_some_iff.mp hend
  simp only [Prod.mk.injEq] at hobs
  obtain ⟨hup, hsend, -, hput⟩ := hobs
  refine ⟨s, hrun, hput, ?_⟩
  exact tail_kept .w32 sampleAes sampleCtx (some sampleSplitter) _
    sampleKept s hrun ⟨hup, by decide, by decide⟩
    (stepsMeet_of_meets _ (by decide +kernel)) (.inr hsend)

/-- Both directions have come to their end within the grace period and no
write has failed, and neither part is on the WebSocket. -/
theorem tail_kept_fails :
    ∃ s, run (apply .w32 sampleAes) sampleLost sampleStart = some s
      ∧ QuietClose sampleLost s ∧ s.send = .ended
      ∧ s.written.length = 0 ∧ s.put.length = 2 ∧ s.written ≠ s.put := by
  have hend : sampleEnd sampleLost = some (.ended .eof, .ended, 0, 2) := by
    decide +kernel
  obtain ⟨s, hrun, hobs⟩ := Option.map_eq_some_iff.mp hend
  simp only [Prod.mk.injEq] at hobs
  obtain ⟨hup, hsend, hwritten, hput⟩ := hobs
  refine ⟨s, hrun, ⟨hup, by decide, by decide⟩, hsend, hwritten, hput, ?_⟩
  intro heq
  rw [heq, hput] at hwritten
  cases hwritten

end Wrtg.Bridge
