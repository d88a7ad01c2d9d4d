/-
What the raw tunnel of a worker passthrough does to the bytes it carries
(`bridge.rs`, `relay_via_worker`).

# Two conduits

Upwards, what the client has sent is on the WebSocket, in the writer's
hand, in the data channel or in the up task's hand, in this order, while
the writer lives (`upCarries_step`); an up task that ends over a chunk keeps
it in its hand. Downwards, what has come out of the tunnel is written to
the client or in the down task's hand, while the down task lives
(`downCarries_step`). The writer is aborted as soon as either direction ends,
so its end may leave behind whatever there is; what it leaves is the end
of the stream.
-/
import Wrtg.Lib.Conduit
import Wrtg.Lib.Run
import Wrtg.RelayViaWorker

namespace Wrtg.RelayViaWorker

open Lib Ws
open Bridge (RELAY_BUF_SIZE WS_CHANNEL_CAP PONG_CHANNEL_CAP Sent)

-- ======================================================== what is asked

/-- What the up task has read and not put. -/
def UpPc.inHand : UpPc → Bytes
  | .reading => []
  | .sending chunk => chunk
  | .ended dropped => dropped

/-- What the writer has taken and not written. -/
def WriterPc.inHand : WriterPc → Bytes
  | .writing chunk => chunk
  | _ => []

/-- What the down task has received and not written. -/
def DownPc.inHand : DownPc → Bytes
  | .writing payload => payload
  | _ => []

/-- What is read and not on the WebSocket. -/
def State.upTransit (s : State) : Bytes :=
  s.writer.inHand ++ s.dataChan.queue.flatten ++ s.up.inHand

/-- The bytes a step reads from the client. -/
def Action.read : Action → Bytes
  | .up (.read data) => data
  | _ => []

/-- The bytes a step takes out of the tunnel. -/
def Action.payload : Action → Bytes
  | .down (.message payload) => payload
  | _ => []

theorem payload_eq_nil {a : Action}
    (h : ∀ payload, a ≠ .down (.message payload)) : a.payload = [] := by
  unfold Action.payload
  split
  · exact absurd rfl (h _)
  · rfl

variable {w : Word}

-- ========================================================== the uplink

/-- What a step does to the uplink: read some bytes, move what is on its
way along or leave it where it is, or end the writer. -/
inductive Moves (s : State) (a : Action) (s' : State) : Prop where
  | reads (writer : s'.writer = s.writer)
      (transit : s'.upTransit = s.upTransit ++ a.read)
      (wire : s'.wire = s.wire)
  | along (quiet : a.read = []) (alive : s.writer ≠ .ended)
      (order : s'.written.flatten ++ s'.upTransit
        = s.written.flatten ++ s.upTransit)
  | ends (quiet : a.read = []) (ended : s'.writer = .ended)
      (wire : s'.wire = s.wire)

variable {s s' : State}

theorem applyUp_moves {a : UpAction} (h : applyUp a s = some s') :
    Moves s (.up a) s' := by
  cases a with
  | read data =>
      simp only [applyUp] at h
      split at h
      · next hpc =>
          split at h
          · cases h
          · cases h
            refine .reads rfl ?_ rfl
            simp [State.upTransit, hpc, UpPc.inHand, Action.read]
      · cases h
  | closed =>
      simp only [applyUp] at h
      split at h
      · next hpc =>
          cases h
          refine .reads rfl ?_ rfl
          simp [State.upTransit, hpc, UpPc.inHand, Action.read]
      · cases h
  | send =>
      simp only [applyUp] at h
      split at h
      · next chunk hpc =>
          split at h
          · cases h
            refine .reads rfl ?_ rfl
            simp [State.upTransit, hpc, UpPc.inHand, Action.read]
          · next hwriter =>
              split at h
              · next dataChan hchan =>
                  cases h
                  refine .along rfl hwriter ?_
                  have hqueue := Chan.send_queue hchan
                  simp [State.upTransit, State.written, hpc, hqueue,
                    UpPc.inHand]
              · cases h
      · cases h
  | cancelled =>
      simp only [applyUp] at h
      split at h
      · split at h
        · next hpc =>
            cases h
            refine .reads rfl ?_ rfl
            simp [State.upTransit, hpc, UpPc.inHand, Action.read]
        · next chunk hpc =>
            cases h
            refine .reads rfl ?_ rfl
            simp [State.upTransit, hpc, UpPc.inHand, Action.read]
        · cases h
      · cases h

/-- The writer takes no step behind its end. -/
theorem applyWriter_alive {a : WriterAction}
    (h : applyWriter a s = some s') : s.writer ≠ .ended := by
  intro hended
  cases a <;> simp [applyWriter, hended] at h

theorem applyWriter_moves {a : WriterAction}
    (h : applyWriter a s = some s') : Moves s (.writer a) s' := by
  have halive := applyWriter_alive h
  cases a with
  | recv =>
      simp only [applyWriter] at h
      split at h
      · next hpc =>
          split at h
          · next chunk dataChan hchan =>
              cases h
              refine .along rfl halive ?_
              have hqueue := Chan.recv_queue hchan
              simp [State.upTransit, State.written, hpc, hqueue,
                WriterPc.inHand]
          · split at h
            · cases h
              exact .ends rfl rfl rfl
            · cases h
      · cases h
  | pongRecv =>
      simp only [applyWriter] at h
      split at h
      · next hpc =>
          split at h
          · cases h
            refine .along rfl halive ?_
            simp [State.upTransit, State.written, hpc, WriterPc.inHand]
          · split at h
            · cases h
              exact .ends rfl rfl rfl
            · cases h
      · cases h
  | wrote =>
      simp only [applyWriter] at h
      split at h
      · next chunk hpc =>
          cases h
          refine .along rfl halive ?_
          simp [State.upTransit, State.written, hpc, WriterPc.inHand,
            Sent.data?]
      · next frame hpc =>
          cases h
          refine .along rfl halive ?_
          simp [State.upTransit, State.written, hpc, WriterPc.inHand,
            Sent.data?]
      · cases h
  | writeFailed =>
      simp only [applyWriter] at h
      split at h
      · cases h
        exact .ends rfl rfl rfl
      · cases h
        exact .ends rfl rfl rfl
      · cases h
  | cancelled =>
      simp only [applyWriter] at h
      split at h
      · cases h
        exact .ends rfl rfl rfl
      · cases h

/-- What the uplink lives in. -/
def State.uplink (s : State) :
    UpPc × WriterPc × Chan Bytes WS_CHANNEL_CAP × List Sent :=
  (s.up, s.writer, s.dataChan, s.wire)

theorem moves_of_uplink {a : Action} (hquiet : a.read = [])
    (h : s'.uplink = s.uplink) : Moves s a s' := by
  simp only [State.uplink, Prod.mk.injEq] at h
  obtain ⟨hup, hwriter, hchan, hwire⟩ := h
  refine .reads hwriter ?_ hwire
  rw [State.upTransit, State.upTransit, hup, hwriter, hchan, hquiet,
    List.append_nil]

theorem applyDown_uplink {a : DownAction} (h : applyDown w a s = some s') :
    s'.uplink = s.uplink := by
  cases a <;> simp only [applyDown] at h <;> (repeat' split at h)
    <;> cases h <;> rfl

theorem applyMain_uplink {a : MainAction} (h : applyMain a s = some s') :
    s'.uplink = s.uplink := by
  cases a <;> simp only [applyMain] at h <;> (repeat' split at h)
    <;> cases h <;> rfl

theorem apply_moves {a : Action} (h : apply w a s = some s') :
    Moves s a s' := by
  cases a with
  | up a => exact applyUp_moves h
  | writer a => exact applyWriter_moves h
  | down a => exact moves_of_uplink rfl (applyDown_uplink h)
  | main a => exact moves_of_uplink rfl (applyMain_uplink h)

/-- Upwards the tunnel is a conduit from what has been read to the
WebSocket, whole while the writer lives. -/
def UpCarries (initial read : Bytes) (s : State) : Prop :=
  Carries (s.writer ≠ .ended) (initial ++ read) s.written.flatten s.upTransit

theorem upCarries_start (initial : Bytes) (idle : Option Nat) :
    UpCarries initial [] (start initial idle) := by
  refine .of_kept ?_
  cases initial <;> simp [start, State.written, State.upTransit, Sent.data?,
    WriterPc.inHand, UpPc.inHand, Chan.empty]

theorem upCarries_step {initial read : Bytes} {a : Action}
    (h : apply w a s = some s') (hc : UpCarries initial read s) :
    UpCarries initial (read ++ a.read) s' := by
  unfold UpCarries at hc ⊢
  rw [← List.append_assoc]
  cases apply_moves h with
  | reads writer transit wire =>
      rw [writer, transit, State.written, wire]
      exact hc.enter a.read
  | along quiet alive order =>
      rw [quiet, List.append_nil]
      exact hc.move alive order
  | ends quiet ended wire =>
      rw [State.written, wire]
      exact hc.broken (not_not_intro ended) a.read

/-- The writer adds to what it has written. -/
theorem wire_grows {a : Action} (h : apply w a s = some s') :
    s.wire <+: s'.wire := by
  cases a with
  | writer a =>
      change applyWriter a s = some s' at h
      cases a with
      | wrote =>
          simp only [applyWriter] at h
          split at h <;> cases h
          · exact List.prefix_append _ _
          · exact List.prefix_append _ _
      | _ =>
          simp only [applyWriter] at h
          (repeat' split at h) <;> cases h
          all_goals exact List.prefix_rfl
  | up a =>
      change applyUp a s = some s' at h
      cases a <;> simp only [applyUp] at h <;> (repeat' split at h)
        <;> cases h <;> exact List.prefix_rfl
  | down a =>
      have hframe := applyDown_uplink h
      simp only [State.uplink, Prod.mk.injEq] at hframe
      rw [hframe.2.2.2]
  | main a =>
      have hframe := applyMain_uplink h
      simp only [State.uplink, Prod.mk.injEq] at hframe
      rw [hframe.2.2.2]

theorem written_grows {a : Action} (h : apply w a s = some s') :
    s.written <+: s'.written :=
  (wire_grows h).filterMap Sent.data?

-- ============================================================= memory

/-- No chunk is longer than the buffer it was read into. -/
structure Chunked (s : State) : Prop where
  up : s.up.inHand.length ≤ RELAY_BUF_SIZE
  queue : ∀ chunk ∈ s.dataChan.queue, chunk.length ≤ RELAY_BUF_SIZE
  writer : s.writer.inHand.length ≤ RELAY_BUF_SIZE

theorem chunked_start (initial : Bytes) (idle : Option Nat) :
    Chunked (start initial idle) :=
  ⟨Nat.zero_le _, fun _ h => (List.not_mem_nil h).elim, Nat.zero_le _⟩

theorem chunked_step {a : Action} (h : apply w a s = some s')
    (hc : Chunked s) : Chunked s' := by
  cases a with
  | up a =>
      change applyUp a s = some s' at h
      cases a with
      | read data =>
          simp only [applyUp] at h
          split at h
          · split at h <;> cases h
            next hguard =>
              refine ⟨?_, hc.queue, hc.writer⟩
              simp only [Bool.or_eq_true, decide_eq_true_eq, not_or] at hguard
              exact Nat.le_of_not_lt hguard.2
          · cases h
      | closed =>
          simp only [applyUp] at h
          split at h <;> cases h
          exact ⟨Nat.zero_le _, hc.queue, hc.writer⟩
      | send =>
          simp only [applyUp] at h
          split at h
          · next chunk hpc =>
              have hchunk : chunk.length ≤ RELAY_BUF_SIZE := by
                have hup := hc.up
                rw [hpc] at hup
                exact hup
              split at h
              · cases h
                exact ⟨hchunk, hc.queue, hc.writer⟩
              · split at h <;> cases h
                next hchan =>
                  refine ⟨Nat.zero_le _, fun c hmem => ?_, hc.writer⟩
                  rw [Chan.send_queue hchan, List.mem_append,
                    List.mem_singleton] at hmem
                  rcases hmem with hmem | rfl
                  · exact hc.queue c hmem
                  · exact hchunk
          · cases h
      | cancelled =>
          simp only [applyUp] at h
          split at h
          · split at h
            · cases h
              exact ⟨Nat.zero_le _, hc.queue, hc.writer⟩
            · next chunk hpc =>
                cases h
                have hup := hc.up
                rw [hpc] at hup
                exact ⟨hup, hc.queue, hc.writer⟩
            · cases h
          · cases h
  | writer a =>
      change applyWriter a s = some s' at h
      cases a with
      | recv =>
          simp only [applyWriter] at h
          split at h
          · split at h
            · next chunk dataChan hchan =>
                cases h
                have hqueue := hc.queue
                rw [Chan.recv_queue hchan] at hqueue
                exact ⟨hc.up, fun c hmem => hqueue c (List.mem_cons_of_mem _ hmem),
                  hqueue chunk (List.mem_cons_self ..)⟩
            · split at h <;> cases h
              exact ⟨hc.up, hc.queue, Nat.zero_le _⟩
          · cases h
      | _ =>
          simp only [applyWriter] at h
          (repeat' split at h) <;> cases h
          all_goals exact ⟨hc.up, hc.queue, Nat.zero_le _⟩
  | down a =>
      have hframe := applyDown_uplink h
      simp only [State.uplink, Prod.mk.injEq] at hframe
      obtain ⟨hup, hwriter, hchan, -⟩ := hframe
      exact ⟨hup ▸ hc.up, hchan ▸ hc.queue, hwriter ▸ hc.writer⟩
  | main a =>
      have hframe := applyMain_uplink h
      simp only [State.uplink, Prod.mk.injEq] at hframe
      obtain ⟨hup, hwriter, hchan, -⟩ := hframe
      exact ⟨hup ▸ hc.up, hchan ▸ hc.queue, hwriter ▸ hc.writer⟩

/-- The down task holds one message. -/
theorem downHand_step {n : Nat} {a : Action} (h : apply w a s = some s')
    (hpayload : a.payload.length ≤ n) (hn : s.down.inHand.length ≤ n) :
    s'.down.inHand.length ≤ n := by
  cases a with
  | up a =>
      change applyUp a s = some s' at h
      cases a <;> simp only [applyUp] at h <;> (repeat' split at h)
        <;> cases h <;> exact hn
  | writer a =>
      change applyWriter a s = some s' at h
      cases a <;> simp only [applyWriter] at h <;> (repeat' split at h)
        <;> cases h <;> exact hn
  | main a =>
      change applyMain a s = some s' at h
      cases a <;> simp only [applyMain] at h <;> (repeat' split at h)
        <;> cases h <;> exact hn
  | down a =>
      change applyDown w a s = some s' at h
      cases a with
      | message payload =>
          simp only [applyDown] at h
          split at h <;> cases h
          exact hpayload
      | _ =>
          simp only [applyDown] at h
          (repeat' split at h) <;> cases h
          all_goals exact Nat.zero_le _

theorem flatten_length_le {n : Nat} {chunks : List Bytes}
    (h : ∀ chunk ∈ chunks, chunk.length ≤ n) :
    chunks.flatten.length ≤ chunks.length * n := by
  induction chunks with
  | nil => exact Nat.zero_le _
  | cons chunk chunks ih =>
      have hhead := h chunk (List.mem_cons_self ..)
      have htail := ih fun c hc => h c (List.mem_cons_of_mem _ hc)
      rw [List.flatten_cons, List.length_append, List.length_cons,
        Nat.succ_mul]
      omega

/-- What is read and not on the WebSocket is at most a full channel and a
chunk in either hand. -/
theorem upTransit_le (hc : Chunked s) :
    s.upTransit.length ≤ (WS_CHANNEL_CAP + 2) * RELAY_BUF_SIZE := by
  have hqueue := flatten_length_le hc.queue
  have hcap := Nat.mul_le_mul_right RELAY_BUF_SIZE s.dataChan.bounded
  have hup := hc.up
  have hwriter := hc.writer
  rw [State.upTransit, List.length_append, List.length_append,
    Nat.add_mul]
  omega

-- ======================================================== the downlink

/-- Downwards the tunnel is a conduit from the messages that have come
out of it to the client, whole while the down task lives. -/
def DownCarries (payload : Bytes) (s : State) : Prop :=
  Carries (s.down ≠ .ended) payload s.toClient s.down.inHand

/-- The down task takes no step behind its end. -/
theorem applyDown_alive {a : DownAction} (h : applyDown w a s = some s') :
    s.down ≠ .ended := by
  intro hended
  cases a <;> simp [applyDown, hended] at h

theorem applyDown_carries {payload : Bytes} {a : DownAction}
    (h : applyDown w a s = some s') (hc : DownCarries payload s) :
    DownCarries (payload ++ (Action.down a).payload) s' := by
  have halive := applyDown_alive h
  unfold DownCarries at hc ⊢
  cases a with
  | message data =>
      simp only [applyDown] at h
      split at h
      · next hpc =>
          cases h
          rw [hpc] at hc
          exact (hc.enter data).weaken fun _ => nofun
      · cases h
  | ping data maskKey =>
      simp only [applyDown] at h
      split at h
      · next hpc =>
          cases h
          rw [hpc] at hc
          simpa [Action.payload, DownPc.inHand] using hc
      · cases h
  | closed =>
      simp only [applyDown] at h
      split at h
      · cases h
        exact hc.broken (fun h => h rfl) _
      · cases h
  | sendPong =>
      simp only [applyDown] at h
      split at h
      · next hpc =>
          rw [hpc] at hc
          split at h
          · cases h
            exact hc.broken (fun h => h rfl) _
          · split at h
            · cases h
              simpa [Action.payload, DownPc.inHand] using hc
            · cases h
      · cases h
  | wrote =>
      simp only [applyDown] at h
      split at h
      · next data hpc =>
          cases h
          show Carries _ (payload ++ []) _ _
          rw [List.append_nil]
          refine hc.move halive ?_
          rw [hpc]
          simp [DownPc.inHand]
      · cases h
  | writeFailed sent =>
      simp only [applyDown] at h
      split at h
      · next data hpc =>
          cases h
          show Carries _ (payload ++ []) _ _
          rw [List.append_nil]
          refine hc.breaks halive (fun h => h rfl) ?_
          rw [hpc]
          exact (List.prefix_append_right_inj _).mpr (List.take_prefix _ _)
      · cases h
  | cancelled sent =>
      simp only [applyDown] at h
      split at h
      · split at h
        · cases h
          exact hc.broken (fun h => h rfl) _
        · cases h
          exact hc.broken (fun h => h rfl) _
        · next data hpc =>
            cases h
            show Carries _ (payload ++ []) _ _
            rw [List.append_nil]
            refine hc.breaks halive (fun h => h rfl) ?_
            rw [hpc]
            exact (List.prefix_append_right_inj _).mpr
              (List.take_prefix _ _)
        · cases h
      · cases h

/-- What the downlink lives in. -/
def State.downlink (s : State) : DownPc × Nat × Bytes :=
  (s.down, s.downBytes, s.toClient)

theorem applyUp_downlink {a : UpAction} (h : applyUp a s = some s') :
    s'.downlink = s.downlink := by
  cases a <;> simp only [applyUp] at h <;> (repeat' split at h)
    <;> cases h <;> rfl

theorem applyWriter_downlink {a : WriterAction}
    (h : applyWriter a s = some s') : s'.downlink = s.downlink := by
  cases a <;> simp only [applyWriter] at h <;> (repeat' split at h)
    <;> cases h <;> rfl

theorem applyMain_downlink {a : MainAction} (h : applyMain a s = some s') :
    s'.downlink = s.downlink := by
  cases a <;> simp only [applyMain] at h <;> (repeat' split at h)
    <;> cases h <;> rfl

/-- A step of another task leaves the downlink as it is. -/
theorem downlink_frame {a : Action} (h : apply w a s = some s')
    (ha : ∀ d, a ≠ .down d) :
    s'.downlink = s.downlink ∧ a.payload = [] := by
  cases a with
  | up a => exact ⟨applyUp_downlink h, rfl⟩
  | writer a => exact ⟨applyWriter_downlink h, rfl⟩
  | down a => exact absurd rfl (ha a)
  | main a => exact ⟨applyMain_downlink h, rfl⟩

theorem downCarries_step {payload : Bytes} {a : Action}
    (h : apply w a s = some s') (hc : DownCarries payload s) :
    DownCarries (payload ++ a.payload) s' := by
  by_cases ha : ∃ d, a = .down d
  · obtain ⟨d, rfl⟩ := ha
    exact applyDown_carries h hc
  · obtain ⟨hframe, hquiet⟩ := downlink_frame h fun d hd => ha ⟨d, hd⟩
    simp only [State.downlink, Prod.mk.injEq] at hframe
    obtain ⟨hdown, -, hclient⟩ := hframe
    unfold DownCarries at hc ⊢
    rw [hquiet, List.append_nil, hdown, hclient]
    exact hc

-- ========================================================= the counter

end Wrtg.RelayViaWorker
