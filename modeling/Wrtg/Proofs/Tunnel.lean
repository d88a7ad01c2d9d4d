/-
A worker passthrough is a byte pipe (`bridge.rs`, `openwrt/cf-worker.js`).

Each direction is three conduits in a row: upwards the relay, the
WebSocket and the Worker's chain, downwards the Worker's read loop, the
WebSocket and the relay's down task. So each direction is one
(`tunnel_carries`): in no run does a byte reach the DC or the client that
has not been sent, or out of order, or twice, whatever fails and whoever
is aborted; and while the parties that move it live, every byte that has
not arrived is on its way, in order.
-/
import Wrtg.Proofs.RelayViaWorker
import Wrtg.Proofs.WorkerTunnel
import Wrtg.Tunnel

namespace Wrtg.Tunnel

open Lib

-- ======================================================== what is asked

/-- The bytes a step reads from the client. -/
def Action.read : Action → Bytes
  | .relay a => a.read
  | .worker _ => []

/-- The bytes a step reads from the DC. -/
def Action.value : Action → Bytes
  | .relay _ => []
  | .worker a => a.value

/-- What the client has sent in a run. -/
def fromClient (xs : List Action) : Bytes := xs.flatMap Action.read

/-- What the DC has sent in a run. -/
def fromDc (xs : List Action) : Bytes := xs.flatMap Action.value

/-- What is on its way to the DC, the foremost first. -/
def State.upTransit (s : State) : Bytes :=
  s.worker.chain.flatten
    ++ (s.relay.written.drop s.worker.received.length).flatten
    ++ s.relay.upTransit

/-- What is on its way to the client, the foremost first. -/
def State.downTransit (s : State) : Bytes :=
  s.relay.down.inHand
    ++ (s.worker.sent.drop s.delivered.length).flatten

-- ========================================================== the steps

/-- What holds of the parties and of the WebSocket between them. -/
structure Inv (initial read value : Bytes) (s : State) : Prop where
  relayUp : RelayViaWorker.UpCarries initial read s.relay
  toWorker : s.worker.received <+: s.relay.written
  workerUp : WorkerTunnel.UpCarries s.worker
  workerDown : WorkerTunnel.DownCarries value s.worker
  toRouter : s.delivered <+: s.worker.sent
  relayDown : RelayViaWorker.DownCarries s.delivered.flatten s.relay

variable {w : Word} {s s' : State} {initial read value : Bytes}

theorem inv_start (initial : Bytes) (idle : Option Nat) :
    Inv initial [] [] (start initial idle) where
  relayUp := RelayViaWorker.upCarries_start initial idle
  toWorker := List.nil_prefix
  workerUp := WorkerTunnel.upCarries_start
  workerDown := WorkerTunnel.downCarries_start
  toRouter := List.nil_prefix
  relayDown := .of_kept rfl

/-- A step of the relay, of which `delivered` takes the message. -/
theorem relay_inv {a : RelayViaWorker.Action} {relay : RelayViaWorker.State}
    {delivered : List Bytes} (hi : Inv initial read value s)
    (h : RelayViaWorker.apply w a s.relay = some relay)
    (hrouter : delivered <+: s.worker.sent)
    (hpayload : delivered.flatten = s.delivered.flatten ++ a.payload) :
    Inv initial (read ++ a.read) value { s with relay, delivered } where
  relayUp := RelayViaWorker.upCarries_step h hi.relayUp
  toWorker := hi.toWorker.trans (RelayViaWorker.written_grows h)
  workerUp := hi.workerUp
  workerDown := hi.workerDown
  toRouter := hrouter
  relayDown := by
    show RelayViaWorker.DownCarries delivered.flatten relay
    rw [hpayload]
    exact RelayViaWorker.downCarries_step h hi.relayDown

/-- A step of the Worker, with the messages it has received. -/
theorem worker_inv {a : WorkerTunnel.Action} {worker : WorkerTunnel.State}
    (hi : Inv initial read value s)
    (h : WorkerTunnel.apply a s.worker = some worker)
    (hworker : worker.received <+: s.relay.written) :
    Inv initial read (value ++ a.value) { s with worker } where
  relayUp := hi.relayUp
  toWorker := hworker
  workerUp := WorkerTunnel.upCarries_step h hi.workerUp
  workerDown := WorkerTunnel.downCarries_step h hi.workerDown
  toRouter := hi.toRouter.trans (WorkerTunnel.sent_grows h)
  relayDown := hi.relayDown

theorem inv_step {a : Action} (h : apply w a s = some s')
    (hi : Inv initial read value s) :
    Inv initial (read ++ a.read) (value ++ a.value) s' := by
  unfold apply at h
  split at h
  · next payload =>
      split at h
      · next hnext =>
          obtain ⟨relay, hrelay, rfl⟩ := Option.map_eq_some_iff.mp h
          rw [show (Action.relay (.down (.message payload))).value = []
            from rfl, List.append_nil]
          refine relay_inv hi hrelay (takes_next hi.toRouter hnext) ?_
          rw [List.flatten_append, List.flatten_singleton]
          rfl
      · cases h
  · next a hmessage =>
      obtain ⟨relay, hrelay, rfl⟩ := Option.map_eq_some_iff.mp h
      rw [show (Action.relay a).value = [] from rfl, List.append_nil]
      refine relay_inv hi hrelay hi.toRouter ?_
      rw [RelayViaWorker.payload_eq_nil fun p hp => hmessage p hp,
        List.append_nil]
  · next data =>
      split at h
      · next hnext =>
          obtain ⟨worker, hworker, rfl⟩ := Option.map_eq_some_iff.mp h
          rw [show (Action.worker (.message data)).read = [] from rfl,
            List.append_nil]
          refine worker_inv hi hworker ?_
          rw [WorkerTunnel.message_received hworker]
          exact takes_next hi.toWorker hnext
      · cases h
  · next a hmessage =>
      obtain ⟨worker, hworker, rfl⟩ := Option.map_eq_some_iff.mp h
      rw [show (Action.worker a).read = [] from rfl, List.append_nil]
      refine worker_inv hi hworker ?_
      rw [WorkerTunnel.received_frame hworker fun d hd => hmessage d hd]
      exact hi.toWorker

-- ============================================================== runs

theorem inv_run {idle : Option Nat} {xs : List Action}
    (h : run (apply w) xs (start initial idle) = some s) :
    Inv initial (fromClient xs) (fromDc xs) s := by
  refine run_history (apply w)
    (P := fun xs s => Inv initial (fromClient xs) (fromDc xs) s) h
    (inv_start initial idle) ?_
  intro pre a t t' _ ht hstep
  have hi := inv_step hstep ht
  simpa [fromClient, fromDc] using hi

/-- In every run, whatever the interleaving, what fails and who is
aborted: the DC has been given the beginning of the initial bytes and what
the client has sent, and the client the beginning of what the DC has sent.
While the router's writer lives and the Worker's socket takes writes, what
is missing at the DC is on its way to it; while the Worker's read loop and
the router's down task live, what is missing at the client is. -/
theorem tunnel_carries (w : Word) (initial : Bytes) (idle : Option Nat)
    (xs : List Action) (s : State)
    (h : run (apply w) xs (start initial idle) = some s) :
    Carries (s.relay.writer ≠ .ended ∧ s.worker.writable = true)
        (initial ++ fromClient xs) s.worker.toDc s.upTransit
      ∧ Carries (s.worker.reader ≠ .ended ∧ s.relay.down ≠ .ended)
        (fromDc xs) s.relay.toClient s.downTransit := by
  have hi := inv_run h
  constructor
  · have hwire := (Carries.of_prefix hi.toWorker : Carries True ..).flatten
    have hup := (hi.relayUp.trans hwire).trans hi.workerUp
    refine (hup.weaken fun hw => ⟨⟨hw.1, trivial⟩, hw.2⟩).congr ?_
    rw [State.upTransit, List.append_assoc]
  · have hwire := (Carries.of_prefix hi.toRouter : Carries True ..).flatten
    have hdown := (hi.workerDown.trans hwire).trans hi.relayDown
    refine (hdown.weaken fun hw => ⟨⟨hw.1, trivial⟩, hw.2⟩).congr ?_
    rw [State.downTransit, List.append_nil]

-- ============================================================= sample

/-- A TLS record on the way to the DC in two parts, the first of them the
initial bytes, and the answer back. -/
def sampleRun : List Action :=
  [.worker (.message [0x16]), .relay (.up (.read [1, 2])), .relay (.up .send),
    .worker (.flowed 1), .relay (.writer .recv), .worker .wrote,
    .relay (.writer .wrote), .worker (.message [1, 2]), .worker (.flowed 1),
    .worker (.dcRead [9, 8]), .worker (.flowed 1), .worker .wrote,
    .relay (.down (.message [9, 8])), .relay (.down .wrote)]

/-- What the sample run has delivered. -/
def sampleEnd : Option (Bytes × Bytes) :=
  (run (apply .w32) sampleRun (start [0x16] none)).map fun s =>
    (s.worker.toDc, s.relay.toClient)

theorem tunnel_carries_sample :
    ∃ s, run (apply .w32) sampleRun (start [0x16] none) = some s
      ∧ s.worker.toDc = [0x16, 1, 2] ∧ s.relay.toClient = [9, 8]
      ∧ s.upTransit = [] ∧ s.downTransit = [] := by
  have hend : sampleEnd = some ([0x16, 1, 2], [9, 8]) := by decide
  obtain ⟨s, hrun, hobs⟩ := Option.map_eq_some_iff.mp hend
  simp only [Prod.mk.injEq] at hobs
  obtain ⟨hdc, hclient⟩ := hobs
  have hlive : (run (apply .w32) sampleRun (start [0x16] none)).all
      (fun s => s.relay.writer != .ended && s.worker.writable
        && s.worker.reader != .ended && s.relay.down != .ended) = true := by
    decide
  rw [hrun, Option.all_some] at hlive
  simp only [Bool.and_eq_true, bne_iff_ne, ne_eq] at hlive
  obtain ⟨⟨⟨hwriter, hwritable⟩, hreader⟩, hdown⟩ := hlive
  obtain ⟨hup, hback⟩ := tunnel_carries .w32 [0x16] none sampleRun s hrun
  refine ⟨s, hrun, hdc, hclient, ?_, ?_⟩
  · have hkept := hup.kept ⟨hwriter, hwritable⟩
    rw [hdc] at hkept
    exact List.self_eq_append_right.mp hkept.symm
  · have hkept := hback.kept ⟨hreader, hdown⟩
    rw [hclient] at hkept
    exact List.self_eq_append_right.mp hkept.symm

-- ============================================================= memory

/-- What the router holds either way, and what the isolate has queued for
it, is bounded, and so is every message of the isolate. -/
structure Bounded (chunk : Nat) (s : State) : Prop where
  router : RelayViaWorker.Chunked s.relay
  hand : s.relay.down.inHand.length ≤ chunk
  isolate : WorkerTunnel.Paced chunk s.worker
  sent : ∀ value ∈ s.worker.sent, value.length ≤ chunk

theorem sent_le {chunk : Nat} {a : WorkerTunnel.Action}
    {worker worker' : WorkerTunnel.State}
    (h : WorkerTunnel.apply a worker = some worker')
    (hvalue : a.value.length ≤ chunk)
    (hsent : ∀ value ∈ worker.sent, value.length ≤ chunk) :
    ∀ value ∈ worker'.sent, value.length ≤ chunk := by
  by_cases ha : ∃ v, a = .dcRead v
  · obtain ⟨v, rfl⟩ := ha
    simp only [WorkerTunnel.apply] at h
    split at h
    · split at h <;> cases h
      · intro value hmem
        rcases List.mem_append.mp hmem with hmem | hmem
        · exact hsent value hmem
        · rw [List.mem_singleton.mp hmem]
          exact hvalue
      · exact hsent
    · cases h
  · rw [(WorkerTunnel.sent_frame h fun v hv => ha ⟨v, hv⟩).2.1]
    exact hsent

theorem bounded_step {chunk : Nat} {a : Action}
    (h : apply w a s = some s') (hvalue : a.value.length ≤ chunk)
    (hb : Bounded chunk s) : Bounded chunk s' := by
  unfold apply at h
  split at h
  · next payload =>
      split at h
      · next hnext =>
          obtain ⟨relay, hrelay, rfl⟩ := Option.map_eq_some_iff.mp h
          have hmem : payload ∈ s.worker.sent := List.mem_of_getElem? hnext
          exact ⟨RelayViaWorker.chunked_step hrelay hb.router,
            RelayViaWorker.downHand_step hrelay (hb.sent payload hmem) hb.hand,
            hb.isolate, hb.sent⟩
      · cases h
  · next a hmessage =>
      obtain ⟨relay, hrelay, rfl⟩ := Option.map_eq_some_iff.mp h
      have hquiet := RelayViaWorker.payload_eq_nil fun p hp => hmessage p hp
      exact ⟨RelayViaWorker.chunked_step hrelay hb.router,
        RelayViaWorker.downHand_step hrelay
          (by rw [hquiet]; exact Nat.zero_le _) hb.hand,
        hb.isolate, hb.sent⟩
  · split at h
    · obtain ⟨worker, hworker, rfl⟩ := Option.map_eq_some_iff.mp h
      exact ⟨hb.router, hb.hand,
        WorkerTunnel.paced_step hworker hvalue hb.isolate,
        sent_le hworker hvalue hb.sent⟩
    · cases h
  · obtain ⟨worker, hworker, rfl⟩ := Option.map_eq_some_iff.mp h
    exact ⟨hb.router, hb.hand,
      WorkerTunnel.paced_step hworker hvalue hb.isolate,
      sent_le hworker hvalue hb.sent⟩

/-- The router waits for the client, and the Worker has received all it
has sent. -/
structure Waiting (s : State) : Prop where
  up : s.relay.up = .reading
  writer : s.relay.writer = .selecting
  queue : s.relay.dataChan = .empty
  closing : s.worker.closing = .no
  received : s.worker.received = s.relay.written

/-- A byte of the client goes all the way to the chain. -/
def passByte : List Action :=
  [.relay (.up (.read [0])), .relay (.up .send), .relay (.writer .recv),
    .relay (.writer .wrote), .worker (.message [0])]

theorem waiting_pass (h : Waiting s) :
    ∃ s', run (apply w) passByte s = some s' ∧ Waiting s'
      ∧ s'.worker.chain = s.worker.chain ++ [[0]] := by
  obtain ⟨hup, hwriter, hqueue, hclosing, hreceived⟩ := h
  -- up to the WebSocket nothing depends on what has gone before
  obtain ⟨relay, hrelay, hup', hwriter', hqueue', hwritten⟩ :
      ∃ relay, run (apply w) (passByte.take 4) s = some { s with relay }
        ∧ relay.up = .reading ∧ relay.writer = .selecting
        ∧ relay.dataChan = .empty
        ∧ relay.written = s.relay.written ++ [[0]] := by
    obtain ⟨relay, worker, delivered⟩ := s
    obtain ⟨⟩ := relay
    subst hup hwriter hqueue
    refine ⟨_, rfl, rfl, rfl, rfl, ?_⟩
    exact List.filterMap_append
  obtain ⟨worker, hworker, hopen, hgot, hchain⟩ :=
    WorkerTunnel.chain_grows [0] hclosing
  refine ⟨{ s with relay, worker }, ?_,
    ⟨hup', hwriter', hqueue', hopen, ?_⟩, hchain⟩
  · rw [show passByte = passByte.take 4 ++ [.worker (.message [0])] from rfl,
      run_append, hrelay, Option.bind_some, run_cons]
    unfold apply
    dsimp only
    rw [if_pos, hworker]
    · rfl
    · unfold State.forWorker
      rw [hwritten, hreceived, List.getElem?_append_right (Nat.le_refl _),
        Nat.sub_self]
      rfl
  · rw [hgot, hreceived, hwritten]

/-- The router may wait behind the initial bytes. -/
theorem waiting_start (w : Word) (initial : Bytes) (idle : Option Nat) :
    ∃ xs s, run (apply w) xs (start initial idle) = some s ∧ Waiting s
      ∧ ∀ a ∈ xs, a.value = [] := by
  by_cases hinitial : initial = []
  · subst hinitial
    exact ⟨[], _, rfl, ⟨rfl, rfl, rfl, rfl, rfl⟩, fun a ha => nomatch ha⟩
  · have hne : initial.isEmpty = false :=
      List.isEmpty_eq_false_iff.mpr hinitial
    have hwritten : (start initial idle).relay.written = [initial] := by
      unfold RelayViaWorker.State.written start RelayViaWorker.start
      simp only [hne, Bool.false_eq_true, if_false]
      rfl
    obtain ⟨worker, hworker, hopen, hgot, -⟩ :=
      WorkerTunnel.chain_grows initial
        (rfl : (start initial idle).worker.closing = .no)
    refine ⟨[.worker (.message initial)],
      { start initial idle with worker }, ?_, ⟨rfl, rfl, rfl, hopen, ?_⟩, ?_⟩
    · rw [run_cons]
      unfold apply
      dsimp only
      rw [if_pos, hworker]
      · rfl
      · unfold State.forWorker
        rw [hwritten]
        rfl
    · rw [hgot]
      exact hwritten.symm
    · intro a ha
      rw [List.mem_singleton.mp ha]
      rfl

/-- However fast either end sends and however slowly the other takes, the
router holds at most a full channel and a chunk in either hand for the
Worker and a message for the client, and the isolate has queued at most
its high-water mark and one chunk for the router. The chain of writes to
the DC has no bound: the isolate takes what the client sends while the DC
takes nothing. -/
theorem tunnel_bounded (w : Word) (initial : Bytes) (idle : Option Nat) :
    (∀ (chunk : Nat) (xs : List Action) (s : State),
      run (apply w) xs (start initial idle) = some s →
      (∀ a ∈ xs, a.value.length ≤ chunk) →
      s.relay.upTransit.length
          ≤ (Bridge.WS_CHANNEL_CAP + 2) * Bridge.RELAY_BUF_SIZE
        ∧ s.relay.down.inHand.length ≤ chunk
        ∧ s.worker.buffered ≤ WorkerTunnel.SEND_HIGH_WATER + chunk)
    ∧ ∀ n, ∃ xs s, run (apply w) xs (start initial idle) = some s
        ∧ (∀ a ∈ xs, a.value = []) ∧ n ≤ s.worker.chain.flatten.length := by
  constructor
  · intro chunk xs s h hvalue
    have hb : Bounded chunk s := by
      refine run_invariant (apply w)
        (C := fun _ a => a.value.length ≤ chunk)
        (P := Bounded chunk) h ?_ ?_
        fun _ _ _ hb hvalue hstep => bounded_step hstep hvalue hb
      · intro pre a post t hxs _
        exact hvalue a (by rw [hxs]; simp)
      · exact ⟨RelayViaWorker.chunked_start initial idle, Nat.zero_le _,
          WorkerTunnel.paced_start chunk,
          fun _ hmem => (List.not_mem_nil hmem).elim⟩
    exact ⟨RelayViaWorker.upTransit_le hb.router, hb.hand,
      hb.isolate.queued⟩
  · intro n
    suffices hwait : ∃ xs s, run (apply w) xs (start initial idle) = some s
        ∧ Waiting s ∧ (∀ a ∈ xs, a.value = [])
        ∧ n ≤ s.worker.chain.flatten.length by
      obtain ⟨xs, s, hrun, -, hquiet, hlen⟩ := hwait
      exact ⟨xs, s, hrun, hquiet, hlen⟩
    induction n with
    | zero =>
        obtain ⟨xs, s, hrun, hwait, hquiet⟩ := waiting_start w initial idle
        exact ⟨xs, s, hrun, hwait, hquiet, Nat.zero_le _⟩
    | succ n ih =>
        obtain ⟨xs, s, hrun, hwait, hquiet, hlen⟩ := ih
        obtain ⟨s', hpass, hwait', hchain⟩ := waiting_pass (w := w) hwait
        refine ⟨xs ++ passByte, s', ?_, hwait', ?_, ?_⟩
        · rw [run_append, hrun]
          exact hpass
        · intro a ha
          rcases List.mem_append.mp ha with ha | ha
          · exact hquiet a ha
          · have hall : ∀ b ∈ passByte, Action.value b = [] := by decide
            exact hall a ha
        · rw [hchain, List.flatten_append, List.length_append]
          exact Nat.succ_le_succ hlen

/-- The bounds of the sample run, whose chunks are of two bytes. -/
theorem tunnel_bounded_sample :
    ∃ s, run (apply .w32) sampleRun (start [0x16] none) = some s
      ∧ s.worker.buffered ≤ WorkerTunnel.SEND_HIGH_WATER + 2
      ∧ s.relay.down.inHand.length ≤ 2 := by
  have hsome : (run (apply .w32) sampleRun
      (start [0x16] none)).isSome = true := by decide
  obtain ⟨s, hrun⟩ := Option.isSome_iff_exists.mp hsome
  obtain ⟨-, hhand, hbuffered⟩ :=
    (tunnel_bounded .w32 [0x16] none).1 2 sampleRun s hrun (by decide)
  exact ⟨s, hrun, hbuffered, hhand⟩

end Wrtg.Tunnel
