/-
What the tunnel of a Worker does to the bytes it carries
(`openwrt/cf-worker.js`).

The chain keeps the messages in order, and a link that rejects takes the
rest of the chain with it: what the DC is given is the beginning of what
the messages hold (`upCarries_step`), and all of it where the client
closes and no link rejects (`close_flushes`). The read loop sends each
chunk as it reads it, and pauses above the high-water mark, so that what
is queued for the client is at most that mark and one chunk
(`paced_step`). Nothing paces the chain (`chain_grows`).
-/
import Wrtg.Lib.Conduit
import Wrtg.Lib.Run
import Wrtg.WorkerTunnel

namespace Wrtg.WorkerTunnel

open Lib

/-- The bytes a step reads from the DC. -/
def Action.value : Action → Bytes
  | .dcRead value => value
  | _ => []

variable {s s' : State} {a : Action}

-- ========================================================== to the DC

/-- From its messages to the DC the Worker is a conduit, whole while the
socket takes writes. -/
def UpCarries (s : State) : Prop :=
  Carries (s.writable = true) s.received.flatten s.toDc s.chain.flatten

theorem upCarries_start : UpCarries start := .of_kept rfl

theorem upCarries_step (h : apply a s = some s') (hc : UpCarries s) :
    UpCarries s' := by
  unfold UpCarries at hc ⊢
  cases a with
  | message data =>
      simp only [apply] at h
      split at h <;> cases h
      simpa using hc.enter data
  | flowed bytes =>
      simp only [apply] at h
      split at h
      · next data chain hchain =>
          split at h <;> cases h
          next hw =>
            refine hc.move hw ?_
            rw [hchain, List.flatten_cons, List.flatten_cons,
              ← List.append_assoc, List.append_assoc s.toDc,
              List.take_append_drop, List.append_assoc]
      · cases h
  | wrote =>
      simp only [apply] at h
      split at h
      · next chain hchain =>
          cases h
          rw [hchain] at hc
          simpa using hc
      · cases h
  | writeFailed =>
      simp only [apply] at h
      split at h <;> cases h
      have hbroken : ¬ (false = true) := by decide
      simpa using hc.broken hbroken []
  | close =>
      simp only [apply] at h
      split at h <;> cases h
      exact hc
  | chainSettled =>
      simp only [apply] at h
      split at h <;> cases h
      exact hc.weaken (by simp)
  | dcRead value =>
      simp only [apply] at h
      split at h
      · split at h <;> cases h
        · exact hc
        · exact hc.weaken (by simp [State.finally])
      · cases h
  | dcEnded =>
      simp only [apply] at h
      split at h <;> cases h
      exact hc.weaken (by simp [State.finally])
  | timer =>
      simp only [apply] at h
      split at h <;> cases h
      exact hc
  | drained bytes =>
      simp only [apply] at h
      split at h <;> cases h
      exact hc

theorem message_received {data : Bytes}
    (h : apply (.message data) s = some s') :
    s'.received = s.received ++ [data] := by
  simp only [apply] at h
  split at h <;> cases h
  rfl

/-- Nothing but a message is received. -/
theorem received_frame (h : apply a s = some s')
    (ha : ∀ data, a ≠ .message data) : s'.received = s.received := by
  cases a with
  | message data => exact absurd rfl (ha data)
  | _ =>
      simp only [apply] at h
      (repeat' split at h) <;> cases h
      all_goals rfl

-- ====================================================== a quiet close

/-- Where no link has rejected the ledger is whole, whether or not the
socket is, and behind the end of the `close` listener the chain is
empty. -/
structure Quiet (s : State) : Prop where
  ledger : s.toDc ++ s.chain.flatten = s.received.flatten
  settled : s.closing = .done → s.chain = []

theorem quiet_step (h : apply a s = some s') (hwrite : a ≠ .writeFailed)
    (hq : Quiet s) : Quiet s' := by
  obtain ⟨ledger, hsettled⟩ := hq
  cases a with
  | message data =>
      simp only [apply] at h
      split at h <;> cases h
      next hclosing =>
        refine ⟨?_, fun hdone => ?_⟩
        · simp only [List.flatten_append, ← List.append_assoc, ledger]
        · rw [hclosing] at hdone
          cases hdone
  | flowed bytes =>
      simp only [apply] at h
      split at h
      · next data chain hchain =>
          split at h <;> cases h
          refine ⟨?_, fun hdone => ?_⟩
          · rw [← ledger, hchain, List.flatten_cons, List.flatten_cons,
              ← List.append_assoc, List.append_assoc s.toDc,
              List.take_append_drop, List.append_assoc]
          · rw [hchain] at hsettled
            cases hsettled hdone
      · cases h
  | wrote =>
      simp only [apply] at h
      split at h
      · next chain hchain =>
          cases h
          rw [hchain] at ledger hsettled
          exact ⟨ledger, fun hdone => nomatch hsettled hdone⟩
      · cases h
  | writeFailed => exact absurd rfl hwrite
  | close =>
      simp only [apply] at h
      split at h <;> cases h
      exact ⟨ledger, nofun⟩
  | chainSettled =>
      simp only [apply] at h
      split at h <;> cases h
      next hchain => exact ⟨ledger, fun _ => hchain.2⟩
  | dcRead value =>
      simp only [apply] at h
      split at h
      · split at h <;> cases h
        · exact ⟨ledger, hsettled⟩
        · exact ⟨ledger, hsettled⟩
      · cases h
  | dcEnded =>
      simp only [apply] at h
      split at h <;> cases h
      exact ⟨ledger, hsettled⟩
  | timer =>
      simp only [apply] at h
      split at h <;> cases h
      exact ⟨ledger, hsettled⟩
  | drained bytes =>
      simp only [apply] at h
      split at h <;> cases h
      exact ⟨ledger, hsettled⟩

/-- A client that closes behind its last message loses nothing, unless a
write fails: once the listener has closed the socket, the DC has been
given all of it. -/
theorem close_flushes {xs : List Action} (h : run apply xs start = some s)
    (hwrite : .writeFailed ∉ xs) (hclosed : s.closing = .done) :
    s.toDc = s.received.flatten := by
  have hquiet : Quiet s :=
    run_invariant apply (C := fun _ a => a ≠ .writeFailed) (P := Quiet) h
      (fun pre a post t hxs _ ha => hwrite (by rw [hxs, ha]; simp))
      ⟨rfl, nofun⟩
      (fun _ _ _ hq hwrite hstep => quiet_step hstep hwrite hq)
  rw [← hquiet.ledger, hquiet.settled hclosed]
  simp

/-- Two messages and a close, with the first still being written, and a
DC that answers behind the close. -/
def sampleClose : List Action :=
  [.message [1, 2], .flowed 1, .message [3], .flowed 1, .wrote, .flowed 1,
    .wrote, .close, .dcRead [9], .chainSettled]

theorem close_flushes_sample :
    ∃ s, run apply sampleClose start = some s ∧ s.reader = .ended
      ∧ s.toDc = [1, 2, 3] := by
  have hend : (run apply sampleClose start).map
      (fun s => (s.closing, s.reader, s.received))
      = some (.done, .ended, [[1, 2], [3]]) := by decide
  obtain ⟨s, hrun, hobs⟩ := Option.map_eq_some_iff.mp hend
  simp only [Prod.mk.injEq] at hobs
  obtain ⟨hclosed, hreader, hreceived⟩ := hobs
  have hflushed := close_flushes hrun (by decide) hclosed
  rw [hreceived] at hflushed
  exact ⟨s, hrun, hreader, hflushed⟩

-- ======================================================== from the DC

/-- From the DC to its own messages the Worker is a conduit that holds
nothing, whole while the read loop runs. -/
def DownCarries (value : Bytes) (s : State) : Prop :=
  Carries (s.reader ≠ .ended) value s.sent.flatten []

theorem downCarries_start : DownCarries [] start := .of_kept rfl

/-- A step that reads nothing sends nothing, and does not bring the read
loop back. -/
theorem sent_frame (h : apply a s = some s') (ha : ∀ v, a ≠ .dcRead v) :
    a.value = [] ∧ s'.sent = s.sent
      ∧ (s'.reader ≠ .ended → s.reader ≠ .ended) := by
  cases a with
  | dcRead value => exact absurd rfl (ha value)
  | dcEnded =>
      simp only [apply] at h
      split at h <;> cases h
      exact ⟨rfl, rfl, fun hne => absurd rfl hne⟩
  | timer =>
      simp only [apply] at h
      split at h <;> cases h
      next hpausing =>
        refine ⟨rfl, rfl, fun _ => ?_⟩
        rw [hpausing]
        exact nofun
  | _ =>
      simp only [apply] at h
      (repeat' split at h) <;> cases h
      all_goals exact ⟨rfl, rfl, id⟩

theorem sent_grows (h : apply a s = some s') : s.sent <+: s'.sent := by
  by_cases ha : ∃ v, a = .dcRead v
  · obtain ⟨v, rfl⟩ := ha
    simp only [apply] at h
    split at h
    · split at h <;> cases h
      · exact List.prefix_append _ _
      · exact List.prefix_rfl
    · cases h
  · rw [(sent_frame h fun v hv => ha ⟨v, hv⟩).2.1]

theorem downCarries_step {value : Bytes} (h : apply a s = some s')
    (hc : DownCarries value s) : DownCarries (value ++ a.value) s' := by
  by_cases ha : ∃ v, a = .dcRead v
  · obtain ⟨v, rfl⟩ := ha
    simp only [apply] at h
    split at h
    · next hreading =>
        have hlive : s.reader ≠ .ended := by
          rw [hreading]
          exact nofun
        split at h <;> cases h
        · refine (hc.enter v).move hlive ?_
          simp [State.pace]
        · exact hc.broken (fun h => h rfl) v
    · cases h
  · obtain ⟨hquiet, hsent, hreader⟩ := sent_frame h fun v hv => ha ⟨v, hv⟩
    unfold DownCarries at hc ⊢
    rw [hquiet, List.append_nil, hsent]
    exact hc.weaken hreader

-- ======================================================== back pressure

/-- The read loop reads on only below the mark. -/
structure Paced (chunk : Nat) (s : State) : Prop where
  reading : s.reader = .reading → s.buffered ≤ SEND_HIGH_WATER
  queued : s.buffered ≤ SEND_HIGH_WATER + chunk

theorem paced_start (chunk : Nat) : Paced chunk start :=
  ⟨fun _ => Nat.zero_le _, Nat.zero_le _⟩

theorem paced_pace {chunk : Nat} (h : s.buffered ≤ SEND_HIGH_WATER + chunk) :
    Paced chunk s.pace := by
  refine ⟨fun hreading => ?_, h⟩
  unfold State.pace at hreading
  split at hreading
  · cases hreading
  · next hle => exact Nat.le_of_not_lt hle

theorem paced_step {chunk : Nat} (h : apply a s = some s')
    (hvalue : a.value.length ≤ chunk) (hp : Paced chunk s) :
    Paced chunk s' := by
  cases a with
  | dcRead value =>
      simp only [apply] at h
      split at h
      · next hreading =>
          split at h <;> cases h
          · exact paced_pace (Nat.add_le_add (hp.reading hreading) hvalue)
          · exact ⟨nofun, hp.queued⟩
      · cases h
  | dcEnded =>
      simp only [apply] at h
      split at h <;> cases h
      exact ⟨nofun, hp.queued⟩
  | timer =>
      simp only [apply] at h
      split at h <;> cases h
      exact paced_pace hp.queued
  | drained bytes =>
      simp only [apply] at h
      split at h <;> cases h
      exact ⟨fun hreading => (Nat.sub_le ..).trans (hp.reading hreading),
        (Nat.sub_le ..).trans hp.queued⟩
  | _ =>
      simp only [apply] at h
      (repeat' split at h) <;> cases h
      all_goals exact ⟨hp.reading, hp.queued⟩

/-- A message waits in the chain, whatever waits there already. -/
theorem chain_grows (data : Bytes) (h : s.closing = .no) :
    ∃ s', apply (.message data) s = some s' ∧ s'.closing = .no
      ∧ s'.received = s.received ++ [data]
      ∧ s'.chain = s.chain ++ [data] := by
  simp only [apply]
  rw [if_pos h]
  exact ⟨_, rfl, h, rfl, rfl⟩

end Wrtg.WorkerTunnel
