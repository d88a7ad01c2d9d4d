/-
A relay session over a plain connection is transparent, and loses nothing
unless it is made to (`bridge.rs`, `bridge_tcp`).

Each direction is one pump over a half of the crypto context. An abort
comes behind the grace period or the idle window only (`aborts_step`), so
where neither has run out and no write has failed, both pumps end by
themselves: unlike `bridge_ws`, whose teardown does not wait for the
driver that moves what a direction has put, the session ends with all it
has read written, and both writing ends shut (`tcp_transparent`).
-/
import Wrtg.Lib.Run
import Wrtg.Proofs.Relay
import Wrtg.TcpBridge

namespace Wrtg.TcpBridge

open Mtproto Lib

variable {aes : Aes256} {s s' : State} {xs : List Action} {ctx : CryptoCtx}
  {idle : Option Nat}

-- ======================================================== what is asked

/-- What a step reads from the client. -/
def Action.fromClient : Action → Bytes
  | .up a => a.data
  | _ => []

/-- What a step reads from the server. -/
def Action.fromServer : Action → Bytes
  | .down a => a.data
  | _ => []

/-- A write fails, the grace period runs out, or the idle window. -/
def Action.loses : Action → Bool
  | .up .writeFailed => true
  | .down .writeFailed => true
  | .main .idleReached => true
  | .main .drainExpired => true
  | _ => false

/-- Nothing has gone wrong in a run. -/
def Quiet (xs : List Action) : Prop := ∀ a ∈ xs, a.loses = false

instance (xs : List Action) : Decidable (Quiet xs) :=
  inferInstanceAs (Decidable (∀ a ∈ xs, _))

theorem Quiet.concat {a : Action} (h : Quiet (xs ++ [a])) :
    Quiet xs ∧ a.loses = false :=
  ⟨fun b hb => h b (List.mem_append_left _ hb), h a (by simp)⟩

-- =========================================================== the steps

/-- Where nothing has gone wrong nothing is aborted. -/
theorem aborts_step {a : Action} (h : apply aes a s = some s')
    (ha : a.loses = false) (hs : s.aborts = []) : s'.aborts = [] := by
  cases a with
  | up a =>
      simp only [apply] at h
      split at h
      · cases h
      · obtain ⟨up, -, rfl⟩ := Option.map_eq_some_iff.mp h
        exact hs
  | down a =>
      simp only [apply] at h
      split at h
      · cases h
      · obtain ⟨down, -, rfl⟩ := Option.map_eq_some_iff.mp h
        exact hs
  | main a =>
      change applyMain a s = some s' at h
      cases a <;> simp only [applyMain] at h <;> (repeat' split at h)
        <;> cases h <;> first | exact hs | cases ha

theorem isEnded_up : s.isEnded .up = true ↔ s.up.pc = .ended := by
  unfold State.isEnded
  cases s.up.pc <;> simp

theorem isEnded_down : s.isEnded .down = true ↔ s.down.pc = .ended := by
  unfold State.isEnded
  cases s.down.pc <;> simp

/-- The session goes on behind the end of a direction, and is over behind
the end of both. -/
def Settled (s : State) : Prop :=
  match s.main with
  | .draining true => s.up.pc = .ended
  | .draining false => s.down.pc = .ended
  | .done _ => s.up.pc = .ended ∧ s.down.pc = .ended
  | _ => True

theorem settled_step {a : Action} (h : apply aes a s = some s')
    (hs : Settled s) : Settled s' := by
  cases a with
  | up a =>
      simp only [apply] at h
      split at h
      · cases h
      · obtain ⟨up, hup, rfl⟩ := Option.map_eq_some_iff.mp h
        have halive := Pump.alive_of_step hup
        unfold Settled at hs ⊢
        cases hmain : s.main with
        | selecting => trivial
        | joining idleReaped => trivial
        | draining upFinished =>
            rw [hmain] at hs
            cases upFinished with
            | true => exact absurd hs halive
            | false => exact hs
        | done idleReaped =>
            rw [hmain] at hs
            exact absurd hs.1 halive
  | down a =>
      simp only [apply] at h
      split at h
      · cases h
      · obtain ⟨down, hdown, rfl⟩ := Option.map_eq_some_iff.mp h
        have halive := Pump.alive_of_step hdown
        unfold Settled at hs ⊢
        cases hmain : s.main with
        | selecting => trivial
        | joining idleReaped => trivial
        | draining upFinished =>
            rw [hmain] at hs
            cases upFinished with
            | true => exact hs
            | false => exact absurd hs halive
        | done idleReaped =>
            rw [hmain] at hs
            exact absurd hs.2 halive
  | main a =>
      change applyMain a s = some s' at h
      cases a with
      | upEnded =>
          simp only [applyMain] at h
          split at h <;> cases h
          next hcond => exact isEnded_up.mp hcond.2
      | downEnded =>
          simp only [applyMain] at h
          split at h <;> cases h
          next hcond => exact isEnded_down.mp hcond.2
      | idleReached =>
          simp only [applyMain] at h
          split at h <;> cases h
          trivial
      | drained =>
          simp only [applyMain] at h
          split at h
          · next upFinished hmain =>
              split at h <;> cases h
              next hother =>
              unfold Settled at hs
              rw [hmain] at hs
              cases upFinished with
              | true => exact ⟨hs, isEnded_down.mp hother⟩
              | false => exact ⟨isEnded_up.mp hother, hs⟩
          · cases h
      | drainExpired =>
          simp only [applyMain] at h
          split at h
          · split at h <;> cases h
            trivial
          · cases h
      | joined =>
          simp only [applyMain] at h
          split at h
          · split at h <;> cases h
            next hboth => exact ⟨isEnded_up.mp hboth.1, isEnded_down.mp hboth.2⟩
          · cases h

-- ============================================================== runs

/-- What holds of a session that has come through the steps `xs`. -/
structure Inv (aes : Aes256) (ctx : CryptoCtx) (xs : List Action)
    (s : State) : Prop where
  up : Pump.Inv (CryptoUp.clientToTelegram aes) ctx.split.1 (Quiet xs)
    (xs.flatMap Action.fromClient) s.up
  down : Pump.Inv (CryptoDown.telegramToClient aes) ctx.split.2 (Quiet xs)
    (xs.flatMap Action.fromServer) s.down
  aborts : Quiet xs → s.aborts = []
  settled : Settled s
  upShut : Quiet xs → s.up.pc = .ended → s.up.shut = true
  downShut : Quiet xs → s.down.pc = .ended → s.down.shut = true

theorem inv_start : Inv aes ctx [] (start ctx idle) where
  up := Pump.inv_start (clientToTelegram_hom aes)
  down := Pump.inv_start (telegramToClient_hom aes)
  aborts _ := rfl
  settled := trivial
  upShut _ := nofun
  downShut _ := nofun

/-- A quiet step of a pump that is not aborted keeps what it has. -/
theorem keeps_of_quiet {σ : Type} {p : Pump σ UInt8} {a : PumpAction UInt8}
    (hwrite : a ≠ .writeFailed) (hcancel : a ≠ .cancelled) :
    p.Keeps a := by
  unfold Pump.Keeps
  split
  · exact hwrite rfl
  · exact absurd rfl hcancel
  · trivial

theorem inv_step {a : Action} (h : apply aes a s = some s')
    (hi : Inv aes ctx xs s) : Inv aes ctx (xs ++ [a]) s' := by
  have hsettled := settled_step h hi.settled
  have haborts : Quiet (xs ++ [a]) → s'.aborts = [] := fun hq =>
    aborts_step h hq.concat.2 (hi.aborts hq.concat.1)
  cases a with
  | up a =>
      simp only [apply] at h
      split at h
      · cases h
      · next hguard =>
          obtain ⟨up, hup, rfl⟩ := Option.map_eq_some_iff.mp h
          have hcancel : Quiet (xs ++ [.up a]) → a ≠ .cancelled := by
            intro hq ha
            refine hguard ⟨ha, ?_⟩
            rw [hi.aborts hq.concat.1]
            exact nofun
          have hkeeps : Quiet (xs ++ [.up a]) → Quiet xs ∧ s.up.Keeps a :=
            fun hq => ⟨hq.concat.1, keeps_of_quiet
              (fun ha => by have := hq.concat.2; rw [ha] at this; cases this)
              (hcancel hq)⟩
          refine ⟨?_, ?_, haborts, hsettled, ?_, ?_⟩
          · have hstep := Pump.inv_step (clientToTelegram_hom aes) hup hkeeps
              hi.up
            simpa [Action.fromClient] using hstep
          · have hsame := hi.down.weaken fun hq : Quiet (xs ++ [.up a]) =>
              hq.concat.1
            simpa [Action.fromServer] using hsame
          · exact fun hq => Pump.shut_of_step hup (hcancel hq)
          · exact fun hq => hi.downShut hq.concat.1
  | down a =>
      simp only [apply] at h
      split at h
      · cases h
      · next hguard =>
          obtain ⟨down, hdown, rfl⟩ := Option.map_eq_some_iff.mp h
          have hcancel : Quiet (xs ++ [.down a]) → a ≠ .cancelled := by
            intro hq ha
            refine hguard ⟨ha, ?_⟩
            rw [hi.aborts hq.concat.1]
            exact nofun
          have hkeeps : Quiet (xs ++ [.down a]) → Quiet xs ∧ s.down.Keeps a :=
            fun hq => ⟨hq.concat.1, keeps_of_quiet
              (fun ha => by have := hq.concat.2; rw [ha] at this; cases this)
              (hcancel hq)⟩
          refine ⟨?_, ?_, haborts, hsettled, ?_, ?_⟩
          · have hsame := hi.up.weaken fun hq : Quiet (xs ++ [.down a]) =>
              hq.concat.1
            simpa [Action.fromClient] using hsame
          · have hstep := Pump.inv_step (telegramToClient_hom aes) hdown
              hkeeps hi.down
            simpa [Action.fromServer] using hstep
          · exact fun hq => hi.upShut hq.concat.1
          · exact fun hq => Pump.shut_of_step hdown (hcancel hq)
  | main a =>
      change applyMain a s = some s' at h
      have hsame : s'.up = s.up ∧ s'.down = s.down := by
        cases a <;> simp only [applyMain] at h <;> (repeat' split at h)
          <;> cases h <;> exact ⟨rfl, rfl⟩
      refine ⟨?_, ?_, haborts, hsettled, ?_, ?_⟩
      · have hup := hi.up.weaken fun hq : Quiet (xs ++ [.main a]) =>
          hq.concat.1
        rw [hsame.1]
        simpa [Action.fromClient] using hup
      · have hdown := hi.down.weaken fun hq : Quiet (xs ++ [.main a]) =>
          hq.concat.1
        rw [hsame.2]
        simpa [Action.fromServer] using hdown
      · rw [hsame.1]
        exact fun hq => hi.upShut hq.concat.1
      · rw [hsame.2]
        exact fun hq => hi.downShut hq.concat.1

theorem inv_run (h : run (apply aes) xs (start ctx idle) = some s) :
    Inv aes ctx xs s :=
  run_history (apply aes) (P := Inv aes ctx) h inv_start
    fun _ _ _ _ _ hi hstep => inv_step hstep hi

/-- In every run, whatever the interleaving, what fails and who is
aborted, what the server can decrypt is the beginning of what the client
has encrypted, and the other way round. A session that is over, in which
no write has failed and neither the grace period nor the idle window has
run out, has delivered all that was read of both, and has shut both
connections down. -/
theorem tcp_transparent (aes : Aes256) (H R P Q : Bytes) (ctx : CryptoCtx)
    (idle : Option Nat) (xs : List Action) (s : State)
    (hH : H.length = HANDSHAKE_LEN) (hR : R.length = HANDSHAKE_LEN)
    (hctx : CryptoCtx.buildDirect aes H R = .ok ctx)
    (hrun : run (apply aes) xs (start ctx idle) = some s)
    (hup : xs.flatMap Action.fromClient
      = maskFrom xorByte (forwardKs aes H) 64 P)
    (hdown : xs.flatMap Action.fromServer
      = maskFrom xorByte (reverseKs aes R) 0 Q) :
    s.up.written <+: maskFrom xorByte (forwardKs aes R) 64 P
      ∧ s.down.written <+: maskFrom xorByte (reverseKs aes H) 0 Q
      ∧ (∀ idleReaped, s.main = .done idleReaped → Quiet xs →
        s.up.written = maskFrom xorByte (forwardKs aes R) 64 P
          ∧ s.down.written = maskFrom xorByte (reverseKs aes H) 0 Q
          ∧ s.up.shut = true ∧ s.down.shut = true) := by
  rw [buildDirect_ok aes hH hR] at hctx
  cases hctx
  have hencUp := directCtx_up aes H R P
  have hencDown := directCtx_down aes H R Q
  have hi := inv_run hrun
  have hiUp := hi.up
  have hiDown := hi.down
  rw [hup] at hiUp
  rw [hdown] at hiDown
  refine ⟨hencUp ▸ hiUp.carries.order, hencDown ▸ hiDown.carries.order, ?_⟩
  intro idleReaped hdone hq
  have hsettled := hi.settled
  unfold Settled at hsettled
  rw [hdone] at hsettled
  obtain ⟨hupEnd, hdownEnd⟩ := hsettled
  refine ⟨?_, ?_, hi.upShut hq hupEnd, hi.downShut hq hdownEnd⟩
  · rw [← hencUp]
    exact hiUp.delivered hq (by unfold Pump.working; rw [hupEnd])
  · rw [← hencDown]
    exact hiDown.delivered hq (by unfold Pump.working; rw [hdownEnd])

-- ============================================================= sample

/-- The client sends eight bytes and closes; the server answers eight in
two writes and closes within the grace period. -/
def sampleRun : List Action :=
  [.up (.read (maskFrom xorByte (forwardKs sampleAes sampleClient) 64
      sampleIn)),
    .up (.wrote 8),
    .down (.read (maskFrom xorByte (reverseKs sampleAes sampleRelay) 0
      sampleIn)),
    .up .eof, .down (.wrote 3), .up .shut, .main .upEnded, .down (.wrote 5),
    .down .eof, .down .shut, .main .drained]

theorem tcp_transparent_sample :
    ∃ s, run (apply sampleAes) sampleRun
        (start (directCtx sampleClient sampleRelay) none) = some s
      ∧ s.up.written
        = maskFrom xorByte (forwardKs sampleAes sampleRelay) 64 sampleIn
      ∧ s.down.written
        = maskFrom xorByte (reverseKs sampleAes sampleClient) 0 sampleIn := by
  have hend : (run (apply sampleAes) sampleRun
      (start (directCtx sampleClient sampleRelay) none)).map (·.main)
      = some (.done false) := by decide +kernel
  obtain ⟨s, hrun, hdone⟩ := Option.map_eq_some_iff.mp hend
  obtain ⟨-, -, hdelivered⟩ := tcp_transparent sampleAes sampleClient
    sampleRelay sampleIn sampleIn (directCtx sampleClient sampleRelay) none
    sampleRun s (by decide) (by decide)
    (buildDirect_ok sampleAes (by decide) (by decide)) hrun
    (by decide +kernel) (by decide +kernel)
  obtain ⟨hup, hdown, -, -⟩ := hdelivered false hdone (by decide)
  exact ⟨s, hrun, hup, hdown⟩

end Wrtg.TcpBridge
