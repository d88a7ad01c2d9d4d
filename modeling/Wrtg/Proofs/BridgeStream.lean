/-
A relay session over a WebSocket is transparent, in every run
(`bridge.rs`, `bridge_ws`).

The crypto halves and the splitter are stages that do not see where a
stream was cut, so each direction of the session is a row of conduits:
upwards what the client has sent is re-encrypted, cut, put on the send
channel (`UpInv`) and written (`Inv`), downwards what the server has sent
is put on the receive channel, taken off it, re-encrypted and written
(`DownInv`). What breaks a conduit is a task that ends over something it
has, or that others still have for it; a run with no such step (`Clean`)
has everything on its way or delivered, and where its tasks have ended,
delivered. With the two keystreams of a context the ends of each row are
plaintext under the keys of either side (`bridge_transparent`).
-/
import Wrtg.Lib.Conduit
import Wrtg.Proofs.Bridge
import Wrtg.Proofs.Splitter.Run

namespace Wrtg.Bridge

open Mtproto Splitter Ws Lib

-- ======================================================== what is asked

/-- The bytes a step reads from the client. -/
def Action.read : Action → Bytes
  | .up (.read data) => data
  | _ => []

/-- The bytes a step reads from the server. -/
def Action.payload : Action → Bytes
  | .recv (.message payload) => payload
  | _ => []

/-- What the client has sent in a run. -/
def fromClient (xs : List Action) : Bytes := xs.flatMap Action.read

/-- What the server has sent in a run. -/
def fromServer (xs : List Action) : Bytes := xs.flatMap Action.payload

/-- The parts the up task has still to put. -/
def UpPc.pending : UpPc → Bytes
  | .sending part rest => part ++ rest.flatten
  | .flushing _ tail rest => tail ++ rest.flatten
  | _ => []

/-- The up task may still feed the splitter. -/
def UpPc.inLoop : UpPc → Bool
  | .reading => true
  | .sending _ _ => true
  | _ => false

/-- What the splitter holds back. -/
def State.held (s : State) : Bytes :=
  match s.splitter with
  | some sp => sp.cipherBuf
  | none => []

/-- The message the receive driver has still to hand over. -/
def RecvPc.inHand : RecvPc → Bytes
  | .sending payload => payload
  | _ => []

def DownPc.inHand : DownPc → Bytes
  | .writing out => out
  | _ => []

/-- What is on its way to the server, re-encrypted. -/
def State.upTransit (s : State) : Bytes :=
  s.left.flatten ++ (s.up.pending ++ s.held)

/-- What is on its way to the client, as the client will get it. -/
def State.downTransit (aes : Aes256) (s : State) : Bytes :=
  s.down.inHand ++ (s.downCrypto.telegramToClient aes
    (s.recvChan.queue.flatten ++ s.recv.inHand)).1

/-- The step does not end a task over what it has in hand, or over what
others may still have for it. -/
def Clean (s : State) : Action → Prop
  | .up .cancelled => False
  | .send .writeFailed => False
  | .send .cancelled => s.up.isEnded = true ∧ s.left = []
  | .send .pongRecv =>
      s.pongChan.queue = [] → s.up.isEnded = true ∧ s.left = []
  | .recv .cancelled => s.recv.inHand = []
  | .down (.writeFailed _) => False
  | .down (.cancelled _) =>
      s.recv = .ended ∧ s.recvChan.queue = [] ∧ s.down.inHand = []
  | _ => True

instance (s : State) (a : Action) : Decidable (Clean s a) :=
  match a with
  | .up .cancelled => .isFalse id
  | .up (.read _) => .isTrue trivial
  | .up .eof => .isTrue trivial
  | .up .readFailed => .isTrue trivial
  | .up .send => .isTrue trivial
  | .send .writeFailed => .isFalse id
  | .send .cancelled => inferInstanceAs (Decidable (_ ∧ _))
  | .send .pongRecv => inferInstanceAs (Decidable (_ → _))
  | .send .recv => .isTrue trivial
  | .send .tryRecv => .isTrue trivial
  | .send .wrote => .isTrue trivial
  | .recv .cancelled => inferInstanceAs (Decidable (_ = _))
  | .recv (.message _) => .isTrue trivial
  | .recv (.ping _ _) => .isTrue trivial
  | .recv .closed => .isTrue trivial
  | .recv .send => .isTrue trivial
  | .down (.writeFailed _) => .isFalse id
  | .down (.cancelled _) => inferInstanceAs (Decidable (_ ∧ _ ∧ _))
  | .down .recv => .isTrue trivial
  | .down .wrote => .isTrue trivial
  | .ping _ => .isTrue trivial
  | .main _ => .isTrue trivial

theorem Clean.orderly {s : State} {a : Action} (h : Clean s a) :
    Orderly s a ∧ a ≠ .send .writeFailed := by
  refine ⟨?_, ?_⟩
  · unfold Orderly
    split
    · exact h.2
    · exact fun hempty => (h hempty).2
    · trivial
  · rintro rfl
    exact h

-- ======================================================== the splitter

theorem flush_flatten (sp : MsgSplitter) :
    sp.flush.1.flatten = sp.cipherBuf ∧ sp.flush.2.cipherBuf = [] := by
  unfold MsgSplitter.flush
  cases hbuf : sp.cipherBuf with
  | nil => simp [hbuf]
  | cons b bs => simp

section

variable {proto : UInt32} {key iv : Bytes} {sp : MsgSplitter}

/-- What a splitter lets go of and what it holds is what it held and what
came in. -/
theorem split_keeps (w : Word) (aes : Aes256) {st : Nat × CutState Pair}
    (h : Sim proto key iv sp st) (chunk : Bytes) :
    ∃ parts sp' st', sp.split w aes chunk = .ok (parts, sp')
      ∧ Sim proto key iv sp' st'
      ∧ parts.flatten ++ sp'.cipherBuf = sp.cipherBuf ++ chunk := by
  obtain ⟨sp', hsplit, hsim⟩ := split_sim w aes sp st chunk h
  refine ⟨_, sp', _, hsplit, hsim, ?_⟩
  have hheld : ∀ {sp : MsgSplitter} {st : Nat × CutState Pair},
      Sim proto key iv sp st → sp.cipherBuf = st.2.held.map Prod.fst :=
    fun h => (flush_flatten _).1.symm.trans (flush_sim h).1
  have hcut := congrArg (List.map Prod.fst)
    (cutStep_conserves (pairFramer proto) st.2
      (pairUp (keystream aes key iv) st.1 chunk))
  rw [List.map_append, List.map_append, pairUp_fst, List.map_flatten] at hcut
  rw [hheld hsim, hheld h]
  exact hcut

/-- A splitter that is flushed is one that holds nothing. -/
theorem flush_settles {st : Nat × CutState Pair}
    (h : Sim proto key iv sp st) :
    ∃ st', Sim proto key iv sp.flush.2 st' := by
  obtain ⟨pos, state⟩ := st
  cases state with
  | broken =>
      refine ⟨(pos, .broken), ?_⟩
      unfold MsgSplitter.flush
      rw [h.2.1]
      exact h
  | buffering buf =>
      refine ⟨(pos, .buffering []), ?_, Framer.head_nil _⟩
      rw [h.1]
      unfold MsgSplitter.flush
      cases buf <;> rfl

end

-- ========================================================== the uplink

variable {w : Word} {aes : Aes256} {s s' : State} {W W' : Prop}
  {up₀ : CryptoUp} {proto : UInt32} {key iv read : Bytes}

/-- The up task is at work, and what it puts is taken. -/
def State.putting (s : State) : Prop :=
  s.up.isEnded = false ∧ s.send ≠ .ended

/-- From the client to the send channel, in a run that is `W`: the crypto
half is where the bytes read have brought it, the splitter in step, and
what the two have made of them is put, pending or held. -/
structure UpInv (aes : Aes256) (up₀ : CryptoUp) (proto : UInt32)
    (key iv : Bytes) (W : Prop) (read : Bytes) (s : State) : Prop where
  crypto : s.upCrypto = (up₀.clientToTelegram aes read).2
  splitter : ∀ sp, s.splitter = some sp → ∃ st, Sim proto key iv sp st
  carries : Carries (s.putting ∨ W) (up₀.clientToTelegram aes read).1
    s.put.flatten (s.up.pending ++ s.held)
  flushed : W → s.up.inLoop = false → s.held = []
  settled : W → s.send = .ended → s.up.isEnded = true ∧ s.left = []

theorem afterChunk_pending (parts : List Bytes) :
    (UpPc.afterChunk parts).pending = parts.flatten
      ∧ (UpPc.afterChunk parts).inLoop = true
      ∧ (UpPc.afterChunk parts).isEnded = false := by
  cases parts <;> exact ⟨rfl, rfl, rfl⟩

theorem afterLoop_pending (why : UpEnd) (tails : List Bytes) :
    (UpPc.afterLoop why tails).pending = tails.flatten
      ∧ (UpPc.afterLoop why tails).inLoop = false := by
  cases tails <;> exact ⟨rfl, rfl⟩

/-- Less may be asked of a run. -/
theorem UpInv.weaken (hi : UpInv aes up₀ proto key iv W read s)
    (hW : W' → W) : UpInv aes up₀ proto key iv W' read s where
  crypto := hi.crypto
  splitter := hi.splitter
  carries := hi.carries.weaken (Or.imp_right hW)
  flushed h' := hi.flushed (hW h')
  settled h' := hi.settled (hW h')

/-- In a run that is `W`, a task that is at work finds the send driver
alive. -/
theorem UpInv.alive (hi : UpInv aes up₀ proto key iv W read s)
    (hpc : s.up.isEnded = false) (hW : W) : s.send ≠ .ended := by
  intro hended
  have hup := (hi.settled hW hended).1
  rw [hpc] at hup
  cases hup

/-- A flush turns what the splitter holds into tails. -/
theorem flush_upInv (why : UpEnd) (hpc : s.up = .reading)
    (hi : UpInv aes up₀ proto key iv W read s) :
    UpInv aes up₀ proto key iv W read (s.flush why) := by
  have hreading : s.up.isEnded = false := by rw [hpc]; rfl
  have hc := hi.carries
  rw [hpc] at hc
  have hwhole : ∀ up : UpPc, (up.isEnded = false ∧ s.send ≠ .ended) ∨ W →
      s.putting ∨ W := by
    rintro up (⟨-, hsend⟩ | hW)
    · exact .inl ⟨hreading, hsend⟩
    · exact .inr hW
  unfold State.flush
  split
  · next sp hsp =>
      obtain ⟨st, hsim⟩ := hi.splitter sp hsp
      obtain ⟨hflat, hempty⟩ := flush_flatten sp
      obtain ⟨hpending, hloop⟩ := afterLoop_pending why sp.flush.1
      have hheld : s.held = sp.cipherBuf := by rw [State.held, hsp]
      refine ⟨hi.crypto, ?_, ?_, fun _ _ => hempty, fun hW hended => ?_⟩
      · rintro _ ⟨⟩
        exact flush_settles hsim
      · refine (hc.weaken (hwhole _)).congr ?_
        show [] ++ s.held
          = (UpPc.afterLoop why sp.flush.1).pending ++ sp.flush.2.cipherBuf
        rw [hpending, hflat, hempty, hheld, List.append_nil]
        rfl
      · exact absurd hended (hi.alive hreading hW)
  · next hsp =>
      have hheld : s.held = [] := by rw [State.held, hsp]
      refine ⟨hi.crypto, hi.splitter, hc.weaken (hwhole _),
        fun _ _ => hheld, fun hW hended => ?_⟩
      exact absurd hended (hi.alive hreading hW)

/-- What the up task puts was the first of what is pending. -/
theorem putPart_upInv {part : Bytes} {next : UpPc} {rest : List Bytes}
    (h : s.putPart part next = some s') (hsend : s.send ≠ .ended)
    (hpc : s.up.pending = part ++ rest.flatten)
    (hwork : s.up.isEnded = false) (hnext : next.pending = rest.flatten)
    (hloop : next.inLoop = false → s.up.inLoop = false)
    (hi : UpInv aes up₀ proto key iv W read s) :
    UpInv aes up₀ proto key iv W read s' := by
  unfold State.putPart at h
  split at h <;> cases h
  refine ⟨hi.crypto, hi.splitter, ?_, fun hW hout => ?_, fun _ hended => ?_⟩
  · refine hi.carries.move (.inl ⟨hwork, hsend⟩) ?_
    show (s.put ++ [part]).flatten ++ (next.pending ++ s.held) = _
    rw [hnext, hpc]
    simp
  · exact hi.flushed hW (hloop hout)
  · exact absurd hended hsend

/-- Where the send driver has ended the up task ends, or drops a tail. -/
theorem dropped_upInv {next : UpPc} (hwork : s.up.isEnded = false)
    (hsend : s.send = .ended) (hi : UpInv aes up₀ proto key iv W read s) :
    UpInv aes up₀ proto key iv W read { s with up := next } := by
  have hnot : ¬ W := fun hW => hi.alive hwork hW hsend
  refine ⟨hi.crypto, hi.splitter, ?_, fun hW => absurd hW hnot,
    fun hW => absurd hW hnot⟩
  refine hi.carries.same ?_
  rintro (⟨-, halive⟩ | hW)
  · exact absurd hsend halive
  · exact absurd hW hnot

theorem read_upInv {data : Bytes} (h : applyUp w aes (.read data) s = some s')
    (hi : UpInv aes up₀ proto key iv W read s) :
    UpInv aes up₀ proto key iv W (read ++ data) s' := by
  simp only [applyUp] at h
  split at h
  case h_2 => cases h
  next hpc =>
  have hreading : s.up.isEnded = false := by rw [hpc]; rfl
  have hfed := (clientToTelegram_hom aes).append up₀ read data
  rw [← hi.crypto] at hfed
  have hc := hi.carries.enter (s.upCrypto.clientToTelegram aes data).1
  rw [hpc] at hc
  have hwhole : ∀ up : UpPc, (up.isEnded = false ∧ s.send ≠ .ended) ∨ W →
      s.putting ∨ W := by
    rintro up (⟨-, hsend⟩ | hW)
    · exact .inl ⟨hreading, hsend⟩
    · exact .inr hW
  split at h
  · cases h
  · split at h
    · next sp hsp =>
        obtain ⟨st, hsim⟩ := hi.splitter sp hsp
        obtain ⟨parts, sp', st', hsplit, hsim', hkeeps⟩ :=
          split_keeps w aes hsim
            (s.upCrypto.clientToTelegram aes data).1
        rw [hsplit] at h
        cases h
        obtain ⟨hpending, hloop, -⟩ := afterChunk_pending parts
        have hheld : s.held = sp.cipherBuf := by rw [State.held, hsp]
        refine ⟨by rw [hfed], ?_, ?_, fun _ hout => ?_, fun hW hended => ?_⟩
        · rintro _ ⟨⟩
          exact ⟨st', hsim'⟩
        · rw [hfed]
          refine (hc.weaken (hwhole _)).congr ?_
          show ([] ++ s.held) ++ _
            = (UpPc.afterChunk parts).pending ++ sp'.cipherBuf
          rw [hpending, hkeeps, hheld, List.nil_append]
        · exact Bool.noConfusion (hloop.symm.trans hout)
        · exact absurd hended (hi.alive hreading hW)
    · next hsp =>
        cases h
        have hheld : s.held = [] := by rw [State.held, hsp]
        refine ⟨by rw [hfed], hi.splitter, ?_, fun _ _ => hheld,
          fun hW hended => ?_⟩
        · rw [hfed]
          refine (hc.weaken (hwhole _)).congr ?_
          show ([] ++ s.held) ++ _ = (_ ++ List.flatten []) ++ s.held
          rw [hheld]
          simp
        · exact absurd hended (hi.alive hreading hW)

theorem applyUp_upInv {a : UpAction} (h : applyUp w aes a s = some s')
    (hW : W' → W ∧ Clean s (.up a))
    (hi : UpInv aes up₀ proto key iv W read s) :
    UpInv aes up₀ proto key iv W' (read ++ (Action.up a).read) s' := by
  have hi' := hi.weaken fun h' => (hW h').1
  cases a with
  | read data => exact read_upInv h hi'
  | eof =>
      rw [show (Action.up .eof).read = [] from rfl, List.append_nil]
      simp only [applyUp] at h
      split at h
      · next hpc =>
          cases h
          exact flush_upInv .eof hpc hi'
      · cases h
  | readFailed =>
      rw [show (Action.up .readFailed).read = [] from rfl, List.append_nil]
      simp only [applyUp] at h
      split at h
      · next hpc =>
          cases h
          exact flush_upInv .readFailed hpc hi'
      · cases h
  | send =>
      rw [show (Action.up .send).read = [] from rfl, List.append_nil]
      simp only [applyUp] at h
      split at h
      · next part rest hpc =>
          have hwork : s.up.isEnded = false := by rw [hpc]; rfl
          split at h
          · next hsend =>
              split at h
              · cases h
                exact dropped_upInv hwork hsend hi'
              · next hsp =>
                  have hflush : s.flush .sendFailed
                      = { s with up := .ended .sendFailed } := by
                    unfold State.flush
                    split
                    · next sp hsp' => rw [hsp] at hsp'; cases hsp'
                    · rfl
                  rw [hflush] at h
                  cases h
                  exact dropped_upInv hwork hsend hi'
          · next hsend =>
              obtain ⟨hpending, hloop, -⟩ := afterChunk_pending rest
              exact putPart_upInv h hsend (by rw [hpc]; rfl) hwork hpending
                (fun hout => Bool.noConfusion (hloop.symm.trans hout)) hi'
      · next why tail rest hpc =>
          have hwork : s.up.isEnded = false := by rw [hpc]; rfl
          split at h
          · next hsend =>
              cases h
              exact dropped_upInv hwork hsend hi'
          · next hsend =>
              exact putPart_upInv h hsend (by rw [hpc]; rfl) hwork
                (afterLoop_pending why rest).1 (fun _ => by rw [hpc]; rfl) hi'
      · cases h
  | cancelled =>
      rw [show (Action.up .cancelled).read = [] from rfl, List.append_nil]
      simp only [applyUp] at h
      split at h <;> cases h
      refine ⟨hi.crypto, hi.splitter, ?_, fun h' => (hW h').2.elim,
        fun h' => (hW h').2.elim⟩
      refine hi.carries.same ?_
      rintro (⟨hup, -⟩ | h')
      · cases hup
      · exact (hW h').2.elim

/-- What the up task works on. -/
def State.uptask (s : State) :
    UpPc × Option MsgSplitter × CryptoUp × List Bytes :=
  (s.up, s.splitter, s.upCrypto, s.put)

theorem applySend_uptask {a : SendAction} (h : applySend a s = some s') :
    s'.uptask = s.uptask := by
  cases a <;> simp only [applySend] at h <;> (repeat' split at h)
    <;> cases h <;> rfl

theorem putPong_frame {frame : Bytes} (h : s.putPong frame = some s') :
    s'.uptask = s.uptask ∧ s'.recv = s.recv ∧ s'.recvChan = s.recvChan
      ∧ s'.down = s.down ∧ s'.downCrypto = s.downCrypto
      ∧ s'.toClient = s.toClient := by
  unfold State.putPong at h
  split at h <;> cases h
  exact ⟨rfl, rfl, rfl, rfl, rfl, rfl⟩

theorem applyPing_uptask {a : PingAction} (h : applyPing a s = some s') :
    s'.uptask = s.uptask := by
  cases a <;> simp only [applyPing] at h <;> (repeat' split at h)
    <;> try (cases h <;> rfl)
  obtain ⟨t, ht, rfl⟩ := Option.map_eq_some_iff.mp h
  exact (putPong_frame ht).1

theorem applyRecv_uptask {a : RecvAction} (h : applyRecv a s = some s') :
    s'.uptask = s.uptask := by
  cases a <;> simp only [applyRecv] at h <;> (repeat' split at h)
    <;> try (cases h <;> rfl)
  obtain ⟨t, ht, rfl⟩ := Option.map_eq_some_iff.mp h
  exact (putPong_frame ht).1

theorem applyDown_uptask {a : DownAction}
    (h : applyDown aes a s = some s') : s'.uptask = s.uptask := by
  cases a <;> simp only [applyDown] at h <;> (repeat' split at h)
    <;> cases h <;> rfl

theorem applyMain_uptask {a : MainAction} (h : applyMain a s = some s') :
    s'.uptask = s.uptask := by
  cases a <;> simp only [applyMain] at h <;> (repeat' split at h)
    <;> cases h <;> rfl

/-- A step of another task leaves the up task's things as they are. -/
theorem uptask_frame {a : Action} (h : apply w aes a s = some s')
    (ha : ∀ u, a ≠ .up u) : s'.uptask = s.uptask ∧ a.read = [] := by
  cases a with
  | up u => exact absurd rfl (ha u)
  | send a => exact ⟨applySend_uptask h, rfl⟩
  | ping a => exact ⟨applyPing_uptask h, rfl⟩
  | recv a => exact ⟨applyRecv_uptask h, rfl⟩
  | down a => exact ⟨applyDown_uptask h, rfl⟩
  | main a => exact ⟨applyMain_uptask h, rfl⟩

/-- A clean step ends the send driver when there is nothing to send and no
more to come. -/
theorem applySend_settles {a : SendAction} (h : applySend a s = some s')
    (hended : s'.send = .ended) (hclean : Clean s (.send a)) :
    s.up.isEnded = true ∧ s'.left = [] := by
  have hqueue : s.left = [] → s.sendChan.queue = [] := fun hleft =>
    (List.append_eq_nil_iff.mp hleft).2
  cases a with
  | recv =>
      simp only [applySend] at h
      split at h
      · split at h
        · cases h
          cases hended
        · next hchan =>
            split at h <;> cases h
            next hgone =>
            rw [State.sendersGone, Bool.and_eq_true] at hgone
            exact ⟨hgone.2, Chan.recv_eq_none.mp hchan⟩
      · cases h
  | tryRecv =>
      simp only [applySend] at h
      repeat' split at h
      all_goals cases h
      all_goals cases hended
  | pongRecv =>
      simp only [applySend] at h
      split at h
      · split at h
        · cases h
          cases hended
        · next hchan =>
            split at h <;> cases h
            obtain ⟨hup, hleft⟩ := hclean (Chan.recv_eq_none.mp hchan)
            exact ⟨hup, hqueue hleft⟩
      · cases h
  | wrote =>
      simp only [applySend] at h
      split at h <;> cases h
      · exact absurd hended (afterFrame_alive _)
      · cases hended
  | writeFailed => exact hclean.elim
  | cancelled =>
      simp only [applySend] at h
      repeat' split at h
      all_goals cases h
      all_goals exact ⟨hclean.1, hqueue hclean.2⟩

theorem upInv_step {a : Action} (h : apply w aes a s = some s')
    (hW : W' → W ∧ Clean s a) (hi : UpInv aes up₀ proto key iv W read s) :
    UpInv aes up₀ proto key iv W' (read ++ a.read) s' := by
  by_cases ha : ∃ u, a = .up u
  · obtain ⟨u, rfl⟩ := ha
    exact applyUp_upInv h hW hi
  · obtain ⟨hframe, hquiet⟩ := uptask_frame h fun u hu => ha ⟨u, hu⟩
    simp only [State.uptask, Prod.mk.injEq] at hframe
    obtain ⟨hup, hsplitter, hcrypto, hput⟩ := hframe
    have hheld : s'.held = s.held := by rw [State.held, hsplitter]; rfl
    have hi' := hi.weaken fun h' => (hW h').1
    rw [hquiet, List.append_nil]
    refine ⟨hcrypto ▸ hi.crypto, hsplitter ▸ hi.splitter, ?_, ?_, ?_⟩
    · rw [hheld, hup, hput]
      refine hi'.carries.weaken (Or.imp_left ?_)
      rintro ⟨hwork, hsend⟩
      exact ⟨hup ▸ hwork, fun hended => hsend (ended_step h hended).1⟩
    · rw [hup, hheld]
      exact hi'.flushed
    · intro h' hended
      rw [hup]
      have hsame : s'.uplink = s.uplink → s.up.isEnded = true
          ∧ s'.left = [] := by
        intro hsame
        simp only [State.uplink, Prod.mk.injEq] at hsame
        obtain ⟨-, hsend, hqueue, -⟩ := hsame
        rw [State.left, hsend, hqueue]
        exact hi'.settled h' (hsend ▸ hended)
      cases a with
      | up u => exact absurd ⟨u, rfl⟩ ha
      | send a => exact applySend_settles h hended (hW h').2
      | ping a => exact hsame (applyPing_uplink h)
      | recv a => exact hsame (applyRecv_uplink h)
      | down a => exact hsame (applyDown_uplink h)
      | main a => exact hsame (applyMain_uplink h)

-- ======================================================== the downlink

variable {down₀ : CryptoDown} {sent taken : Bytes}

/-- From the server to the client, in a run that is `W`: what the down
task has taken brought the crypto half where it is, and came out or is in
its hand; what it has not taken is in the channel or with the driver. -/
structure DownInv (aes : Aes256) (down₀ : CryptoDown) (W : Prop)
    (sent taken : Bytes) (s : State) : Prop where
  crypto : s.downCrypto = (down₀.telegramToClient aes taken).2
  hop : Carries (s.recv ≠ .ended ∨ W) sent
    (taken ++ s.recvChan.queue.flatten) s.recv.inHand
  out : Carries (s.down ≠ .ended ∨ W) (down₀.telegramToClient aes taken).1
    s.toClient s.down.inHand
  settled : W → s.down = .ended → s.recv = .ended ∧ s.recvChan.queue = []

theorem DownInv.weaken (hi : DownInv aes down₀ W sent taken s)
    (hW : W' → W) : DownInv aes down₀ W' sent taken s where
  crypto := hi.crypto
  hop := hi.hop.weaken (Or.imp_right hW)
  out := hi.out.weaken (Or.imp_right hW)
  settled h' := hi.settled (hW h')

/-- In a run that is `W`, a driver at work finds the down task alive. -/
theorem DownInv.alive (hi : DownInv aes down₀ W sent taken s)
    (hrecv : s.recv ≠ .ended) (hW : W) : s.down ≠ .ended :=
  fun hended => hrecv (hi.settled hW hended).1

theorem receiving_alive : RecvPc.receiving ≠ .ended := nofun

theorem sendingPong_alive (frame : Bytes) :
    RecvPc.sendingPong frame ≠ .ended := nofun

theorem sending_alive (payload : Bytes) : RecvPc.sending payload ≠ .ended :=
  nofun

theorem waiting_alive : DownPc.receiving ≠ .ended := nofun

theorem writing_alive (out : Bytes) : DownPc.writing out ≠ .ended := nofun

/-- The driver has nothing in hand, and goes on or ends. -/
theorem idle_downInv {next : RecvPc} (halive : s.recv ≠ .ended)
    (hpc : s.recv.inHand = []) (hnext : next.inHand = [])
    (hi : DownInv aes down₀ W sent taken s) :
    DownInv aes down₀ W sent taken { s with recv := next } := by
  refine ⟨hi.crypto, ?_, hi.out, fun hW hended => ?_⟩
  · refine hi.hop.same fun _ => ⟨.inl halive, ?_⟩
    rw [hpc]
    exact hnext
  · exact absurd hended (hi.alive halive hW)

theorem applyRecv_downInv {a : RecvAction} (h : applyRecv a s = some s')
    (hW : W' → W ∧ Clean s (.recv a))
    (hi : DownInv aes down₀ W sent taken s) :
    DownInv aes down₀ W' (sent ++ (Action.recv a).payload) taken s' := by
  have hi' := hi.weaken fun h' => (hW h').1
  cases a with
  | message payload =>
      simp only [applyRecv] at h
      split at h <;> cases h
      next hpc =>
      have halive : s.recv ≠ .ended := by
        rw [hpc]
        exact receiving_alive
      refine ⟨hi.crypto, ?_, hi'.out, fun h' hended => ?_⟩
      · have hc := hi.hop.enter payload
        rw [hpc] at hc
        exact hc.weaken fun _ => .inl receiving_alive
      · exact absurd hended (hi'.alive halive h')
  | ping payload maskKey =>
      rw [show (Action.recv (.ping payload maskKey)).payload = [] from rfl,
        List.append_nil]
      simp only [applyRecv] at h
      split at h <;> cases h
      next hpc =>
      exact idle_downInv (by rw [hpc]; exact receiving_alive) (by rw [hpc]; rfl)
        rfl hi'
  | closed =>
      rw [show (Action.recv .closed).payload = [] from rfl, List.append_nil]
      simp only [applyRecv] at h
      split at h <;> cases h
      next hpc =>
      exact idle_downInv (by rw [hpc]; exact receiving_alive) (by rw [hpc]; rfl)
        rfl hi'
  | send =>
      rw [show (Action.recv .send).payload = [] from rfl, List.append_nil]
      simp only [applyRecv] at h
      split at h
      · next frame hpc =>
          have halive : s.recv ≠ .ended := by
            rw [hpc]
            exact sendingPong_alive frame
          split at h
          · cases h
            exact idle_downInv halive (by rw [hpc]; rfl) rfl hi'
          · obtain ⟨t, ht, rfl⟩ := Option.map_eq_some_iff.mp h
            obtain ⟨-, hrecv, hchan, hdown, hcrypto, hclient⟩ :=
              putPong_frame ht
            have hstep : DownInv aes down₀ W' sent taken
                { s with recv := .receiving } :=
              idle_downInv halive (by rw [hpc]; rfl) rfl hi'
            refine ⟨hcrypto ▸ hstep.crypto, ?_, ?_, ?_⟩
            · show Carries _ sent (taken ++ t.recvChan.queue.flatten) []
              rw [hchan]
              exact hstep.hop
            · show Carries (t.down ≠ .ended ∨ W') _ t.toClient t.down.inHand
              rw [hclient, hdown]
              exact hstep.out
            · show W' → t.down = .ended → _ ∧ t.recvChan.queue = []
              rw [hdown, hchan]
              exact hstep.settled
      · next payload hpc =>
          have halive : s.recv ≠ .ended := by
            rw [hpc]
            exact sending_alive payload
          split at h
          · next hended =>
              cases h
              have hnot : ¬ W' := fun h' => hi'.alive halive h' hended
              refine ⟨hi.crypto, ?_, hi'.out, fun h' => absurd h' hnot⟩
              refine hi.hop.same ?_
              rintro (hne | h')
              · exact absurd rfl hne
              · exact absurd h' hnot
          · next hdown =>
              split at h <;> cases h
              next recvChan hchan =>
              refine ⟨hi.crypto, ?_, hi'.out, fun _ hended => ?_⟩
              · refine hi.hop.move (.inl halive) ?_
                show taken ++ recvChan.queue.flatten ++ [] = _
                rw [Chan.send_queue hchan, hpc]
                simp [RecvPc.inHand]
              · exact absurd hended hdown
      · cases h
  | cancelled =>
      rw [show (Action.recv .cancelled).payload = [] from rfl,
        List.append_nil]
      simp only [applyRecv] at h
      split at h <;> cases h
      next hcond =>
      refine ⟨hi.crypto, ?_, hi'.out, fun h' hended => ?_⟩
      · refine hi.hop.same ?_
        rintro (hne | h')
        · exact absurd rfl hne
        · exact ⟨.inr (hW h').1, (hW h').2.symm⟩
      · exact absurd hended (hi'.alive hcond.2 h')

theorem applyDown_downInv {a : DownAction} (h : applyDown aes a s = some s')
    (hW : W' → W ∧ Clean s (.down a))
    (hi : DownInv aes down₀ W sent taken s) :
    ∃ taken, DownInv aes down₀ W' sent taken s' := by
  have hi' := hi.weaken fun h' => (hW h').1
  cases a with
  | recv =>
      simp only [applyDown] at h
      split at h
      · next hpc =>
          split at h
          · next payload recvChan hchan =>
              cases h
              have hfed := (telegramToClient_hom aes).append down₀ taken
                payload
              rw [← hi.crypto] at hfed
              refine ⟨taken ++ payload, by rw [hfed], ?_, ?_,
                fun _ hended => absurd hended (writing_alive _)⟩
              · have hc := hi'.hop
                rw [Chan.recv_queue hchan, List.flatten_cons,
                  ← List.append_assoc] at hc
                exact hc
              · rw [hfed]
                have hc := hi.out.enter
                  (s.downCrypto.telegramToClient aes payload).1
                rw [hpc] at hc
                exact hc.weaken fun _ => .inl waiting_alive
          · next hchan =>
              split at h <;> cases h
              next hrecv =>
              refine ⟨taken, hi.crypto, hi'.hop, ?_, fun _ _ =>
                ⟨hrecv, Chan.recv_eq_none.mp hchan⟩⟩
              have hc := hi.out
              rw [hpc] at hc
              exact hc.weaken fun _ => .inl waiting_alive
      · cases h
  | wrote =>
      simp only [applyDown] at h
      split at h <;> cases h
      next out hpc =>
      refine ⟨taken, hi.crypto, hi'.hop, ?_,
        fun _ hended => absurd hended waiting_alive⟩
      refine hi.out.move (.inl (by rw [hpc]; exact writing_alive out)) ?_
      rw [hpc]
      exact List.append_nil _
  | writeFailed sent =>
      simp only [applyDown] at h
      split at h <;> cases h
      next out hpc =>
      refine ⟨taken, hi.crypto, hi'.hop, ?_, fun h' => (hW h').2.elim⟩
      refine hi.out.breaks (.inl (by rw [hpc]; exact writing_alive out)) ?_ ?_
      · rintro (hne | h')
        · exact hne rfl
        · exact (hW h').2
      · rw [hpc]
        exact (List.prefix_append_right_inj _).mpr (List.take_prefix _ _)
  | cancelled sent =>
      have hsettled : W' → s.recv = .ended ∧ s.recvChan.queue = [] :=
        fun h' => ⟨(hW h').2.1, (hW h').2.2.1⟩
      simp only [applyDown] at h
      split at h
      · split at h <;> cases h
        · refine ⟨taken, hi.crypto, hi'.hop, ?_, fun h' _ => hsettled h'⟩
          refine hi.out.same ?_
          rintro (hne | h')
          · exact absurd rfl hne
          · exact ⟨.inr (hW h').1, (hW h').2.2.2.symm⟩
        · next out hpc =>
            have halive : s.down ≠ .ended := by
              rw [hpc]
              exact writing_alive out
            have hkept := hi.out.kept (.inl halive)
            rw [hpc] at hkept
            refine ⟨taken, hi.crypto, hi'.hop, ⟨?_, ?_⟩,
              fun h' _ => hsettled h'⟩
            · rintro (hne | h')
              · exact absurd rfl hne
              · -- a clean cancellation has nothing in hand
                have hnone : out = [] := by
                  have hhand := (hW h').2.2.2
                  rw [hpc] at hhand
                  exact hhand
                rw [← hkept, hnone]
                simp [DownPc.inHand]
            · rw [← hkept]
              exact (List.prefix_append_right_inj _).mpr
                (List.take_prefix _ _)
      · cases h

/-- What the server's bytes live in. -/
def State.downlink (s : State) :
    RecvPc × Chan Bytes WS_CHANNEL_CAP × DownPc × CryptoDown × Bytes :=
  (s.recv, s.recvChan, s.down, s.downCrypto, s.toClient)

theorem flush_downlink (why : UpEnd) :
    (s.flush why).downlink = s.downlink := by
  unfold State.flush
  split <;> rfl

theorem putPart_downlink {part : Bytes} {next : UpPc}
    (h : s.putPart part next = some s') : s'.downlink = s.downlink := by
  unfold State.putPart at h
  split at h <;> cases h
  rfl

theorem applyUp_downlink {a : UpAction} (h : applyUp w aes a s = some s') :
    s'.downlink = s.downlink := by
  cases a <;> simp only [applyUp] at h <;> (repeat' split at h)
    <;> first
      | (cases h <;> first | rfl | exact flush_downlink _)
      | exact putPart_downlink h

theorem applySend_downlink {a : SendAction} (h : applySend a s = some s') :
    s'.downlink = s.downlink := by
  cases a <;> simp only [applySend] at h <;> (repeat' split at h)
    <;> cases h <;> rfl

theorem applyPing_downlink {a : PingAction} (h : applyPing a s = some s') :
    s'.downlink = s.downlink := by
  cases a <;> simp only [applyPing] at h <;> (repeat' split at h)
    <;> try (cases h <;> rfl)
  obtain ⟨t, ht, rfl⟩ := Option.map_eq_some_iff.mp h
  obtain ⟨-, hrecv, hchan, hdown, hcrypto, hclient⟩ := putPong_frame ht
  simp only [State.downlink, hrecv, hchan, hdown, hcrypto, hclient]

theorem applyMain_downlink {a : MainAction} (h : applyMain a s = some s') :
    s'.downlink = s.downlink := by
  cases a <;> simp only [applyMain] at h <;> (repeat' split at h)
    <;> cases h <;> rfl

theorem downInv_step {a : Action} (h : apply w aes a s = some s')
    (hW : W' → W ∧ Clean s a)
    (hi : ∃ taken, DownInv aes down₀ W sent taken s) :
    ∃ taken, DownInv aes down₀ W' (sent ++ a.payload) taken s' := by
  obtain ⟨taken, hi⟩ := hi
  have hsame : s'.downlink = s.downlink → a.payload = [] →
      ∃ taken, DownInv aes down₀ W' (sent ++ a.payload) taken s' := by
    intro hframe hquiet
    simp only [State.downlink, Prod.mk.injEq] at hframe
    obtain ⟨hrecv, hchan, hdown, hcrypto, hclient⟩ := hframe
    have hi' := hi.weaken fun h' => (hW h').1
    rw [hquiet, List.append_nil]
    refine ⟨taken, hcrypto ▸ hi'.crypto, ?_, ?_, ?_⟩
    · rw [hrecv, hchan]
      exact hi'.hop
    · rw [hclient, hdown]
      exact hi'.out
    · rw [hdown, hrecv, hchan]
      exact hi'.settled
  cases a with
  | up a => exact hsame (applyUp_downlink h) (by cases a <;> rfl)
  | send a => exact hsame (applySend_downlink h) rfl
  | ping a => exact hsame (applyPing_downlink h) rfl
  | recv a => exact ⟨taken, applyRecv_downInv h hW hi⟩
  | down a =>
      rw [show (Action.down a).payload = [] from rfl, List.append_nil]
      exact applyDown_downInv h hW hi
  | main a => exact hsame (applyMain_downlink h) rfl

-- ============================================================== runs

variable {R : Bytes} {ctx : CryptoCtx} {splitter : Option MsgSplitter}
  {idle : Option Nat} {xs : List Action}

/-- A new splitter holds nothing. -/
theorem new_holds_nothing (hR : R.length = HANDSHAKE_LEN) {sp : MsgSplitter}
    (h : MsgSplitter.new aes R proto = .ok sp) :
    Sim proto (sub R 8 40) (sub R 40 56) sp (64, .buffering [])
      ∧ sp.cipherBuf = [] := by
  obtain ⟨sp', hnew, hsim⟩ := new_sim aes hR proto
  rw [hnew] at h
  cases h
  refine ⟨hsim, ?_⟩
  rw [hsim.1]
  rfl

theorem upInv_start (hR : R.length = HANDSHAKE_LEN)
    (hsplitter : ∀ sp, splitter = some sp →
      MsgSplitter.new aes R proto = .ok sp) :
    UpInv aes ctx.split.1 proto (sub R 8 40) (sub R 40 56) W []
      (start ctx splitter idle) := by
  have hnil := (clientToTelegram_hom aes).nil ctx.split.1
  have hheld : (start ctx splitter idle).held = [] := by
    cases hsp : splitter with
    | none => rfl
    | some sp => exact (new_holds_nothing hR (hsplitter sp hsp)).2
  refine ⟨by rw [hnil]; rfl, ?_, ?_, fun _ => nofun, fun _ => nofun⟩
  · intro sp hsp
    exact ⟨_, (new_holds_nothing hR (hsplitter sp hsp)).1⟩
  · rw [hnil, hheld]
    exact .of_kept rfl

theorem downInv_start :
    DownInv aes ctx.split.2 W [] [] (start ctx splitter idle) := by
  have hnil := (telegramToClient_hom aes).nil ctx.split.2
  refine ⟨by rw [hnil]; rfl, .of_kept rfl, ?_, fun _ => nofun⟩
  rw [hnil]
  exact .of_kept rfl

/-- Both directions are carried, along every run. -/
theorem streams_run (hR : R.length = HANDSHAKE_LEN)
    (hsplitter : ∀ sp, splitter = some sp →
      MsgSplitter.new aes R proto = .ok sp)
    (h : run (apply w aes) xs (start ctx splitter idle) = some s) :
    UpInv aes ctx.split.1 proto (sub R 8 40) (sub R 40 56)
        (StepsMeet (apply w aes) Clean xs (start ctx splitter idle))
        (fromClient xs) s
      ∧ ∃ taken, DownInv aes ctx.split.2
        (StepsMeet (apply w aes) Clean xs (start ctx splitter idle))
        (fromServer xs) taken s := by
  refine run_history (apply w aes)
    (P := fun xs s =>
      UpInv aes ctx.split.1 proto (sub R 8 40) (sub R 40 56)
          (StepsMeet (apply w aes) Clean xs (start ctx splitter idle))
          (fromClient xs) s
        ∧ ∃ taken, DownInv aes ctx.split.2
          (StepsMeet (apply w aes) Clean xs (start ctx splitter idle))
          (fromServer xs) taken s)
    h ⟨upInv_start hR hsplitter, [], downInv_start⟩ ?_
  intro pre a t t' hpre hi hstep
  have hclean : StepsMeet (apply w aes) Clean (pre ++ [a])
      (start ctx splitter idle) →
        StepsMeet (apply w aes) Clean pre (start ctx splitter idle)
          ∧ Clean t a := fun hW =>
    ⟨StepsMeet.prefix_of (apply w aes) hW, hW pre a [] t rfl hpre⟩
  have hup := upInv_step hstep hclean hi.1
  have hdown := downInv_step hstep hclean hi.2
  rw [show fromClient (pre ++ [a]) = fromClient pre ++ a.read by
      simp [fromClient],
    show fromServer (pre ++ [a]) = fromServer pre ++ a.payload by
      simp [fromServer]]
  exact ⟨hup, hdown⟩

/-- What was put is on the WebSocket or left, in a clean run. -/
theorem written_carries
    (h : run (apply w aes) xs (start ctx splitter idle) = some s)
    (hi : UpInv aes up₀ proto key iv
      (StepsMeet (apply w aes) Clean xs (start ctx splitter idle)) read s) :
    Carries (StepsMeet (apply w aes) Clean xs (start ctx splitter idle))
      s.put s.written s.left := by
  refine ⟨fun hclean => ?_, written_prefix h⟩
  by_cases hended : s.send = .ended
  · have hwrites : Action.send .writeFailed ∉ xs := by
      intro hmem
      obtain ⟨pre, post, rfl⟩ := List.append_of_mem hmem
      obtain ⟨t, hpre, -⟩ := run_prefix (apply w aes) h
      exact hclean pre _ post t rfl hpre
    have hkept := kept_run h hwrites (fun pre a post t hxs hpre =>
      (hclean pre a post t hxs hpre).orderly.1) hended
    rw [(hi.settled hclean hended).2, List.append_nil, hkept]
  · exact (inv_run h).ledger hended

/-- A session between a client that encrypts `P` under its init packet and
a server that encrypts `Q` under the relay's is transparent. In every run,
whatever the interleaving, what fails and who is aborted, what the server
can decrypt is the beginning of `P`, and what the client can, of `Q`. In a
run that is clean so far, what is missing is on its way; once its tasks
have ended nothing is. -/
theorem bridge_transparent (w : Word) (aes : Aes256) (H R P Q : Bytes)
    (proto : UInt32) (ctx : CryptoCtx) (splitter : Option MsgSplitter)
    (idle : Option Nat) (xs : List Action) (s : State)
    (hH : H.length = HANDSHAKE_LEN) (hR : R.length = HANDSHAKE_LEN)
    (hctx : CryptoCtx.buildDirect aes H R = .ok ctx)
    (hsplitter : ∀ sp, splitter = some sp →
      MsgSplitter.new aes R proto = .ok sp)
    (hrun : run (apply w aes) xs (start ctx splitter idle) = some s)
    (hup : fromClient xs = maskFrom xorByte (forwardKs aes H) 64 P)
    (hdown : fromServer xs = maskFrom xorByte (reverseKs aes R) 0 Q) :
    Carries (StepsMeet (apply w aes) Clean xs (start ctx splitter idle))
        (maskFrom xorByte (forwardKs aes R) 64 P) s.written.flatten
        s.upTransit
      ∧ Carries (StepsMeet (apply w aes) Clean xs (start ctx splitter idle))
        (maskFrom xorByte (reverseKs aes H) 0 Q) s.toClient
        (s.downTransit aes)
      ∧ (StepsMeet (apply w aes) Clean xs (start ctx splitter idle) →
        (∀ task ∈ tasks, s.isEnded task = true) →
          s.upTransit = [] ∧ s.downTransit aes = []) := by
  rw [buildDirect_ok aes hH hR] at hctx
  cases hctx
  obtain ⟨hupInv, taken, hdownInv⟩ := streams_run hR hsplitter hrun
  refine ⟨?_, ?_, fun hclean hended => ⟨?_, ?_⟩⟩
  · have hput := hupInv.carries.weaken Or.inr
    rw [hup, directCtx_up] at hput
    exact (hput.trans (written_carries hrun hupInv).flatten).weaken
      fun hW => ⟨hW, hW⟩
  · have htaken := (hdownInv.hop.weaken Or.inr).hold.through
      (telegramToClient_hom aes) (directCtx H R).split.2
    rw [← hdownInv.crypto, hdown, directCtx_down] at htaken
    exact (htaken.trans (hdownInv.out.weaken Or.inr)).weaken
      fun hW => ⟨hW, hW⟩
  · have hsend : s.send = .ended :=
      eq_of_beq (hended .sendDriver (by decide))
    have hupEnd : s.up.isEnded = true := hended .up (by decide)
    have hover : s.up.pending = [] ∧ s.up.inLoop = false := by
      cases hpc : s.up <;> rw [hpc] at hupEnd <;> cases hupEnd
      exact ⟨rfl, rfl⟩
    rw [State.upTransit, (hupInv.settled hclean hsend).2, hover.1,
      hupInv.flushed hclean hover.2]
    rfl
  · have hdownEnd : s.down = .ended := eq_of_beq (hended .down (by decide))
    obtain ⟨hrecv, hqueue⟩ := hdownInv.settled hclean hdownEnd
    rw [State.downTransit, hdownEnd, hrecv, hqueue]
    exact congrArg Prod.fst ((telegramToClient_hom aes).nil s.downCrypto)

-- ============================================================= sample

/-- The server answers with a message before it closes. -/
def sampleAnswer : List Action :=
  [.recv (.message (maskFrom xorByte (reverseKs sampleAes sampleRelay) 0
      sampleIn)),
    .recv .send, .down .recv, .down .wrote]

/-- Both directions are delivered by the end of the sample session. -/
theorem bridge_transparent_sample :
    ∃ s, run (apply .w32 sampleAes) (sampleAnswer ++ sampleKept) sampleStart
        = some s
      ∧ s.written.flatten
        = maskFrom xorByte (forwardKs sampleAes sampleRelay) 64
            [1, 1, 2, 3, 4, 1, 9]
      ∧ s.toClient
        = maskFrom xorByte (reverseKs sampleAes sampleClient) 0 sampleIn := by
  have hend : ((run (apply .w32 sampleAes) (sampleAnswer ++ sampleKept)
      sampleStart).map fun s => decide (∀ task ∈ tasks, s.isEnded task = true))
      = some true := by decide +kernel
  obtain ⟨s, hrun, hobs⟩ := Option.map_eq_some_iff.mp hend
  have hclean : StepsMeet (apply .w32 sampleAes) Clean
      (sampleAnswer ++ sampleKept) sampleStart :=
    stepsMeet_of_meets _ (by decide +kernel)
  obtain ⟨hup, hdown, hsettled⟩ := bridge_transparent .w32 sampleAes
    sampleClient sampleRelay [1, 1, 2, 3, 4, 1, 9] sampleIn
    PROTO_ABRIDGED_INT sampleCtx (some sampleSplitter)
    (some (Duration.fromSecs 600)) (sampleAnswer ++ sampleKept) s
    (by decide) (by decide) (by decide +kernel)
    (by rintro _ ⟨⟩; decide +kernel) hrun
    (by decide +kernel) (by decide +kernel)
  obtain ⟨hupNil, hdownNil⟩ := hsettled hclean (of_decide_eq_true hobs)
  refine ⟨s, hrun, ?_, ?_⟩
  · rw [← hup.kept hclean, hupNil, List.append_nil]
  · rw [← hdown.kept hclean, hdownNil, List.append_nil]

end Wrtg.Bridge
