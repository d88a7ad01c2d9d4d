/-
A task that moves a stream from one end to another: it reads a chunk,
makes something of it, writes all of that bit by bit, and shuts the
writing end down behind the end of what it reads, or of what the writing
end takes.

A pump is a conduit (`Inv`). It loses only what it has in hand where a
write fails or where it is cancelled (`Keeps`), so a pump that has come to
its end by itself has written what its stage makes of all it has read
(`Inv.delivered`).
-/
import Wrtg.Lib.Conduit

namespace Wrtg.Lib

inductive PumpPc (β : Type) where
  | reading
  | writing (out : List β)
  | closing
  | ended
  deriving DecidableEq, Repr

structure Pump (σ β : Type) where
  state : σ
  pc : PumpPc β
  written : List β
  /-- The writing end is shut down. -/
  shut : Bool

inductive PumpAction (α : Type) where
  | read (data : List α)
  | eof
  | readFailed
  | wrote (count : Nat)
  | writeFailed
  | shut
  | cancelled
  deriving DecidableEq, Repr

/-- What a step reads. -/
def PumpAction.data {α : Type} : PumpAction α → List α
  | .read data => data
  | _ => []

/-- Behind a write: more of it, or the next read. -/
def PumpPc.afterWrite {β : Type} : List β → PumpPc β
  | [] => .reading
  | b :: out => .writing (b :: out)

namespace Pump

variable {σ α β : Type} {f : σ → List α → List β × σ} {cap : Nat}
  {s₀ : σ} {W W' : Prop} {entered : List α} {p p' : Pump σ β}

def start (s : σ) : Pump σ β where
  state := s
  pc := .reading
  written := []
  shut := false

/-- What is read and not written. -/
def inHand (p : Pump σ β) : List β :=
  match p.pc with
  | .writing out => out
  | _ => []

/-- The pump is in its loop. -/
def working (p : Pump σ β) : Bool :=
  match p.pc with
  | .reading => true
  | .writing _ => true
  | _ => false

/-- A read gives at most `cap` items, and none only at the end. -/
def apply (f : σ → List α → List β × σ) (cap : Nat) :
    PumpAction α → Pump σ β → Option (Pump σ β)
  | .read data, p => match p.pc with
      | .reading =>
          if data.isEmpty || decide (cap < data.length) then none
          else
            let (out, state) := f p.state data
            some { p with state, pc := .afterWrite out }
      | _ => none
  | .eof, p => match p.pc with
      | .reading => some { p with pc := .closing }
      | _ => none
  | .readFailed, p => match p.pc with
      | .reading => some { p with pc := .closing }
      | _ => none
  | .wrote count, p => match p.pc with
      | .writing out =>
          if 0 < count ∧ count ≤ out.length then
            some { p with written := p.written ++ out.take count
                          pc := .afterWrite (out.drop count) }
          else none
      | _ => none
  | .writeFailed, p => match p.pc with
      | .writing _ => some { p with pc := .closing }
      | _ => none
  | .shut, p => match p.pc with
      | .closing => some { p with pc := .ended, shut := true }
      | _ => none
  | .cancelled, p => match p.pc with
      | .ended => none
      | _ => some { p with pc := .ended }

/-- The step does not let go of what the pump has in hand. -/
def Keeps (p : Pump σ β) : PumpAction α → Prop
  | .writeFailed => False
  | .cancelled => p.inHand = []
  | _ => True

/-- The stage is where what has been read has brought it, and what it has
made of that is written or in hand. -/
structure Inv (f : σ → List α → List β × σ) (s₀ : σ) (W : Prop)
    (entered : List α) (p : Pump σ β) : Prop where
  state : p.state = (f s₀ entered).2
  carries : Carries (p.working = true ∨ W) (f s₀ entered).1 p.written
    p.inHand

theorem inv_start (hf : ChunkHom f) : Inv f s₀ W [] (start s₀) := by
  refine ⟨by rw [hf.nil]; rfl, ?_⟩
  rw [hf.nil]
  exact .of_kept rfl

theorem Inv.weaken (hi : Inv f s₀ W entered p) (hW : W' → W) :
    Inv f s₀ W' entered p :=
  ⟨hi.state, hi.carries.weaken (Or.imp_right hW)⟩

theorem afterWrite_inHand {q : Pump σ β} {out : List β}
    (h : q.pc = .afterWrite out) : q.inHand = out ∧ q.working = true := by
  unfold inHand working
  rw [h]
  cases out <;> exact ⟨rfl, rfl⟩

/-- A step that reads nothing and writes nothing. -/
theorem inv_same (hi : Inv f s₀ W entered p) (hstate : p'.state = p.state)
    (hwritten : p'.written = p.written)
    (hkept : (p'.working = true ∨ W') →
      (p.working = true ∨ W) ∧ p'.inHand = p.inHand) :
    Inv f s₀ W' entered p' := by
  refine ⟨hstate ▸ hi.state, ?_⟩
  rw [hwritten]
  exact hi.carries.same hkept

theorem inv_step {a : PumpAction α} (hf : ChunkHom f)
    (h : apply f cap a p = some p') (hW : W' → W ∧ Keeps p a)
    (hi : Inv f s₀ W entered p) : Inv f s₀ W' (entered ++ a.data) p' := by
  have hi' := hi.weaken fun h' => (hW h').1
  cases a with
  | read data =>
      simp only [apply] at h
      split at h
      · next hpc =>
          split at h
          · cases h
          · cases h
            have hfed := hf.append s₀ entered data
            rw [← hi.state] at hfed
            have hhand : p.inHand = [] ∧ p.working = true := by
              unfold inHand working
              rw [hpc]
              exact ⟨rfl, rfl⟩
            obtain ⟨hnext, -⟩ := afterWrite_inHand
              (q := { p with state := (f p.state data).2
                             pc := .afterWrite (f p.state data).1 }) rfl
            refine ⟨by rw [PumpAction.data, hfed], ?_⟩
            rw [PumpAction.data, hfed]
            have hc := hi'.carries.enter (f p.state data).1
            rw [hhand.1, List.nil_append] at hc
            exact (hc.weaken fun _ => .inl hhand.2).congr hnext.symm
      · cases h
  | eof =>
      show Inv f s₀ W' (entered ++ []) p'
      rw [List.append_nil]
      simp only [apply] at h
      split at h <;> cases h
      next hpc =>
      refine inv_same hi' rfl rfl fun _ => ⟨?_, ?_⟩
      · exact .inl (by unfold working; rw [hpc])
      · unfold inHand
        rw [hpc]
  | readFailed =>
      show Inv f s₀ W' (entered ++ []) p'
      rw [List.append_nil]
      simp only [apply] at h
      split at h <;> cases h
      next hpc =>
      refine inv_same hi' rfl rfl fun _ => ⟨?_, ?_⟩
      · exact .inl (by unfold working; rw [hpc])
      · unfold inHand
        rw [hpc]
  | wrote count =>
      show Inv f s₀ W' (entered ++ []) p'
      rw [List.append_nil]
      simp only [apply] at h
      split at h
      · next out hpc =>
          split at h
          · cases h
            obtain ⟨hnext, -⟩ := afterWrite_inHand
              (q := { p with written := p.written ++ out.take count
                             pc := .afterWrite (out.drop count) }) rfl
            have hworking : p.working = true := by
              unfold working
              rw [hpc]
            have hhand : p.inHand = out := by
              unfold inHand
              rw [hpc]
            refine ⟨hi.state, hi.carries.move (.inl hworking) ?_⟩
            rw [hnext, hhand, List.append_assoc, List.take_append_drop]
          · cases h
      · cases h
  | writeFailed =>
      show Inv f s₀ W' (entered ++ []) p'
      rw [List.append_nil]
      simp only [apply] at h
      split at h <;> cases h
      refine inv_same hi' rfl rfl ?_
      rintro (hworking | h')
      · cases hworking
      · exact (hW h').2.elim
  | shut =>
      show Inv f s₀ W' (entered ++ []) p'
      rw [List.append_nil]
      simp only [apply] at h
      split at h <;> cases h
      next hpc =>
      refine inv_same hi' rfl rfl ?_
      rintro (hworking | h')
      · cases hworking
      · refine ⟨.inr h', ?_⟩
        unfold inHand
        rw [hpc]
  | cancelled =>
      show Inv f s₀ W' (entered ++ []) p'
      rw [List.append_nil]
      simp only [apply] at h
      split at h <;> cases h
      refine inv_same hi' rfl rfl ?_
      rintro (hworking | h')
      · cases hworking
      · exact ⟨.inr h', (hW h').2.symm⟩

/-- A pump takes no step behind its end. -/
theorem alive_of_step {a : PumpAction α} (h : apply f cap a p = some p') :
    p.pc ≠ .ended := by
  intro hended
  cases a <;> simp [apply, hended] at h

/-- A pump that is not cancelled ends behind its shutdown. -/
theorem shut_of_step {a : PumpAction α} (h : apply f cap a p = some p')
    (ha : a ≠ .cancelled) (hended : p'.pc = .ended) : p'.shut = true := by
  have hafter : ∀ out : List β, PumpPc.afterWrite out ≠ .ended := by
    intro out
    cases out <;> exact nofun
  cases a <;> simp only [apply] at h <;> (repeat' split at h) <;> cases h
    <;> first
      | rfl
      | exact absurd rfl ha
      | exact absurd hended (hafter _)
      | cases hended

/-- A pump that has left its loop with nothing lost has delivered. -/
theorem Inv.delivered (hi : Inv f s₀ W entered p) (hW : W)
    (hpc : p.working = false) : p.written = (f s₀ entered).1 := by
  have hhand : p.inHand = [] := by
    unfold working at hpc
    unfold inHand
    cases hat : p.pc <;> first | rfl | (rw [hat] at hpc; cases hpc)
  rw [← hi.carries.kept (.inr hW), hhand, List.append_nil]

end Pump

end Wrtg.Lib
