/-
What the 429 cooldown of a CF Proxy domain says of its past, in every
interleaving of the calls.

`verdict` reads the history of the run: the latest word of the servers on
a domain, unless a session connected since. An entry of the map is tied
to it by what is left of its cooldown (`Entry.Ok`), which a reading, a
forgotten entry and the clock cannot tell apart from what they leave.
That holds while no mark panics: up to a time and a maximum whose sum an
`Instant` can hold.
-/
import Wrtg.CfProxy
import Wrtg.Lib.Run
import Wrtg.Proofs.Cooldown429

namespace Wrtg.CfProxy

open Lib Ws Cooldown429

variable {s s' : State} {base max : Nat}

/-- The latest 429 of a domain that no connect is behind, and when. -/
def verdict : List Event → Text → Option (WsConnectError × Nat)
  | .limited cfDomain err time :: past, k =>
      if key cfDomain = k then some (err, time) else verdict past k
  | .connected cfDomain _ :: past, k =>
      if key cfDomain = k then none else verdict past k
  | _ :: past, k => verdict past k
  | [], _ => none

/-- The least delay a 429 brings: what it asks for or else the base, no
more than the maximum. -/
def least (base max : Nat) (e : WsConnectError) : Nat :=
  if retryAfterFromErr e > 0 then min (retryAfterFromErr e) max
  else min base max

/-- The most it brings, however many came before it. -/
def most (max : Nat) (e : WsConnectError) : Nat :=
  if retryAfterFromErr e > 0 then min (retryAfterFromErr e) max else max

-- ============================================================= entries

/-- What is left of a cooldown fits the verdict. -/
def Entry.Ok (base max now left : Nat) :
    Option (WsConnectError × Nat) → Prop
  | some (err, time) => time ≤ now
      ∧ time + least base max err ≤ now + left
      ∧ (0 < left → now + left ≤ time + most max err)
  | none => left = 0

/-- What is left of a cooldown grows less with the time. -/
theorem Entry.Ok.later {now now' left : Nat}
    {word : Option (WsConnectError × Nat)} (h : Entry.Ok base max now left word)
    (hle : now ≤ now') :
    Entry.Ok base max now' (left - (now' - now)) word := by
  cases word with
  | some word =>
      obtain ⟨htime, hleast, hmost⟩ := h
      refine ⟨by omega, by omega, fun hleft => ?_⟩
      have := hmost (by omega)
      omega
  | none =>
      rw [show left = 0 from h]
      exact Nat.zero_sub _

theorem leftOn_later (state : CooldownState) {now now' : Nat}
    (hle : now ≤ now') :
    leftOn state now' = leftOn state now - (now' - now) := by
  unfold leftOn
  cases state.untilAt with
  | none => exact (Nat.zero_sub _).symm
  | some u => simp only; omega

/-- The delay of a strike lies between the two. -/
theorem nextDelay_bounds (cd : Cooldown429) (prev : CooldownState)
    (e : WsConnectError) (now : Nat) :
    least cd.base cd.max e ≤ cd.nextDelay prev (retryAfterFromErr e) now
      ∧ cd.nextDelay prev (retryAfterFromErr e) now ≤ most cd.max e := by
  unfold least most nextDelay
  split
  · exact ⟨Nat.le_refl _, Nat.le_refl _⟩
  · simp only [doubled_eq]
    refine ⟨?_, Nat.min_le_right _ _⟩
    refine Nat.le_min.mpr ⟨?_, Nat.min_le_right _ _⟩
    exact Nat.le_trans (Nat.min_le_left _ _)
      (Nat.le_mul_of_pos_right _ (Nat.two_pow_pos _))

/-- A look at a domain changes what is left of none. -/
theorem leftOn_remaining (cd : Cooldown429) (k k' : Text) (now : Nat) :
    leftOn ((cd.remaining k now).2.entry k') now
      = leftOn (cd.entry k') now := by
  have hagree : Agree now (cd.remaining k now).2 cd := remaining_agree k now
  rw [← leftOn_seen (Nat.le_refl now), hagree.seen,
    leftOn_seen (Nat.le_refl now)]

-- =========================================================== invariant

/-- An event is right for what was behind it. -/
def Event.Ok (base max : Nat) (past : List Event) : Event → Prop
  | .admitted cfDomain time => key cfDomain ≠ [] →
      ∀ err told, verdict past (key cfDomain) = some (err, told) →
        told + least base max err ≤ time
  | .skipped cfDomain time =>
      ∃ err told, verdict past (key cfDomain) = some (err, told)
        ∧ told ≤ time ∧ time < told + most max err
  | _ => True

/-- Every event was right when it came. -/
def Right (base max : Nat) : List Event → Prop
  | [] => True
  | e :: past => e.Ok base max past ∧ Right base max past

/-- What holds in every state: the entries of the map go with the last word
of the history on their domain, and the history is right. -/
structure Cooling (base max : Nat) (s : State) : Prop where
  ofBase : s.cooldown.base = base
  ofMax : s.cooldown.max = max
  entries : ∀ k, k ≠ [] → Entry.Ok base max s.now
    (leftOn (s.cooldown.entry k) s.now) (verdict s.history k)
  right : Right base max s.history

theorem cooling_start (limit now : Nat) :
    Cooling base max (start base max limit now) where
  ofBase := rfl
  ofMax := rfl
  entries := fun _ _ => rfl
  right := trivial

/-- A step that leaves the cooldown, the history and the clock alone. -/
theorem Cooling.of_eq (h : Cooling base max s) (hnow : s'.now = s.now)
    (hcooldown : s'.cooldown = s.cooldown) (hhistory : s'.history = s.history) :
    Cooling base max s' where
  ofBase := hcooldown ▸ h.ofBase
  ofMax := hcooldown ▸ h.ofMax
  entries := by
    rw [hnow, hcooldown, hhistory]
    exact h.entries
  right := hhistory ▸ h.right

/-- A connect lifts the cooldown of its domain. -/
theorem Cooling.connected (h : Cooling base max s) (cfDomain : Text) :
    Cooling base max { s with
      cooldown := s.cooldown.clear cfDomain
      history := .connected cfDomain s.now :: s.history } where
  ofBase := (base_clear cfDomain).trans h.ofBase
  ofMax := (max_clear cfDomain).trans h.ofMax
  entries := by
    intro k hk
    show Entry.Ok base max s.now (leftOn ((s.cooldown.clear cfDomain).entry k)
      s.now) (if key cfDomain = k then none else verdict s.history k)
    split
    · next hkey =>
      subst hkey
      rw [entry_clear_self _ hk]
      rfl
    · next hkey =>
      rw [entry_clear_ne (Ne.symm hkey)]
      exact h.entries k hk
  right := ⟨trivial, h.right⟩

/-- A 429 sets it. -/
theorem Cooling.limited (h : Cooling base max s) (cfDomain : Text)
    (e : WsConnectError) (hfits : s.now + max < Instant.END) :
    Cooling base max { s with
      cooldown :=
        s.cooldown.marked cfDomain (retryAfterFromErr e) s.now
      history := .limited cfDomain e s.now :: s.history } where
  ofBase := (base_marked cfDomain).trans h.ofBase
  ofMax := (max_marked cfDomain).trans h.ofMax
  entries := by
    intro k hk
    show Entry.Ok base max s.now (leftOn ((s.cooldown.marked cfDomain
        (retryAfterFromErr e) s.now).entry k) s.now)
      (if key cfDomain = k then some (e, s.now) else verdict s.history k)
    split
    · next hkey =>
      subst hkey
      rw [entry_marked_self _ hk
        (fits_of_max cfDomain _ (h.ofMax.symm ▸ hfits))]
      have hbounds := nextDelay_bounds s.cooldown
        (s.cooldown.entry (key cfDomain)) e s.now
      rw [h.ofBase, h.ofMax] at hbounds
      show s.now ≤ s.now ∧ _ ≤ s.now + (s.now + _ - s.now)
        ∧ (_ → s.now + (s.now + _ - s.now) ≤ _)
      omega
    · next hkey =>
      rw [entry_marked_ne (Ne.symm hkey)]
      exact h.entries k hk
  right := ⟨trivial, h.right⟩

/-- A call reads the cooldown, and is admitted or skipped. -/
theorem Cooling.read (h : Cooling base max s) (cfDomain : Text) {e : Event}
    (hevent : e.Ok base max s.history)
    (hkept : ∀ k, verdict (e :: s.history) k = verdict s.history k) :
    Cooling base max { s with
      cooldown := (s.cooldown.remaining cfDomain s.now).2
      history := e :: s.history } where
  ofBase := (remaining_agree cfDomain s.now).base.trans h.ofBase
  ofMax := (remaining_agree cfDomain s.now).max.trans h.ofMax
  entries := by
    intro k hk
    rw [hkept k]
    show Entry.Ok base max s.now
      (leftOn ((s.cooldown.remaining cfDomain s.now).2.entry k) s.now) _
    rw [leftOn_remaining]
    exact h.entries k hk
  right := ⟨hevent, h.right⟩

/-- A call that leaves touches no cooldown. -/
theorem Cooling.leave (h : Cooling base max s) (i : Nat) (session : Session)
    (res : Option (Except WsConnectError Unit)) :
    Cooling base max (s.leave i session res) :=
  h.of_eq rfl rfl rfl

/-- A call ends with a connect, a 429, or neither. -/
theorem Cooling.finish (h : Cooling base max s) (i : Nat) (session : Session)
    (res : Except WsConnectError Unit) (hfits : s.now + max < Instant.END) :
    Cooling base max (s.finish i session res) := by
  unfold State.finish
  split
  · exact (h.connected session.cfDomain).leave i session _
  · next e =>
    split
    · simp only
      rw [Cooldown429.mark, markFor_eq_marked (.inr
        (fits_of_max session.cfDomain _ (h.ofMax.symm ▸ hfits)))]
      exact (h.limited session.cfDomain e hfits).leave i session _
    · exact h.leave i session _

/-- A host that is through ends the call, or the next is dialled. -/
theorem Cooling.hostFailed (h : Cooling base max s) (i : Nat)
    (session : Session) (e : WsConnectError) (rest : List Text)
    (hfits : s.now + max < Instant.END) :
    Cooling base max (s.hostFailed i session e rest) := by
  unfold State.hostFailed
  split
  · exact h.finish i session _ hfits
  · split
    · exact h.finish i session _ hfits
    · exact h.of_eq rfl rfl rfl

theorem finish_now (s : State) (i : Nat) (session : Session)
    (res : Except WsConnectError Unit) : (s.finish i session res).now = s.now := by
  unfold State.finish
  split
  · rfl
  · split
    · simp only
      split <;> rfl
    · rfl

theorem hostFailed_now (s : State) (i : Nat) (session : Session)
    (e : WsConnectError) (rest : List Text) :
    (s.hostFailed i session e rest).now = s.now := by
  unfold State.hostFailed
  split
  · exact finish_now ..
  · split
    · exact finish_now ..
    · rfl

/-- The clock does not go back. -/
theorem now_le {a : Action} (hstep : apply a s = some s') :
    s.now ≤ s'.now := by
  cases a with
  | pass duration =>
      cases hstep
      exact Nat.le_add_right ..
  | call cfDomain dc isMedia =>
      simp only [apply] at hstep
      split at hstep <;> cases hstep <;> exact Nat.le_refl _
  | acquired i =>
      simp only [apply] at hstep
      split at hstep
      · split at hstep
        · split at hstep <;> cases hstep
          · exact (finish_now { s with permits := s.permits - 1 } i _ _).ge
          · exact Nat.le_refl _
        · cases hstep
      · cases hstep
  | dialled i res =>
      simp only [apply] at hstep
      split at hstep
      · split at hstep
        · cases hstep
          exact (finish_now ..).ge
        · split at hstep
          · cases hstep
            exact (hostFailed_now ..).ge
          · split at hstep <;> cases hstep
            · exact (hostFailed_now ..).ge
            · exact Nat.le_refl _
      · split at hstep <;> cases hstep
        · exact (finish_now ..).ge
        · exact (hostFailed_now ..).ge
      · cases hstep
  | resolved i ip =>
      simp only [apply] at hstep
      split at hstep
      · split at hstep <;> cases hstep
        · exact (hostFailed_now ..).ge
        · exact Nat.le_refl _
      · cases hstep
  | dropped i =>
      simp only [apply] at hstep
      split at hstep
      · split at hstep <;> cases hstep <;> exact Nat.le_refl _
      · cases hstep

/-- Every step keeps the map and the history together. -/
theorem cooling_step {a : Action} (h : Cooling base max s)
    (hstep : apply a s = some s') (hfits : s.now + max < Instant.END) :
    Cooling base max s' := by
  cases a with
  | pass duration =>
      cases hstep
      refine ⟨h.ofBase, h.ofMax, fun k hk => ?_, h.right⟩
      show Entry.Ok base max (s.now + duration)
        (leftOn (s.cooldown.entry k) (s.now + duration)) (verdict s.history k)
      rw [leftOn_later _ (Nat.le_add_right s.now duration)]
      exact (h.entries k hk).later (Nat.le_add_right ..)
  | call cfDomain dc isMedia =>
      simp only [apply] at hstep
      split at hstep
      · next hleft =>
        cases hstep
        refine h.read cfDomain ?_ fun _ => rfl
        rw [remaining_fst] at hleft
        split at hleft
        · cases hleft
        · next hkey =>
          rw [List.isEmpty_iff] at hkey
          have hentry := h.entries _ hkey
          show ∃ err told, verdict s.history (key cfDomain) = some (err, told)
            ∧ told ≤ s.now ∧ s.now < told + most max err
          cases hword : verdict s.history (key cfDomain) with
          | some word =>
              rw [hword] at hentry
              obtain ⟨htime, _, hmost⟩ := hentry
              have := hmost hleft
              exact ⟨word.1, word.2, rfl, htime, by omega⟩
          | none =>
              rw [hword] at hentry
              rw [show leftOn _ s.now = 0 from hentry] at hleft
              cases hleft
      · next hleft =>
        cases hstep
        refine Cooling.of_eq (h.read cfDomain (e := .admitted cfDomain s.now)
          ?_ fun _ => rfl) rfl rfl rfl
        intro hkey err told hword
        have hentry := h.entries _ hkey
        rw [hword] at hentry
        rw [remaining_fst, if_neg (by rw [List.isEmpty_iff]; exact hkey)]
          at hleft
        have := hentry.2.1
        omega
  | acquired i =>
      simp only [apply] at hstep
      split at hstep
      · split at hstep
        · split at hstep
          · cases hstep
            refine Cooling.finish ?_ i _ _ hfits
            exact h.of_eq rfl rfl rfl
          · cases hstep
            exact h.of_eq rfl rfl rfl
        · cases hstep
      · cases hstep
  | dialled i res =>
      simp only [apply] at hstep
      split at hstep
      · split at hstep
        · cases hstep
          exact h.finish i _ _ hfits
        · split at hstep
          · cases hstep
            exact h.hostFailed i _ _ _ hfits
          · split at hstep
            · cases hstep
              exact h.hostFailed i _ _ _ hfits
            · cases hstep
              exact h.of_eq rfl rfl rfl
      · split at hstep
        · cases hstep
          exact h.finish i _ _ hfits
        · cases hstep
          exact h.hostFailed i _ _ _ hfits
      · cases hstep
  | resolved i ip =>
      simp only [apply] at hstep
      split at hstep
      · split at hstep
        · cases hstep
          exact h.hostFailed i _ _ _ hfits
        · cases hstep
          exact h.of_eq rfl rfl rfl
      · cases hstep
  | dropped i =>
      simp only [apply] at hstep
      split at hstep
      · split at hstep
        · cases hstep
          exact h.leave i _ none
        · cases hstep
          exact h.of_eq rfl rfl rfl
      · cases hstep

/-- Each event of a right history was right when it came. -/
theorem Right.of_append {past post : List Event} {e : Event}
    (h : Right base max (post ++ e :: past)) : e.Ok base max past := by
  induction post with
  | nil => exact h.1
  | cons _ post ih => exact ih h.2

/-- The cooldown of a domain is neither too short nor too long, whatever
calls, dials and aborts come in between, up to a time and a maximum whose
sum an `Instant` can hold. A call gets past it only where
no 429 of the domain is left standing by a later connect, or where the
latest is at least the `Retry-After` it brought ago, or else the base
(either cut to the maximum); and one is skipped only within the
`Retry-After` of such a 429, or else the maximum. -/
theorem cooldown_evidence {limit now : Nat} {as : List Action}
    (hrun : run apply as (start base max limit now) = some s)
    (hfits : s.now + max < Instant.END)
    (past post : List Event) {cfDomain : Text} {time : Nat} :
    (s.history = post ++ .admitted cfDomain time :: past →
      key cfDomain ≠ [] →
      ∀ err told, verdict past (key cfDomain) = some (err, told) →
        told + least base max err ≤ time)
    ∧ (s.history = post ++ .skipped cfDomain time :: past →
      ∃ err told, verdict past (key cfDomain) = some (err, told)
        ∧ told ≤ time ∧ time < told + most max err) := by
  have hcooling : Cooling base max s := by
    refine run_history apply
      (P := fun _ s => s.now + max < Instant.END → Cooling base max s) hrun
      (fun _ => cooling_start limit now) ?_ hfits
    intro _ _ t t' _ h hstep hfits
    have hfits : t.now + max < Instant.END :=
      Nat.lt_of_le_of_lt (Nat.add_le_add_right (now_le hstep) max) hfits
    exact cooling_step (h hfits) hstep hfits
  constructor
  · intro hhistory
    have hright := hcooling.right
    rw [hhistory] at hright
    exact hright.of_append
  · intro hhistory
    have hright := hcooling.right
    rw [hhistory] at hright
    exact hright.of_append

/-- A 429 that asks for nothing. -/
def sampleErr : WsConnectError :=
  .handshake { statusCode := 429, headers := ∅ }

/-- A domain is limited at once, and skipped by the next call. -/
def sampleRun : List Action :=
  [ .call "a.example".toList 2 false, .acquired 0,
    .dialled 0 (.error sampleErr), .pass 20,
    .call "A.example ".toList 4 true ]

theorem sample_history :
    (run apply sampleRun (start 45 300 2 0)).map
        (fun s => (s.now, s.history))
      = some (20, [ .skipped "A.example ".toList 20,
                    .limited "a.example".toList sampleErr 0,
                    .admitted "a.example".toList 0 ]) := by
  rfl

theorem cooldown_evidence_sample :
    ∃ s, run apply sampleRun (start 45 300 2 0) = some s
      ∧ ∃ err told, verdict s.history (key "A.example ".toList)
          = some (err, told) ∧ told ≤ 20 ∧ 20 < told + most 300 err := by
  obtain ⟨s, hrun, hs⟩ := Option.map_eq_some_iff.mp sample_history
  have hnow : s.now = 20 := congrArg (·.1) hs
  have hhistory : s.history = _ := congrArg (·.2) hs
  refine ⟨s, hrun, ?_⟩
  obtain ⟨err, told, hword, hbounds⟩ :=
    (cooldown_evidence hrun (by rw [hnow]; decide) _ []).2 hhistory
  refine ⟨err, told, ?_, hbounds⟩
  rw [hhistory]
  exact hword

end Wrtg.CfProxy
