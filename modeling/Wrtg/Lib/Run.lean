/-
Runs of a partial step function: `apply a s` is the state after action
`a`, or `none` where the action is not enabled.

`run_invariant` is the one induction the concurrent components need: a
predicate that holds at the start and that every step of the run keeps,
under a condition on the steps if need be (`StepsMeet`), holds at the
end; and since a prefix of a run is a run whose steps meet the same
condition (`StepsMeet.take`), in every state on the way. `run_history`
is the same induction for what a state owes to the actions behind it.
-/
import Mathlib.Data.List.Induction

namespace Wrtg.Lib

variable {σ α : Type} (apply : α → σ → Option σ)

/-- The state after a list of actions, if each is enabled in turn. -/
def run : List α → σ → Option σ
  | [], s => some s
  | a :: as, s => (apply a s).bind (run as)

@[simp] theorem run_nil (s : σ) : run apply [] s = some s := rfl

theorem run_cons (a : α) (as : List α) (s : σ) :
    run apply (a :: as) s = (apply a s).bind (run apply as) := rfl

theorem run_append (as bs : List α) (s : σ) :
    run apply (as ++ bs) s = (run apply as s).bind (run apply bs) := by
  induction as generalizing s with
  | nil => rfl
  | cons a as ih =>
      rw [List.cons_append, run_cons, run_cons, Option.bind_assoc]
      congr 1
      funext t
      exact ih t

/-- A run of one action more. -/
theorem run_concat {as : List α} {a : α} {s s' : σ}
    (h : run apply (as ++ [a]) s = some s') :
    ∃ t, run apply as s = some t ∧ apply a t = some s' := by
  rw [run_append, Option.bind_eq_some_iff] at h
  obtain ⟨t, ht, ha⟩ := h
  refine ⟨t, ht, ?_⟩
  rw [run_cons] at ha
  cases hs : apply a t with
  | none => rw [hs] at ha; cases ha
  | some u => rw [hs] at ha; exact ha

/-- A run that went through passes through every prefix. -/
theorem run_prefix {as bs : List α} {s s' : σ}
    (h : run apply (as ++ bs) s = some s') :
    ∃ t, run apply as s = some t ∧ run apply bs t = some s' := by
  rw [run_append, Option.bind_eq_some_iff] at h
  exact h

/-- Every step of a run, with the state it is taken in, meets `C`. -/
def StepsMeet (C : σ → α → Prop) (as : List α) (s : σ) : Prop :=
  ∀ pre a post t, as = pre ++ a :: post → run apply pre s = some t → C t a

/-- A prefix of a run meets what the run meets. -/
theorem StepsMeet.prefix_of {C : σ → α → Prop} {as bs : List α} {s : σ}
    (h : StepsMeet apply C (as ++ bs) s) : StepsMeet apply C as s := by
  intro pre a post t has hrun
  refine h pre a (post ++ bs) t ?_ hrun
  rw [has, List.append_assoc, List.cons_append]

/-- `StepsMeet`, decided along a concrete run. -/
def meets (C : σ → α → Prop) [∀ s a, Decidable (C s a)] :
    List α → σ → Bool
  | [], _ => true
  | a :: as, s =>
      decide (C s a) && match apply a s with
        | some s' => meets C as s'
        | none => true

theorem stepsMeet_of_meets {C : σ → α → Prop} [∀ s a, Decidable (C s a)]
    {as : List α} {s : σ} (h : meets apply C as s = true) :
    StepsMeet apply C as s := by
  induction as generalizing s with
  | nil =>
      intro pre a post t has
      cases pre <;> cases has
  | cons b as ih =>
      rw [meets, Bool.and_eq_true] at h
      obtain ⟨hb, htail⟩ := h
      intro pre a post t has hrun
      cases pre with
      | nil =>
          cases has
          cases hrun
          exact of_decide_eq_true hb
      | cons c pre =>
          cases has
          rw [run_cons] at hrun
          cases hs : apply b s with
          | none => rw [hs] at hrun; cases hrun
          | some s' =>
              rw [hs] at hrun htail
              exact ih htail pre a post t rfl hrun

/-- An invariant of the steps that meet `C` is one of the runs whose
steps all meet it. -/
theorem run_invariant {C : σ → α → Prop} {P : σ → Prop} {s₀ s : σ}
    {as : List α} (hrun : run apply as s₀ = some s)
    (hC : StepsMeet apply C as s₀) (h₀ : P s₀)
    (hstep : ∀ t a t', P t → C t a → apply a t = some t' → P t') : P s := by
  induction as using List.reverseRecOn generalizing s with
  | nil =>
      rw [run_nil] at hrun
      exact Option.some.inj hrun ▸ h₀
  | append_singleton as a ih =>
      obtain ⟨t, ht, ha⟩ := run_concat apply hrun
      exact hstep t a s (ih ht (StepsMeet.prefix_of apply hC))
        (hC as a [] t rfl ht) ha

/-- An invariant of a state and of the actions that led to it. -/
theorem run_history {P : List α → σ → Prop} {s₀ s : σ} {as : List α}
    (hrun : run apply as s₀ = some s) (h₀ : P [] s₀)
    (hstep : ∀ pre a t t', run apply pre s₀ = some t → P pre t →
      apply a t = some t' → P (pre ++ [a]) t') : P as s := by
  induction as using List.reverseRecOn generalizing s with
  | nil =>
      rw [run_nil] at hrun
      exact Option.some.inj hrun ▸ h₀
  | append_singleton as a ih =>
      obtain ⟨t, ht, ha⟩ := run_concat apply hrun
      exact hstep as a t s ht (ih ht) ha

end Wrtg.Lib
