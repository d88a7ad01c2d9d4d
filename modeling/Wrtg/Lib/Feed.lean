/-
Stateful stages fed one input at a time: the machine model under every
"however the stream is cut" statement of the development.

# The facts a relay needs

- A stage that is a homomorphism of concatenation (`ChunkHom`) answers
  a chunked stream with a chunked answer: flattening commutes with
  feeding (`feed_flatten`), so the cut is unobservable.
- Two independent stages driven by one interleaved input list
  (`par`) answer each side as if the other were not there
  (`feed_par_left`, `feed_par_right`).
- A run of two stages in a row (`andThen`) is a run of the second over
  the outputs of the first (`feed_andThen`).

`feedE` is the same drive for a stage that can fail; `feedE_refines`
transports a simulation of single steps to whole runs.
-/
import Mathlib.Data.List.Basic
import Mathlib.Data.Sum.Basic

namespace Wrtg.Lib

variable {σ σ₁ σ₂ ι ι₁ ι₂ ο ο₁ ο₂ α β γ ε : Type}

-- ============================================================ feeding

/-- Drive a stage through a list of inputs, collecting one output per
input. -/
def feed (f : σ → ι → ο × σ) : σ → List ι → List ο × σ
  | s, [] => ([], s)
  | s, c :: cs =>
      let r := f s c
      let t := feed f r.2 cs
      (r.1 :: t.1, t.2)

@[simp] theorem feed_nil (f : σ → ι → ο × σ) (s : σ) :
    feed f s [] = ([], s) := rfl

theorem feed_cons (f : σ → ι → ο × σ) (s : σ) (c : ι) (cs : List ι) :
    feed f s (c :: cs)
      = ((f s c).1 :: (feed f (f s c).2 cs).1, (feed f (f s c).2 cs).2) :=
  rfl

/-- Feeding composes along concatenation of the input list. -/
theorem feed_append (f : σ → ι → ο × σ) (s : σ) (as bs : List ι) :
    feed f s (as ++ bs)
      = ((feed f s as).1 ++ (feed f (feed f s as).2 bs).1,
          (feed f (feed f s as).2 bs).2) := by
  induction as generalizing s with
  | nil => rfl
  | cons a as ih =>
      rw [List.cons_append, feed_cons, ih, feed_cons]
      rfl

/-- What is done to each output is done to the outputs of the run. -/
theorem feed_map (g : ο → ο₁) (f : σ → ι → ο × σ) (s : σ) (cs : List ι) :
    feed (fun s c => (g (f s c).1, (f s c).2)) s cs
      = ((feed f s cs).1.map g, (feed f s cs).2) := by
  induction cs generalizing s with
  | nil => rfl
  | cons c cs ih =>
      rw [feed_cons, ih]
      rfl

/-- The output at one place of a run is the step from the state before
it. -/
theorem feed_getElem? (f : σ → ι → ο × σ) (s : σ) {cs : List ι} {i : Nat}
    {c : ι} (h : cs[i]? = some c) :
    (feed f s cs).1[i]? = some (f (feed f s (cs.take i)).2 c).1 := by
  induction cs generalizing s i with
  | nil => cases h
  | cons d cs ih =>
      cases i with
      | zero =>
          cases h
          rfl
      | succ i => exact ih (f s d).2 h

/-- The state behind one place of a run. -/
theorem feed_take_succ (f : σ → ι → ο × σ) (s : σ) {cs : List ι} {i : Nat}
    {c : ι} (h : cs[i]? = some c) :
    (feed f s (cs.take (i + 1))).2 = (f (feed f s (cs.take i)).2 c).2 := by
  rw [List.take_add_one, h, feed_append]
  rfl

/-- Inputs whose times do not go back. -/
theorem time_le_of_sorted {time : ι → Nat} {cs : List ι} {c d : ι}
    {i j : Nat} (hsorted : (cs.map time).Pairwise (· ≤ ·))
    (hi : cs[i]? = some c) (hj : cs[j]? = some d) (hij : i < j) :
    time c ≤ time d := by
  obtain ⟨hil, hi⟩ := List.getElem?_eq_some_iff.mp hi
  obtain ⟨hjl, hj⟩ := List.getElem?_eq_some_iff.mp hj
  have hle := List.pairwise_iff_getElem.mp hsorted i j
    (by rwa [List.length_map]) (by rwa [List.length_map]) hij
  rw [List.getElem_map, List.getElem_map, hi, hj] at hle
  exact hle

-- ============================================== chunk homomorphisms

/-- A stage on chunks that cannot see where the stream was cut. -/
structure ChunkHom (f : σ → List α → List β × σ) : Prop where
  nil : ∀ s, f s [] = ([], s)
  append : ∀ s a b,
    f s (a ++ b) = ((f s a).1 ++ (f (f s a).2 b).1, (f (f s a).2 b).2)

/-- Flattening commutes with feeding a chunk homomorphism: outputs and
final state depend on the concatenated input only. -/
theorem feed_flatten {f : σ → List α → List β × σ} (hf : ChunkHom f)
    (s : σ) (cs : List (List α)) :
    ((feed f s cs).1.flatten, (feed f s cs).2) = f s cs.flatten := by
  induction cs generalizing s with
  | nil => rw [List.flatten_nil, hf.nil]; rfl
  | cons c cs ih =>
      rw [List.flatten_cons, hf.append, ← ih]
      rfl

/-- Two stages in a row, as one stage on the pair of states. -/
def andThen (f : σ₁ → List α → List β × σ₁)
    (g : σ₂ → List β → List γ × σ₂) :
    σ₁ × σ₂ → List α → List γ × (σ₁ × σ₂) := fun s c =>
  let r := f s.1 c
  let t := g s.2 r.1
  (t.1, (r.2, t.2))

/-- A run of two stages in a row is a run of the second over the
outputs of the first. -/
theorem feed_andThen (f : σ₁ → List α → List β × σ₁)
    (g : σ₂ → List β → List γ × σ₂) (s : σ₁ × σ₂) (cs : List (List α)) :
    feed (andThen f g) s cs
      = ((feed g s.2 (feed f s.1 cs).1).1,
          ((feed f s.1 cs).2, (feed g s.2 (feed f s.1 cs).1).2)) := by
  induction cs generalizing s with
  | nil => rfl
  | cons c cs ih =>
      rw [feed_cons, ih]
      rfl

-- ====================================================== quiet inputs

/-- The items a list of marked items keeps. -/
def chosen (xs : List (α × Bool)) : List α :=
  (xs.filter Prod.snd).map Prod.fst

@[simp] theorem chosen_nil : chosen ([] : List (α × Bool)) = [] := rfl

@[simp] theorem chosen_cons_true (a : α) (xs : List (α × Bool)) :
    chosen ((a, true) :: xs) = a :: chosen xs := rfl

@[simp] theorem chosen_cons_false (a : α) (xs : List (α × Bool)) :
    chosen ((a, false) :: xs) = chosen xs := rfl

/-- Inputs that disturb nothing may be left out. `R t` is what two
states must share to look alike from time `t` on: every input answers
alike on such states and leaves such states, and a quiet one leaves the
state it found, up to `R`. -/
theorem feed_skip {f : σ → ι → ο × σ} (R : Nat → σ → σ → Prop)
    (time : ι → Nat) (quiet : ι → Prop)
    (mono : ∀ t t' s s', t ≤ t' → R t s s' → R t' s s')
    (answer : ∀ c s s', R (time c) s s' →
      (f s c).1 = (f s' c).1 ∧ R (time c) (f s c).2 (f s' c).2)
    (still : ∀ c s s', quiet c → R (time c) s s' →
      R (time c) (f s c).2 s')
    (xs : List (ι × Bool)) (hquiet : ∀ x ∈ xs, x.2 = false → quiet x.1)
    (hsorted : (xs.map fun x => time x.1).Pairwise (· ≤ ·))
    {t : Nat} (ht : ∀ x ∈ xs, t ≤ time x.1) {s s' : σ} (h : R t s s') :
    chosen ((feed f s (xs.map Prod.fst)).1.zip (xs.map Prod.snd))
      = (feed f s' (chosen xs)).1 := by
  induction xs generalizing t s s' with
  | nil => rfl
  | cons x xs ih =>
      obtain ⟨c, keep⟩ := x
      have hnow : R (time c) s s' :=
        mono t _ s s' (ht (c, keep) (List.mem_cons_self ..)) h
      obtain ⟨hle, htail⟩ := List.pairwise_cons.mp hsorted
      have hlater : ∀ x ∈ xs, time c ≤ time x.1 := fun x hx =>
        hle _ (List.mem_map_of_mem (f := fun x => time x.1) hx)
      have hquiet' := fun x hx => hquiet x (List.mem_cons_of_mem _ hx)
      cases keep with
      | true =>
          obtain ⟨hout, hnext⟩ := answer c s s' hnow
          rw [chosen_cons_true, feed_cons, List.map_cons, feed_cons,
            List.map_cons, List.zip_cons_cons, chosen_cons_true, hout,
            ih hquiet' htail hlater hnext]
      | false =>
          have hnext := still c s s'
            (hquiet (c, false) (List.mem_cons_self ..) rfl) hnow
          rw [chosen_cons_false, List.map_cons, feed_cons, List.map_cons,
            List.zip_cons_cons, chosen_cons_false,
            ih hquiet' htail hlater hnext]

-- ================================================ independent stages

/-- Two independent stages side by side: an input on one side steps
that side only. -/
def par (f : σ₁ → ι₁ → ο₁ × σ₁) (g : σ₂ → ι₂ → ο₂ × σ₂) :
    σ₁ × σ₂ → ι₁ ⊕ ι₂ → (ο₁ ⊕ ο₂) × (σ₁ × σ₂)
  | s, .inl c => (.inl (f s.1 c).1, ((f s.1 c).2, s.2))
  | s, .inr c => (.inr (g s.2 c).1, (s.1, (g s.2 c).2))

/-- The left inputs (or outputs) of an interleaved list, in order. -/
def lefts (xs : List (α ⊕ β)) : List α := xs.filterMap Sum.getLeft?

/-- The right inputs (or outputs) of an interleaved list, in order. -/
def rights (xs : List (α ⊕ β)) : List β := xs.filterMap Sum.getRight?

/-- The left side of an interleaved run is the left stage run alone. -/
theorem feed_par_left (f : σ₁ → ι₁ → ο₁ × σ₁) (g : σ₂ → ι₂ → ο₂ × σ₂)
    (s : σ₁ × σ₂) (xs : List (ι₁ ⊕ ι₂)) :
    lefts (feed (par f g) s xs).1 = (feed f s.1 (lefts xs)).1 := by
  induction xs generalizing s with
  | nil => rfl
  | cons x xs ih =>
      rw [feed_cons]
      cases x with
      | inl c =>
          exact congrArg (List.cons (f s.1 c).1) (ih ((f s.1 c).2, s.2))
      | inr c => exact ih (s.1, (g s.2 c).2)

/-- The right side of an interleaved run is the right stage run
alone. -/
theorem feed_par_right (f : σ₁ → ι₁ → ο₁ × σ₁) (g : σ₂ → ι₂ → ο₂ × σ₂)
    (s : σ₁ × σ₂) (xs : List (ι₁ ⊕ ι₂)) :
    rights (feed (par f g) s xs).1 = (feed g s.2 (rights xs)).1 := by
  induction xs generalizing s with
  | nil => rfl
  | cons x xs ih =>
      rw [feed_cons]
      cases x with
      | inl c => exact ih ((f s.1 c).2, s.2)
      | inr c =>
          exact congrArg (List.cons (g s.2 c).1) (ih (s.1, (g s.2 c).2))

-- ==================================================== fallible stages

/-- Drive a stage that can fail; the first failure ends the run. -/
def feedE (f : σ → ι → Except ε (ο × σ)) :
    σ → List ι → Except ε (List ο × σ)
  | s, [] => .ok ([], s)
  | s, c :: cs =>
      match f s c with
      | .error e => .error e
      | .ok r =>
          match feedE f r.2 cs with
          | .error e => .error e
          | .ok t => .ok (r.1 :: t.1, t.2)

/-- A fallible run that went through, opened at its first input. -/
theorem feedE_cons_ok {f : σ → ι → Except ε (ο × σ)} {s s' : σ} {c : ι}
    {cs : List ι} {os : List ο} (h : feedE f s (c :: cs) = .ok (os, s')) :
    ∃ r os', f s c = .ok r ∧ feedE f r.2 cs = .ok (os', s')
      ∧ os = r.1 :: os' := by
  simp only [feedE] at h
  cases hf : f s c with
  | error e => simp [hf] at h
  | ok r =>
      cases ht : feedE f r.2 cs with
      | error e => simp [hf, ht] at h
      | ok t =>
          simp only [hf, ht] at h
          cases h
          exact ⟨r, t.1, rfl, ht, rfl⟩

/-- A fallible run that went through, cut after its first `k` inputs. -/
theorem feedE_take {f : σ → ι → Except ε (ο × σ)} {s s' : σ}
    {cs : List ι} {os : List ο} (h : feedE f s cs = .ok (os, s')) (k : Nat) :
    ∃ s'', feedE f s (cs.take k) = .ok (os.take k, s'') := by
  induction cs generalizing s os k with
  | nil =>
      cases h
      exact ⟨s', by simp [feedE]⟩
  | cons c cs ih =>
      cases k with
      | zero => exact ⟨s, rfl⟩
      | succ k =>
          obtain ⟨r, os', hf, ht, rfl⟩ := feedE_cons_ok h
          obtain ⟨s'', hs''⟩ := ih ht k
          exact ⟨s'', by simp [feedE, hf, hs'']⟩

/-- A fallible run that went through has one output per input. -/
theorem feedE_length {f : σ → ι → Except ε (ο × σ)} {s s' : σ}
    {cs : List ι} {os : List ο} (h : feedE f s cs = .ok (os, s')) :
    os.length = cs.length := by
  induction cs generalizing s os with
  | nil =>
      cases h
      rfl
  | cons c cs ih =>
      obtain ⟨r, os', -, ht, rfl⟩ := feedE_cons_ok h
      rw [List.length_cons, List.length_cons, ih ht]

/-- A fallible run that went through, stopped before one of its
inputs: the run up to it, and the step it takes. -/
theorem feedE_at {f : σ → ι → Except ε (ο × σ)} {s s' : σ}
    {as bs : List ι} {c : ι} {os : List ο}
    (h : feedE f s (as ++ c :: bs) = .ok (os, s')) :
    ∃ mid r, feedE f s as = .ok (os.take as.length, mid)
      ∧ f mid c = .ok r ∧ os[as.length]? = some r.1 := by
  induction as generalizing s os with
  | nil =>
      obtain ⟨r, os', hf, -, rfl⟩ := feedE_cons_ok h
      exact ⟨s, r, rfl, hf, rfl⟩
  | cons a as ih =>
      obtain ⟨r, os', hf, ht, rfl⟩ := feedE_cons_ok h
      obtain ⟨mid, r', has, hstep, hget⟩ := ih ht
      exact ⟨mid, r', by simp [feedE, hf, has], hstep, by simpa⟩

/-- A step-by-step simulation of a fallible stage by a total one is a
simulation of whole runs: the fallible stage never fails, and its
outputs are the total one's. -/
theorem feedE_refines {τ : Type} {f : σ → ι → Except ε (ο × σ)}
    {g : τ → ι → ο × τ} (R : σ → τ → Prop)
    (hstep : ∀ s t c, R s t →
      ∃ s', f s c = .ok ((g t c).1, s') ∧ R s' (g t c).2)
    {s : σ} {t : τ} (hR : R s t) (cs : List ι) :
    ∃ s', feedE f s cs = .ok ((feed g t cs).1, s')
      ∧ R s' (feed g t cs).2 := by
  induction cs generalizing s t with
  | nil => exact ⟨s, rfl, hR⟩
  | cons c cs ih =>
      obtain ⟨s₁, h₁, hR₁⟩ := hstep s t c hR
      obtain ⟨s', h', hR'⟩ := ih hR₁
      refine ⟨s', ?_, hR'⟩
      simp only [feedE, h₁, h', feed_cons]

/-- A step that returns, keeps `P` and answers with `Q` makes runs that
do: the stage never fails on inputs that meet `C`. -/
theorem feedE_invariant {f : σ → ι → Except ε (ο × σ)} {P : σ → Prop}
    {C : ι → Prop} {Q : ο → Prop}
    (hstep : ∀ s c, P s → C c → ∃ o s', f s c = .ok (o, s') ∧ P s' ∧ Q o)
    {s : σ} (h : P s) (cs : List ι) (hcs : ∀ c ∈ cs, C c) :
    ∃ os s', feedE f s cs = .ok (os, s') ∧ P s' ∧ ∀ o ∈ os, Q o := by
  induction cs generalizing s with
  | nil =>
      refine ⟨[], s, rfl, h, ?_⟩
      intro o ho
      cases ho
  | cons c cs ih =>
      obtain ⟨o, s₁, h₁, hP, ho⟩ := hstep s c h (hcs c (List.mem_cons_self ..))
      obtain ⟨os, s', h', hP', hos⟩ :=
        ih hP fun c hc => hcs c (List.mem_cons_of_mem _ hc)
      refine ⟨o :: os, s', by simp only [feedE, h₁, h'], hP', ?_⟩
      intro x hx
      rcases List.mem_cons.mp hx with rfl | hx
      · exact ho
      · exact hos x hx

end Wrtg.Lib
