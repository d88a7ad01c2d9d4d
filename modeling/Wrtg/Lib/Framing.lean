/-
Length-prefixed framing of a stream that arrives in pieces.

# The vocabulary

A `Framer` reads the head of a symbol string and answers with a
`Verdict`: the header is not complete yet (`more`), it cannot be one
(`bad`), or a frame of `n` symbols stands at the head (`frame n`). Its
laws say that a decided verdict is stable under further input. `cut`
splits a whole string into frames and a `Rest`; `cutStep` is the
incremental machine that buffers the open rest between pieces and, once
it has met a bad header, hands every later piece through.

# What is proved

- `cut` composes along concatenation (`cut_append`), so the machine's
  state after any pieces is the rest of their concatenation
  (`feed_cutStep`): the segmentation is unobservable.
- Nothing is lost, repeated or reordered (`feed_cutStep_flatten`) and no
  part is empty (`feed_cutStep_ne_nil`).
- On a string of whole frames the frames come out one by one, each in
  the piece that completes it (`cut_frames`, `cut_take_frames`).
-/
import Mathlib.Data.List.Induction
import Wrtg.Lib.Feed

namespace Wrtg.Lib

variable {α : Type}

-- ========================================================= vocabulary

/-- What the head of a stream says. -/
inductive Verdict where
  | more
  | bad
  | frame (n : Nat)
  deriving DecidableEq, Repr

/-- A header reader whose decided answers are stable. -/
structure Framer (α : Type) where
  head : List α → Verdict
  head_nil : head [] = .more
  frame_pos : ∀ {xs n}, head xs = .frame n → 0 < n
  frame_le : ∀ {xs n}, head xs = .frame n → n ≤ xs.length
  frame_append : ∀ {xs n} ys,
    head xs = .frame n → head (xs ++ ys) = .frame n
  bad_append : ∀ {xs} ys, head xs = .bad → head (xs ++ ys) = .bad

/-- What is left of a string once its frames are cut off: an incomplete
frame, or everything from a bad header on. -/
inductive Rest (α : Type) where
  | pending (tail : List α)
  | broken (tail : List α)
  deriving DecidableEq, Repr

def Rest.tail : Rest α → List α
  | .pending t => t
  | .broken t => t

def cutFuel (F : Framer α) : Nat → List α → List (List α) × Rest α
  | 0, xs => ([], .pending xs)
  | k + 1, xs =>
      match F.head xs with
      | .more => ([], .pending xs)
      | .bad => ([], .broken xs)
      | .frame n =>
          let r := cutFuel F k (xs.drop n)
          (xs.take n :: r.1, r.2)

/-- The frames of a string and what is left. -/
def cut (F : Framer α) (xs : List α) : List (List α) × Rest α :=
  cutFuel F xs.length xs

variable (F : Framer α)

-- ====================================================== cut equations

/-- Fuel beyond the length of the string changes nothing. -/
private theorem cutFuel_eq :
    ∀ (k : Nat) (xs : List α), xs.length ≤ k →
      cutFuel F k xs = cutFuel F xs.length xs := by
  intro k
  induction k using Nat.strongRecOn with
  | ind k ih =>
      intro xs hk
      cases k with
      | zero =>
          rw [Nat.le_zero.mp hk]
      | succ k =>
          cases hlen : xs.length with
          | zero =>
              have hx : xs = [] := List.eq_nil_of_length_eq_zero hlen
              subst hx
              simp only [cutFuel, F.head_nil]
          | succ m =>
              simp only [cutFuel]
              cases hv : F.head xs with
              | more => rfl
              | bad => rfl
              | frame n =>
                  have hpos := F.frame_pos hv
                  have hdrop : (xs.drop n).length = xs.length - n :=
                    List.length_drop
                  have h₁ := ih k (Nat.lt_succ_self k) (xs.drop n) (by omega)
                  have h₂ := ih m (by omega) (xs.drop n) (by omega)
                  simp only [h₁, h₂]

/-- The equation of `cut`, header by header. -/
theorem cut_eq (xs : List α) :
    cut F xs = match F.head xs with
      | .more => ([], .pending xs)
      | .bad => ([], .broken xs)
      | .frame n => (xs.take n :: (cut F (xs.drop n)).1,
          (cut F (xs.drop n)).2) := by
  unfold cut
  rw [← cutFuel_eq F (xs.length + 1) xs (Nat.le_succ _)]
  rw [cutFuel]
  cases hv : F.head xs with
  | more => rfl
  | bad => rfl
  | frame n =>
      simp only
      rw [cutFuel_eq F xs.length (xs.drop n) (by
        rw [List.length_drop]
        omega)]

theorem cut_more {xs : List α} (h : F.head xs = .more) :
    cut F xs = ([], .pending xs) := by
  rw [cut_eq, h]

theorem cut_bad {xs : List α} (h : F.head xs = .bad) :
    cut F xs = ([], .broken xs) := by
  rw [cut_eq, h]

theorem cut_frame {xs : List α} {n : Nat} (h : F.head xs = .frame n) :
    cut F xs = (xs.take n :: (cut F (xs.drop n)).1,
      (cut F (xs.drop n)).2) := by
  rw [cut_eq, h]

/-- Induction along the frames of a string. -/
theorem cut_induction {P : List α → Prop}
    (more : ∀ xs, F.head xs = .more → P xs)
    (bad : ∀ xs, F.head xs = .bad → P xs)
    (frame : ∀ xs n, F.head xs = .frame n → P (xs.drop n) → P xs)
    (xs : List α) : P xs := by
  induction hlen : xs.length using Nat.strongRecOn generalizing xs with
  | ind k ih =>
      cases hv : F.head xs with
      | more => exact more xs hv
      | bad => exact bad xs hv
      | frame n =>
          refine frame xs n hv (ih (xs.drop n).length ?_ _ rfl)
          have hpos := F.frame_pos hv
          have hle := F.frame_le hv
          rw [List.length_drop]
          omega

-- =========================================================== cut laws

/-- Frames and rest, put together again, are the string. -/
theorem cut_flatten (xs : List α) :
    (cut F xs).1.flatten ++ (cut F xs).2.tail = xs := by
  induction xs using cut_induction F with
  | more xs h => rw [cut_more F h]; rfl
  | bad xs h => rw [cut_bad F h]; rfl
  | frame xs n h ih =>
      rw [cut_frame F h]
      simp only [List.flatten_cons, List.append_assoc, ih]
      exact List.take_append_drop n xs

/-- No frame is empty. -/
theorem cut_ne_nil (xs : List α) : ∀ f ∈ (cut F xs).1, f ≠ [] := by
  induction xs using cut_induction F with
  | more xs h => simp [cut_more F h]
  | bad xs h => simp [cut_bad F h]
  | frame xs n h ih =>
      intro f hf
      rw [cut_frame F h] at hf
      rcases List.mem_cons.mp hf with rfl | hf'
      · have hpos := F.frame_pos h
        have hle := F.frame_le h
        intro hnil
        have := congrArg List.length hnil
        rw [List.length_take, List.length_nil] at this
        omega
      · exact ih f hf'

/-- No frame is longer than the frames of the grammar. -/
theorem cut_length_le {cap : Nat}
    (hcap : ∀ xs n, F.head xs = .frame n → n ≤ cap) (xs : List α) :
    ∀ f ∈ (cut F xs).1, f.length ≤ cap := by
  induction xs using cut_induction F with
  | more xs h => simp [cut_more F h]
  | bad xs h => simp [cut_bad F h]
  | frame xs n h ih =>
      intro f hf
      rw [cut_frame F h] at hf
      rcases List.mem_cons.mp hf with rfl | hf'
      · have hle := hcap xs n h
        rw [List.length_take]
        omega
      · exact ih f hf'

theorem cut_tail_le (xs : List α) :
    (cut F xs).2.tail.length ≤ xs.length := by
  have hflat := congrArg List.length (cut_flatten F xs)
  rw [List.length_append] at hflat
  omega

/-- A pending rest is an incomplete header or frame. -/
theorem cut_pending {xs t : List α} (h : (cut F xs).2 = .pending t) :
    F.head t = .more := by
  induction xs using cut_induction F with
  | more xs hm =>
      rw [cut_more F hm] at h
      injection h with h
      rw [← h, hm]
  | bad xs hb =>
      rw [cut_bad F hb] at h
      cases h
  | frame xs n hf ih =>
      rw [cut_frame F hf] at h
      exact ih h

/-- A broken rest starts with a bad header. -/
theorem cut_broken {xs t : List α} (h : (cut F xs).2 = .broken t) :
    F.head t = .bad := by
  induction xs using cut_induction F with
  | more xs hm =>
      rw [cut_more F hm] at h
      cases h
  | bad xs hb =>
      rw [cut_bad F hb] at h
      injection h with h
      rw [← h, hb]
  | frame xs n hf ih =>
      rw [cut_frame F hf] at h
      exact ih h

/-- What a new piece breaks is the piece and at most `lag` symbols more,
those of a rest whose header it completes: a frame that it completes
ends in it. -/
theorem cut_broken_le {buf c t : List α} {lag : Nat}
    (hbad : F.head (buf ++ c) = .bad → buf.length ≤ lag)
    (hframe : ∀ n, F.head (buf ++ c) = .frame n → buf.length ≤ n)
    (h : (cut F (buf ++ c)).2 = .broken t) :
    t.length ≤ lag + c.length := by
  cases hv : F.head (buf ++ c) with
  | more =>
      rw [cut_more F hv] at h
      cases h
  | bad =>
      rw [cut_bad F hv] at h
      injection h with h
      have hle := hbad hv
      rw [← h, List.length_append]
      omega
  | frame n =>
      rw [cut_frame F hv] at h
      have hle := hframe n hv
      have htail := cut_tail_le F ((buf ++ c).drop n)
      rw [h, List.length_drop, List.length_append] at htail
      show (Rest.broken t).tail.length ≤ _
      omega

/-- Cutting composes along concatenation: a pending rest is cut again
with the new symbols behind it, a broken one swallows them. -/
theorem cut_append (xs ys : List α) :
    cut F (xs ++ ys) = match (cut F xs).2 with
      | .pending t => ((cut F xs).1 ++ (cut F (t ++ ys)).1,
          (cut F (t ++ ys)).2)
      | .broken t => ((cut F xs).1, .broken (t ++ ys)) := by
  induction xs using cut_induction F with
  | more xs h => rw [cut_more F h]; rfl
  | bad xs h => rw [cut_bad F h, cut_bad F (F.bad_append ys h)]
  | frame xs n h ih =>
      rw [cut_frame F (F.frame_append ys h),
        List.take_append_of_le_length (F.frame_le h),
        List.drop_append_of_le_length (F.frame_le h), ih, cut_frame F h]
      cases (cut F (xs.drop n)).2 with
      | pending t => rfl
      | broken t => rfl

-- ============================================ the incremental machine

/-- State of the incremental machine: the buffered open rest, or
`broken` once a bad header was met. -/
inductive CutState (α : Type) where
  | buffering (buf : List α)
  | broken
  deriving DecidableEq, Repr

/-- What the machine still holds. -/
def CutState.held : CutState α → List α
  | .buffering buf => buf
  | .broken => []

/-- One piece of input: the parts it releases and the next state. -/
def cutStep : CutState α → List α → List (List α) × CutState α
  | .broken, c => (if c.isEmpty then [] else [c], .broken)
  | .buffering buf, c =>
      match (cut F (buf ++ c)).2 with
      | .pending t => ((cut F (buf ++ c)).1, .buffering t)
      | .broken t => ((cut F (buf ++ c)).1 ++ [t], .broken)

/-- The states the machine can be in: the buffer never holds a decided
header. -/
def CutState.Settled : CutState α → Prop
  | .buffering buf => F.head buf = .more
  | .broken => True

/-- One step conserves symbols: what was held plus what came in is what
went out plus what is held. -/
theorem cutStep_conserves (s : CutState α) (c : List α) :
    (cutStep F s c).1.flatten ++ (cutStep F s c).2.held = s.held ++ c := by
  cases s with
  | broken =>
      cases c with
      | nil => rfl
      | cons a c => simp [cutStep, CutState.held]
  | buffering buf =>
      have hcut := cut_flatten F (buf ++ c)
      simp only [cutStep]
      cases h : (cut F (buf ++ c)).2 with
      | pending t =>
          rw [h] at hcut
          exact hcut
      | broken t =>
          rw [h] at hcut
          simpa [CutState.held, Rest.tail] using hcut

/-- No released part is empty. -/
theorem cutStep_ne_nil (s : CutState α) (c : List α) :
    ∀ p ∈ (cutStep F s c).1, p ≠ [] := by
  cases s with
  | broken =>
      cases c with
      | nil => simp [cutStep]
      | cons a c => simp [cutStep]
  | buffering buf =>
      simp only [cutStep]
      cases h : (cut F (buf ++ c)).2 with
      | pending t => exact cut_ne_nil F _
      | broken t =>
          intro p hp
          rcases List.mem_append.mp hp with hp | hp
          · exact cut_ne_nil F _ p hp
          · rw [List.mem_singleton] at hp
            subst hp
            intro hnil
            have hb := cut_broken F h
            rw [hnil, F.head_nil] at hb
            cases hb

/-- A settled machine fed nothing releases nothing and stays put. -/
theorem cutStep_nil {s : CutState α} (hs : CutState.Settled F s) :
    cutStep F s [] = ([], s) := by
  cases s with
  | broken => rfl
  | buffering buf =>
      have hm : F.head buf = .more := hs
      simp only [cutStep, List.append_nil, cut_more F hm]

-- ========================================================= whole runs

/-- A run conserves symbols. -/
theorem feed_cutStep_flatten (s : CutState α) (cs : List (List α)) :
    (feed (cutStep F) s cs).1.flatten.flatten
        ++ (feed (cutStep F) s cs).2.held
      = s.held ++ cs.flatten := by
  induction cs generalizing s with
  | nil => simp
  | cons c cs ih =>
      rw [feed_cons]
      simp only [List.flatten_cons, List.flatten_append, List.append_assoc]
      rw [ih, ← List.append_assoc, cutStep_conserves, List.append_assoc]

/-- No part of a run is empty. -/
theorem feed_cutStep_ne_nil (s : CutState α) (cs : List (List α)) :
    ∀ ps ∈ (feed (cutStep F) s cs).1, ∀ p ∈ ps, p ≠ [] := by
  induction cs generalizing s with
  | nil => simp
  | cons c cs ih =>
      intro ps hps p hp
      rw [feed_cons] at hps
      rcases List.mem_cons.mp hps with rfl | hps'
      · exact cutStep_ne_nil F s c p hp
      · exact ih _ ps hps' p hp

/-- After any pieces the machine holds the rest of their concatenation,
and as long as that rest is pending it has released its frames: the
segmentation is unobservable. -/
theorem feed_cutStep (cs : List (List α)) :
    match (cut F cs.flatten).2 with
      | .pending t =>
          (feed (cutStep F) (.buffering []) cs).1.flatten
              = (cut F cs.flatten).1
            ∧ (feed (cutStep F) (.buffering []) cs).2 = .buffering t
      | .broken _ =>
          (feed (cutStep F) (.buffering []) cs).2 = .broken := by
  induction cs using List.reverseRecOn with
  | nil =>
      rw [List.flatten_nil, cut_more F F.head_nil]
      exact ⟨rfl, rfl⟩
  | append_singleton cs c ih =>
      rw [feed_append, List.flatten_append, List.flatten_singleton,
        cut_append]
      simp only [feed_cons, feed_nil]
      cases h : (cut F cs.flatten).2 with
      | pending t =>
          simp only [h] at ih
          obtain ⟨hout, hst⟩ := ih
          simp only [hst, cutStep]
          cases h' : (cut F (t ++ c)).2 with
          | pending t' => simp [hout]
          | broken t' => simp
      | broken t =>
          simp only [h] at ih
          simp only [ih, cutStep]

-- ==================================================== strings of frames

/-- A string that is exactly one frame. -/
def IsFrame (f : List α) : Prop := F.head f = .frame f.length

/-- A string that an incomplete frame could be: a proper prefix of
one. -/
def IsOpen (t : List α) : Prop :=
  ∃ f u, IsFrame F f ∧ f = t ++ u ∧ u ≠ []

/-- A proper prefix of a frame is not decided. -/
theorem IsOpen.head {t : List α} (h : IsOpen F t) : F.head t = .more := by
  obtain ⟨f, u, hf, rfl, hu⟩ := h
  have hlen : 0 < u.length := List.length_pos_of_ne_nil hu
  have hf' : F.head (t ++ u) = .frame (t ++ u).length := hf
  cases hv : F.head t with
  | more => rfl
  | bad =>
      rw [F.bad_append u hv] at hf'
      cases hf'
  | frame n =>
      rw [F.frame_append u hv] at hf'
      injection hf' with hn
      have hle := F.frame_le hv
      rw [List.length_append] at hn
      omega

/-- A frame at the head of a string is cut off. -/
theorem cut_frame_append {f : List α} (hf : IsFrame F f) (ys : List α) :
    cut F (f ++ ys) = (f :: (cut F ys).1, (cut F ys).2) := by
  rw [cut_frame F (F.frame_append ys hf), List.take_left, List.drop_left]

/-- A string of whole frames and an open tail is cut into exactly
these. -/
theorem cut_frames {fs : List (List α)} (hfs : ∀ f ∈ fs, IsFrame F f)
    {t : List α} (ht : F.head t = .more) :
    cut F (fs.flatten ++ t) = (fs, .pending t) := by
  induction fs with
  | nil => exact cut_more F ht
  | cons f fs ih =>
      rw [List.flatten_cons, List.append_assoc,
        cut_frame_append F (hfs f (List.mem_cons_self ..)),
        ih fun g hg => hfs g (List.mem_cons_of_mem f hg)]

/-- The frames of a list that end within its first `m` symbols. -/
def framesWithin : Nat → List (List α) → List (List α)
  | _, [] => []
  | m, f :: fs =>
      if f.length ≤ m then f :: framesWithin (m - f.length) fs else []

/-- Cutting the first `m` symbols of a string of frames gives the frames
that end within them, and never a bad header. -/
theorem cut_take_frames {fs : List (List α)}
    (hfs : ∀ f ∈ fs, IsFrame F f) {t : List α}
    (ht : t = [] ∨ IsOpen F t) (m : Nat) :
    ∃ r, cut F ((fs.flatten ++ t).take m)
      = (framesWithin m fs, .pending r) := by
  induction fs generalizing m with
  | nil =>
      refine ⟨t.take m, cut_more F ?_⟩
      rw [List.flatten_nil, List.nil_append]
      rcases ht with rfl | ⟨f, u, hf, rfl, hu⟩
      · rw [List.take_nil, F.head_nil]
      · refine IsOpen.head F ⟨t ++ u, t.drop m ++ u, hf, ?_, ?_⟩
        · rw [← List.append_assoc, List.take_append_drop]
        · intro hnil
          exact hu (List.append_eq_nil_iff.mp hnil).2
  | cons f fs ih =>
      have hf : IsFrame F f := hfs f (List.mem_cons_self ..)
      rw [List.flatten_cons, List.append_assoc]
      by_cases hm : f.length ≤ m
      · obtain ⟨r, hr⟩ := ih (fun g hg => hfs g (List.mem_cons_of_mem f hg))
          (m - f.length)
        refine ⟨r, ?_⟩
        rw [List.take_append, List.take_of_length_le hm,
          cut_frame_append F hf, hr, framesWithin, if_pos hm]
      · refine ⟨f.take m, ?_⟩
        rw [List.take_append_of_le_length (by omega), framesWithin,
          if_neg hm]
        refine cut_more F (IsOpen.head F ⟨f, f.drop m, hf,
          (List.take_append_drop m f).symm, ?_⟩)
        intro hnil
        have := congrArg List.length hnil
        rw [List.length_drop, List.length_nil] at this
        omega

/-- Only the lengths of the frames matter to `framesWithin`. -/
theorem framesWithin_map {β : Type} (f : List α → List β)
    (hf : ∀ x, (f x).length = x.length) (m : Nat) (fs : List (List α)) :
    framesWithin m (fs.map f) = (framesWithin m fs).map f := by
  induction fs generalizing m with
  | nil => rfl
  | cons x fs ih =>
      rw [List.map_cons, framesWithin, framesWithin, hf]
      split
      · rw [List.map_cons, ih]
      · rfl

/-- All frames end within the whole string. -/
theorem framesWithin_all {fs : List (List α)} {m : Nat}
    (h : fs.flatten.length ≤ m) : framesWithin m fs = fs := by
  induction fs generalizing m with
  | nil => rfl
  | cons f fs ih =>
      rw [List.flatten_cons, List.length_append] at h
      rw [framesWithin, if_pos (by omega), ih (by omega)]

-- ================================================= framing a projection

/-- A framer that reads a projection of the symbols. -/
def Framer.comap {β : Type} (F : Framer β) (f : α → β) : Framer α where
  head xs := F.head (xs.map f)
  head_nil := F.head_nil
  frame_pos h := F.frame_pos h
  frame_le h := by simpa using F.frame_le h
  frame_append ys h := by
    rw [List.map_append]
    exact F.frame_append _ h
  bad_append ys h := by
    rw [List.map_append]
    exact F.bad_append _ h

def Rest.map {β : Type} (f : α → β) : Rest α → Rest β
  | .pending t => .pending (t.map f)
  | .broken t => .broken (t.map f)

/-- Cutting by a projection cuts the projected string. -/
theorem cut_comap {β : Type} (F : Framer β) (f : α → β) (xs : List α) :
    cut F (xs.map f)
      = ((cut (F.comap f) xs).1.map (List.map f),
          (cut (F.comap f) xs).2.map f) := by
  induction xs using cut_induction (F.comap f) with
  | more xs h => rw [cut_more _ h, cut_more F h]; rfl
  | bad xs h => rw [cut_bad _ h, cut_bad F h]; rfl
  | frame xs n h ih =>
      rw [cut_frame _ h, cut_frame F h, ← List.map_drop, ih,
        ← List.map_take]
      rfl

end Wrtg.Lib
