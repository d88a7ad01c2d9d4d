/-
One direction of a relay, seen from its two ends: what has gone in, what
is on its way, and what has come out.

A conduit is whole until something of it fails. While it is whole the
three are one ledger, in order; at every time, whole or not, what has
come out is the beginning of what has gone in (`Carries`). A relay of
several hops is a conduit if each hop is one that takes in what the hop
before it lets out (`Carries.trans`).
-/
import Mathlib.Data.List.Infix
import Wrtg.Lib.Feed

namespace Wrtg.Lib

variable {α : Type} {whole whole' : Prop}
  {entered left left' transit transit' : List α}

/-- Nothing is lost, doubled or overtaken while the conduit is whole, and
nothing comes out that has not gone in, in the order it has, ever. -/
structure Carries (whole : Prop) (entered left transit : List α) : Prop where
  kept : whole → left ++ transit = entered
  order : left <+: entered

/-- A receiver that takes the next item has taken the first ones still. -/
theorem takes_next {a : α} (h : left <+: entered)
    (hnext : entered[left.length]? = some a) : left ++ [a] <+: entered := by
  obtain ⟨rest, rfl⟩ := h
  rw [List.getElem?_append_right (Nat.le_refl _), Nat.sub_self] at hnext
  cases rest with
  | nil => cases hnext
  | cons b rest =>
      cases hnext
      exact ⟨rest, by rw [List.append_assoc]; rfl⟩

namespace Carries

theorem of_kept (h : left ++ transit = entered) :
    Carries whole entered left transit :=
  ⟨fun _ => h, ⟨transit, h⟩⟩

/-- A hop that hands on what it takes in, one by one, is never less than
whole. -/
theorem of_prefix (h : left <+: entered) :
    Carries whole entered left (entered.drop left.length) := by
  refine of_kept ?_
  conv_lhs => rw [List.prefix_iff_eq_take.mp h]
  rw [List.length_take, Nat.min_eq_left h.length_le, List.take_append_drop]

/-- What goes in is the last of what is on its way. -/
theorem enter (h : Carries whole entered left transit) (xs : List α) :
    Carries whole (entered ++ xs) left (transit ++ xs) := by
  refine ⟨fun hw => ?_, h.order.trans (List.prefix_append entered xs)⟩
  rw [← List.append_assoc, h.kept hw]

/-- The ledger has moved on, and it is the same. -/
theorem move (h : Carries whole entered left transit) (hw : whole)
    (hmove : left' ++ transit' = left ++ transit) :
    Carries whole' entered left' transit' :=
  of_kept (hmove.trans (h.kept hw))

/-- Where nothing has moved, less may be asked to be whole. -/
theorem weaken (h : Carries whole entered left transit)
    (hw : whole' → whole) : Carries whole' entered left transit :=
  ⟨fun hw' => h.kept (hw hw'), h.order⟩

theorem congr (h : Carries whole entered left transit)
    (htransit : transit = transit') : Carries whole entered left transit' :=
  htransit ▸ h

/-- What has come out of one part of a conduit may be held in the next. -/
theorem hold {held : List α}
    (h : Carries whole entered (left ++ held) transit) :
    Carries whole entered left (held ++ transit) := by
  refine ⟨fun hw => ?_, (List.prefix_append left held).trans h.order⟩
  rw [← List.append_assoc, h.kept hw]

/-- What is on its way looks the same wherever the conduit is whole. -/
theorem same (h : Carries whole entered left transit)
    (hw : whole' → whole ∧ transit' = transit) :
    Carries whole' entered left transit' := by
  refine ⟨fun hw' => ?_, h.order⟩
  obtain ⟨hwhole, htransit⟩ := hw hw'
  rw [htransit, h.kept hwhole]

/-- A conduit that is no longer whole has let out what it had, and may
let go of the rest. -/
theorem broken (h : Carries whole entered left transit) (hw : ¬ whole')
    (xs : List α) : Carries whole' (entered ++ xs) left transit' :=
  ⟨fun hw' => absurd hw' hw, h.order.trans (List.prefix_append entered xs)⟩

/-- It breaks in the middle of letting something out. -/
theorem breaks (h : Carries whole entered left transit) (hw : whole)
    (hw' : ¬ whole') (hpart : left' <+: left ++ transit) :
    Carries whole' entered left' transit' :=
  ⟨fun hw'' => absurd hw'' hw', h.kept hw ▸ hpart⟩

/-- Two hops in a row, the second fed with what leaves the first. -/
theorem trans (h : Carries whole entered left transit)
    (h' : Carries whole' left left' transit') :
    Carries (whole ∧ whole') entered left' (transit' ++ transit) := by
  refine ⟨fun hw => ?_, h'.order.trans h.order⟩
  rw [← List.append_assoc, h'.kept hw.2, h.kept hw.1]

/-- What a stage makes of what goes in is carried as what goes in is, if
the stage cannot see where the stream was cut. -/
theorem through {σ β : Type} {f : σ → List α → List β × σ}
    (hf : ChunkHom f) (s : σ) (h : Carries whole entered left transit) :
    Carries whole (f s entered).1 (f s left).1 (f (f s left).2 transit).1 := by
  refine ⟨fun hw => ?_, ?_⟩
  · rw [← h.kept hw, hf.append]
  · obtain ⟨rest, hrest⟩ := h.order
    rw [← hrest, hf.append]
    exact List.prefix_append _ _

/-- What holds of chunks holds of their bytes. -/
theorem flatten {entered left transit : List (List α)}
    (h : Carries whole entered left transit) :
    Carries whole entered.flatten left.flatten transit.flatten := by
  refine ⟨fun hw => ?_, h.order.flatten⟩
  rw [← List.flatten_append, h.kept hw]

end Carries

end Wrtg.Lib
