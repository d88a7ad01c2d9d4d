/-
The live-heap accounting of the global allocator (`heap.rs`).

Any number of threads are in the allocator at once, and each atomic
`fetch_add` and `fetch_sub` is a step of its own. A block is the
program's between two calls, and a call's while it is in one: what the
system's allocator hands out is counted before its caller has it, and
what a caller gives back is no longer its. The counters are words of `w`
bits and wrap.
-/
import Mathlib.Data.BitVec
import Mathlib.Logic.Function.Basic
import Wrtg.Rust.IpAddr

namespace Wrtg.Heap

variable {w : Nat}

/-- The upper bounds of the size classes; the last is `usize::MAX`. -/
def CLASS_MAX (w : Nat) : List Nat :=
  [64, 256, 1024, 4096, 16384, 2 ^ w - 1]

/-- `class`. -/
def sizeClass (w size : Nat) : Nat :=
  ((CLASS_MAX w).findIdx? fun max => size ≤ max).getD 5

/-- An access to the counters of the class of a size. -/
inductive Op where
  | addBytes (size : Nat)
  | addAllocs (size : Nat)
  | subBytes (size : Nat)
  | subAllocs (size : Nat)
  deriving DecidableEq, Repr

def add (size : Nat) : List Op := [.addBytes size, .addAllocs size]

def sub (size : Nat) : List Op := [.subBytes size, .subAllocs size]

/-- A call in the allocator: the accesses it has before it, and the size
of the block it hands back, if it does. -/
structure Call where
  todo : List Op
  block : Option Nat
  deriving DecidableEq, Repr

/-- The counters by class, the sizes of the program's blocks, and the
calls. -/
structure State (w : Nat) where
  bytes : Nat → BitVec w
  allocs : Nat → BitVec w
  blocks : List Nat
  calls : List Call

/-- A call comes (with whether the system has no memory), makes its next
access, and returns. `alloc` is `alloc_zeroed` too. -/
inductive Action where
  | alloc (size : Nat) (null : Bool)
  | dealloc (i : Nat)
  | realloc (i newSize : Nat) (null : Bool)
  | step (j : Nat)
  | ret (j : Nat)
  deriving DecidableEq, Repr

/-- `fetch_add` or `fetch_sub` of one counter. -/
def Op.access (s : State w) : Op → State w
  | .addBytes size =>
      let c := sizeClass w size
      { s with bytes := Function.update s.bytes c (s.bytes c + size) }
  | .addAllocs size =>
      let c := sizeClass w size
      { s with allocs := Function.update s.allocs c (s.allocs c + 1) }
  | .subBytes size =>
      let c := sizeClass w size
      { s with bytes := Function.update s.bytes c (s.bytes c - size) }
  | .subAllocs size =>
      let c := sizeClass w size
      { s with allocs := Function.update s.allocs c (s.allocs c - 1) }

def apply : Action → State w → Option (State w)
  | .alloc size null, s =>
      if null then some s
      else some { s with
        calls := { todo := add size, block := some size } :: s.calls }
  | .dealloc i, s =>
      (s.blocks[i]?).map fun size => { s with
        blocks := s.blocks.eraseIdx i
        calls := { todo := sub size, block := none } :: s.calls }
  | .realloc i newSize null, s =>
      (s.blocks[i]?).map fun size =>
        if null then s
        else { s with
          blocks := s.blocks.eraseIdx i
          calls := { todo := sub size ++ add newSize, block := some newSize }
                   :: s.calls }
  | .step j, s =>
      match s.calls[j]? with
      | some { todo := op :: todo, block } =>
          some (op.access { s with calls := s.calls.set j { todo, block } })
      | _ => none
  | .ret j, s =>
      match s.calls[j]? with
      | some { todo := [], block } =>
          some { s with
            blocks := block.toList ++ s.blocks
            calls := s.calls.eraseIdx j }
      | _ => none

/-- A process that has just started. -/
def start : State w where
  bytes := fun _ => 0
  allocs := fun _ => 0
  blocks := []
  calls := []

-- ============================================================== render

/-- `bytes` and `allocs` of `render`, the sums over the classes. -/
def total (counters : Nat → BitVec w) : BitVec w :=
  ((List.range 6).map counters).sum

/-- `label` of a class. -/
def label (w max : Nat) : Text :=
  if max = 2 ^ w - 1 then ">16384".toList
  else "<=".toList ++ IpAddr.showNat max

/-- A row of `render`, without its line end. -/
def row (bytes allocs : Nat → BitVec w) (c max : Nat) : Text :=
  "  ".toList ++ label w max ++ " ".toList
    ++ IpAddr.showNat (allocs c).toNat ++ " allocs ".toList
    ++ IpAddr.showNat ((bytes c).toNat / 1024) ++ " kB".toList

/-- What `render` appends, line by line. -/
def render (bytes allocs : Nat → BitVec w) : List Text :=
  ("heap live ".toList ++ IpAddr.showNat ((total bytes).toNat / 1024)
    ++ " kB in ".toList ++ IpAddr.showNat (total allocs).toNat
    ++ " allocs".toList)
  :: (CLASS_MAX w).mapIdx (row bytes allocs)

end Wrtg.Heap
