/-
The per-key HTTP 429 cooldown with exponential backoff
(`cooldown429.rs`).

A method that reads the clock takes the instant it reads, `now`, and
one that goes through the lock returns the map it leaves. A delay that
`Duration` would saturate is past every `max` here too. A deadline that
no `Instant` can hold is a panic: `none`, and the map, whose lock is
recovered, is as it was.
-/
import Wrtg.Ws

namespace Wrtg

open Ws

/-- `until` and the strikes so far. -/
structure CooldownState where
  untilAt : Option Nat
  strikes : Nat
  deriving DecidableEq

/-- `CooldownState::default()`. -/
def CooldownState.default : CooldownState where
  untilAt := none
  strikes := 0

/-- `until` lies more than `max` back, or was never set. -/
def CooldownState.expired (state : CooldownState) (max : Nat)
    (now : Nat) : Bool :=
  match state.untilAt with
  | none => true
  | some u => decide (now - u > max)

structure Cooldown429 where
  base : Nat
  max : Nat
  inner : AList fun _ : Text => CooldownState
  deriving DecidableEq

/-- `Cooldown429::new`. -/
def Cooldown429.new (base max : Nat) : Cooldown429 where
  base := base
  max := max
  inner := ∅

/-- What every method makes of the key it is given. -/
def Cooldown429.key (key : Text) : Text := Text.toAsciiLowercase (Text.trim key)

/-- The loop of `next_delay`: double once per strike, up to `max`. -/
def Cooldown429.doubled (max : Nat) : Nat → Nat → Nat
  | 0, delay => min delay max
  | strikes + 1, delay =>
      let delay := delay * 2
      if delay ≥ max then max else doubled max strikes delay

def Cooldown429.nextDelay (cd : Cooldown429) (prev : CooldownState)
    (retryAfter : Nat) (now : Nat) : Nat :=
  if retryAfter > 0 then min retryAfter cd.max
  else
    let strikes := if prev.expired cd.max now then 0 else prev.strikes
    doubled cd.max strikes cd.base

def Cooldown429.remaining (cd : Cooldown429) (key : Text) (now : Nat) :
    Nat × Cooldown429 :=
  let key := Cooldown429.key key
  if key.isEmpty then (0, cd)
  else match cd.inner.lookup key with
    | none => (0, cd)
    | some state => match state.untilAt with
      | none => (0, cd)
      | some u =>
          if u ≤ now then
            -- forgotten only after a whole quiet window
            if now - u > cd.max then
              (0, { cd with inner := cd.inner.erase key })
            else (0, cd)
          else (u - now, cd)

def Cooldown429.isActive (cd : Cooldown429) (key : Text) (now : Nat) :
    Bool × Cooldown429 :=
  let (left, cd) := cd.remaining key now
  (decide (left > 0), cd)

def Cooldown429.markFor (cd : Cooldown429) (key : Text)
    (retryAfter : Nat) (now : Nat) : Option Cooldown429 :=
  let key := Cooldown429.key key
  if key.isEmpty then some cd
  else
    let prev := (cd.inner.lookup key).getD .default
    let delay := cd.nextDelay prev retryAfter now
    let strikes :=
      if prev.expired cd.max now then 1
      else min (prev.strikes + 1) (2 ^ 32 - 1)
    (Instant.add now delay).map fun deadline =>
      { cd with inner := cd.inner.insert key
                  { untilAt := some deadline, strikes } }

def Cooldown429.mark (cd : Cooldown429) (key : Text) (err : WsConnectError)
    (now : Nat) : Option Cooldown429 :=
  cd.markFor key (retryAfterFromErr err) now

def Cooldown429.clear (cd : Cooldown429) (key : Text) : Cooldown429 :=
  let key := Cooldown429.key key
  if key.isEmpty then cd else { cd with inner := cd.inner.erase key }

-- =============================================================== calls

/-- A call on the map. -/
inductive Cooldown429.Op where
  | markFor (key : Text) (retryAfter : Nat)
  | remaining (key : Text)
  | isActive (key : Text)
  | clear (key : Text)
  deriving DecidableEq, Repr

/-- A call, and the instant its clock reading gives. -/
structure Cooldown429.Call where
  op : Op
  now : Nat
  deriving DecidableEq, Repr

/-- What a call returns, if it does. -/
inductive Cooldown429.Outcome where
  | panicked
  | done
  | left (duration : Nat)
  | active (yes : Bool)
  deriving DecidableEq, Repr

/-- The calls that only ask. -/
def Cooldown429.Op.isRead : Op → Bool
  | .remaining _ => true
  | .isActive _ => true
  | _ => false

def Cooldown429.call (cd : Cooldown429) (c : Call) :
    Outcome × Cooldown429 :=
  match c.op with
  | .markFor key retryAfter =>
      match cd.markFor key retryAfter c.now with
      | some cd => (.done, cd)
      | none => (.panicked, cd)
  | .remaining key =>
      let (left, cd) := cd.remaining key c.now
      (.left left, cd)
  | .isActive key =>
      let (yes, cd) := cd.isActive key c.now
      (.active yes, cd)
  | .clear key => (.done, cd.clear key)

end Wrtg
