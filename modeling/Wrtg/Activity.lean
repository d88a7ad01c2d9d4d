/-
The idle guard of a session (`bridge.rs`, `Activity`): the clock of the
last payload in an `AtomicUsize`, and the loop that sleeps and looks
again.

The system is one session against the clock. A touch is one step, at the
instant it reads the clock; a check is one turn of the loop of
`idle_reached`; and a sleep ends when it is due, so the clock does not
pass a wake-up that has not been served. The first check may come at any
time. Once the guard has resolved, the session is over.
-/
import Wrtg.Rust.Basic

namespace Wrtg

/-- `Duration::as_millis`. -/
def Duration.asMillis (duration : Nat) : Nat := duration / 1000000

/-- `n as u64`. -/
def asU64 (n : Nat) : Nat := n % 2 ^ 64

/-- `n as usize`. -/
def Word.truncate (w : Word) (n : Nat) : Nat := n % w.size

-- ========================================================== the clock

structure Activity where
  lastMs : Nat
  base : Nat
  deriving DecidableEq, Repr

namespace Activity

def new (now : Nat) : Activity where
  lastMs := 0
  base := now

/-- `self.base.elapsed()`. -/
def elapsed (a : Activity) (now : Nat) : Nat := now - a.base

def touch (w : Word) (a : Activity) (now : Nat) : Activity :=
  { a with lastMs := w.truncate (Duration.asMillis (a.elapsed now)) }

/-- The limit of `idle_reached`, in milliseconds. -/
def idleMs (idle : Nat) : Nat := max (asU64 (Duration.asMillis idle)) 1

/-- One turn of the loop of `idle_reached`: `none` where it returns,
else how long it sleeps. -/
def idleCheck (a : Activity) (idle now : Nat) : Option Nat :=
  let elapsed := asU64 (Duration.asMillis (a.elapsed now))
  let since := elapsed - a.lastMs
  if since ≥ idleMs idle then none
  else some (Duration.fromMillis (max (idleMs idle - since) 50))

-- ============================================================= system

/-- Where the guard stands, and when it wakes or has resolved. -/
inductive Guard where
  | notStarted
  | sleeping (wake : Nat)
  | resolved (time : Nat)
  deriving DecidableEq, Repr

/-- `touches` and `firstCheck` are what has happened, and when. -/
structure State where
  word : Word
  idle : Nat
  now : Nat
  activity : Activity
  guard : Guard
  touches : List Nat
  firstCheck : Option Nat
  deriving DecidableEq, Repr

inductive Action where
  | pass (duration : Nat)
  | touch
  | check
  deriving DecidableEq, Repr

/-- The next turn of the loop is due. -/
def State.due (s : State) : Bool :=
  match s.guard with
  | .notStarted => true
  | .sleeping wake => decide (wake ≤ s.now)
  | .resolved _ => false

/-- The clock may move on to `later`. -/
def State.mayPass (s : State) (later : Nat) : Bool :=
  match s.guard with
  | .sleeping wake => decide (later ≤ wake)
  | _ => true

def apply : Action → State → Option State
  | .pass duration, s =>
      if s.mayPass (s.now + duration) then
        some { s with now := s.now + duration }
      else none
  | .touch, s =>
      match s.guard with
      | .resolved _ => none
      | _ => some { s with activity := s.activity.touch s.word s.now
                           touches := s.now :: s.touches }
  | .check, s =>
      if s.due then
        let guard := match s.activity.idleCheck s.idle s.now with
          | none => .resolved s.now
          | some nap => .sleeping (s.now + nap)
        some { s with guard, firstCheck := s.firstCheck.or (some s.now) }
      else none

/-- A session that starts at `now`. -/
def start (word : Word) (idle now : Nat) : State where
  word := word
  idle := idle
  now := now
  activity := new now
  guard := .notStarted
  touches := []
  firstCheck := none

end Activity

end Wrtg
