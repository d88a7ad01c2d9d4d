/-
The daemon as it serves: `serve_with_cap` of `watchdog.rs` and the
sessions it has spawned, over one array of counters (`stats.rs`).

The loop holds a permit while it accepts, hands it to the task of the
connection, and gives it back before it backs off. A task that has been
spawned holds its permit from then on, and is in the gauge from its first
poll; both guards go with the task, whether it ends or panics. The racers
of a session on the CF Proxy rung are tasks of their own: behind one that
panics they are aborted, and one of them may still end its dial, and
count. One that panics itself is joined as one that was skipped. The clock
moves between the steps, and a sleep is over at its deadline or later. How
an accept and a bind end is in the actions.
-/
import Wrtg.Session

namespace Wrtg.Daemon

open Stats

/-- Backoff after a failed `accept()`. -/
def ACCEPT_ERROR_BACKOFF : Nat := Duration.fromMillis 200

/-- Consecutive accept errors before rebinding the listening socket. -/
def REBIND_AFTER_ERRORS : Nat := 5

/-- Ceiling for the exponential backoff between failed rebinds. -/
def REBIND_MAX_BACKOFF : Nat := Duration.fromSecs 30

variable {w : Nat}

-- =============================================================== tasks

/-- A connection task: spawned and not polled yet, polled, gone with its
racers still behind it, or gone. -/
inductive Task where
  | spawned (sess : Session.State)
  | running (sess : Session.State)
  | orphaned (race : CfRace.State)
  | gone
  deriving DecidableEq, Repr

/-- `_permit`. -/
def Task.permit : Task → Nat
  | .spawned _ => 1
  | .running _ => 1
  | _ => 0

/-- `_active`. -/
def Task.active : Task → Nat
  | .running _ => 1
  | _ => 0

inductive Turn where
  | poll
  | session (a : Session.Action)
  | panicked
  | racer (i : Nat) (dial : CfRace.Dial)

/-- What a task counts in its turn, and what becomes of it. -/
def Task.apply : Turn → Task → Option (List Stat × Task)
  | .poll, .spawned sess => some ([], .running sess)
  | .session a, .running sess =>
      (Session.apply a sess).map fun (counts, sess) =>
        (counts, if sess.pc = .ended then .gone else .running sess)
  | .panicked, .running sess =>
      some ([], match sess.pc with
        | .race r => .orphaned r
        | _ => .gone)
  | .racer i dial, .orphaned r =>
      (Session.raceStep (.finish i dial) r).map fun (counts, r) =>
        (counts, .orphaned r)
  | _, _ => none

-- ============================================================== daemon

/-- The loop: acquiring a permit, accepting with it, or without one in
the sleep behind a failed accept, in a bind, or in the sleep behind a
failed bind. -/
inductive LoopPc where
  | reserving
  | accepting
  | backingOff (deadline : Nat)
  | rebinding
  | waiting (deadline : Nat)
  deriving DecidableEq, Repr

/-- A connection: its task, and what it has counted since its accept,
which the daemon does not keep. -/
structure Conn where
  task : Task
  counted : List Stat
  deriving DecidableEq, Repr

structure State (w : Nat) where
  now : Nat
  permits : Nat
  errors : Nat
  rebindBackoff : Nat
  loop : LoopPc
  conns : List Conn
  active : Nat
  counters : Counters w

inductive Action where
  | pass (duration : Nat)
  | acquired
  | accepted (origIp : Text) (origPort : Nat)
  | acceptFailed
  | woken
  | rebound
  | rebindFailed
  | turn (i : Nat) (t : Turn)

def apply : Action → State w → Option (State w)
  | .pass duration, s => some { s with now := s.now + duration }
  | .acquired, s =>
      if s.loop = .reserving ∧ 0 < s.permits then
        some { s with permits := s.permits - 1, loop := .accepting }
      else none
  | .accepted origIp origPort, s =>
      if s.loop = .accepting then
        some { s with
          errors := 0
          counters := inc .accepted s.counters
          conns := s.conns ++
            [{ task := .spawned (Session.start origIp origPort)
               counted := [.accepted] }]
          loop := .reserving }
      else none
  | .acceptFailed, s =>
      if s.loop = .accepting then
        some { s with
          permits := s.permits + 1
          errors := s.errors + 1
          loop := .backingOff (s.now + ACCEPT_ERROR_BACKOFF) }
      else none
  | .woken, s => match s.loop with
      | .backingOff deadline =>
          if deadline ≤ s.now then
            some { s with
              loop := if REBIND_AFTER_ERRORS ≤ s.errors then .rebinding
                else .reserving }
          else none
      | .waiting deadline =>
          if deadline ≤ s.now then
            some { s with
              rebindBackoff := min (s.rebindBackoff * 2) REBIND_MAX_BACKOFF
              errors := REBIND_AFTER_ERRORS
              loop := .reserving }
          else none
      | _ => none
  | .rebound, s =>
      if s.loop = .rebinding then
        some { s with errors := 0, rebindBackoff := ACCEPT_ERROR_BACKOFF
                      loop := .reserving }
      else none
  | .rebindFailed, s =>
      if s.loop = .rebinding then
        some { s with loop := .waiting (s.now + s.rebindBackoff) }
      else none
  | .turn i t, s =>
      s.conns[i]?.bind fun conn =>
        (conn.task.apply t).map fun (counts, task) => { s with
          conns := s.conns.set i { task, counted := conn.counted ++ counts }
          active := s.active + task.active - conn.task.active
          permits := s.permits + conn.task.permit - task.permit
          counters := incAll counts s.counters }

/-- The listener is bound. -/
def start (w cap now : Nat) : State w where
  now := now
  permits := cap
  errors := 0
  rebindBackoff := ACCEPT_ERROR_BACKOFF
  loop := .reserving
  conns := []
  active := 0
  counters := .zero

end Wrtg.Daemon
