/-
A relay session over a plain connection, `bridge_tcp` of `bridge.rs`: a
task for each direction, and the select and the teardown of the session.

A step is what one of the three does between two points where another can
run. A write of `write_all` gets its bytes out bit by bit, and an abort
takes effect at any `await`, so in the middle of one too. What comes from
outside is in the actions, as for `bridge_ws` (`Wrtg.Bridge`).
-/
import Wrtg.Bridge
import Wrtg.Lib.Pump

namespace Wrtg.TcpBridge

open Bridge (RELAY_BUF_SIZE)
open Mtproto Lib

inductive Task where
  | up
  | down
  deriving DecidableEq, Repr

/-- `bridge_tcp` behind its spawns: the select, the grace period for the
surviving direction, waiting for what it has aborted, and the end. -/
inductive MainPc where
  | selecting
  | draining (upFinished : Bool)
  | joining (idleReaped : Bool)
  | done (idleReaped : Bool)
  deriving DecidableEq, Repr

structure State where
  /-- `session_idle_timeout`. -/
  idle : Option Nat
  up : Pump CryptoUp UInt8
  down : Pump CryptoDown UInt8
  main : MainPc
  aborts : List Task

def State.isEnded (s : State) : Task → Bool
  | .up => match s.up.pc with
      | .ended => true
      | _ => false
  | .down => match s.down.pc with
      | .ended => true
      | _ => false

inductive MainAction where
  | upEnded
  | downEnded
  | idleReached
  | drained
  | drainExpired
  | joined
  deriving DecidableEq, Repr

inductive Action where
  | up (a : PumpAction UInt8)
  | down (a : PumpAction UInt8)
  | main (a : MainAction)
  deriving DecidableEq, Repr

/-- The direction that did not end the session. -/
def other (upFinished : Bool) : Task := if upFinished then .down else .up

def applyMain : MainAction → State → Option State
  | .upEnded, s =>
      if s.main = .selecting ∧ s.isEnded .up = true then
        some { s with main := .draining true }
      else none
  | .downEnded, s =>
      if s.main = .selecting ∧ s.isEnded .down = true then
        some { s with main := .draining false }
      else none
  | .idleReached, s =>
      if s.main = .selecting ∧ s.idle.isSome = true then
        some { s with main := .joining true, aborts := [.up, .down] }
      else none
  | .drained, s => match s.main with
      | .draining upFinished =>
          if s.isEnded (other upFinished) then
            some { s with main := .done false }
          else none
      | _ => none
  | .drainExpired, s => match s.main with
      | .draining upFinished =>
          if s.isEnded (other upFinished) then none
          else some { s with
            main := .joining false, aborts := [other upFinished] }
      | _ => none
  | .joined, s => match s.main with
      | .joining idleReaped =>
          if s.isEnded .up ∧ s.isEnded .down then
            some { s with main := .done idleReaped }
          else none
      | _ => none

def apply (aes : Aes256) : Action → State → Option State
  | .up a, s =>
      if a = .cancelled ∧ Task.up ∉ s.aborts then none
      else (Pump.apply (CryptoUp.clientToTelegram aes) RELAY_BUF_SIZE a
        s.up).map fun up => { s with up }
  | .down a, s =>
      if a = .cancelled ∧ Task.down ∉ s.aborts then none
      else (Pump.apply (CryptoDown.telegramToClient aes) RELAY_BUF_SIZE a
        s.down).map fun down => { s with down }
  | .main a, s => applyMain a s

/-- The relay init is sent, and the tasks spawned. -/
def start (ctx : CryptoCtx) (idle : Option Nat) : State where
  idle := idle
  up := .start ctx.split.1
  down := .start ctx.split.2
  main := .selecting
  aborts := []

end Wrtg.TcpBridge
