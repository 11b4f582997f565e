import Mathlib.Logic.Function.Basic
import Mmuduo.Lib.Transition

/-!
This module contains the event loop: the queue of functors, the quit flag and the eventfd that wakes
the poller up, and the steps of the loop thread and of any number of other threads on them. One step
is one access to an atomic variable, one critical section or one system call. The content of a
functor is left open.
-/

inductive Caller where
  | owner
  | other (n : Nat)
  deriving DecidableEq, Repr

def Caller.isInLoopThread : Caller → Bool
  | .owner => true
  | .other _ => false

structure Queued (F : Type) where
  caller : Caller
  functor : F
  deriving DecidableEq, Repr

structure EventLoop (F : Type) where
  pendingFunctors : List (Queued F)
  callingPendingFunctors : Bool
  looping : Bool
  quit : Bool
  wakeUpFd : Nat

namespace EventLoop

variable {F : Type}

def new : EventLoop F where
  pendingFunctors := []
  callingPendingFunctors := false
  looping := false
  quit := false
  wakeUpFd := 0

def wakeUp (loop : EventLoop F) : EventLoop F :=
  { loop with wakeUpFd := loop.wakeUpFd + 1 }

def handRead (loop : EventLoop F) : EventLoop F :=
  { loop with wakeUpFd := 0 }

def push (loop : EventLoop F) (queued : Queued F) : EventLoop F :=
  { loop with pendingFunctors := loop.pendingFunctors ++ [queued] }

def queueWakeUp (loop : EventLoop F) (caller : Caller) : EventLoop F :=
  if !caller.isInLoopThread || loop.callingPendingFunctors then
    loop.wakeUp
  else
    loop

def quitWakeUp (loop : EventLoop F) (caller : Caller) : EventLoop F :=
  if !caller.isInLoopThread then
    loop.wakeUp
  else
    loop

/--
The loop thread is outside of `loop()` or at one of the steps of its body.
-/
inductive Pc (F : Type) where
  | outside
  | entered
  | test
  | polling
  | handling (wakeUpActive : Bool)
  | flagSet
  | running (functors : List (Queued F)) (inFunctor : Bool)
  | leaving

def Pc.inLoop : Pc F → Bool
  | .outside => false
  | _ => true

def Pc.userCode : Pc F → Bool
  | .outside => true
  | .handling _ => true
  | .running _ inFunctor => inFunctor
  | _ => false

def Pc.rest : Pc F → List (Queued F)
  | .running functors _ => functors
  | _ => []

def Pc.starting : Pc F → Option (Queued F)
  | .running (queued :: _) false => some queued
  | _ => none

inductive Call where
  | idle
  | queueing (index : Nat)
  | quitting
  deriving DecidableEq, Repr

structure State (F : Type) where
  loop : EventLoop F
  pc : Pc F
  calls : Caller → Call
  -- the local vector of `doPendingFunctors`
  functors : List (Queued F)
  pushed : List (Queued F)
  executed : List (Queued F)
  swapped : Nat
  returned : List Nat
  mustRun : List Nat
  quitRequested : Bool

namespace State

def new : State F where
  loop := .new
  pc := .outside
  calls := fun _ => .idle
  functors := []
  pushed := []
  executed := []
  swapped := 0
  returned := []
  mustRun := []
  quitRequested := false

def waiting (s : State F) : List (Queued F) :=
  s.pc.rest ++ s.loop.pendingFunctors

def canCall (s : State F) (caller : Caller) : Bool :=
  decide (s.calls caller = .idle) && (!caller.isInLoopThread || s.pc.userCode)

def setCall (s : State F) (caller : Caller) (call : Call) : State F :=
  { s with calls := Function.update s.calls caller call }

def queueInLoop (s : State F) (caller : Caller) (functor : F) : State F :=
  { s.setCall caller (.queueing s.pushed.length) with
    loop := s.loop.push ⟨caller, functor⟩
    pushed := s.pushed ++ [⟨caller, functor⟩] }

def queueReturn (s : State F) (caller : Caller) (index : Nat) : State F :=
  { s.setCall caller .idle with
    loop := s.loop.queueWakeUp caller
    returned := index :: s.returned }

def quit (s : State F) (caller : Caller) : State F :=
  { s.setCall caller .quitting with
    loop := { s.loop with quit := true }
    mustRun := s.returned
    quitRequested := true }

def quitReturn (s : State F) (caller : Caller) : State F :=
  { s.setCall caller .idle with loop := s.loop.quitWakeUp caller }

/--
The next step of `loop()`. The poller reports the eventfd only if its counter is positive.
-/
def loopNext (s : State F) (wakeUpActive : Bool) : Option (State F) :=
  match s.pc with
  | .outside =>
    some { s with pc := .entered, loop := { s.loop with looping := true } }
  | .entered =>
    some { s with pc := .test, loop := { s.loop with quit := false } }
  | .test =>
    some { s with pc := if s.loop.quit then .leaving else .polling }
  | .polling =>
    if wakeUpActive = true → 0 < s.loop.wakeUpFd then
      some { s with pc := .handling wakeUpActive }
    else
      none
  | .handling true =>
    some { s with pc := .handling false, loop := s.loop.handRead }
  | .handling false =>
    some { s with pc := .flagSet, loop := { s.loop with callingPendingFunctors := true } }
  | .flagSet =>
    some { s with
      pc := .running s.loop.pendingFunctors false
      loop := { s.loop with pendingFunctors := [] }
      functors := s.loop.pendingFunctors
      swapped := s.pushed.length }
  | .running (queued :: functors) false =>
    some { s with pc := .running functors true, executed := s.executed ++ [queued] }
  | .running functors true =>
    some { s with pc := .running functors false }
  | .running [] false =>
    some { s with
      pc := .test
      loop := { s.loop with callingPendingFunctors := false }
      functors := [] }
  | .leaving =>
    some { s with
      pc := .outside
      loop := { s.loop with looping := false }
      quitRequested := false }

end State

inductive Event (F : Type) where
  | queueInLoop (caller : Caller) (functor : F)
  | runInLoop (caller : Caller) (functor : F)
  | queueReturn (caller : Caller)
  | quit (caller : Caller)
  | quitReturn (caller : Caller)
  | loop (wakeUpActive : Bool)

def step (s : State F) : Event F → Option (State F)
  | .queueInLoop caller functor =>
    if s.canCall caller then
      some (s.queueInLoop caller functor)
    else
      none
  -- The loop thread runs the functor itself, within its callback.
  | .runInLoop caller functor =>
    if s.canCall caller then
      some (if caller.isInLoopThread then s else s.queueInLoop caller functor)
    else
      none
  | .queueReturn caller =>
    match s.calls caller with
    | .queueing index => some (s.queueReturn caller index)
    | _ => none
  | .quit caller =>
    if s.canCall caller then
      some (s.quit caller)
    else
      none
  | .quitReturn caller =>
    match s.calls caller with
    | .quitting => some (s.quitReturn caller)
    | _ => none
  | .loop wakeUpActive =>
    if s.calls .owner = .idle then
      s.loopNext wakeUpActive
    else
      none

def system (F : Type) : LTS (State F) (Event F) where
  Init s := s = .new
  next := step

end EventLoop
