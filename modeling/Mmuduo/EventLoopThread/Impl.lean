import Mmuduo.EventLoop.Impl

/-!
This module contains the thread that an event loop is run in: `startLoop` creates the thread and
waits for the loop, `threadFunc` publishes the loop and runs it, and the destructor quits the loop
and joins the thread. They are interleaved with the steps of the loop itself and with the calls that
other threads make through the pointer that `startLoop` has returned.
-/

namespace EventLoopThread

variable {F : Type}

inductive FuncPc where
  | notStarted
  | started
  -- the loop is constructed and given to the init callback
  | constructed
  | looping
  | returned
  | finished
  deriving DecidableEq, Repr

inductive StartPc where
  | notCalled
  | waiting
  | returned
  deriving DecidableEq, Repr

inductive DestroyPc where
  | notCalled
  | checking (n : Nat)
  | quitting (n : Nat)
  | waking (n : Nat)
  | joining
  | done
  deriving DecidableEq, Repr

def DestroyPc.thread : DestroyPc → Option Nat
  | .checking n => some n
  | .quitting n => some n
  | .waking n => some n
  | _ => none

structure State (F : Type) where
  loop : EventLoop.State F
  -- `m_loop != nullptr`
  published : Bool
  exiting : Bool
  func : FuncPc
  start : StartPc
  destroy : DestroyPc

namespace State

def new : State F where
  loop := .new
  published := false
  exiting := false
  func := .notStarted
  start := .notCalled
  destroy := .notCalled

def threadFunc (s : State F) : Option (State F) :=
  match s.func with
  | .started => some { s with func := .constructed }
  | .constructed =>
    if s.loop.calls .owner = .idle then
      some { s with func := .looping, published := true }
    else
      none
  | .returned =>
    if s.loop.calls .owner = .idle then
      some { s with func := .finished, published := false }
    else
      none
  | _ => none

def mayCall (s : State F) : Caller → Bool
  | .owner =>
    match s.func with
    | .constructed => true
    | .looping => s.loop.pc.inLoop
    | _ => false
  | .other n =>
    decide (s.start = .returned) && decide (s.func ≠ .finished)
      && decide (s.destroy.thread ≠ some n)

def allowed (s : State F) : EventLoop.Event F → Bool
  | .queueInLoop caller _ => s.mayCall caller
  | .runInLoop caller _ => s.mayCall caller
  | .queueReturn caller => s.mayCall caller
  | .quit caller => s.mayCall caller
  | .quitReturn caller => s.mayCall caller
  | .loop _ => decide (s.func = .looping)

def afterLoop (s : State F) (loop : EventLoop.State F) : State F :=
  { s with
    loop
    func := if s.loop.pc.inLoop && !loop.pc.inLoop then .returned else s.func }

/--
The destructor reads `m_loop` twice, so it gets stuck at a loop that ends in between.
-/
def destroyNext (s : State F) : Option (State F) :=
  match s.destroy with
  | .checking n =>
    some { s with destroy := if s.published then .quitting n else .done }
  | .quitting n =>
    if s.published then do
      let loop ← EventLoop.step s.loop (.quit (.other n))
      return { s with loop, destroy := .waking n }
    else
      none
  | .waking n =>
    if s.func ≠ .finished then do
      let loop ← EventLoop.step s.loop (.quitReturn (.other n))
      return { s with loop, destroy := .joining }
    else
      none
  | .joining =>
    if s.func = .finished then
      some { s with destroy := .done }
    else
      none
  | _ => none

end State

inductive Event (F : Type) where
  | startLoop
  | startLoopReturn
  | threadFunc
  | loop (event : EventLoop.Event F)
  | destroy (n : Nat)
  | destroyNext

def step (s : State F) : Event F → Option (State F)
  | .startLoop =>
    if s.func = .notStarted then
      some { s with start := .waiting, func := .started }
    else
      none
  | .startLoopReturn =>
    if s.start = .waiting ∧ s.published = true then
      some { s with start := .returned }
    else
      none
  | .threadFunc => s.threadFunc
  | .loop event =>
    if s.allowed event then do
      let loop ← EventLoop.step s.loop event
      return s.afterLoop loop
    else
      none
  | .destroy n =>
    if s.destroy = .notCalled then
      some { s with exiting := true, destroy := .checking n }
    else
      none
  | .destroyNext => s.destroyNext

def system (F : Type) : LTS (State F) (Event F) where
  Init s := s = .new
  next := step

end EventLoopThread
