import Mmuduo.EventLoop.Fifo
import Mmuduo.TimerQueue.Invariant

/-!
This module contains `addTimer` and `cancel` as they are called by the loop thread and by any number
of other threads. Another thread hands its work over as a functor, and the loop thread does it at
once. The timers are numbered in the order of their creation; the numbers are not part of the code,
they only tell apart the timers that have had the same address.
-/

namespace TimerQueue

namespace Threads

structure AddCall where
  thread : Nat
  timer : Addr
  number : Nat
  deriving DecidableEq, Repr

structure Issued where
  timerId : TimerId
  number : Nat
  deriving DecidableEq

inductive Functor where
  | addTimerInLoop (timer : Addr) (number : Nat)
  | cancelInLoop (issued : Issued)
  | other
  deriving DecidableEq

structure Ran where
  number : Nat
  cancelled : List Nat
  deriving DecidableEq, Repr

structure State where
  queue : TimerQueue
  batch : Option Batch
  loop : EventLoop.State Functor
  -- the calls of `addTimer` before and after their hand-over
  creating : List AddCall
  reading : List AddCall
  issued : List Issued
  -- the address and the sequence of every timer that was ever created
  names : List TimerId
  -- the number of the last timer at an address
  born : Addr → Nat
  cancelled : List Nat
  cancelledBefore : List Nat
  ran : List Ran

inductive Event where
  | newTimer (n : Nat) (timer : Addr) (when : Timestamp) (interval : TimerInterval)
  | runInLoop (n : Nat)
  | readSequence (n : Nat) (garbage : Int)
  | addTimer (timer : Addr) (when : Timestamp) (interval : TimerInterval) (clock : Timestamp)
  | cancel (caller : Caller) (index : Nat)
  | call (event : EventLoop.Event Functor)
  | loop (wakeUpActive : Bool) (clock : Timestamp)
  | timer (event : TimerQueue.Event)

namespace State

def start (numCreated : Int32) : State where
  queue := TimerQueue.new numCreated
  batch := none
  loop := .new
  creating := []
  reading := []
  issued := []
  names := []
  born := fun _ => 0
  cancelled := []
  cancelledBefore := []
  ran := []

def canCall (s : State) (n : Nat) : Bool :=
  s.loop.canCall (.other n) && s.creating.all (·.thread != n) && s.reading.all (·.thread != n)

def handling (s : State) : Bool :=
  match s.loop.pc with
  | .handling _ => decide (s.loop.calls .owner = .idle)
  | _ => false

def timers (s : State) : TimerQueue.State where
  queue := s.queue
  batch := s.batch

def nextCallback (s : State) : Option Entry :=
  s.batch.bind fun b => b.expired[b.ran]?

def name (s : State) (timer : Addr) : State :=
  { s with
    names := s.names ++ [⟨timer, s.queue.numCreated.toInt⟩]
    born := Function.update s.born timer s.names.length }

def newTimer (s : State) (n : Nat) (timer : Addr) (when : Timestamp) (interval : TimerInterval)
    : State :=
  { s.name timer with
    queue := s.queue.newTimer timer when interval
    creating := ⟨n, timer, s.names.length⟩ :: s.creating }

def runInLoop (s : State) (call : AddCall) : Option State := do
  let functor := Functor.addTimerInLoop call.timer call.number
  let loop ← EventLoop.step s.loop (.runInLoop (.other call.thread) functor)
  return { s with loop, creating := s.creating.erase call, reading := call :: s.reading }

/--
`timer->sequence()`, which is anything if there is no timer any more.
-/
def sequenceAt (s : State) (timer : Addr) (garbage : Int) : Int :=
  match s.queue.heap timer with
  | some t => t.sequence
  | none => garbage

def readSequence (s : State) (call : AddCall) (garbage : Int) : State :=
  { s with
    reading := s.reading.erase call
    issued := ⟨⟨call.timer, s.sequenceAt call.timer garbage⟩, call.number⟩ :: s.issued }

def addTimer (s : State) (timer : Addr) (when : Timestamp) (interval : TimerInterval)
    (clock : Timestamp) : Except Fault State := do
  let queue ← (s.queue.newTimer timer when interval).addTimerInLoop timer clock
  let t ← queue.deref timer
  return {
    s.name timer with
    queue
    issued := ⟨⟨timer, t.sequence⟩, s.names.length⟩ :: s.issued
  }

def cancelInLoop (s : State) (issued : Issued) : Except Fault State := do
  let queue ← s.queue.cancelInLoop issued.timerId
  return { s with queue, cancelled := issued.number :: s.cancelled }

def runFunctor (s : State) (clock : Timestamp) : Functor → Except Fault State
  | .addTimerInLoop timer _ => do
    let queue ← s.queue.addTimerInLoop timer clock
    return { s with queue }
  | .cancelInLoop issued => s.cancelInLoop issued
  | .other => .ok s

def runNext (s : State) (clock : Timestamp) : Except Fault State :=
  match s.loop.pc.starting with
  | some queued => s.runFunctor clock queued.functor
  | none => .ok s

end State

def isOther : EventLoop.Event Functor → Bool
  | .queueInLoop _ functor => decide (functor = .other)
  | .runInLoop _ functor => decide (functor = .other)
  | .loop _ => false
  | _ => true

def isTimer (s : State) : TimerQueue.Event → Bool
  | .created => true
  | .fire => true
  | .handleRead _ => s.handling
  | .callback => s.handling
  | .handleReadEnd _ => s.handling
  | .add .. => false
  | .cancel _ => false

def record (s : State) (timers : TimerQueue.State) : TimerQueue.Event → State
  | .handleRead _ =>
    { s with queue := timers.queue, batch := timers.batch, cancelledBefore := s.cancelled }
  | .callback =>
    { s with
      queue := timers.queue
      batch := timers.batch
      ran := s.ran ++ s.nextCallback.toList.map fun e => ⟨s.born e.timer, s.cancelledBefore⟩ }
  | _ => { s with queue := timers.queue, batch := timers.batch }

def step (s : State) : Event → Option (Except Fault State)
  | .newTimer n timer when interval =>
    if s.canCall n && s.queue.fresh timer then
      some (.ok (s.newTimer n timer when interval))
    else
      none
  | .runInLoop n => do
    let call ← s.creating.find? (·.thread == n)
    let s ← s.runInLoop call
    return .ok s
  | .readSequence n garbage => do
    let call ← s.reading.find? (·.thread == n)
    if s.loop.canCall (.other n) then
      some (.ok (s.readSequence call garbage))
    else
      none
  | .addTimer timer when interval clock =>
    if s.loop.canCall .owner && s.queue.fresh timer then
      some (s.addTimer timer when interval clock)
    else
      none
  | .cancel caller index => do
    let issued ← s.issued[index]?
    match caller with
    | .owner =>
      if s.loop.canCall .owner then
        some (s.cancelInLoop issued)
      else
        none
    | .other n =>
      if s.canCall n then do
        let loop ← EventLoop.step s.loop (.runInLoop (.other n) (.cancelInLoop issued))
        return .ok { s with loop }
      else
        none
  | .call event =>
    if isOther event then do
      let loop ← EventLoop.step s.loop event
      return .ok { s with loop }
    else
      none
  | .loop wakeUpActive clock =>
    match s.batch with
    | none => do
      let loop ← EventLoop.step s.loop (.loop wakeUpActive)
      some <| do
        let s ← s.runNext clock
        return { s with loop }
    | some _ => none
  | .timer event =>
    if isTimer s event then do
      let timers ← TimerQueue.step s.timers event
      some <| do
        let timers ← timers
        return record s timers event
    else
      none

def system : LTS (Except Fault State) Event where
  Init s := ∃ numCreated, s = .ok (.start numCreated)
  next s e :=
    match s with
    | .error _ => none
    | .ok s => step s e

inductive Step (s : State) : Event → State → Prop where
  | newTimer {n : Nat} {timer : Addr} {when : Timestamp} {interval : TimerInterval}
    (hcall : s.canCall n = true) (hfresh : s.queue.fresh timer = true)
    : Step s (.newTimer n timer when interval) (s.newTimer n timer when interval)
  | runInLoop {n : Nat} {call : AddCall} {loop : EventLoop.State Functor}
    (hfind : s.creating.find? (·.thread == n) = some call)
    (hloop : EventLoop.step s.loop
      (.runInLoop (.other call.thread) (.addTimerInLoop call.timer call.number)) = some loop)
    : Step s (.runInLoop n)
        { s with loop, creating := s.creating.erase call, reading := call :: s.reading }
  | readSequence {n : Nat} {call : AddCall} {garbage : Int}
    (hfind : s.reading.find? (·.thread == n) = some call)
    : Step s (.readSequence n garbage) (s.readSequence call garbage)
  | addTimer {timer : Addr} {when : Timestamp} {interval : TimerInterval} {clock : Timestamp}
    {queue : TimerQueue} {t : Timer} (hfresh : s.queue.fresh timer = true)
    (hadd : (s.queue.newTimer timer when interval).addTimerInLoop timer clock = .ok queue)
    (hderef : queue.deref timer = .ok t)
    : Step s (.addTimer timer when interval clock)
        { s.name timer with
          queue
          issued := ⟨⟨timer, t.sequence⟩, s.names.length⟩ :: s.issued }
  | cancelDirectly {index : Nat} {i : Issued} {queue : TimerQueue}
    (hissued : s.issued[index]? = some i) (hcancel : s.queue.cancelInLoop i.timerId = .ok queue)
    : Step s (.cancel .owner index) { s with queue, cancelled := i.number :: s.cancelled }
  | cancel {n index : Nat} {issued : Issued} {loop : EventLoop.State Functor}
    (hissued : s.issued[index]? = some issued)
    (hloop : EventLoop.step s.loop (.runInLoop (.other n) (.cancelInLoop issued)) = some loop)
    : Step s (.cancel (.other n) index) { s with loop }
  | call {event : EventLoop.Event Functor} {loop : EventLoop.State Functor}
    (hother : isOther event = true) (hloop : EventLoop.step s.loop event = some loop)
    : Step s (.call event) { s with loop }
  | loop {active : Bool} {clock : Timestamp} {loop : EventLoop.State Functor}
    (hbatch : s.batch = none)
    (hwaiting : s.loop.waiting = loop.waiting
      ∨ ∃ queued, queued.functor = .other ∧ s.loop.waiting = queued :: loop.waiting)
    : Step s (.loop active clock) { s with loop }
  | insertQueued {active : Bool} {clock : Timestamp} {loop : EventLoop.State Functor}
    {caller : Caller} {timer : Addr} {number : Nat} {queue : TimerQueue} (hbatch : s.batch = none)
    (hwaiting : s.loop.waiting = ⟨caller, .addTimerInLoop timer number⟩ :: loop.waiting)
    (hadd : s.queue.addTimerInLoop timer clock = .ok queue)
    : Step s (.loop active clock) { s with queue, loop }
  | cancelQueued {active : Bool} {clock : Timestamp} {loop : EventLoop.State Functor}
    {caller : Caller} {i : Issued} {queue : TimerQueue} (hbatch : s.batch = none)
    (hstart : s.loop.pc.starting = some ⟨caller, .cancelInLoop i⟩)
    (hwaiting : s.loop.waiting = ⟨caller, .cancelInLoop i⟩ :: loop.waiting)
    (hcancel : s.queue.cancelInLoop i.timerId = .ok queue)
    : Step s (.loop active clock) { s with queue, loop, cancelled := i.number :: s.cancelled }
  | timer {event : TimerQueue.Event} {timers : TimerQueue.State} (htimer : isTimer s event = true)
    (hstep : TimerQueue.step s.timers event = some (.ok timers))
    : Step s (.timer event) (record s timers event)

theorem Step.of_runNext {s s' : State} {active : Bool} {clock : Timestamp}
    {loop : EventLoop.State Functor} (hbatch : s.batch = none)
    (hloop : EventLoop.step s.loop (.loop active) = some loop) (hrun : s.runNext clock = .ok s')
    : Step s (.loop active clock) { s' with loop } := by
  have hwaiting := EventLoop.waiting_of_loop hloop
  unfold State.runNext at hrun
  split at hrun
  . next queued hstart =>
    rw [hstart] at hwaiting
    rcases queued with ⟨caller, functor⟩
    cases functor with
    | addTimerInLoop timer number =>
      simp only [State.runFunctor] at hrun
      rw [bind_eq_ok] at hrun
      rcases hrun with ⟨queue, hadd, hs⟩
      cases hs
      exact .insertQueued hbatch hwaiting hadd
    | cancelInLoop i =>
      simp only [State.runFunctor, State.cancelInLoop] at hrun
      rw [bind_eq_ok] at hrun
      rcases hrun with ⟨queue, hcancel, hs⟩
      cases hs
      exact .cancelQueued hbatch hstart hwaiting hcancel
    | other =>
      cases hrun
      exact .loop hbatch (Or.inr ⟨_, rfl, hwaiting⟩)
  . next hstart =>
    rw [hstart] at hwaiting
    cases hrun
    exact .loop hbatch (Or.inl hwaiting)

theorem Step.of_step {s s' : State} {e : Event} (h : step s e = some (.ok s')) : Step s e s' := by
  cases e with
  | newTimer n timer when interval =>
    simp only [step] at h
    split at h
    . next hcond =>
      rw [Bool.and_eq_true] at hcond
      cases h
      exact .newTimer hcond.1 hcond.2
    . simp at h
  | runInLoop n =>
    simp only [step, State.runInLoop, Option.bind_eq_bind, Option.bind_eq_some_iff] at h
    rcases h with ⟨call, hfind, s₁, ⟨loop, hloop, hs₁⟩, hs⟩
    cases hs₁
    cases hs
    exact .runInLoop hfind hloop
  | readSequence n garbage =>
    simp only [step, Option.bind_eq_bind, Option.bind_eq_some_iff] at h
    rcases h with ⟨call, hfind, h⟩
    split at h
    . cases h
      exact .readSequence hfind
    . simp at h
  | addTimer timer when interval clock =>
    simp only [step] at h
    split at h
    . next hcond =>
      rw [Bool.and_eq_true] at hcond
      rw [Option.some.injEq, State.addTimer, bind_eq_ok] at h
      rcases h with ⟨queue, hadd, h⟩
      rw [bind_eq_ok] at h
      rcases h with ⟨t, hderef, hs⟩
      cases hs
      exact .addTimer hcond.2 hadd hderef
    . simp at h
  | cancel caller index =>
    simp only [step, Option.bind_eq_bind, Option.bind_eq_some_iff] at h
    rcases h with ⟨issued, hissued, h⟩
    cases caller with
    | owner =>
      simp only at h
      split at h
      . rw [Option.some.injEq, State.cancelInLoop, bind_eq_ok] at h
        rcases h with ⟨queue, hcancel, hs⟩
        cases hs
        exact .cancelDirectly hissued hcancel
      . simp at h
    | other n =>
      simp only at h
      split at h
      . rw [Option.bind_eq_some_iff] at h
        rcases h with ⟨loop, hloop, hs⟩
        cases hs
        exact .cancel hissued hloop
      . simp at h
  | call event =>
    simp only [step] at h
    split at h
    . next hother =>
      rw [Option.bind_eq_bind, Option.bind_eq_some_iff] at h
      rcases h with ⟨loop, hloop, hs⟩
      cases hs
      exact .call hother hloop
    . simp at h
  | loop active clock =>
    simp only [step] at h
    split at h
    . next hbatch =>
      rw [Option.bind_eq_bind, Option.bind_eq_some_iff] at h
      rcases h with ⟨loop, hloop, h⟩
      rw [Option.some.injEq, bind_eq_ok] at h
      rcases h with ⟨s₁, hrun, hs⟩
      cases hs
      exact .of_runNext hbatch hloop hrun
    . simp at h
  | timer event =>
    simp only [step] at h
    split at h
    . next htimer =>
      rw [Option.bind_eq_bind, Option.bind_eq_some_iff] at h
      rcases h with ⟨r, hstep, h⟩
      rw [Option.some.injEq, bind_eq_ok] at h
      rcases h with ⟨timers, hr, hs⟩
      cases hr
      cases hs
      exact .timer htimer hstep
    . simp at h

def enterLoop : List Event :=
  [.loop false 10, .loop false 10, .loop false 10, .loop false 10]

def aroundLoop (functors : Nat) : List Event :=
  [.loop false 10, .loop false 10] ++ List.replicate (2 * functors) (.loop false 10)
    ++ [.loop false 10, .loop false 10, .loop false 10]

def addTimerFrom (n : Nat) (timer : Addr) (when : Timestamp) (interval : TimerInterval)
    : List Event :=
  [.newTimer n timer when interval, .runInLoop n, .call (.queueReturn (.other n)),
    .readSequence n 0]

def handleReadWith (now clock : Timestamp) (callbacks : Nat) : List Event :=
  [.timer .fire, .timer (.handleRead now)] ++ List.replicate callbacks (.timer .callback)
    ++ [.timer (.handleReadEnd clock)]

def periodic : TimerInterval := .ofNat 50 true

def oneShot : TimerInterval := .ofNat 0 false

end Threads

end TimerQueue
