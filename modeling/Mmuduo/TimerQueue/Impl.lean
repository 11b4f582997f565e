import Mathlib.Algebra.Group.Nat.Defs
import Mmuduo.Lib.OrdSet
import Mmuduo.Lib.Transition

/-!
This module contains the timer queue of an event loop: the timers on the heap, the two indexes
`timers_` and `activeTimers_`, and the operations of the loop thread on them. Time is counted in
microseconds since the epoch. An operation that reads or deletes a dead timer or that violates one
of its assertions fails.
-/

abbrev Timestamp := Int

namespace Timestamp

def invalid : Timestamp := 0

def valid (t : Timestamp) : Bool :=
  decide (t > invalid)

def kMicroSecondsPerSecond : Int := 1000 * 1000

def addTime (t : Timestamp) (delta : Int) : Timestamp :=
  t + delta

end Timestamp

abbrev Addr := Nat

def uintptrMax : Addr := 2 ^ 64 - 1

/--
A `double` number of seconds: its sign and its truncated count of microseconds.
-/
structure TimerInterval where
  micros : Int
  positive : Bool
  nonneg : positive → 0 ≤ micros

def TimerInterval.ofNat (micros : Nat) (positive : Bool) : TimerInterval where
  micros := micros
  positive := positive
  nonneg := fun _ => Int.natCast_nonneg micros

structure Timer where
  expiration : Timestamp
  interval : TimerInterval
  sequence : Int

namespace Timer

def new (numCreated : Int32) (when : Timestamp) (interval : TimerInterval) : Timer where
  expiration := when
  interval := interval
  sequence := numCreated.toInt

def repeats (t : Timer) : Bool :=
  t.interval.positive

def restart (t : Timer) (now : Timestamp) : Timer :=
  if t.repeats then
    { t with expiration := now.addTime t.interval.micros }
  else
    { t with expiration := Timestamp.invalid }

end Timer

structure TimerId where
  timer : Addr
  sequence : Int
  deriving DecidableEq

namespace TimerId

def default : TimerId := ⟨0, 0⟩

end TimerId

structure Timespec where
  sec : Int
  nsec : Int
  deriving DecidableEq, Repr

inductive Timerfd where
  | disarmed
  | armed (expiration : Timestamp) (value : Timespec)
  | fired (expiration : Timestamp)

def howMuchTimeFromNow (when now : Timestamp) : Timespec :=
  let microseconds := if when - now < 100 then 100 else when - now
  { sec := microseconds.tdiv Timestamp.kMicroSecondsPerSecond
    nsec := microseconds.tmod Timestamp.kMicroSecondsPerSecond * 1000 }

namespace Timerfd

def settime (expiration : Timestamp) (value : Timespec) : Timerfd :=
  if value.sec = 0 ∧ value.nsec = 0 then
    .disarmed
  else
    .armed expiration value

def read : Timerfd → Timerfd
  | .fired _ => .disarmed
  | fd => fd

end Timerfd

inductive Fault where
  | useAfterFree
  | doubleDelete
  | assertion
  deriving DecidableEq, Repr

def assert (p : Prop) [Decidable p] : Except Fault Unit :=
  if p then
    .ok ()
  else
    .error .assertion

theorem assert_pos {p : Prop} [Decidable p] (h : p) : assert p = .ok () := by
  simp [assert, h]

abbrev Entry := Timestamp ×ₗ Addr

def Entry.mk (when : Timestamp) (timer : Addr) : Entry :=
  toLex (when, timer)

def Entry.timer (e : Entry) : Addr :=
  (ofLex e).2

abbrev ActiveTimer := Addr ×ₗ Int

def ActiveTimer.mk (timer : Addr) (sequence : Int) : ActiveTimer :=
  toLex (timer, sequence)

structure TimerQueue where
  heap : Addr → Option Timer
  numCreated : Int32
  timers : OrdSet Entry
  activeTimers : OrdSet ActiveTimer
  callingExpiredTimers : Bool
  cancelingTimers : OrdSet ActiveTimer
  timerfd : Timerfd

namespace TimerQueue

/--
`s_numCreated_` is static, so it starts at any value.
-/
def new (numCreated : Int32) : TimerQueue where
  heap := fun _ => none
  numCreated := numCreated
  timers := .empty
  activeTimers := .empty
  callingExpiredTimers := false
  cancelingTimers := .empty
  timerfd := .disarmed

def setTimer (q : TimerQueue) (a : Addr) (t : Option Timer) : TimerQueue :=
  { q with heap := Function.update q.heap a t }

def newTimer (q : TimerQueue) (a : Addr) (when : Timestamp) (interval : TimerInterval) : TimerQueue :=
  { q.setTimer a (some (Timer.new q.numCreated when interval)) with
    numCreated := q.numCreated + 1 }

def deref (q : TimerQueue) (a : Addr) : Except Fault Timer :=
  match q.heap a with
  | some t => .ok t
  | none => .error .useAfterFree

def deleteTimer (q : TimerQueue) (a : Addr) : Except Fault TimerQueue :=
  match q.heap a with
  | some _ => .ok (q.setTimer a none)
  | none => .error .doubleDelete

def resetTimerfd (q : TimerQueue) (expiration now : Timestamp) : TimerQueue :=
  { q with timerfd := .settime expiration (howMuchTimeFromNow expiration now) }

def assertSizes (q : TimerQueue) : Except Fault Unit :=
  assert (q.timers.size = q.activeTimers.size)

def earliestChanged (q : TimerQueue) (when : Timestamp) : Bool :=
  match q.timers.first with
  | none => true
  | some e => decide (when < (ofLex e).1)

def insert (q : TimerQueue) (timer : Addr) : Except Fault (Bool × TimerQueue) := do
  q.assertSizes
  let t ← q.deref timer
  let earliestChanged := q.earliestChanged t.expiration
  let (new, timers) := q.timers.insert (.mk t.expiration timer)
  assert (new = true)
  let (new, activeTimers) := q.activeTimers.insert (.mk timer t.sequence)
  assert (new = true)
  let q := { q with timers, activeTimers }
  q.assertSizes
  return (earliestChanged, q)

def addTimerInLoop (q : TimerQueue) (timer : Addr) (clock : Timestamp)
    : Except Fault TimerQueue := do
  let (earliestChanged, q) ← q.insert timer
  if earliestChanged then
    let t ← q.deref timer
    return q.resetTimerfd t.expiration clock
  else
    return q

def cancelInLoop (q : TimerQueue) (timerId : TimerId) : Except Fault TimerQueue := do
  q.assertSizes
  let timer := ActiveTimer.mk timerId.timer timerId.sequence
  let q ←
    if timer ∈ q.activeTimers then do
      let t ← q.deref timerId.timer
      let (n, timers) := q.timers.erase (.mk t.expiration timerId.timer)
      assert (n = 1)
      let q ← { q with timers }.deleteTimer timerId.timer
      pure { q with activeTimers := (q.activeTimers.erase timer).2 }
    else if q.callingExpiredTimers then
      pure { q with cancelingTimers := (q.cancelingTimers.insert timer).2 }
    else
      pure q
  q.assertSizes
  return q

def eraseActive (heap : Addr → Option Timer) (activeTimers : OrdSet ActiveTimer)
    : List Entry → Except Fault (OrdSet ActiveTimer)
  | [] => .ok activeTimers
  | e :: expired =>
    match heap e.timer with
    | none => .error .useAfterFree
    | some t => do
      let (n, activeTimers) := activeTimers.erase (.mk e.timer t.sequence)
      assert (n = 1)
      eraseActive heap activeTimers expired

def getExpired (q : TimerQueue) (now : Timestamp) : Except Fault (List Entry × TimerQueue) := do
  q.assertSizes
  let sentry := Entry.mk now uintptrMax
  let (expired, timers) := q.timers.lowerBound sentry
  assert (∀ e ∈ timers.first, now < (ofLex e).1)
  let activeTimers ← eraseActive q.heap q.activeTimers expired
  let q := { q with timers, activeTimers }
  q.assertSizes
  return (expired, q)

def resetOne (q : TimerQueue) (now : Timestamp) (timer : Addr) : Except Fault TimerQueue := do
  let t ← q.deref timer
  if t.repeats ∧ ActiveTimer.mk timer t.sequence ∉ q.cancelingTimers then
    let (_, q) ← (q.setTimer timer (some (t.restart now))).insert timer
    return q
  else
    q.deleteTimer timer

def resetAll (q : TimerQueue) (now : Timestamp) : List Entry → Except Fault TimerQueue
  | [] => .ok q
  | e :: expired => do
    let q ← q.resetOne now e.timer
    q.resetAll now expired

def nextExpire (q : TimerQueue) : Except Fault Timestamp :=
  match q.timers.first with
  | none => .ok Timestamp.invalid
  | some e => do
    let t ← q.deref e.timer
    return t.expiration

def reset (q : TimerQueue) (expired : List Entry) (now clock : Timestamp)
    : Except Fault TimerQueue := do
  let q ← q.resetAll now expired
  let nextExpire ← q.nextExpire
  if nextExpire.valid then
    return q.resetTimerfd nextExpire clock
  else
    return q

/--
`handleRead` runs the callbacks of the expired timers, which add and cancel timers themselves. So
it is cut into its part up to the first callback, the callbacks, and its part after the last one.
-/
def handleReadBegin (q : TimerQueue) (now : Timestamp)
    : Except Fault (List Entry × TimerQueue) := do
  let q := { q with timerfd := q.timerfd.read }
  let (expired, q) ← q.getExpired now
  return (expired, { q with callingExpiredTimers := true, cancelingTimers := .empty })

def handleReadEnd (q : TimerQueue) (expired : List Entry) (now clock : Timestamp)
    : Except Fault TimerQueue :=
  { q with callingExpiredTimers := false }.reset expired now clock

structure Batch where
  now : Timestamp
  expired : List Entry
  ran : Nat

structure State where
  queue : TimerQueue
  batch : Option Batch

inductive Event where
  | add (timer : Addr) (when : Timestamp) (interval : TimerInterval) (clock : Timestamp)
  | cancel (timerId : TimerId)
  | created
  | fire
  | handleRead (now : Timestamp)
  | callback
  | handleReadEnd (clock : Timestamp)

def fresh (q : TimerQueue) (a : Addr) : Bool :=
  (q.heap a).isNone && decide (0 < a) && decide (a < uintptrMax)

def step (s : State) : Event → Option (Except Fault State)
  | .add timer when interval clock =>
    if s.queue.fresh timer then
      some <| do
        let queue ← (s.queue.newTimer timer when interval).addTimerInLoop timer clock
        return { s with queue }
    else
      none
  | .cancel timerId =>
    some <| do
      let queue ← s.queue.cancelInLoop timerId
      return { s with queue }
  -- a timer of another event loop
  | .created =>
    some (.ok { s with queue := { s.queue with numCreated := s.queue.numCreated + 1 } })
  | .fire =>
    match s.queue.timerfd with
    | .armed expiration _ =>
      some (.ok { s with queue := { s.queue with timerfd := .fired expiration } })
    | _ => none
  | .handleRead now =>
    match s.batch with
    | none =>
      some <| do
        let (expired, queue) ← s.queue.handleReadBegin now
        return { queue, batch := some { now, expired, ran := 0 } }
    | some _ => none
  | .callback =>
    match s.batch with
    | none => none
    | some b =>
      match b.expired[b.ran]? with
      | none => none
      | some e =>
        some <| do
          let _ ← s.queue.deref e.timer
          return { s with batch := some { b with ran := b.ran + 1 } }
  | .handleReadEnd clock =>
    match s.batch with
    | none => none
    | some b =>
      if b.ran = b.expired.length then
        some <| do
          let queue ← s.queue.handleReadEnd b.expired b.now clock
          return { queue, batch := none }
      else
        none

def system : LTS (Except Fault State) Event where
  Init s := ∃ numCreated, s = .ok { queue := new numCreated, batch := none }
  next s e :=
    match s with
    | .error _ => none
    | .ok s => step s e

end TimerQueue
