import Mmuduo.EventLoop.Fifo
import Mmuduo.TcpConnection.Lemmas

/-!
This module contains a connection that is used by its loop thread and by any number of other threads.
A call of `send`, `shutdown` or `connectDestroyed` is cut where another thread can come in between:
after its test of the state and, in `shutdown`, after its store of the new state.
-/

namespace TcpConnection

def goDown (c : TcpConnection) : TcpConnection × List Action :=
  let c := { c with state := .kDisconnected, channel := c.channel.disableAll }
  (c, [.connectionCallback c.connected])

theorem connectDestroyed_eq (c : TcpConnection)
    : c.connectDestroyed = if c.state = .kConnected then c.goDown else (c, []) := by
  rfl

namespace Threads

inductive Functor where
  | sendInLoop
  | shutdownInLoop
  | other
  deriving DecidableEq, Repr

inductive Call where
  | idle
  | shuttingDown
  | stored
  | destroying
  deriving DecidableEq, Repr

structure State where
  conn : TcpConnection
  loop : EventLoop.State Functor
  calls : Caller → Call
  -- the threads whose `send` has passed its test
  senders : List Caller
  established : Bool
  -- the log at the end of the first `connectDestroyed`
  destroyed : Option (List Action)
  -- the values of `m_state`, oldest first
  states : List StateE
  log : List Action

inductive Event where
  | connectEstablished
  | connectDestroyed
  | goDown
  | send (caller : Caller)
  | sendRun (caller : Caller) (data : List UInt8) (res : WriteResult)
  | shutdown (caller : Caller)
  | setState (caller : Caller)
  | shutdownRun (caller : Caller)
  | handleRead (received : ReadResult)
  | handleWrite (res : WriteResult)
  | handleClose
  | call (event : EventLoop.Event Functor)
  -- The string of a queued `sendInLoop` is whatever is at its address now.
  | loop (wakeUpActive : Bool) (data : List UInt8) (res : WriteResult)

namespace State

def start (conn : TcpConnection) : State where
  conn := conn
  loop := .new
  calls := fun _ => .idle
  senders := []
  established := false
  destroyed := none
  states := [conn.state]
  log := []

def isIdle (s : State) (caller : Caller) : Bool :=
  decide (s.calls caller = .idle ∧ caller ∉ s.senders)

def canCall (s : State) (caller : Caller) : Bool :=
  s.loop.canCall caller && s.isIdle caller

def handling (s : State) : Bool :=
  match s.loop.pc with
  | .handling _ => s.canCall .owner && s.established
  | _ => false

def setCall (s : State) (caller : Caller) (call : Call) : State :=
  { s with calls := Function.update s.calls caller call }

def beginSend (s : State) (caller : Caller) : State :=
  { s with senders := caller :: s.senders }

def endSend (s : State) (caller : Caller) : State :=
  { s with senders := s.senders.erase caller }

def act (s : State) (r : TcpConnection × List Action) : State :=
  { s with conn := r.1, states := s.states ++ [r.1.state], log := s.log ++ r.2 }

def goDown (s : State) : State :=
  { (s.act s.conn.goDown).setCall .owner .idle with
    destroyed := s.destroyed.or (some (s.log ++ s.conn.goDown.2)) }

def runFunctor (s : State) (data : List UInt8) (res : WriteResult)
    : Functor → Option (TcpConnection × List Action)
  | .sendInLoop => s.conn.sendInLoop data res
  | .shutdownInLoop => some (s.conn, s.conn.shutdownInLoop)
  | .other => some (s.conn, [])

def runNext (s : State) (data : List UInt8) (res : WriteResult)
    : Option (TcpConnection × List Action) :=
  match s.loop.pc.starting with
  | some queued => s.runFunctor data res queued.functor
  | none => some (s.conn, [])

end State

def isOther : EventLoop.Event Functor → Bool
  | .queueInLoop _ functor => decide (functor = .other)
  | .runInLoop _ functor => decide (functor = .other)
  | .loop _ => false
  | _ => true

def step (s : State) : Event → Option State
  | .connectEstablished =>
    if s.canCall .owner && !s.established then
      some { s.act s.conn.connectEstablished with established := true }
    else
      none
  | .connectDestroyed =>
    if s.canCall .owner && s.established && s.destroyed.isNone then
      if s.conn.state = .kConnected then
        some (s.setCall .owner .destroying)
      else
        some { s with destroyed := some s.log }
    else
      none
  | .goDown =>
    if s.calls .owner = .destroying then
      some s.goDown
    else
      none
  | .send caller =>
    if s.canCall caller then
      some (if s.conn.state = .kConnected then s.beginSend caller else s)
    else
      none
  | .sendRun caller data res =>
    if caller ∈ s.senders then
      match caller with
      | .owner => do
        let r ← s.conn.sendInLoop data res
        return (s.act r).endSend .owner
      | .other n => do
        let loop ← EventLoop.step s.loop (.runInLoop (.other n) .sendInLoop)
        return { s.endSend (.other n) with loop }
    else
      none
  | .shutdown caller =>
    if s.canCall caller then
      some (if s.conn.state = .kConnected then s.setCall caller .shuttingDown else s)
    else
      none
  | .setState caller =>
    if s.calls caller = .shuttingDown then
      some ((s.act ({ s.conn with state := .kDisconnecting }, [])).setCall caller .stored)
    else
      none
  | .shutdownRun caller =>
    if s.calls caller = .stored then
      match caller with
      | .owner => some ((s.act (s.conn, s.conn.shutdownInLoop)).setCall .owner .idle)
      | .other n => do
        let loop ← EventLoop.step s.loop (.runInLoop (.other n) .shutdownInLoop)
        return { s.setCall (.other n) .idle with loop }
    else
      none
  | .handleRead received =>
    if s.handling then do
      let r ← s.conn.handleRead received
      return s.act r
    else
      none
  | .handleWrite res =>
    if s.handling then do
      let r ← s.conn.handleWrite res
      return s.act r
    else
      none
  | .handleClose =>
    if s.handling then
      some (s.act s.conn.handleClose)
    else
      none
  | .call event =>
    if isOther event then do
      let loop ← EventLoop.step s.loop event
      return { s with loop }
    else
      none
  | .loop wakeUpActive data res =>
    if s.isIdle .owner then do
      let loop ← EventLoop.step s.loop (.loop wakeUpActive)
      let r ← s.runNext data res
      return { s.act r with loop }
    else
      none

def system : LTS State Event where
  Init s := ∃ sockfd conn cb cb' mark, TcpConnection.new sockfd = some conn
    ∧ s = .start ((conn.setWriteCompleteCallback cb).setHighWaterMarkCallback cb' mark)
  next := step

def systemWith (cond : State → Event → Bool) : LTS State Event :=
  system.restrict fun s e => cond s e = true

inductive Step (s : State) : Event → State → Prop where
  | connectEstablished (hnew : s.established = false)
    : Step s .connectEstablished { s.act s.conn.connectEstablished with established := true }
  | connectDestroyed (hestablished : s.established = true) (hdestroyed : s.destroyed = none)
    (hstate : s.conn.state = .kConnected)
    : Step s .connectDestroyed (s.setCall .owner .destroying)
  | remove (hestablished : s.established = true) (hdestroyed : s.destroyed = none)
    (hstate : s.conn.state ≠ .kConnected)
    : Step s .connectDestroyed { s with destroyed := some s.log }
  | goDown (hcall : s.calls .owner = .destroying)
    : Step s .goDown s.goDown
  | send {caller : Caller} (hstate : s.conn.state = .kConnected)
    : Step s (.send caller) (s.beginSend caller)
  | noSend {caller : Caller}
    : Step s (.send caller) s
  | sendDirectly {data : List UInt8} {res : WriteResult} {r : TcpConnection × List Action}
    (hcall : .owner ∈ s.senders) (hsend : s.conn.sendInLoop data res = some r)
    : Step s (.sendRun .owner data res) ((s.act r).endSend .owner)
  | sendQueued {n : Nat} {data : List UInt8} {res : WriteResult} {loop : EventLoop.State Functor}
    (hcall : .other n ∈ s.senders)
    (hwaiting : loop.waiting = s.loop.waiting ++ [⟨.other n, .sendInLoop⟩])
    : Step s (.sendRun (.other n) data res) { s.endSend (.other n) with loop }
  | shutdown {caller : Caller} (hstate : s.conn.state = .kConnected)
    : Step s (.shutdown caller) (s.setCall caller .shuttingDown)
  | noShutdown {caller : Caller}
    : Step s (.shutdown caller) s
  | setState {caller : Caller} (hcall : s.calls caller = .shuttingDown)
    : Step s (.setState caller)
        ((s.act ({ s.conn with state := .kDisconnecting }, [])).setCall caller .stored)
  | shutdownDirectly (hcall : s.calls .owner = .stored)
    : Step s (.shutdownRun .owner) ((s.act (s.conn, s.conn.shutdownInLoop)).setCall .owner .idle)
  | shutdownQueued {n : Nat} {loop : EventLoop.State Functor}
    (hcall : s.calls (.other n) = .stored)
    (hwaiting : loop.waiting = s.loop.waiting ++ [⟨.other n, .shutdownInLoop⟩])
    : Step s (.shutdownRun (.other n)) { s.setCall (.other n) .idle with loop }
  | handleRead {received : ReadResult} {r : TcpConnection × List Action}
    (hestablished : s.established = true) (hread : s.conn.handleRead received = some r)
    : Step s (.handleRead received) (s.act r)
  | handleWrite {res : WriteResult} {r : TcpConnection × List Action}
    (hestablished : s.established = true) (hwrite : s.conn.handleWrite res = some r)
    : Step s (.handleWrite res) (s.act r)
  | handleClose (hestablished : s.established = true)
    : Step s .handleClose (s.act s.conn.handleClose)
  | call {event : EventLoop.Event Functor} {loop : EventLoop.State Functor}
    (hwaiting : ∀ queued ∈ loop.waiting, queued ∈ s.loop.waiting ∨ queued.functor = .other)
    : Step s (.call event) { s with loop }
  | loop {active : Bool} {data : List UInt8} {res : WriteResult} {loop : EventLoop.State Functor}
    (hwaiting : loop.waiting ⊆ s.loop.waiting)
    : Step s (.loop active data res) { s.act (s.conn, []) with loop }
  | runSend {active : Bool} {data : List UInt8} {res : WriteResult} {caller : Caller}
    {loop : EventLoop.State Functor} {r : TcpConnection × List Action}
    (hwaiting : s.loop.waiting = ⟨caller, .sendInLoop⟩ :: loop.waiting)
    (hsend : s.conn.sendInLoop data res = some r)
    : Step s (.loop active data res) { s.act r with loop }
  | runShutdown {active : Bool} {data : List UInt8} {res : WriteResult} {caller : Caller}
    {loop : EventLoop.State Functor}
    (hstart : s.loop.pc.starting = some ⟨caller, .shutdownInLoop⟩)
    (hwaiting : s.loop.waiting = ⟨caller, .shutdownInLoop⟩ :: loop.waiting)
    : Step s (.loop active data res) { s.act (s.conn, s.conn.shutdownInLoop) with loop }

namespace Step

variable {s s' : State}

theorem of_runNext {active : Bool} {data : List UInt8} {res : WriteResult}
    {loop : EventLoop.State Functor} {r : TcpConnection × List Action}
    (hloop : EventLoop.step s.loop (.loop active) = some loop) (hrun : s.runNext data res = some r)
    : Step s (.loop active data res) { s.act r with loop } := by
  have hwaiting := EventLoop.waiting_of_loop hloop
  unfold State.runNext at hrun
  split at hrun
  . next queued hstart =>
    rw [hstart] at hwaiting
    rcases queued with ⟨caller, functor⟩
    cases functor with
    | sendInLoop => apply runSend hwaiting hrun
    | shutdownInLoop =>
      cases hrun
      apply runShutdown hstart hwaiting
    | other =>
      cases hrun
      apply Step.loop
      rw [hwaiting]
      apply List.subset_cons_self
  . next hstart =>
    rw [hstart] at hwaiting
    cases hrun
    apply Step.loop
    rw [hwaiting]
    apply List.Subset.refl

theorem of_call {event : EventLoop.Event Functor} {loop : EventLoop.State Functor}
    (hother : isOther event = true) (hloop : EventLoop.step s.loop event = some loop)
    : Step s (.call event) { s with loop } := by
  apply call
  intro queued hmem
  apply ((EventLoop.Step.of_step hloop).mem_waiting hmem).imp_right
  intro hpush
  cases event with
  | queueInLoop caller functor =>
    cases hpush
    apply of_decide_eq_true hother
  | runInLoop caller functor =>
    cases hpush
    apply of_decide_eq_true hother
  | queueReturn caller => contradiction
  | quit caller => contradiction
  | quitReturn caller => contradiction
  | loop active => contradiction

theorem established_of_handling (h : s.handling = true) : s.established = true := by
  unfold State.handling at h
  split at h
  . rw [Bool.and_eq_true] at h
    apply h.2
  . contradiction

theorem of_step {e : Event} (h : step s e = some s') : Step s e s' := by
  cases e with
  | connectEstablished =>
    simp only [Threads.step] at h
    split at h
    . next hcond =>
      rw [Bool.and_eq_true, Bool.not_eq_true'] at hcond
      cases h
      apply connectEstablished hcond.2
    . contradiction
  | connectDestroyed =>
    simp only [Threads.step] at h
    split at h
    . next hcond =>
      rw [Bool.and_eq_true, Bool.and_eq_true, Option.isNone_iff_eq_none] at hcond
      split at h
      . next hstate =>
        cases h
        apply connectDestroyed hcond.1.2 hcond.2 hstate
      . next hstate =>
        cases h
        apply remove hcond.1.2 hcond.2 hstate
    . contradiction
  | goDown =>
    simp only [Threads.step] at h
    split at h
    . next hcall =>
      cases h
      apply goDown hcall
    . contradiction
  | send caller =>
    simp only [Threads.step] at h
    split at h
    . cases h
      split
      . next hstate => apply send hstate
      . apply noSend
    . contradiction
  | sendRun caller data res =>
    simp only [Threads.step] at h
    split at h
    . next hcall =>
      cases caller with
      | owner =>
        simp only [Option.bind_eq_bind, Option.bind_eq_some_iff] at h
        rcases h with ⟨r, hsend, hs⟩
        cases hs
        apply sendDirectly hcall hsend
      | other n =>
        simp only [Option.bind_eq_bind, Option.bind_eq_some_iff] at h
        rcases h with ⟨loop, hloop, hs⟩
        cases hs
        apply sendQueued hcall (EventLoop.waiting_of_runInLoop hloop)
    . contradiction
  | shutdown caller =>
    simp only [Threads.step] at h
    split at h
    . cases h
      split
      . next hstate => apply shutdown hstate
      . apply noShutdown
    . contradiction
  | setState caller =>
    simp only [Threads.step] at h
    split at h
    . next hcall =>
      cases h
      apply setState hcall
    . contradiction
  | shutdownRun caller =>
    simp only [Threads.step] at h
    split at h
    . next hcall =>
      cases caller with
      | owner =>
        cases h
        apply shutdownDirectly hcall
      | other n =>
        simp only [Option.bind_eq_bind, Option.bind_eq_some_iff] at h
        rcases h with ⟨loop, hloop, hs⟩
        cases hs
        apply shutdownQueued hcall (EventLoop.waiting_of_runInLoop hloop)
    . contradiction
  | handleRead received =>
    simp only [Threads.step] at h
    split at h
    . next hhandling =>
      rw [Option.bind_eq_bind, Option.bind_eq_some_iff] at h
      rcases h with ⟨r, hread, hs⟩
      cases hs
      apply handleRead (established_of_handling hhandling) hread
    . contradiction
  | handleWrite res =>
    simp only [Threads.step] at h
    split at h
    . next hhandling =>
      rw [Option.bind_eq_bind, Option.bind_eq_some_iff] at h
      rcases h with ⟨r, hwrite, hs⟩
      cases hs
      apply handleWrite (established_of_handling hhandling) hwrite
    . contradiction
  | handleClose =>
    simp only [Threads.step] at h
    split at h
    . next hhandling =>
      cases h
      apply handleClose (established_of_handling hhandling)
    . contradiction
  | call event =>
    simp only [Threads.step] at h
    split at h
    . next hother =>
      rw [Option.bind_eq_bind, Option.bind_eq_some_iff] at h
      rcases h with ⟨loop, hloop, hs⟩
      cases hs
      apply of_call hother hloop
    . contradiction
  | loop active data res =>
    simp only [Threads.step] at h
    split at h
    . simp only [Option.bind_eq_bind, Option.bind_eq_some_iff] at h
      rcases h with ⟨loop, hloop, r, hrun, hs⟩
      cases hs
      apply of_runNext hloop hrun
    . contradiction

end Step

theorem fresh_init : system.Init (.start fresh) :=
  ⟨6, fresh, false, false, _, new_fresh, by rw [fresh_setCallbacks]⟩

def established : List Event :=
  .connectEstablished :: List.replicate 4 (.loop false [] (.ok 0))

end Threads

end TcpConnection
