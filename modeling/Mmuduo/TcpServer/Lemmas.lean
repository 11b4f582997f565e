import Mmuduo.EventLoop.Fifo
import Mmuduo.TcpServer.Impl

namespace TcpServer

inductive TaskStep (s : State) (i : LoopId) : State → Prop where
  | establish {c : ConnId} {conn : Conn} (htask : s.tasks i = .establishing c)
    (hconn : s.conns c = some conn) (hloop : conn.loop = i)
    : TaskStep s i (s.connectEstablished i c)
  | dispatch {c : ConnId} {conn : Conn} {s' : State} (htask : s.tasks i = .establishing c)
    (hconn : s.conns c = some conn) (hloop : conn.loop ≠ i)
    (hqueue : s.queueInLoop i conn.loop (.connectEstablished c) = some s')
    : TaskStep s i s'
  | callbackReturn {c : ConnId} (htask : s.tasks i = .callback c)
    : TaskStep s i (s.setTask i .none)
  | removeDirectly {c : ConnId} (htask : s.tasks i = .closing c) (hi : i = 0)
    : TaskStep s i (s.setTask i (.removing c))
  | removeInLoop {c : ConnId} {s' : State} (htask : s.tasks i = .closing c) (hi : i ≠ 0)
    (hqueue : s.queueInLoop i 0 (.removeConnectionInLoop c) = some s')
    : TaskStep s i s'
  | erase {c : ConnId} {conn : Conn} (htask : s.tasks i = .removing c)
    (hconn : s.conns c = some conn)
    : TaskStep s i (s.eraseConnection i c conn)
  | destroy {c : ConnId} {conn : Conn} {s' : State} (htask : s.tasks i = .destroying c)
    (hconn : s.conns c = some conn)
    (hqueue : s.queueInLoop i conn.loop (.connectDestroyed c) = some s')
    : TaskStep s i s'
  | removeChannel {c : ConnId} (htask : s.tasks i = .removingChannel c)
    : TaskStep s i (s.removeChannel i c)
  | wakeUp {loop : LoopId} {target : EventLoop.State Functor} (htask : s.tasks i = .waking loop)
    (hwaiting : target.waiting = (s.loops loop).waiting)
    : TaskStep s i ((s.setLoop loop target).setTask i .none)

theorem TaskStep.of_runTask {s s' : State} {i : LoopId} (h : s.runTask i = some s')
    : TaskStep s i s' := by
  unfold State.runTask at h
  split at h
  . cases h
  . next htask =>
    rcases Option.bind_eq_some_iff.mp h with ⟨conn, hconn, h⟩
    split at h
    . next hloop =>
      cases h
      exact .establish htask hconn hloop
    . next hloop => exact .dispatch htask hconn hloop h
  . next htask =>
    cases h
    exact .callbackReturn htask
  . next htask =>
    split at h
    . next hi =>
      cases h
      exact .removeDirectly htask hi
    . next hi => exact .removeInLoop htask hi h
  . next htask =>
    rcases Option.bind_eq_some_iff.mp h with ⟨conn, hconn, h⟩
    cases h
    exact .erase htask hconn
  . next htask =>
    rcases Option.bind_eq_some_iff.mp h with ⟨conn, hconn, h⟩
    exact .destroy htask hconn h
  . next htask =>
    cases h
    exact .removeChannel htask
  . next htask =>
    rcases Option.bind_eq_some_iff.mp h with ⟨target, htarget, h⟩
    cases h
    exact .wakeUp htask (EventLoop.waiting_of_queueReturn htarget)

theorem queueInLoop_eq_some {s s' : State} {i loop : LoopId} {functor : Functor}
    (h : s.queueInLoop i loop functor = some s')
    : ∃ target, target.waiting = (s.loops loop).waiting ++ [⟨State.caller i loop, functor⟩]
        ∧ s' = (s.setLoop loop target).setTask i (.waking loop) := by
  unfold State.queueInLoop at h
  rcases Option.bind_eq_some_iff.mp h with ⟨target, htarget, h⟩
  cases h
  exact ⟨target, EventLoop.waiting_of_queueInLoop htarget, rfl⟩

inductive Step (s : State) : Event → State → Prop where
  | accept {sockfd : Nat} {tcp : TcpConnection} (hidle : s.tasks 0 = .none)
    : Step s (.accept sockfd) (s.addConnection tcp)
  | task {i : LoopId} {s' : State} (htask : TaskStep s i s')
    : Step s (.task i) s'
  | startFunctor {i : LoopId} {active : Bool} {queued : Queued Functor}
    {loop : EventLoop.State Functor} (hidle : s.tasks i = .none)
    (hwaiting : (s.loops i).waiting = queued :: loop.waiting)
    : Step s (.loop i active) ((s.setLoop i loop).startFunctor i queued.functor)
  | loop {i : LoopId} {active : Bool} {loop : EventLoop.State Functor}
    (hwaiting : loop.waiting = (s.loops i).waiting)
    : Step s (.loop i active) (s.setLoop i loop)
  | handleEvent {i : LoopId} {c : ConnId} {conn : Conn} (hidle : s.tasks i = .none)
    (hregistered : s.registered c = true) (hconn : s.conns c = some conn) (hloop : conn.loop = i)
    : Step s (.handleEvent i c) ((s.setGuard i (some c)).record (.handler i c))
  | handle {i : LoopId} {c : ConnId} {handler : Handler} {tcp : TcpConnection}
    (hguard : s.guards i = some c) (hidle : s.tasks i = .none)
    : Step s (.handle i handler) (s.setTcp c tcp)
  | handleClose {i : LoopId} {c : ConnId} {handler : Handler} {tcp : TcpConnection}
    (hguard : s.guards i = some c) (hidle : s.tasks i = .none)
    : Step s (.handle i handler) ((s.setTcp c tcp).startClosing i c)
  | handleEventReturn {i : LoopId} (hidle : s.tasks i = .none)
    : Step s (.handleEventReturn i) (s.setGuard i none)
  | callQueue {i : LoopId} {event : EventLoop.Event Functor} {caller : Caller}
    {loop : EventLoop.State Functor}
    (hwaiting : loop.waiting = (s.loops i).waiting ++ [⟨caller, .other⟩])
    : Step s (.call i event) (s.setLoop i loop)
  | call {i : LoopId} {event : EventLoop.Event Functor} {loop : EventLoop.State Functor}
    (hwaiting : loop.waiting = (s.loops i).waiting)
    : Step s (.call i event) (s.setLoop i loop)
  | keep {i : LoopId} {c : ConnId} (huser : s.userConn i = some c)
    : Step s (.keep i) { s with users := c :: s.users }
  | drop {c : ConnId}
    : Step s (.drop c) { s with users := s.users.erase c }

section OfStep

variable {s s' : State}

theorem tasks_of_idle {i : LoopId} (h : s.idle i = true) : s.tasks i = .none := by
  simp only [State.idle, Bool.and_eq_true, decide_eq_true_eq] at h
  exact h.1.2

theorem Step.of_loopNext {i : LoopId} {active : Bool} (hidle : s.tasks i = .none)
    (h : s.loopNext i active = some s')
    : Step s (.loop i active) s' := by
  unfold State.loopNext at h
  rcases Option.bind_eq_some_iff.mp h with ⟨loop, hloop, h⟩
  have hwaiting := EventLoop.waiting_of_loop hloop
  split at h
  . next hstart =>
    rw [hstart] at hwaiting
    cases h
    exact .startFunctor hidle hwaiting
  . next hstart =>
    rw [hstart] at hwaiting
    cases h
    exact .loop hwaiting.symm

theorem Step.of_handle {i : LoopId} {c : ConnId} {handler : Handler} (hguard : s.guards i = some c)
    (hidle : s.tasks i = .none) (h : s.handle i c handler = some s')
    : Step s (.handle i handler) s' := by
  unfold State.handle at h
  rcases Option.bind_eq_some_iff.mp h with ⟨tcp, -, h⟩
  rcases Option.bind_eq_some_iff.mp h with ⟨res, -, h⟩
  split at h
  . cases h
    exact .handleClose hguard hidle
  . cases h
    exact .handle hguard hidle

theorem functor_of_userCall {i : LoopId} {event : EventLoop.Event Functor} {queued : Queued Functor}
    (huser : s.userCall i event = true) (hpush : event.pushes = some queued)
    : queued.functor = .other := by
  cases event with
  | queueInLoop caller functor =>
    cases hpush
    simp only [State.userCall, Bool.and_eq_true, decide_eq_true_eq] at huser
    exact huser.1
  | runInLoop caller functor =>
    cases hpush
    simp only [State.userCall, Bool.and_eq_true, decide_eq_true_eq] at huser
    exact huser.1
  | _ => simp [EventLoop.Event.pushes] at hpush

theorem Step.of_userCall {i : LoopId} {event : EventLoop.Event Functor}
    {loop : EventLoop.State Functor} (huser : s.userCall i event = true)
    (h : EventLoop.step (s.loops i) event = some loop)
    : Step s (.call i event) (s.setLoop i loop) := by
  rcases (EventLoop.Step.of_step h).waiting_eq with
    hwaiting | ⟨queued, hpush, hwaiting⟩ | ⟨active, hevent, -⟩
  . exact .call hwaiting
  . cases queued with
    | mk caller functor =>
      have hother : functor = .other := functor_of_userCall huser hpush
      rw [hother] at hwaiting
      exact .callQueue hwaiting
  . rw [hevent] at huser
    simp [State.userCall] at huser

theorem Step.of_step {e : Event} (h : TcpServer.step s e = some s') : Step s e s' := by
  unfold TcpServer.step at h
  split at h
  . split at h
    . next hguard =>
      rw [Bool.and_eq_true] at hguard
      unfold State.newConnection at h
      rcases Option.bind_eq_some_iff.mp h with ⟨tcp, -, h⟩
      cases h
      exact .accept (tasks_of_idle hguard.1)
    . cases h
  . exact .task (.of_runTask h)
  . split at h
    . next hidle => exact .of_loopNext (tasks_of_idle hidle) h
    . cases h
  . split at h
    . next hguard =>
      simp only [Bool.and_eq_true, beq_iff_eq, Option.map_eq_some_iff] at hguard
      rcases hguard with ⟨⟨⟨hidle, -⟩, hregistered⟩, conn, hconn, hloop⟩
      cases h
      exact .handleEvent (tasks_of_idle hidle) hregistered hconn hloop
    . cases h
  . split at h
    . next hguard hidle => exact .of_handle hguard hidle h
    . cases h
  . split at h
    . next hidle =>
      cases h
      exact .handleEventReturn hidle
    . cases h
  . split at h
    . next huser =>
      rcases Option.bind_eq_some_iff.mp h with ⟨loop, hloop, h⟩
      cases h
      exact .of_userCall huser hloop
    . cases h
  . split at h
    . next huser =>
      cases h
      exact .keep huser
    . cases h
  . cases h
    exact .drop

end OfStep

section Accepted

variable {s s' : State}

theorem accepted_queueInLoop {i loop : LoopId} {functor : Functor}
    (h : s.queueInLoop i loop functor = some s')
    : s'.accepted = s.accepted := by
  rcases queueInLoop_eq_some h with ⟨target, -, heq⟩
  rw [heq]
  rfl

theorem TaskStep.accepted_eq {i : LoopId} (h : TaskStep s i s') : s'.accepted = s.accepted := by
  cases h with
  | dispatch _ _ _ hqueue => apply accepted_queueInLoop hqueue
  | removeInLoop _ _ hqueue => apply accepted_queueInLoop hqueue
  | destroy _ _ hqueue => apply accepted_queueInLoop hqueue
  | _ => rfl

theorem Step.accepted_le {e : Event} (h : Step s e s') : s.accepted ≤ s'.accepted := by
  cases h with
  | accept _ => apply Nat.le_succ
  | task htask => apply htask.accepted_eq.ge
  | @startFunctor i active queued loop _ _ =>
    cases queued.functor with
    | _ => apply Nat.le_refl
  | _ => apply Nat.le_refl

end Accepted

end TcpServer
