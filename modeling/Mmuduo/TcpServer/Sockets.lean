import Mmuduo.TcpConnection.Lemmas
import Mmuduo.TcpServer.Ownership

namespace TcpServer

section Referenced

variable {s s' : State} {c : ConnId}

theorem State.Referenced.of_task {i : LoopId} {task : Task} (htask : s.tasks i = task)
    (hc : task.conn = some c)
    : s.Referenced c := by
  right; right
  exact ⟨i, .task task, htask, hc⟩

theorem State.Referenced.of_guard {i : LoopId} (hguard : s.guards i = some c) : s.Referenced c := by
  right; right
  exact ⟨i, .guarded c, hguard, rfl⟩

theorem State.Referenced.of_waiting {i : LoopId} {queued : Queued Functor}
    (hmem : queued ∈ (s.loops i).waiting) (hc : queued.functor.conn = some c)
    : s.Referenced c := by
  right; right
  exact ⟨i, .functor queued.functor, ⟨queued, hmem, rfl⟩, hc⟩

theorem State.Referenced.of_items (href : s'.Referenced c)
    (htable : ∀ name, s'.server.connections name = some c → s.Referenced c)
    (husers : c ∈ s'.users → s.Referenced c)
    (hitems : ∀ i item, s'.HasItem i item → item.conn = some c →
      s.HasItem i item ∨ s.Referenced c)
    : s.Referenced c := by
  rcases href with ⟨name, hname⟩ | huser | ⟨i, item, hitem, hc⟩
  . exact htable name hname
  . exact husers huser
  . rcases hitems i item hitem hc with hold | href
    . right; right
      exact ⟨i, item, hold, hc⟩
    . exact href

theorem referenced_setTask {i : LoopId} {task : Task} (href : (s.setTask i task).Referenced c)
    (htask : task.conn = some c → s.Referenced c)
    : s.Referenced c := by
  apply href.of_items
  . exact fun name hname => Or.inl ⟨name, hname⟩
  . exact fun huser => Or.inr (Or.inl huser)
  . intro j item hitem hc
    rcases hasItem_setTask hitem with hitem | ⟨-, heq⟩
    . exact Or.inl hitem
    . rw [heq] at hc
      exact Or.inr (htask hc)

theorem referenced_setGuard {i : LoopId} {guarded : Option ConnId}
    (href : (s.setGuard i guarded).Referenced c) (hguard : guarded = some c → s.Referenced c)
    : s.Referenced c := by
  apply href.of_items
  . exact fun name hname => Or.inl ⟨name, hname⟩
  . exact fun huser => Or.inr (Or.inl huser)
  . intro j item hitem hc
    rcases hasItem_setGuard hitem with hitem | ⟨-, d, hd, heq⟩
    . exact Or.inl hitem
    . rw [heq] at hc
      cases hc
      exact Or.inr (hguard hd)

theorem referenced_setLoop {i : LoopId} {loop : EventLoop.State Functor}
    (href : (s.setLoop i loop).Referenced c)
    (hloop : ∀ queued ∈ loop.waiting, queued.functor.conn = some c → s.Referenced c)
    : s.Referenced c := by
  apply href.of_items
  . exact fun name hname => Or.inl ⟨name, hname⟩
  . exact fun huser => Or.inr (Or.inl huser)
  . intro j item hitem hc
    rcases hasItem_setLoop hitem with hitem | ⟨-, queued, hmem, heq⟩
    . exact Or.inl hitem
    . rw [heq] at hc
      exact Or.inr (hloop queued hmem hc)

theorem referenced_keepLoop {i : LoopId} {loop : EventLoop.State Functor}
    (href : (s.setLoop i loop).Referenced c) (hwaiting : loop.waiting ⊆ (s.loops i).waiting)
    : s.Referenced c := by
  apply referenced_setLoop href
  intro queued hmem hc
  exact .of_waiting (hwaiting hmem) hc

theorem referenced_push {i : LoopId} {loop : EventLoop.State Functor} {queued : Queued Functor}
    (href : (s.setLoop i loop).Referenced c)
    (hwaiting : loop.waiting = (s.loops i).waiting ++ [queued])
    (hfunctor : queued.functor.conn = some c → s.Referenced c)
    : s.Referenced c := by
  apply referenced_setLoop href
  intro q hmem hc
  rw [hwaiting, List.mem_append, List.mem_singleton] at hmem
  rcases hmem with hmem | heq
  . exact .of_waiting hmem hc
  . rw [heq] at hc
    exact hfunctor hc

theorem referenced_queueInLoop {i loop : LoopId} {functor : Functor}
    (hqueue : s.queueInLoop i loop functor = some s') (href : s'.Referenced c)
    (hfunctor : functor.conn = some c → s.Referenced c)
    : s.Referenced c := by
  rcases queueInLoop_eq_some hqueue with ⟨target, hwaiting, heq⟩
  rw [heq] at href
  apply referenced_push _ hwaiting hfunctor
  apply referenced_setTask href
  intro hnone
  cases hnone

theorem TaskStep.referenced {i : LoopId} (h : TaskStep s i s') (href : s'.Referenced c)
    : s.Referenced c := by
  cases h with
  | establish htask hconn hloop => exact referenced_setTask href fun hc => .of_task htask hc
  | dispatch htask hconn hloop hqueue =>
    exact referenced_queueInLoop hqueue href fun hc => .of_task htask hc
  | callbackReturn htask => exact referenced_setTask href fun hc => by cases hc
  | removeDirectly htask hi => exact referenced_setTask href fun hc => .of_task htask hc
  | removeInLoop htask hi hqueue =>
    exact referenced_queueInLoop hqueue href fun hc => .of_task htask hc
  | @erase d conn htask hconn =>
    apply href.of_items
    . intro name hname
      simp only [State.eraseConnection, TcpServer.erase] at hname
      by_cases heq : name = conn.name
      . rw [heq, Function.update_self] at hname
        cases hname
      . rw [Function.update_of_ne heq] at hname
        exact Or.inl ⟨name, hname⟩
    . exact fun huser => Or.inr (Or.inl huser)
    . intro j item hitem hc
      change (s.setTask i (.destroying d)).HasItem j item at hitem
      rcases hasItem_setTask hitem with hitem | ⟨-, heq⟩
      . exact Or.inl hitem
      . rw [heq] at hc
        exact Or.inr (.of_task htask hc)
  | destroy htask hconn hqueue =>
    exact referenced_queueInLoop hqueue href fun hc => .of_task htask hc
  | removeChannel htask => exact referenced_setTask href fun hc => by cases hc
  | wakeUp htask hwaiting =>
    apply referenced_keepLoop
    . exact referenced_setTask href fun hc => by cases hc
    . rw [hwaiting]
      exact List.Subset.refl _

theorem referenced_startFunctor {i : LoopId} {loop : EventLoop.State Functor}
    {queued : Queued Functor} (hwaiting : (s.loops i).waiting = queued :: loop.waiting)
    (href : ((s.setLoop i loop).startFunctor i queued.functor).Referenced c)
    : s.Referenced c := by
  have hqueued : queued.functor.conn = some c → s.Referenced c := by
    apply State.Referenced.of_waiting
    rw [hwaiting]
    exact List.mem_cons_self
  have hpop : (s.setLoop i loop).Referenced c → s.Referenced c := by
    intro href
    apply referenced_keepLoop href
    rw [hwaiting]
    exact List.subset_cons_self _ _
  cases hfunctor : queued.functor with
  | connectEstablished d =>
    rw [hfunctor] at href hqueued
    by_cases hc : d = c
    . exact hqueued (congrArg some hc)
    . exact hpop (referenced_setTask href fun h => absurd (Option.some.inj h) hc)
  | removeConnectionInLoop d =>
    rw [hfunctor] at href hqueued
    by_cases hc : d = c
    . exact hqueued (congrArg some hc)
    . exact hpop (referenced_setTask href fun h => absurd (Option.some.inj h) hc)
  | connectDestroyed d =>
    rw [hfunctor] at href hqueued
    by_cases hc : d = c
    . exact hqueued (congrArg some hc)
    . exact hpop (referenced_setTask href fun h => absurd (Option.some.inj h) hc)
  | other =>
    rw [hfunctor] at href
    exact hpop href

theorem Inv.referenced_of_registered (h : Inv s) (hregistered : s.registered c = true)
    : s.Referenced c := by
  by_contra hfree
  rcases h.flow.registered c hregistered with ⟨i, ⟨conn, hconn, -, -⟩, -⟩
  have hdestroyed := Flow.destroyed_of_not_referenced h hconn hfree
  have hnot := h.flow.not_registered hconn hdestroyed hfree
  rw [hregistered] at hnot
  cases hnot

theorem referenced_addConnection {tcp : TcpConnection} (href : (s.addConnection tcp).Referenced c)
    (hne : c ≠ s.accepted)
    : s.Referenced c := by
  apply href.of_items
  . intro name hname
    simp only [State.addConnection, newConn, TcpServer.insert] at hname
    rw [Function.update_apply] at hname
    split at hname
    . cases hname
      exact absurd rfl hne
    . left
      refine ⟨name, ?_⟩
      unfold getNextLoop at hname
      split at hname
      . exact hname
      . exact hname
  . exact fun huser => Or.inr (Or.inl huser)
  . intro j item hitem hc
    change (s.setTask 0 (.establishing s.accepted)).HasItem j item at hitem
    rcases hasItem_setTask hitem with hitem | ⟨-, heq⟩
    . exact Or.inl hitem
    . rw [heq] at hc
      cases hc
      exact absurd rfl hne

theorem State.Referenced.of_userConn {i : LoopId} (huser : s.userConn i = some c)
    : s.Referenced c := by
  unfold State.userConn at huser
  split at huser
  . next htask => exact .of_task htask huser
  . next htask => exact .of_task htask huser
  . exact .of_guard huser

theorem Step.referenced {e : Event} (h : Inv s) (hstep : Step s e s') (href : s'.Referenced c)
    (hne : ∀ sockfd, e = .accept sockfd → c ≠ s.accepted)
    : s.Referenced c := by
  cases hstep with
  | accept hidle => exact referenced_addConnection href (hne _ rfl)
  | task htask => exact htask.referenced href
  | startFunctor hidle hwaiting => exact referenced_startFunctor hwaiting href
  | loop hwaiting =>
    apply referenced_keepLoop href
    rw [hwaiting]
    exact List.Subset.refl _
  | @handleEvent i d conn hidle hregistered hconn hloop =>
    have hguard : (s.setGuard i (some d)).Referenced c := href
    apply referenced_setGuard hguard
    intro hd
    rw [← Option.some.inj hd]
    exact h.referenced_of_registered hregistered
  | handle hguard hidle => exact href
  | handleClose hguard hidle =>
    apply referenced_setTask href
    intro hc
    cases hc
    exact .of_guard hguard
  | handleEventReturn hidle => exact referenced_setGuard href fun hc => by cases hc
  | callQueue hwaiting => exact referenced_push href hwaiting fun hc => by cases hc
  | call hwaiting =>
    apply referenced_keepLoop href
    rw [hwaiting]
    exact List.Subset.refl _
  | @keep i d huser =>
    rcases href with htable | hmem | hitem
    . exact Or.inl htable
    . rcases List.mem_cons.mp hmem with heq | hmem
      . rw [heq]
        exact .of_userConn huser
      . exact Or.inr (Or.inl hmem)
    . exact Or.inr (Or.inr hitem)
  | drop =>
    rcases href with htable | hmem | hitem
    . exact Or.inl htable
    . exact Or.inr (Or.inl (List.mem_of_mem_erase hmem))
    . exact Or.inr (Or.inr hitem)

theorem Step.accepted_eq {e : Event} (hstep : Step s e s') (he : ∀ sockfd, e ≠ .accept sockfd)
    : s'.accepted = s.accepted := by
  cases hstep with
  | accept hidle => exact absurd rfl (he _)
  | task htask => exact htask.accepted_eq
  | @startFunctor i active queued loop hidle hwaiting =>
    cases queued.functor with
    | _ => rfl
  | _ => rfl

end Referenced

def State.fd (s : State) (c : ConnId) : Option Nat :=
  (s.tcps c).map (·.channel.fd)

section Fd

variable {s s' : State}

theorem fd_update {c : ConnId} {tcp tcp' : TcpConnection} (htcp : s.tcps c = some tcp)
    (hfd : tcp'.channel.fd = tcp.channel.fd)
    : (s.setTcp c tcp').fd = s.fd := by
  funext d
  simp only [State.fd, State.setTcp]
  by_cases hd : d = c
  . rw [hd, Function.update_self, htcp, Option.map_some, Option.map_some, hfd]
  . rw [Function.update_of_ne hd]

theorem fd_map {c : ConnId} {f : TcpConnection → TcpConnection} {tcps : ConnId → Option TcpConnection}
    (htcps : tcps = Function.update s.tcps c ((s.tcps c).map f))
    (hfd : ∀ tcp, (f tcp).channel.fd = tcp.channel.fd) (d : ConnId)
    : (tcps d).map (·.channel.fd) = s.fd d := by
  unfold State.fd
  rw [htcps]
  by_cases hd : d = c
  . rw [hd, Function.update_self, Option.map_map]
    congr 1
    funext tcp
    exact hfd tcp
  . rw [Function.update_of_ne hd]

theorem fd_connectEstablished (i : LoopId) (c : ConnId) : (s.connectEstablished i c).fd = s.fd := by
  funext d
  exact fd_map (f := fun tcp => tcp.connectEstablished.1) rfl (fun _ => rfl) d

theorem fd_connectDestroyed (i : LoopId) (c : ConnId) : (s.connectDestroyed i c).fd = s.fd := by
  funext d
  apply fd_map (f := fun tcp => tcp.connectDestroyed.1) rfl
  intro tcp
  unfold TcpConnection.connectDestroyed
  split
  . rfl
  . rfl

theorem fd_queueInLoop {i loop : LoopId} {functor : Functor}
    (h : s.queueInLoop i loop functor = some s')
    : s'.fd = s.fd := by
  rcases queueInLoop_eq_some h with ⟨target, -, heq⟩
  rw [heq]
  rfl

theorem TaskStep.fd_eq {i : LoopId} (h : TaskStep s i s') : s'.fd = s.fd := by
  cases h with
  | establish htask hconn hloop => exact fd_connectEstablished _ _
  | dispatch htask hconn hloop hqueue => exact fd_queueInLoop hqueue
  | removeInLoop htask hi hqueue => exact fd_queueInLoop hqueue
  | destroy htask hconn hqueue => exact fd_queueInLoop hqueue
  | _ => rfl

theorem fd_startFunctor (i : LoopId) (functor : Functor) : (s.startFunctor i functor).fd = s.fd := by
  cases functor with
  | connectEstablished c => exact fd_connectEstablished _ _
  | connectDestroyed c => exact fd_connectDestroyed _ _
  | _ => rfl

theorem Handler.run_fd {tcp : TcpConnection} {handler : Handler}
    {r : TcpConnection × List TcpConnection.Action} (h : handler.run tcp = some r)
    : r.1.channel.fd = tcp.channel.fd := by
  cases handler with
  | read received =>
    rcases TcpConnection.handleRead_eq h with ⟨inputBuffer, rfl | rfl | rfl⟩
    . rfl
    . rfl
    . rfl
  | write res => exact TcpConnection.handleWrite_fd h
  | close =>
    cases h
    rfl
  | error =>
    cases h
    rfl

theorem fd_handle {i : LoopId} {c : ConnId} {handler : Handler}
    (h : s.handle i c handler = some s')
    : s'.fd = s.fd := by
  unfold State.handle at h
  rcases Option.bind_eq_some_iff.mp h with ⟨tcp, htcp, h⟩
  rcases Option.bind_eq_some_iff.mp h with ⟨r, hr, h⟩
  split at h
  . cases h
    exact fd_update htcp (Handler.run_fd hr)
  . cases h
    exact fd_update htcp (Handler.run_fd hr)

theorem fd_of_step {e : Event} (h : step s e = some s') (he : ∀ sockfd, e ≠ .accept sockfd)
    : s'.fd = s.fd := by
  cases e with
  | accept sockfd => exact absurd rfl (he sockfd)
  | handle i handler =>
    simp only [step] at h
    split at h
    . exact fd_handle h
    . cases h
  | task i => exact (TaskStep.of_runTask h).fd_eq
  | loop i active =>
    cases Step.of_step h with
    | startFunctor hidle hwaiting => exact fd_startFunctor _ _
    | loop hwaiting => rfl
  | handleEvent i c =>
    cases Step.of_step h with
    | handleEvent => rfl
  | handleEventReturn i =>
    cases Step.of_step h with
    | handleEventReturn => rfl
  | call i event =>
    cases Step.of_step h with
    | callQueue hwaiting => rfl
    | call hwaiting => rfl
  | keep i =>
    cases Step.of_step h with
    | keep huser => rfl
  | drop c =>
    cases Step.of_step h with
    | drop => rfl

theorem fd_of_accept {sockfd : Nat} (h : step s (.accept sockfd) = some s')
    : s'.accepted = s.accepted + 1 ∧ s'.fd = Function.update s.fd s.accepted (some sockfd) := by
  simp only [step] at h
  split at h
  . unfold State.newConnection at h
    rcases Option.bind_eq_some_iff.mp h with ⟨tcp, htcp, h⟩
    cases h
    refine ⟨rfl, ?_⟩
    have hfd : tcp.channel.fd = sockfd := by
      unfold TcpConnection.new at htcp
      rcases Option.bind_eq_some_iff.mp htcp with ⟨inputBuffer, -, htcp⟩
      rcases Option.bind_eq_some_iff.mp htcp with ⟨outputBuffer, -, htcp⟩
      cases htcp
      rfl
    funext d
    unfold State.fd
    by_cases hd : d = s.accepted
    . rw [hd, Function.update_self]
      simp [State.addConnection, TcpConnection.setWriteCompleteCallback, hfd]
    . rw [Function.update_of_ne hd]
      simp [State.addConnection, hd]
  . cases h

end Fd

def Task.serves : Task → Option ConnId
  | .callback c => some c
  | .removingChannel c => some c
  | _ => Option.none

structure Local (s : State) : Prop where
  next_lt : s.server.numThread = 0 ∨ s.server.next < s.server.numThread
  loop_le : ∀ c conn, s.conns c = some conn → conn.loop ≤ s.server.numThread
  task_le : ∀ i c, (s.tasks i).serves = some c → i ≤ s.server.numThread

namespace Local

variable {s s' : State}

theorem start (server : TcpServer) (hnext : server.next = 0) : Local (.start server) := by
  constructor
  . change server.numThread = 0 ∨ server.next < server.numThread
    omega
  . intro c conn hconn
    cases hconn
  . intro i c htask
    cases htask

theorem keep (h : Local s) (hnext : s'.server.next = s.server.next)
    (hnum : s'.server.numThread = s.server.numThread) (hconns : s'.conns = s.conns)
    (htasks : ∀ i c, (s'.tasks i).serves = some c → (s.tasks i).serves = some c
      ∨ i ≤ s.server.numThread)
    : Local s' := by
  constructor
  . rw [hnext, hnum]
    exact h.next_lt
  . rw [hconns, hnum]
    exact h.loop_le
  . rw [hnum]
    intro i c htask
    rcases htasks i c htask with hold | hle
    . exact h.task_le i c hold
    . exact hle

theorem setTask {i : LoopId} {task : Task} (h : Local s)
    (htask : task.serves = none ∨ i ≤ s.server.numThread)
    : Local (s.setTask i task) := by
  refine h.keep rfl rfl rfl ?_
  intro j c hserves
  simp only [State.setTask] at hserves
  by_cases hj : j = i
  . rw [hj, Function.update_self] at hserves
    rcases htask with hnone | hle
    . rw [hnone] at hserves
      cases hserves
    . rw [hj]
      exact Or.inr hle
  . rw [Function.update_of_ne hj] at hserves
    exact Or.inl hserves

theorem congr (h : Local s) (hserver : s'.server = s.server) (hconns : s'.conns = s.conns)
    (htasks : s'.tasks = s.tasks)
    : Local s' := by
  apply h.keep
  . rw [hserver]
  . rw [hserver]
  . exact hconns
  . intro i c hserves
    rw [htasks] at hserves
    exact Or.inl hserves

theorem queueInLoop {i loop : LoopId} {functor : Functor} (h : Local s)
    (hqueue : s.queueInLoop i loop functor = some s')
    : Local s' := by
  rcases queueInLoop_eq_some hqueue with ⟨target, -, heq⟩
  rw [heq]
  have hloop : Local (s.setLoop loop target) := h.congr rfl rfl rfl
  exact hloop.setTask (Or.inl rfl)

theorem addConnection (h : Local s) (tcp : TcpConnection) : Local (s.addConnection tcp) := by
  have hnext : s.server.getNextLoop.2.numThread = s.server.numThread
      ∧ (s.server.numThread = 0 ∨ s.server.getNextLoop.2.next < s.server.numThread)
      ∧ s.server.getNextLoop.1 ≤ s.server.numThread := by
    have hlt := h.next_lt
    by_cases hzero : s.server.numThread = 0
    . simp [getNextLoop, hzero]
    . have hle : s.server.next + 1 ≤ s.server.numThread := by omega
      simp only [getNextLoop, hzero, if_false, false_or]
      refine ⟨trivial, ?_, hle⟩
      split
      . omega
      . omega
  constructor
  . change s.server.getNextLoop.2.numThread = 0
      ∨ s.server.getNextLoop.2.next < s.server.getNextLoop.2.numThread
    rw [hnext.1]
    exact hnext.2.1
  . intro c conn hconn
    change conn.loop ≤ s.server.getNextLoop.2.numThread
    rw [hnext.1]
    simp only [State.addConnection] at hconn
    by_cases hc : c = s.accepted
    . rw [hc, Function.update_self] at hconn
      cases hconn
      exact hnext.2.2
    . rw [Function.update_of_ne hc] at hconn
      exact h.loop_le c conn hconn
  . intro i c hserves
    change i ≤ s.server.getNextLoop.2.numThread
    rw [hnext.1]
    simp only [State.addConnection] at hserves
    by_cases hi : i = 0
    . rw [hi]
      exact Nat.zero_le _
    . rw [Function.update_of_ne hi] at hserves
      exact h.task_le i c hserves

theorem taskStep {i : LoopId} (h : Local s) (hstep : TaskStep s i s') : Local s' := by
  cases hstep with
  | @establish c conn htask hconn hloop =>
    have hle : i ≤ s.server.numThread := by
      rw [← hloop]
      exact h.loop_le c conn hconn
    have htask : Local (s.setTask i (.callback c)) := h.setTask (Or.inr hle)
    exact htask.congr rfl rfl rfl
  | dispatch htask hconn hloop hqueue => exact h.queueInLoop hqueue
  | callbackReturn htask => exact h.setTask (Or.inl rfl)
  | removeDirectly htask hi => exact h.setTask (Or.inl rfl)
  | removeInLoop htask hi hqueue => exact h.queueInLoop hqueue
  | @erase c conn htask hconn =>
    have htask : Local (s.setTask i (.destroying c)) := h.setTask (Or.inl rfl)
    exact htask.keep rfl rfl rfl fun _ _ hserves => Or.inl hserves
  | destroy htask hconn hqueue => exact h.queueInLoop hqueue
  | removeChannel htask =>
    have htask : Local (s.setTask i .none) := h.setTask (Or.inl rfl)
    exact htask.congr rfl rfl rfl
  | @wakeUp loop target htask hwaiting =>
    have hloop : Local (s.setLoop loop target) := h.congr rfl rfl rfl
    exact hloop.setTask (Or.inl rfl)

theorem startFunctor {i : LoopId} {loop : EventLoop.State Functor} {queued : Queued Functor}
    (h : Local s) (hinv : Inv s) (hwaiting : (s.loops i).waiting = queued :: loop.waiting)
    : Local ((s.setLoop i loop).startFunctor i queued.functor) := by
  have hpop : Local (s.setLoop i loop) := h.congr rfl rfl rfl
  have hitem : s.HasItem i (.functor queued.functor) := by
    refine ⟨queued, ?_, rfl⟩
    rw [hwaiting]
    exact List.mem_cons_self
  have hok := hinv.flow.items i _ hitem
  cases hfunctor : queued.functor with
  | connectEstablished c =>
    rw [hfunctor] at hok
    rcases hok with ⟨conn, hconn, hloop⟩
    have hle : i ≤ s.server.numThread := by
      rw [← hloop]
      exact h.loop_le c conn hconn
    have htask : Local ((s.setLoop i loop).setTask i (.callback c)) := hpop.setTask (Or.inr hle)
    exact htask.congr rfl rfl rfl
  | removeConnectionInLoop c => exact hpop.setTask (Or.inl rfl)
  | connectDestroyed c =>
    rw [hfunctor] at hok
    rcases hok with ⟨⟨conn, hconn, hloop, -⟩, -⟩
    have hle : i ≤ s.server.numThread := by
      rw [← hloop]
      exact h.loop_le c conn hconn
    have htask : Local ((s.setLoop i loop).setTask i (.removingChannel c)) :=
      hpop.setTask (Or.inr hle)
    exact htask.congr rfl rfl rfl
  | other => exact hpop

theorem step {e : Event} (h : Local s) (hinv : Inv s) (hstep : Step s e s') : Local s' := by
  cases hstep with
  | accept hidle => exact h.addConnection _
  | task htask => exact h.taskStep htask
  | startFunctor hidle hwaiting => exact h.startFunctor hinv hwaiting
  | @handleClose i c handler tcp hguard hidle =>
    have htask : Local (s.setTask i (.closing c)) := h.setTask (Or.inl rfl)
    exact htask.congr rfl rfl rfl
  | _ => exact h.congr rfl rfl rfl

theorem item_le (h : Local s) (hinv : Inv s) {i : LoopId} {item : Item} {c : ConnId}
    (hitem : s.HasItem i item) (hc : item.conn = some c)
    : i ≤ s.server.numThread := by
  have hok := hinv.flow.items i item hitem
  have hup : ∀ d, s.Up i d → i ≤ s.server.numThread := by
    rintro d ⟨conn, hconn, hloop, -⟩
    rw [← hloop]
    exact h.loop_le d conn hconn
  have hzero : i = 0 → i ≤ s.server.numThread := by
    intro heq
    rw [heq]
    exact Nat.zero_le _
  cases item with
  | task task =>
    cases task with
    | none => cases hc
    | establishing d => exact hzero hok.1
    | callback d =>
      apply h.task_le i d
      rw [show s.tasks i = .callback d from hitem]
      rfl
    | closing d => exact hup d hok.1
    | removing d => exact hzero hok.1
    | destroying d => exact hzero hok.1
    | removingChannel d =>
      apply h.task_le i d
      rw [show s.tasks i = .removingChannel d from hitem]
      rfl
    | waking loop => cases hc
  | guarded d => exact hup d hok
  | functor functor =>
    cases functor with
    | connectEstablished d =>
      rcases hok with ⟨conn, hconn, hloop⟩
      rw [← hloop]
      exact h.loop_le d conn hconn
    | removeConnectionInLoop d => exact hzero hok.1
    | connectDestroyed d => exact hup d hok.1
    | other => cases hc

end Local

namespace State

def holds (s : State) (c : ConnId) (i : LoopId) : Bool :=
  decide ((s.tasks i).conn = some c) || decide (s.guards i = some c)
    || (s.loops i).waiting.any fun queued => decide (queued.functor.conn = some c)

def tableHolds (s : State) (c : ConnId) : Bool :=
  (s.conns c).any fun conn => decide (s.server.connections conn.name = some c)

def referenced (s : State) (c : ConnId) : Bool :=
  s.tableHolds c || decide (c ∈ s.users) || (List.range (s.server.numThread + 1)).any (s.holds c)

end State

section Decide

variable {s : State} {c : ConnId}

theorem holds_iff {i : LoopId}
    : s.holds c i = true ↔ ∃ item, s.HasItem i item ∧ item.conn = some c := by
  unfold State.holds
  simp only [Bool.or_eq_true, decide_eq_true_eq, List.any_eq_true]
  constructor
  . rintro ((htask | hguard) | ⟨queued, hmem, hc⟩)
    . exact ⟨.task (s.tasks i), rfl, htask⟩
    . exact ⟨.guarded c, hguard, rfl⟩
    . exact ⟨.functor queued.functor, ⟨queued, hmem, rfl⟩, hc⟩
  . rintro ⟨item, hitem, hc⟩
    cases item with
    | task task =>
      left; left
      rw [show s.tasks i = task from hitem]
      exact hc
    | guarded d =>
      left; right
      cases hc
      exact hitem
    | functor functor =>
      rcases hitem with ⟨queued, hmem, rfl⟩
      exact Or.inr ⟨queued, hmem, hc⟩

theorem tableHolds_iff (h : Inv s)
    : s.tableHolds c = true ↔ ∃ name, s.server.connections name = some c := by
  unfold State.tableHolds
  rw [Option.any_eq_true]
  constructor
  . rintro ⟨conn, -, hname⟩
    exact ⟨conn.name, of_decide_eq_true hname⟩
  . rintro ⟨name, hname⟩
    rcases (h.table.connections_iff name c).mp hname with ⟨conn, hconn, heq, -⟩
    refine ⟨conn, hconn, decide_eq_true ?_⟩
    rw [heq]
    exact hname

theorem referenced_iff (h : Inv s) (hlocal : Local s) : s.referenced c = true ↔ s.Referenced c := by
  unfold State.referenced State.Referenced
  rw [Bool.or_eq_true, Bool.or_eq_true, tableHolds_iff h, decide_eq_true_eq, List.any_eq_true, or_assoc]
  constructor
  . rintro (htable | huser | ⟨i, -, hholds⟩)
    . exact Or.inl htable
    . exact Or.inr (Or.inl huser)
    . rcases holds_iff.mp hholds with ⟨item, hitem⟩
      exact Or.inr (Or.inr ⟨i, item, hitem⟩)
  . rintro (htable | huser | ⟨i, item, hitem, hc⟩)
    . exact Or.inl htable
    . exact Or.inr (Or.inl huser)
    . right; right
      refine ⟨i, ?_, holds_iff.mpr ⟨item, hitem, hc⟩⟩
      rw [List.mem_range]
      exact Nat.lt_succ_of_le (hlocal.item_le h hitem hc)

end Decide

/--
The kernel does not hand out a descriptor that is still open.
-/
def fresh (s : State) : Event → Bool
  | .accept sockfd =>
    (List.range s.accepted).all fun c => !(s.referenced c && s.fd c == some sockfd)
  | _ => true

def socketSystem (server : TcpServer) : LTS State Event :=
  (system server).restrict fun s e => fresh s e = true

structure Sockets (s : State) : Prop where
  inv : Inv s
  isLocal : Local s
  referenced_lt : ∀ c, s.Referenced c → c < s.accepted
  fd_eq_none : ∀ c, s.fd c = none ↔ s.accepted ≤ c
  distinct : ∀ c d, s.Referenced c → s.Referenced d → s.fd c = s.fd d → c = d

namespace Sockets

variable {s s' : State}

theorem start (server : TcpServer) (hid : server.nextConnId = 1)
    (hconnections : server.connections = fun _ => none) (hnext : server.next = 0)
    : Sockets (.start server) := by
  have hinv := Inv.start server hid hconnections
  have hlocal := Local.start server hnext
  have hfree : ∀ c, ¬(State.start server).Referenced c := by
    intro c
    rw [← referenced_iff hinv hlocal]
    simp [State.referenced, State.tableHolds, State.holds, State.start, EventLoop.State.waiting,
      EventLoop.State.new, EventLoop.new, EventLoop.Pc.rest, Task.conn]
  refine ⟨hinv, hlocal, ?_, ?_, ?_⟩
  . exact fun c href => absurd href (hfree c)
  . intro c
    exact iff_of_true rfl (Nat.zero_le c)
  . exact fun c d href => absurd href (hfree c)

theorem fd_ne_of_fresh {sockfd : Nat} (h : Sockets s) (hfresh : fresh s (.accept sockfd) = true)
    {c : ConnId} (href : s.Referenced c)
    : s.fd c ≠ some sockfd := by
  intro hfd
  have hall := List.all_eq_true.mp hfresh c (List.mem_range.mpr (h.referenced_lt c href))
  rw [(referenced_iff h.inv h.isLocal).mpr href, hfd] at hall
  simp at hall

theorem accept {sockfd : Nat} (h : Sockets s) (hfresh : fresh s (.accept sockfd) = true)
    (hstep : TcpServer.step s (.accept sockfd) = some s') (hfew : s'.accepted < 2 ^ 31)
    : Sockets s' := by
  have hs := Step.of_step hstep
  rcases fd_of_accept hstep with ⟨haccepted, hfd⟩
  have hself : s'.fd s.accepted = some sockfd := by
    rw [hfd, Function.update_self]
  have hother : ∀ c, c ≠ s.accepted → s'.fd c = s.fd c := by
    intro c hc
    rw [hfd, Function.update_of_ne hc]
  have hold : ∀ c, s'.Referenced c → c ≠ s.accepted → s.Referenced c :=
    fun c href hc => hs.referenced h.inv href fun _ _ => hc
  have hnew : ∀ c, s'.Referenced c → s'.fd c = some sockfd → c = s.accepted := by
    intro c href hc
    by_contra hne
    rw [hother c hne] at hc
    exact h.fd_ne_of_fresh hfresh (hold c href hne) hc
  refine ⟨h.inv.step hfew hs, h.isLocal.step h.inv hs, ?_, ?_, ?_⟩
  . intro c href
    by_cases hc : c = s.accepted
    . rw [hc, haccepted]
      exact Nat.lt_succ_self _
    . rw [haccepted]
      exact Nat.lt_succ_of_lt (h.referenced_lt c (hold c href hc))
  . intro c
    by_cases hc : c = s.accepted
    . rw [hc, hself, haccepted]
      simp
    . rw [hother c hc, h.fd_eq_none, haccepted]
      constructor
      . exact fun hle => Nat.lt_of_le_of_ne hle (Ne.symm hc)
      . exact Nat.le_of_succ_le
  . intro c d hc hd heq
    by_cases hcnew : c = s.accepted
    . rw [hcnew, hself] at heq
      rw [hcnew, hnew d hd heq.symm]
    . by_cases hdnew : d = s.accepted
      . rw [hdnew, hself] at heq
        exact absurd (hnew c hc heq) hcnew
      . rw [hother c hcnew, hother d hdnew] at heq
        exact h.distinct c d (hold c hc hcnew) (hold d hd hdnew) heq

theorem step {e : Event} (h : Sockets s) (hfresh : fresh s e = true)
    (hstep : TcpServer.step s e = some s') (hfew : s'.accepted < 2 ^ 31)
    : Sockets s' := by
  by_cases haccept : ∃ sockfd, e = .accept sockfd
  . rcases haccept with ⟨sockfd, rfl⟩
    exact h.accept hfresh hstep hfew
  . have hs := Step.of_step hstep
    have he : ∀ sockfd, e ≠ .accept sockfd := fun sockfd heq => haccept ⟨sockfd, heq⟩
    have hfd : s'.fd = s.fd := fd_of_step hstep he
    have haccepted : s'.accepted = s.accepted := hs.accepted_eq he
    have hold : ∀ c, s'.Referenced c → s.Referenced c :=
      fun c href => hs.referenced h.inv href fun sockfd heq => absurd heq (he sockfd)
    refine ⟨h.inv.step hfew hs, h.isLocal.step h.inv hs, ?_, ?_, ?_⟩
    . intro c href
      rw [haccepted]
      exact h.referenced_lt c (hold c href)
    . intro c
      rw [hfd, haccepted]
      exact h.fd_eq_none c
    . intro c d hc hd heq
      rw [hfd] at heq
      exact h.distinct c d (hold c hc) (hold d hd) heq

end Sockets

section Run

variable {name : String} {listenAddr : InetAddress} {hasCb : Bool} {numThread : Nat} {s : State}

theorem Sockets.of_reachable
    (hs : (socketSystem (.new name listenAddr hasCb numThread)).Reachable s)
    (hfew : s.accepted < 2 ^ 31)
    : Sockets s := by
  revert hfew
  apply hs.invariant
  . intro s hinit hfew
    rw [hinit]
    exact Sockets.start _ rfl rfl rfl
  . intro s e s' ih hstep hfew
    rcases (LTS.restrict_next_eq_some _).mp hstep with ⟨hfresh, hstep⟩
    have hle := (Step.of_step hstep).accepted_le
    exact (ih (Nat.lt_of_le_of_lt hle hfew)).step hfresh hstep hfew

theorem open_sockets_distinct
    (hs : (socketSystem (.new name listenAddr hasCb numThread)).Reachable s)
    (hfew : s.accepted < 2 ^ 31)
    : (∀ c, s.registered c = true → s.Referenced c) ∧
      (∀ c, s.Referenced c → c < s.accepted) ∧
      (∀ c < s.accepted, ∃ fd, s.fd c = some fd) ∧
      ∀ c d, s.Referenced c → s.Referenced d → s.fd c = s.fd d → c = d := by
  have h := Sockets.of_reachable hs hfew
  refine ⟨?_, h.referenced_lt, ?_, h.distinct⟩
  . exact fun c => h.inv.referenced_of_registered
  . intro c hlt
    cases hfd : s.fd c with
    | some fd => exact ⟨fd, rfl⟩
    | none => exact absurd ((h.fd_eq_none c).mp hfd) (Nat.not_le_of_lt hlt)

theorem released_forever {s' : State} {es : List Event} {c : ConnId}
    (hs : (system (.new name listenAddr hasCb numThread)).Reachable s)
    (hrun : (system (.new name listenAddr hasCb numThread)).run s es = some s')
    (hfew : s'.accepted < 2 ^ 31) (hc : c < s.accepted) (hfree : ¬s.Referenced c)
    : ¬s'.Referenced c ∧ s'.registered c = false := by
  have hkeep : s'.accepted < 2 ^ 31 → Inv s' ∧ c < s'.accepted ∧ ¬s'.Referenced c := by
    apply LTS.run_invariant _ _ _ hrun
      (I := fun t => t.accepted < 2 ^ 31 → Inv t ∧ c < t.accepted ∧ ¬t.Referenced c)
    . intro t e t' ih hnext hfew
      have hstep := Step.of_step hnext
      rcases ih (Nat.lt_of_le_of_lt hstep.accepted_le hfew) with ⟨hinv, hc, hfree⟩
      refine ⟨hinv.step hfew hstep, Nat.lt_of_lt_of_le hc hstep.accepted_le, ?_⟩
      intro href
      exact hfree (hstep.referenced hinv href fun _ _ => Nat.ne_of_lt hc)
    . exact fun hfew => ⟨Inv.of_reachable hs hfew, hc, hfree⟩
  rcases hkeep hfew with ⟨hinv, -, hfree'⟩
  refine ⟨hfree', ?_⟩
  rw [← Bool.not_eq_true]
  exact fun hregistered => hfree' (hinv.referenced_of_registered hregistered)

end Run

def descriptorReused : List Event :=
  wholeLife ++ List.replicate 4 (.loop 0 false) ++ [.accept 7, .task 0, .task 0, .accept 9]

theorem open_sockets_distinct_descriptorReused
    : ∃ s, (socketSystem oneThread).run (.start oneThread) descriptorReused = some s
      ∧ (List.range 3).map s.fd = [some 7, some 7, some 9]
      ∧ ∀ c d, s.Referenced c → s.Referenced d → s.fd c = s.fd d → c = d := by
  have hrun : ((socketSystem oneThread).run (.start oneThread) descriptorReused).map
      (fun s => (s.accepted, (List.range 3).map s.fd))
      = some (3, [some 7, some 7, some 9]) := by
    decide +kernel
  rcases Option.map_eq_some_iff.mp hrun with ⟨s, hrun, heq⟩
  rw [Prod.mk.injEq] at heq
  have hfew : s.accepted < 2 ^ 31 := by
    rw [heq.1]
    decide
  have hreach := LTS.Reachable.of_run _ (.init rfl) hrun
  exact ⟨s, hrun, heq.2, (open_sockets_distinct hreach hfew).2.2.2⟩

theorem released_forever_descriptorReused
    : ∃ s s', (socketSystem oneThread).run (.start oneThread) wholeLife = some s
      ∧ (system oneThread).run s (descriptorReused.drop wholeLife.length) = some s'
      ∧ s.fd 0 = s'.fd 1 ∧ ¬s'.Referenced 0 := by
  have hrun : ((socketSystem oneThread).run (.start oneThread) wholeLife).map
      (fun s => (s.accepted, s.referenced 0, s.fd 0,
        ((system oneThread).run s (descriptorReused.drop wholeLife.length)).map
          fun s' => (s'.accepted, s'.fd 1)))
      = some (1, false, some 7, some (3, some 7)) := by
    decide +kernel
  rcases Option.map_eq_some_iff.mp hrun with ⟨s, hrun, heq⟩
  simp only [Prod.mk.injEq] at heq
  rcases heq with ⟨haccepted, hfree, hfd, hmap⟩
  rcases Option.map_eq_some_iff.mp hmap with ⟨s', hrun', heq'⟩
  rw [Prod.mk.injEq] at heq'
  have hsockets : Sockets s := by
    apply Sockets.of_reachable (LTS.Reachable.of_run _ (.init rfl) hrun)
    rw [haccepted]
    decide
  have hreach : (system oneThread).Reachable s :=
    LTS.Reachable.of_run _ (.init rfl) (LTS.run_of_restrict _ hrun)
  refine ⟨s, s', hrun, hrun', ?_, ?_⟩
  . rw [hfd, heq'.2]
  . apply And.left
    apply released_forever hreach hrun'
    . rw [heq'.1]
      decide
    . rw [haccepted]
      decide
    . rw [← referenced_iff hsockets.inv hsockets.isLocal, hfree]
      exact Bool.false_ne_true

end TcpServer
