import Mmuduo.TcpServer.Sockets

namespace TcpServer

def State.Removing (s : State) (c : ConnId) : Prop :=
  (∃ i, s.tasks i = .closing c ∨ s.tasks i = .removing c)
    ∨ ∃ queued ∈ (s.loops 0).waiting, queued.functor = .removeConnectionInLoop c

structure Accounted (s : State) : Prop where
  closed : ∀ i c, .closed i c ∈ s.log → .removed 0 c ∈ s.log ∨ s.Removing c
  attached : ∀ i c, .established i c ∈ s.log → .destroyed i c ∈ s.log ∨ s.registered c = true
  channel : ∀ i c, s.tasks i = .removingChannel c → .destroyed i c ∈ s.log

section Removing

variable {s : State} {c : ConnId}

theorem removing_setTask {i : LoopId} {task : Task} (h : s.Removing c)
    (hold : s.tasks i = .closing c ∨ s.tasks i = .removing c →
      (s.setTask i task).Removing c)
    : (s.setTask i task).Removing c := by
  rcases h with ⟨j, htask⟩ | hqueued
  . by_cases hj : j = i
    . rw [hj] at htask
      exact hold htask
    . left
      refine ⟨j, ?_⟩
      simp only [State.setTask]
      rw [Function.update_of_ne hj]
      exact htask
  . exact Or.inr hqueued

theorem removing_setLoop {i : LoopId} {loop : EventLoop.State Functor} (h : s.Removing c)
    (hwaiting : (s.loops i).waiting ⊆ loop.waiting)
    : (s.setLoop i loop).Removing c := by
  rcases h with htask | ⟨queued, hmem, hqueued⟩
  . exact Or.inl htask
  . right
    refine ⟨queued, ?_, hqueued⟩
    simp only [State.setLoop]
    by_cases hi : 0 = i
    . rw [← hi, Function.update_self]
      rw [← hi] at hwaiting
      exact hwaiting hmem
    . rw [Function.update_of_ne hi]
      exact hmem

end Removing

namespace Accounted

variable {s s' : State}

theorem start (server : TcpServer) : Accounted (.start server) := by
  constructor
  . intro i c hmem
    cases hmem
  . intro i c hmem
    cases hmem
  . intro i c htask
    cases htask

theorem extend {entries : List Entry} (h : Accounted s) (hlog : s'.log = s.log ++ entries)
    (hclosed : ∀ i c, .closed i c ∈ entries → s'.Removing c)
    (hestablished : ∀ i c, .established i c ∈ entries → s'.registered c = true)
    (hremoving : ∀ c, s.Removing c → .removed 0 c ∈ entries ∨ s'.Removing c)
    (hregistered : ∀ i c, .established i c ∈ s.log → s.registered c = true →
      .destroyed i c ∈ s.log ∨ s'.registered c = true)
    (hchannel : ∀ i c, s'.tasks i = .removingChannel c →
      s.tasks i = .removingChannel c ∨ .destroyed i c ∈ entries)
    : Accounted s' := by
  constructor
  . intro i c hmem
    rw [hlog, List.mem_append] at hmem
    rw [hlog, List.mem_append]
    rcases hmem with hmem | hmem
    . rcases h.closed i c hmem with hremoved | hremoving'
      . exact Or.inl (Or.inl hremoved)
      . exact (hremoving c hremoving').imp_left Or.inr
    . exact Or.inr (hclosed i c hmem)
  . intro i c hmem
    rw [hlog, List.mem_append] at hmem
    rw [hlog, List.mem_append]
    rcases hmem with hmem | hmem
    . rcases h.attached i c hmem with hdestroyed | hregistered'
      . exact Or.inl (Or.inl hdestroyed)
      . exact (hregistered i c hmem hregistered').imp_left Or.inl
    . exact Or.inr (hestablished i c hmem)
  . intro i c htask
    rw [hlog, List.mem_append]
    rcases hchannel i c htask with hold | hnew
    . exact Or.inl (h.channel i c hold)
    . exact Or.inr hnew

theorem keep (h : Accounted s) (hlog : s'.log = s.log) (hregistered : s'.registered = s.registered)
    (hremoving : ∀ c, s.Removing c → s'.Removing c)
    (hchannel : ∀ i c, s'.tasks i = .removingChannel c → s.tasks i = .removingChannel c)
    : Accounted s' := by
  have hnone : s'.log = s.log ++ [] := by
    rw [hlog, List.append_nil]
  apply h.extend hnone
  . intro i c hmem
    cases hmem
  . intro i c hmem
    cases hmem
  . exact fun c hc => Or.inr (hremoving c hc)
  . intro i c _ hc
    rw [hregistered]
    exact Or.inr hc
  . exact fun i c htask => Or.inl (hchannel i c htask)

theorem removingChannel_setTask {i j : LoopId} {task : Task} {c : ConnId}
    (hnew : task ≠ .removingChannel c) (h : (s.setTask i task).tasks j = .removingChannel c)
    : s.tasks j = .removingChannel c := by
  simp only [State.setTask] at h
  by_cases hj : j = i
  . rw [hj, Function.update_self] at h
    exact absurd h hnew
  . rw [Function.update_of_ne hj] at h
    exact h

theorem setTask {i : LoopId} {task : Task} (h : Accounted s)
    (hnew : ∀ c, task ≠ .removingChannel c)
    (hold : ∀ c, s.tasks i = .closing c ∨ s.tasks i = .removing c → (s.setTask i task).Removing c)
    : Accounted (s.setTask i task) := by
  refine h.keep rfl rfl ?_ ?_
  . exact fun c hc => removing_setTask hc (hold c)
  . exact fun j c htask => removingChannel_setTask (hnew c) htask

theorem setLoop {i : LoopId} {loop : EventLoop.State Functor} (h : Accounted s)
    (hwaiting : (s.loops i).waiting ⊆ loop.waiting)
    : Accounted (s.setLoop i loop) := by
  refine h.keep rfl rfl ?_ ?_
  . exact fun c hc => removing_setLoop hc hwaiting
  . exact fun _ _ => id

theorem queueInLoop {i loop : LoopId} {functor : Functor} (h : Accounted s)
    (hqueue : s.queueInLoop i loop functor = some s')
    (hold : ∀ c, s.tasks i = .closing c ∨ s.tasks i = .removing c →
      loop = 0 ∧ functor = .removeConnectionInLoop c)
    : Accounted s' := by
  rcases queueInLoop_eq_some hqueue with ⟨target, hwaiting, heq⟩
  have hloop : Accounted (s.setLoop loop target) := by
    apply h.setLoop
    rw [hwaiting]
    exact List.subset_append_left _ _
  rw [heq]
  apply hloop.setTask
  . simp
  . intro c htask
    rcases hold c htask with ⟨rfl, rfl⟩
    right
    refine ⟨⟨State.caller i 0, .removeConnectionInLoop c⟩, ?_, rfl⟩
    simp only [State.setTask, State.setLoop, Function.update_self, hwaiting]
    exact List.mem_append_right _ (List.mem_singleton_self _)

theorem taskStep {i : LoopId} (h : Accounted s) (hinv : Inv s) (hstep : TaskStep s i s')
    : Accounted s' := by
  cases hstep with
  | @establish c conn htask hconn hloop =>
    have hlog : (s.connectEstablished i c).log = s.log ++ [.established i c] := rfl
    apply h.extend hlog
    . intro j d hmem
      cases List.mem_singleton.mp hmem
    . intro j d hmem
      cases List.mem_singleton.mp hmem
      simp [State.connectEstablished]
    . intro d hd
      right
      apply removing_setTask hd
      simp [htask]
    . intro j d _ hd
      right
      simp only [State.connectEstablished]
      by_cases hdc : d = c
      . rw [hdc, Function.update_self]
      . rw [Function.update_of_ne hdc]
        exact hd
    . intro j d hchannel
      exact Or.inl (removingChannel_setTask (by simp) hchannel)
  | dispatch htask hconn hloop hqueue =>
    apply h.queueInLoop hqueue
    simp [htask]
  | callbackReturn htask =>
    apply h.setTask
    . simp
    . simp [htask]
  | @removeDirectly c htask hi =>
    apply h.setTask
    . simp
    . intro d hd
      left
      refine ⟨i, Or.inr ?_⟩
      simp only [htask, Task.closing.injEq, reduceCtorEq, or_false] at hd
      simp [State.setTask, hd]
  | @removeInLoop c target htask hi hqueue =>
    apply h.queueInLoop hqueue
    intro d hd
    simp only [htask, Task.closing.injEq, reduceCtorEq, or_false] at hd
    exact ⟨rfl, congrArg _ hd⟩
  | @erase c conn htask hconn =>
    have hzero : i = 0 := (hinv.flow.task_ok htask).1
    have hlog : (s.eraseConnection i c conn).log = s.log ++ [.removed i c] := rfl
    apply h.extend hlog
    . intro j d hmem
      cases List.mem_singleton.mp hmem
    . intro j d hmem
      cases List.mem_singleton.mp hmem
    . intro d hd
      by_cases hdc : d = c
      . left
        rw [hdc, hzero]
        exact List.mem_singleton_self _
      . right
        apply removing_setTask hd
        simp only [htask, reduceCtorEq, false_or, Task.removing.injEq]
        exact fun heq => absurd heq.symm hdc
    . exact fun _ _ _ hd => Or.inr hd
    . intro j d hchannel
      exact Or.inl (removingChannel_setTask (by simp) hchannel)
  | destroy htask hconn hqueue =>
    apply h.queueInLoop hqueue
    simp [htask]
  | @removeChannel c htask =>
    have hlog : (s.removeChannel i c).log = s.log ++ [] := (List.append_nil _).symm
    apply h.extend hlog
    . intro j d hmem
      cases hmem
    . intro j d hmem
      cases hmem
    . intro d hd
      right
      apply removing_setTask hd
      simp [htask]
    . intro j d hestablished hd
      simp only [State.removeChannel]
      by_cases hdc : d = c
      . left
        have hdestroyed := h.channel i c htask
        rcases hinv.table.entries _ hestablished with ⟨conn, hconn, hj⟩
        rcases hinv.table.entries _ hdestroyed with ⟨conn', hconn', hi⟩
        rw [hdc] at hconn
        rw [hconn] at hconn'
        cases hconn'
        rw [hdc, ← hj, hi]
        exact hdestroyed
      . rw [Function.update_of_ne hdc]
        exact Or.inr hd
    . intro j d hchannel
      exact Or.inl (removingChannel_setTask (by simp) hchannel)
  | @wakeUp loop target htask hwaiting =>
    have hloop : Accounted (s.setLoop loop target) := by
      apply h.setLoop
      rw [hwaiting]
      exact List.Subset.refl _
    apply hloop.setTask
    . simp
    . intro d hd
      have htask' : (s.setLoop loop target).tasks i = .waking loop := htask
      simp [htask'] at hd

theorem removing_pop {i : LoopId} {loop : EventLoop.State Functor} {queued : Queued Functor}
    {c : ConnId} (hwaiting : (s.loops i).waiting = queued :: loop.waiting) (h : s.Removing c)
    : (s.setLoop i loop).Removing c ∨ queued.functor = .removeConnectionInLoop c := by
  rcases h with htask | ⟨q, hmem, hq⟩
  . exact Or.inl (Or.inl htask)
  . by_cases hi : 0 = i
    . rw [hi, hwaiting, List.mem_cons] at hmem
      rcases hmem with heq | hmem
      . rw [heq] at hq
        exact Or.inr hq
      . left; right
        refine ⟨q, ?_, hq⟩
        simp only [State.setLoop]
        rw [hi, Function.update_self]
        exact hmem
    . left; right
      refine ⟨q, ?_, hq⟩
      simp only [State.setLoop]
      rw [Function.update_of_ne hi]
      exact hmem

theorem startFunctor {i : LoopId} {loop : EventLoop.State Functor} {queued : Queued Functor}
    (h : Accounted s) (hidle : s.tasks i = .none)
    (hwaiting : (s.loops i).waiting = queued :: loop.waiting)
    : Accounted ((s.setLoop i loop).startFunctor i queued.functor) := by
  have hpop : ∀ c, s.Removing c → queued.functor ≠ .removeConnectionInLoop c →
      (s.setLoop i loop).Removing c :=
    fun c hc hne => (removing_pop hwaiting hc).resolve_right hne
  have hidle' : (s.setLoop i loop).tasks i = .none := hidle
  cases hfunctor : queued.functor with
  | connectEstablished c =>
    have hlog : ((s.setLoop i loop).connectEstablished i c).log = s.log ++ [.established i c] := rfl
    apply h.extend hlog
    . intro j d hmem
      cases List.mem_singleton.mp hmem
    . intro j d hmem
      cases List.mem_singleton.mp hmem
      simp [State.connectEstablished]
    . intro d hd
      right
      apply removing_setTask (hpop d hd (by simp [hfunctor]))
      simp [hidle']
    . intro j d _ hd
      right
      simp only [State.connectEstablished]
      by_cases hdc : d = c
      . rw [hdc, Function.update_self]
      . rw [Function.update_of_ne hdc]
        exact hd
    . intro j d hchannel
      exact Or.inl (removingChannel_setTask (by simp) hchannel)
  | removeConnectionInLoop c =>
    refine h.keep rfl rfl ?_ ?_
    . intro d hd
      by_cases hdc : d = c
      . left
        refine ⟨i, Or.inr ?_⟩
        simp [State.startFunctor, State.setTask, hdc]
      . apply removing_setTask (hpop d hd _)
        . simp [hidle']
        . rw [hfunctor]
          intro heq
          cases heq
          exact hdc rfl
    . intro j d hchannel
      exact removingChannel_setTask (by simp) hchannel
  | connectDestroyed c =>
    have hlog : ((s.setLoop i loop).connectDestroyed i c).log = s.log ++ [.destroyed i c] := rfl
    apply h.extend hlog
    . intro j d hmem
      cases List.mem_singleton.mp hmem
    . intro j d hmem
      cases List.mem_singleton.mp hmem
    . intro d hd
      right
      apply removing_setTask (hpop d hd (by simp [hfunctor]))
      simp [hidle']
    . exact fun _ _ _ hd => Or.inr hd
    . intro j d hchannel
      by_cases hnew : j = i ∧ d = c
      . right
        rw [hnew.1, hnew.2]
        exact List.mem_singleton_self _
      . left
        simp only [State.connectDestroyed] at hchannel
        by_cases hj : j = i
        . rw [hj, Function.update_self] at hchannel
          cases hchannel
          exact absurd ⟨hj, rfl⟩ hnew
        . rw [Function.update_of_ne hj] at hchannel
          exact hchannel
  | other =>
    refine h.keep rfl rfl ?_ ?_
    . exact fun d hd => hpop d hd (by simp [hfunctor])
    . exact fun _ _ => id

theorem step {e : Event} (h : Accounted s) (hinv : Inv s) (hstep : Step s e s') : Accounted s' := by
  cases hstep with
  | accept hidle =>
    refine h.keep rfl rfl ?_ ?_
    . intro c hc
      have htask : (s.setTask 0 (.establishing s.accepted)).Removing c := by
        apply removing_setTask hc
        simp [hidle]
      exact htask
    . intro j c hchannel
      exact removingChannel_setTask (by simp) hchannel
  | task htask => exact h.taskStep hinv htask
  | startFunctor hidle hwaiting => exact h.startFunctor hidle hwaiting
  | loop hwaiting =>
    apply h.setLoop
    rw [hwaiting]
    exact List.Subset.refl _
  | @handleEvent i c conn hidle hregistered hconn hloop =>
    have hlog : ((s.setGuard i (some c)).record (.handler i c)).log = s.log ++ [.handler i c] := rfl
    apply h.extend hlog
    . intro j d hmem
      cases List.mem_singleton.mp hmem
    . intro j d hmem
      cases List.mem_singleton.mp hmem
    . exact fun d hd => Or.inr hd
    . exact fun _ _ _ hd => Or.inr hd
    . exact fun _ _ hchannel => Or.inl hchannel
  | handle hguard hidle => exact h.keep rfl rfl (fun _ => id) fun _ _ => id
  | @handleClose i c handler tcp hguard hidle =>
    have hlog : ((s.setTcp c tcp).startClosing i c).log = s.log ++ [.closed i c] := rfl
    apply h.extend hlog
    . intro j d hmem
      cases List.mem_singleton.mp hmem
      left
      refine ⟨i, Or.inl ?_⟩
      simp [State.startClosing]
    . intro j d hmem
      cases List.mem_singleton.mp hmem
    . intro d hd
      right
      have htask : (s.setTask i (.closing c)).Removing d := by
        apply removing_setTask hd
        simp [hidle]
      exact htask
    . exact fun _ _ _ hd => Or.inr hd
    . intro j d hchannel
      exact Or.inl (removingChannel_setTask (by simp) hchannel)
  | handleEventReturn hidle => exact h.keep rfl rfl (fun _ => id) fun _ _ => id
  | callQueue hwaiting =>
    apply h.setLoop
    rw [hwaiting]
    exact List.subset_append_left _ _
  | call hwaiting =>
    apply h.setLoop
    rw [hwaiting]
    exact List.Subset.refl _
  | keep huser => exact h.keep rfl rfl (fun _ => id) fun _ _ => id
  | drop => exact h.keep rfl rfl (fun _ => id) fun _ _ => id

end Accounted

section Run

variable {name : String} {listenAddr : InetAddress} {hasCb : Bool} {numThread : Nat} {s : State}

theorem Accounted.of_reachable (hs : (system (.new name listenAddr hasCb numThread)).Reachable s)
    (hfew : s.accepted < 2 ^ 31)
    : Accounted s := by
  induction hs with
  | init hinit =>
    rw [hinit]
    exact start _
  | step hreach hnext ih =>
    have hstep := Step.of_step hnext
    have hfew' := Nat.lt_of_le_of_lt hstep.accepted_le hfew
    exact (ih hfew').step (Inv.of_reachable hreach hfew') hstep

/--
No functor is bound to the connection, and no thread is in the middle of a step of it.
-/
structure State.AtRest (s : State) (c : ConnId) : Prop where
  tasks : ∀ i, (s.tasks i).conn ≠ some c
  waiting : ∀ i, ∀ queued ∈ (s.loops i).waiting, queued.functor.conn ≠ some c

/--
The vector of a running batch keeps its functors, and the connections they are bound to, until the batch
ends.
-/
def State.InBatch (s : State) (c : ConnId) : Prop :=
  ∃ i, ∃ queued ∈ (s.loops i).functors, queued.functor.conn = some c

structure UpAtRest (s : State) (c : ConnId) (conn : Conn) : Prop where
  closed : .closed conn.loop c ∉ s.log
  connections : s.server.connections conn.name = some c
  registered : s.registered c = true

structure DownAtRest (s : State) (c : ConnId) (conn : Conn) : Prop where
  closed : .closed conn.loop c ∈ s.log
  destroyed : .destroyed conn.loop c ∈ s.log
  connections : ∀ name, s.server.connections name ≠ some c
  registered : s.registered c = false
  -- what still keeps its socket open
  referenced : s.Referenced c ∨ s.InBatch c →
    c ∈ s.users ∨ (∃ i, s.guards i = some c) ∨ s.InBatch c

theorem State.AtRest.not_removing {c : ConnId} (h : s.AtRest c) : ¬s.Removing c := by
  rintro (⟨i, htask | htask⟩ | ⟨queued, hmem, hqueued⟩)
  . exact h.tasks i (congrArg Task.conn htask)
  . exact h.tasks i (congrArg Task.conn htask)
  . exact h.waiting 0 queued hmem (congrArg Functor.conn hqueued)

theorem State.AtRest.not_leaving {c : ConnId} (h : s.AtRest c) (i : LoopId) : ¬s.Leaving i c := by
  rintro (htask | ⟨queued, hmem, hqueued⟩)
  . exact h.tasks 0 (congrArg Task.conn htask)
  . exact h.waiting i queued hmem (congrArg Functor.conn hqueued)

theorem State.AtRest.established {c : ConnId} {conn : Conn} (h : s.AtRest c) (hinv : Inv s)
    (hconn : s.conns c = some conn)
    : .established conn.loop c ∈ s.log := by
  have hone := hinv.flow.once c conn hconn
  have htask : (s.tasks 0).establishCount c = 0 := by
    have hne := h.tasks 0
    cases hcase : s.tasks 0 with
    | establishing d =>
      rw [hcase] at hne
      simp only [Task.establishCount]
      rw [if_neg]
      intro hd
      exact hne (congrArg some hd)
    | _ => rfl
  have hwaiting : (s.loops conn.loop).waiting.countP (establishes c) = 0 := by
    rw [List.countP_eq_zero]
    intro queued hmem hestablishes
    apply h.waiting conn.loop queued hmem
    exact congrArg Functor.conn (of_decide_eq_true hestablishes)
  unfold State.establishCount at hone
  have hpos : 0 < s.log.countP (isEstablished c) := by
    omega
  rcases List.countP_pos_iff.mp hpos with ⟨e, hmem, he⟩
  cases e with
  | established i d =>
    have hd : d = c := of_decide_eq_true he
    rw [hd] at hmem
    rcases hinv.table.entries _ hmem with ⟨conn', hconn', hloop⟩
    rw [hconn] at hconn'
    cases hconn'
    rw [hloop]
    exact hmem
  | _ => cases he

theorem Inv.closed_of_removed {c : ConnId} {conn : Conn} (h : Inv s) (hconn : s.conns c = some conn)
    (hremoved : .removed 0 c ∈ s.log)
    : .closed conn.loop c ∈ s.log := by
  rcases h.flow.order.of_mem hremoved with ⟨pre, hsub, i, hclosed⟩
  have hmem := hsub hclosed
  rcases h.table.entries _ hmem with ⟨conn', hconn', hloop⟩
  rw [hconn] at hconn'
  cases hconn'
  rw [hloop]
  exact hmem

theorem at_rest (hs : (system (.new name listenAddr hasCb numThread)).Reachable s)
    (hfew : s.accepted < 2 ^ 31) {c : ConnId} {conn : Conn} (hconn : s.conns c = some conn)
    (hquiet : s.AtRest c)
    : .established conn.loop c ∈ s.log ∧ (UpAtRest s c conn ∨ DownAtRest s c conn) := by
  have hinv := Inv.of_reachable hs hfew
  have haccounted := Accounted.of_reachable hs hfew
  have hestablished := hquiet.established hinv hconn
  refine ⟨hestablished, ?_⟩
  by_cases hclosed : .closed conn.loop c ∈ s.log
  . right
    have hremoved := (haccounted.closed _ c hclosed).resolve_right hquiet.not_removing
    have hdestroyed :=
      (hinv.flow.owner c conn hconn hremoved).resolve_right (hquiet.not_leaving conn.loop)
    have htable : ∀ name, s.server.connections name ≠ some c := by
      intro name hname
      rcases (hinv.table.connections_iff name c).mp hname with ⟨-, -, -, hnot⟩
      exact hnot hremoved
    refine ⟨hclosed, hdestroyed, htable, ?_, ?_⟩
    . rw [← Bool.not_eq_true]
      intro hregistered
      rcases hinv.flow.registered c hregistered with ⟨i, hup, htask⟩
      rw [hup.loop_eq hconn] at hdestroyed
      exact hquiet.tasks i (congrArg Task.conn (htask hdestroyed))
    . rintro ((⟨name, hname⟩ | huser | ⟨i, item, hitem, hc⟩) | hbatch)
      . exact absurd hname (htable name)
      . exact Or.inl huser
      . cases item with
        | task task =>
          have htask : s.tasks i = task := hitem
          rw [← htask] at hc
          exact absurd hc (hquiet.tasks i)
        | guarded d =>
          cases hc
          exact Or.inr (Or.inl ⟨i, hitem⟩)
        | functor functor =>
          rcases hitem with ⟨queued, hmem, heq⟩
          rw [← heq] at hc
          exact absurd hc (hquiet.waiting i queued hmem)
      . exact Or.inr (Or.inr hbatch)
  . left
    have hremoved : .removed 0 c ∉ s.log := fun hmem => hclosed (hinv.closed_of_removed hconn hmem)
    refine ⟨hclosed, ?_, ?_⟩
    . exact (hinv.table.connections_iff conn.name c).mpr ⟨conn, hconn, rfl, hremoved⟩
    . apply (haccounted.attached _ c hestablished).resolve_left
      intro hdestroyed
      rcases hinv.flow.order.of_mem hdestroyed with ⟨pre, hsub, -, hmem⟩
      exact hremoved (hsub hmem)

end Run

theorem Sockets.atRest {s : State} {c : ConnId} (h : Sockets s)
    (hloops : ∀ i ≤ s.server.numThread, s.holds c i = false)
    : s.AtRest c := by
  have hitem : ∀ i item, s.HasItem i item → item.conn ≠ some c := by
    intro i item hitem hc
    have hnot := hloops i (h.isLocal.item_le h.inv hitem hc)
    rw [holds_iff.mpr ⟨item, hitem, hc⟩] at hnot
    cases hnot
  constructor
  . exact fun i => hitem i (.task (s.tasks i)) rfl
  . exact fun i queued hmem => hitem i (.functor queued.functor) ⟨queued, hmem, rfl⟩

theorem at_rest_wholeLife
    : ∃ s, (system oneThread).run (.start oneThread) wholeLife = some s ∧ s.AtRest 0
      ∧ ∃ conn, s.conns 0 = some conn ∧ .established conn.loop 0 ∈ s.log
        ∧ (UpAtRest s 0 conn ∨ DownAtRest s 0 conn) := by
  have hrun : ((socketSystem oneThread).run (.start oneThread) wholeLife).map
      (fun s => (s.accepted, s.server.numThread, (s.conns 0).isSome, s.holds 0 0, s.holds 0 1))
      = some (1, 1, true, false, false) := by
    decide +kernel
  rcases Option.map_eq_some_iff.mp hrun with ⟨s, hrun, heq⟩
  simp only [Prod.mk.injEq] at heq
  rcases heq with ⟨haccepted, hnum, hsome, hbase, hother⟩
  have hfew : s.accepted < 2 ^ 31 := by
    rw [haccepted]
    decide
  have hquiet : s.AtRest 0 := by
    apply (Sockets.of_reachable (LTS.Reachable.of_run _ (.init rfl) hrun) hfew).atRest
    intro i hi
    rw [hnum] at hi
    rcases Nat.le_one_iff_eq_zero_or_eq_one.mp hi with rfl | rfl
    . exact hbase
    . exact hother
  rcases Option.isSome_iff_exists.mp hsome with ⟨conn, hconn⟩
  have hrun' := LTS.run_of_restrict _ hrun
  refine ⟨s, hrun', hquiet, conn, hconn, ?_⟩
  exact at_rest (LTS.Reachable.of_run _ (.init rfl) hrun') hfew hconn hquiet

end TcpServer
