import Mmuduo.TcpServer.Flow

namespace TcpServer

section Step

variable {s s' : State} {i : LoopId}

structure Inv (s : State) : Prop where
  table : Table s
  flow : Flow s

theorem Inv.start (server : TcpServer) (hid : server.nextConnId = 1)
    (hconnections : server.connections = fun _ => none)
    : Inv (.start server) := by
  constructor
  . constructor
    . intro c
      simp [State.start]
    . rw [State.start, hid]
      rfl
    . simp [State.start]
    . simp [State.start, hconnections]
    . simp [State.start]
  . constructor
    . intro j item hitem
      cases item with
      | task t =>
        cases hitem
        trivial
      | guarded c => cases hitem
      | functor f =>
        rcases hitem with ⟨queued, hmem, -⟩
        cases hmem
    . apply History.ordered_nil Before
    . simp [State.start]
    . simp [State.start]
    . simp [State.start]

theorem Inv.queueInLoop {loop : LoopId} {functor : Functor} (h : Inv s)
    (hok : s.ItemOk loop (.functor functor))
    (hold : ∀ c, s.tasks i ≠ .establishing c)
    (hnew : ∀ c, functor ≠ .connectEstablished c)
    (hchannel : ∀ c, s.tasks i ≠ .removingChannel c)
    (hleaving : ∀ c conn, s.conns c = some conn → s.tasks i = .destroying c →
      loop = conn.loop ∧ functor = .connectDestroyed c)
    (hqueue : s.queueInLoop i loop functor = some s')
    : Inv s' := by
  rcases queueInLoop_eq_some hqueue with ⟨target, hwaiting, heq⟩
  rw [heq]
  constructor
  . exact h.table.keep rfl rfl rfl rfl
  . apply (h.flow.push hwaiting hok hnew).setTask
    . trivial
    . exact hold
    . simp
    . exact hchannel
    . intro c conn hconn htask
      rcases hleaving c conn hconn htask with ⟨hloop, hfunctor⟩
      refine ⟨⟨State.caller i loop, functor⟩, ?_, hfunctor⟩
      rw [← hloop]
      simp [State.setLoop, hwaiting]

theorem Inv.setTask {task task' : Task} (h : Inv s) (htask : s.tasks i = task)
    (hok : s.ItemOk i (.task task')) (hold : task.settled = true) (hnew : task'.settled = true)
    : Inv (s.setTask i task') := by
  rw [← htask] at hold
  rcases Task.ne_of_settled hold with ⟨hestablishing, hchannel, hdestroying⟩
  constructor
  . exact h.table.keep rfl rfl rfl rfl
  . apply h.flow.setTask hok hestablishing (Task.ne_of_settled hnew).1 hchannel
    intro c conn hconn heq
    exact absurd heq (hdestroying c)

theorem Inv.taskStep (h : Inv s) (hstep : TaskStep s i s') : Inv s' := by
  cases hstep with
  | establish htask hconn hloop =>
    rcases h.flow.task_ok htask with ⟨hi, -⟩
    rw [hi] at htask hloop ⊢
    constructor
    . refine Table.record h.table rfl rfl rfl rfl ⟨_, hconn, hloop⟩ ?_
      simp
    . apply h.flow.establish htask hconn hloop
  | dispatch htask hconn hloop hqueue =>
    rcases h.flow.task_ok htask with ⟨hi, -⟩
    rw [hi] at htask hqueue
    rcases queueInLoop_eq_some hqueue with ⟨target, hwaiting, heq⟩
    rw [heq]
    constructor
    . exact h.table.keep rfl rfl rfl rfl
    . exact h.flow.dispatch htask hconn hwaiting
  | callbackReturn htask =>
    apply h.setTask htask
    . trivial
    . rfl
    . rfl
  | removeDirectly htask hi =>
    apply h.setTask htask
    . exact ⟨hi, i, h.flow.task_ok htask⟩
    . rfl
    . rfl
  | removeInLoop htask hi hqueue =>
    apply h.queueInLoop _ _ _ _ _ hqueue
    . exact ⟨rfl, i, h.flow.task_ok htask⟩
    . simp [htask]
    . simp
    . simp [htask]
    . simp [htask]
  | erase htask hconn =>
    rcases h.flow.task_ok htask with ⟨hi, -⟩
    rw [hi] at htask ⊢
    exact ⟨h.table.erase hconn, h.flow.erase htask⟩
  | @destroy c conn _ htask hconn hqueue =>
    rcases h.flow.task_ok htask with ⟨-, ⟨l, hup⟩, hremoved⟩
    apply h.queueInLoop _ _ _ _ _ hqueue
    . rw [hup.loop_eq hconn]
      exact ⟨hup, hremoved⟩
    . simp [htask]
    . simp
    . simp [htask]
    . intro d conn' hconn' htask'
      rw [htask] at htask'
      cases htask'
      rw [hconn] at hconn'
      cases hconn'
      exact ⟨rfl, rfl⟩
  | removeChannel htask => exact ⟨h.table.keep rfl rfl rfl rfl, h.flow.removeChannel htask⟩
  | @wakeUp loop target htask hwaiting =>
    have hloop : Inv (s.setLoop loop target) :=
      ⟨h.table.keep rfl rfl rfl rfl, h.flow.setLoop hwaiting⟩
    apply hloop.setTask htask
    . trivial
    . rfl
    . rfl

theorem Inv.startFunctor {loop : EventLoop.State Functor} {queued : Queued Functor} (h : Inv s)
    (hidle : s.tasks i = .none) (hwaiting : (s.loops i).waiting = queued :: loop.waiting)
    : Inv ((s.setLoop i loop).startFunctor i queued.functor) := by
  have hitem : s.HasItem i (.functor queued.functor) := by
    refine ⟨queued, ?_, rfl⟩
    rw [hwaiting]
    apply List.mem_cons_self
  have hok := h.flow.items i _ hitem
  cases hfunctor : queued.functor with
  | connectEstablished c =>
    rw [hfunctor] at hok
    constructor
    . refine Table.record h.table rfl rfl rfl rfl hok ?_
      simp
    . apply h.flow.startEstablished hidle hwaiting hfunctor
  | removeConnectionInLoop c =>
    rw [hfunctor] at hok
    have hpop : Inv (s.setLoop i loop) := by
      refine ⟨h.table.keep rfl rfl rfl rfl, h.flow.pop hwaiting ?_ ?_⟩
      . simp [hfunctor]
      . simp [hfunctor]
    apply hpop.setTask hidle
    . exact hok
    . rfl
    . rfl
  | connectDestroyed c =>
    rw [hfunctor] at hok
    rcases hok with ⟨⟨conn, hconn, hloop, -⟩, -⟩
    constructor
    . refine Table.record h.table rfl rfl rfl rfl ⟨conn, hconn, hloop⟩ ?_
      simp
    . apply h.flow.startDestroyed hidle hwaiting hfunctor
  | other =>
    refine ⟨h.table.keep rfl rfl rfl rfl, h.flow.pop hwaiting ?_ ?_⟩
    . simp [hfunctor]
    . simp [hfunctor]

theorem Inv.congr (h : Inv s) (hserver : s'.server = s.server) (haccepted : s'.accepted = s.accepted)
    (hconns : s'.conns = s.conns) (hlog : s'.log = s.log) (hregistered : s'.registered = s.registered)
    (htasks : s'.tasks = s.tasks) (hguards : s'.guards = s.guards) (hloops : s'.loops = s.loops)
    : Inv s' := by
  constructor
  . apply h.table.keep hserver haccepted hconns hlog
  . apply h.flow.move hconns hlog
    . intro c hc
      rw [hregistered] at hc
      rw [htasks]
      exact ⟨hc, fun _ => id⟩
    . intro j item hitem
      left
      cases item with
      | task t => rwa [State.HasItem, htasks] at hitem
      | guarded c => rwa [State.HasItem, hguards] at hitem
      | functor f => rwa [State.HasItem, hloops] at hitem
    . intro c conn hconn
      unfold State.establishCount
      rw [htasks, hloops, hlog]
    . intro c conn hconn hleave
      unfold State.Leaving
      rw [htasks, hloops]
      exact hleave

theorem Inv.step {e : Event} (h : Inv s) (hfew : s'.accepted < 2 ^ 31) (hstep : Step s e s')
    : Inv s' := by
  cases hstep with
  | accept hidle => exact ⟨h.table.addConnection hfew _, h.flow.addConnection h.table hidle _⟩
  | task htask => apply h.taskStep htask
  | startFunctor hidle hwaiting => apply h.startFunctor hidle hwaiting
  | loop hwaiting => exact ⟨h.table.keep rfl rfl rfl rfl, h.flow.setLoop hwaiting⟩
  | handleEvent hidle hregistered hconn hloop =>
    constructor
    . refine Table.record h.table rfl rfl rfl rfl ⟨_, hconn, hloop⟩ ?_
      simp
    . exact h.flow.handleEvent hregistered hconn hloop
  | handle hguard hidle => exact h.congr rfl rfl rfl rfl rfl rfl rfl rfl
  | @handleClose i c handler tcp hguard hidle =>
    have hset : Inv (s.setTcp c tcp) := h.congr rfl rfl rfl rfl rfl rfl rfl rfl
    have hup : s.Up i c := h.flow.items i (.guarded c) hguard
    constructor
    . rcases hup with ⟨conn, hconn, hloop, -⟩
      refine Table.record hset.table rfl rfl rfl rfl ⟨conn, hconn, hloop⟩ ?_
      simp
    . apply hset.flow.startClosing hidle hup
  | handleEventReturn hidle =>
    refine ⟨h.table.keep rfl rfl rfl rfl, ?_⟩
    apply h.flow.move
    . rfl
    . rfl
    . exact fun c hc => ⟨hc, fun _ => id⟩
    . intro j item hitem
      rcases hasItem_setGuard hitem with hitem | ⟨-, c, hnone, -⟩
      . exact Or.inl hitem
      . cases hnone
    . intro c conn hconn
      rfl
    . intro c conn hconn hleave
      exact hleave
  | callQueue hwaiting =>
    refine ⟨h.table.keep rfl rfl rfl rfl, h.flow.push hwaiting ?_ ?_⟩
    . trivial
    . simp
  | call hwaiting => exact ⟨h.table.keep rfl rfl rfl rfl, h.flow.setLoop hwaiting⟩
  | keep huser => exact h.congr rfl rfl rfl rfl rfl rfl rfl rfl
  | drop => exact h.congr rfl rfl rfl rfl rfl rfl rfl rfl

end Step

section Run

variable {name : String} {listenAddr : InetAddress} {hasCb : Bool} {numThread : Nat} {s : State}

theorem Inv.of_reachable (hs : (system (.new name listenAddr hasCb numThread)).Reachable s)
    (hfew : s.accepted < 2 ^ 31)
    : Inv s := by
  revert hfew
  apply hs.invariant
  . intro s hinit hfew
    rw [hinit]
    apply Inv.start _ rfl rfl
  . intro s e s' ih hstep hfew
    have hstep := Step.of_step hstep
    exact (ih (Nat.lt_of_le_of_lt hstep.accepted_le hfew)).step hfew hstep

structure Owned (s : State) : Prop where
  name_eq : ∀ c conn, s.conns c = some conn → conn.name = s.server.nameOf c
  name_inj : ∀ c d conn conn', s.conns c = some conn → s.conns d = some conn' →
    conn.name = conn'.name → c = d
  connName_fresh : s.accepted + 1 < 2 ^ 31 → s.server.connections s.server.connName = none
  erase_iff : ∀ c conn, s.conns c = some conn → ∀ name d,
    (s.server.erase conn.name).connections name = some d
      ↔ s.server.connections name = some d ∧ d ≠ c
  connections_iff : ∀ name c, s.server.connections name = some c
    ↔ ∃ conn, s.conns c = some conn ∧ conn.name = name ∧ .removed 0 c ∉ s.log
  entries : ∀ e ∈ s.log, s.EntryOk e
  established_once : ∀ c, s.log.countP (isEstablished c) ≤ 1
  order : History.Ordered Before s.log
  -- A connection without references has been destroyed.
  freed : ∀ c conn, s.conns c = some conn → ¬s.Referenced c →
    .destroyed conn.loop c ∈ s.log ∧ s.registered c = false

theorem Flow.destroyed_of_not_referenced {c : ConnId} {conn : Conn} (h : Inv s)
    (hconn : s.conns c = some conn) (hfree : ¬s.Referenced c)
    : .destroyed conn.loop c ∈ s.log := by
  have hremoved : .removed 0 c ∈ s.log := by
    by_contra hnot
    apply hfree
    left
    exact ⟨conn.name, (h.table.connections_iff _ _).mpr ⟨conn, hconn, rfl, hnot⟩⟩
  rcases h.flow.owner c conn hconn hremoved with hdestroyed | htask | ⟨queued, hmem, hqueued⟩
  . exact hdestroyed
  . exfalso
    apply hfree
    right; right
    exact ⟨0, .task (.destroying c), htask, rfl⟩
  . exfalso
    apply hfree
    right; right
    exact ⟨conn.loop, .functor (.connectDestroyed c), ⟨queued, hmem, hqueued⟩, rfl⟩

theorem Flow.not_registered {c : ConnId} {conn : Conn} (h : Flow s) (hconn : s.conns c = some conn)
    (hdestroyed : .destroyed conn.loop c ∈ s.log) (hfree : ¬s.Referenced c)
    : s.registered c = false := by
  rw [← Bool.not_eq_true]
  intro hregistered
  rcases h.registered c hregistered with ⟨i, ⟨conn', hconn', hloop, -⟩, htask⟩
  rw [hconn] at hconn'
  cases hconn'
  rw [hloop] at hdestroyed
  apply hfree
  right; right
  exact ⟨i, .task (.removingChannel c), htask hdestroyed, rfl⟩

theorem Flow.established_once (h : Flow s) (htable : Table s) (c : ConnId)
    : s.log.countP (isEstablished c) ≤ 1 := by
  cases hconn : s.conns c with
  | some conn =>
    have hone := h.once c conn hconn
    unfold State.establishCount at hone
    omega
  | none =>
    have hzero := htable.established_eq_zero hconn
    omega

theorem reachable_owned (hs : (system (.new name listenAddr hasCb numThread)).Reachable s)
    (hfew : s.accepted < 2 ^ 31)
    : Owned s := by
  have h := Inv.of_reachable hs hfew
  constructor
  . apply h.table.name_eq
  . intro c d conn conn'
    apply h.table.name_inj
  . apply h.table.connections_connName
  . intro c conn
    apply h.table.erase_iff
  . apply h.table.connections_iff
  . apply h.table.entries
  . apply h.flow.established_once h.table
  . apply h.flow.order
  . intro c conn hconn hfree
    have hdestroyed := Flow.destroyed_of_not_referenced h hconn hfree
    exact ⟨hdestroyed, h.flow.not_registered hconn hdestroyed hfree⟩

end Run

def oneThread : TcpServer := .new "EchoServer" ⟨127, 0, 0, 1, 0x401f⟩ false 1

def wholeLife : List Event :=
  [.loop 0 false, .loop 0 false, .loop 0 false, .loop 0 false, .accept 7, .task 0, .task 0,
    .loop 1 false, .loop 1 false, .loop 1 false, .loop 1 true, .loop 1 false, .loop 1 false,
    .loop 1 false, .loop 1 false, .task 1, .loop 1 false, .loop 1 false, .loop 1 false,
    .loop 1 false, .handleEvent 1 0, .handle 1 .close, .task 1, .task 1, .handleEventReturn 1,
    .loop 0 false, .loop 0 false, .loop 0 false, .task 0, .task 0, .task 0, .loop 1 false,
    .loop 1 false, .loop 1 false, .task 1]

theorem reachable_owned_wholeLife
    : ∃ s, (system oneThread).run (.start oneThread) wholeLife = some s ∧ s.accepted = 1
      ∧ s.log
        =
        [.established 1 0, .handler 1 0, .closed 1 0, .removed 0 0, .destroyed 1 0]
      ∧ Owned s := by
  have hrun : ((system oneThread).run (.start oneThread) wholeLife).map
      (fun s => (s.accepted, s.log))
      = some (1, [.established 1 0, .handler 1 0, .closed 1 0, .removed 0 0, .destroyed 1 0]) := by
    decide +kernel
  rcases Option.map_eq_some_iff.mp hrun with ⟨s, hrun, heq⟩
  rw [Prod.mk.injEq] at heq
  refine ⟨s, hrun, heq.1, heq.2, ?_⟩
  apply reachable_owned (LTS.Reachable.of_run _ (.init rfl) hrun)
  rw [heq.1]
  decide

end TcpServer
