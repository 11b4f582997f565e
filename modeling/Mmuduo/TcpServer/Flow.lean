import Mmuduo.TcpServer.Lemmas
import Mmuduo.TcpServer.Table

namespace TcpServer

inductive Item where
  | task (task : Task)
  | guarded (c : ConnId)
  | functor (functor : Functor)

def Item.conn : Item → Option ConnId
  | .task t => t.conn
  | .guarded c => some c
  | .functor f => f.conn

/--
What a loop and its thread refer to; a functor that runs is a task. The functors that have been started
stay in the vector of their batch until it ends, but these references are left out.
-/
def State.HasItem (s : State) (i : LoopId) : Item → Prop
  | .task task => s.tasks i = task
  | .guarded c => s.guards i = some c
  | .functor functor => ∃ queued ∈ (s.loops i).waiting, queued.functor = functor

def State.Referenced (s : State) (c : ConnId) : Prop :=
  (∃ name, s.server.connections name = some c) ∨ c ∈ s.users
    ∨ ∃ i item, s.HasItem i item ∧ item.conn = some c

def State.Up (s : State) (i : LoopId) (c : ConnId) : Prop :=
  ∃ conn, s.conns c = some conn ∧ conn.loop = i ∧ .established i c ∈ s.log

def State.Closed (s : State) (i : LoopId) (c : ConnId) : Prop :=
  s.Up i c ∧ .closed i c ∈ s.log

def State.ItemOk (s : State) (i : LoopId) : Item → Prop
  | .task .none => True
  | .task (.establishing c) => i = 0 ∧ ∃ conn, s.conns c = some conn
  | .task (.callback _) => True
  | .task (.closing c) => s.Closed i c
  | .task (.removing c) => i = 0 ∧ ∃ l, s.Closed l c
  | .task (.destroying c) => i = 0 ∧ (∃ l, s.Up l c) ∧ .removed 0 c ∈ s.log
  | .task (.removingChannel _) => True
  | .task (.waking _) => True
  | .guarded c => s.Up i c
  | .functor (.connectEstablished c) => ∃ conn, s.conns c = some conn ∧ conn.loop = i
  | .functor (.removeConnectionInLoop c) => i = 0 ∧ ∃ l, s.Closed l c
  | .functor (.connectDestroyed c) => s.Up i c ∧ .removed 0 c ∈ s.log
  | .functor .other => True

def Before (pre : List Entry) : Entry → Prop
  | .established _ _ => True
  | .handler i c => .established i c ∈ pre
  | .closed i c => .established i c ∈ pre
  | .removed _ c => ∃ i, .closed i c ∈ pre
  | .destroyed i c => .established i c ∈ pre ∧ .removed 0 c ∈ pre

def establishes (c : ConnId) (queued : Queued Functor) : Bool :=
  decide (queued.functor = .connectEstablished c)

def Task.settled : Task → Bool
  | .establishing _ => false
  | .destroying _ => false
  | .removingChannel _ => false
  | _ => true

def Task.establishCount (c : ConnId) : Task → Nat
  | .establishing d => if d = c then 1 else 0
  | _ => 0

def State.establishCount (s : State) (i : LoopId) (c : ConnId) : Nat :=
  (s.tasks 0).establishCount c + (s.loops i).waiting.countP (establishes c)
    + s.log.countP (isEstablished c)

def State.Leaving (s : State) (i : LoopId) (c : ConnId) : Prop :=
  s.tasks 0 = .destroying c ∨ ∃ queued ∈ (s.loops i).waiting, queued.functor = .connectDestroyed c

def State.Attached (s : State) (c : ConnId) : Prop :=
  ∃ i, s.Up i c ∧ (.destroyed i c ∈ s.log → s.tasks i = .removingChannel c)

structure Flow (s : State) : Prop where
  items : ∀ i item, s.HasItem i item → s.ItemOk i item
  order : History.Ordered Before s.log
  registered : ∀ c, s.registered c = true → s.Attached c
  once : ∀ c conn, s.conns c = some conn → s.establishCount conn.loop c = 1
  owner : ∀ c conn, s.conns c = some conn → .removed 0 c ∈ s.log →
    .destroyed conn.loop c ∈ s.log ∨ s.Leaving conn.loop c

section Monotone

variable {s s' : State}

theorem State.Up.mono {i : LoopId} {c : ConnId} (h : s.Up i c)
    (hconns : ∀ c conn, s.conns c = some conn → s'.conns c = some conn) (hlog : s.log ⊆ s'.log)
    : s'.Up i c := by
  rcases h with ⟨conn, hconn, hloop, hmem⟩
  exact ⟨conn, hconns c conn hconn, hloop, hlog hmem⟩

theorem State.Up.loop_eq {i : LoopId} {c : ConnId} {conn : Conn} (h : s.Up i c)
    (hconn : s.conns c = some conn)
    : conn.loop = i := by
  rcases h with ⟨conn', hconn', hloop, -⟩
  rw [hconn] at hconn'
  cases hconn'
  exact hloop

theorem State.Closed.mono {i : LoopId} {c : ConnId} (h : s.Closed i c)
    (hconns : ∀ c conn, s.conns c = some conn → s'.conns c = some conn) (hlog : s.log ⊆ s'.log)
    : s'.Closed i c := by
  exact ⟨h.1.mono hconns hlog, hlog h.2⟩

theorem State.ItemOk.mono {i : LoopId} {item : Item} (h : s.ItemOk i item)
    (hconns : ∀ c conn, s.conns c = some conn → s'.conns c = some conn) (hlog : s.log ⊆ s'.log)
    : s'.ItemOk i item := by
  have hup : ∀ {l c}, s.Up l c → s'.Up l c := fun hup => hup.mono hconns hlog
  have hclosed : ∀ {l c}, s.Closed l c → s'.Closed l c := fun hclosed => hclosed.mono hconns hlog
  cases item with
  | task task =>
    cases task with
    | none => trivial
    | establishing c => exact ⟨h.1, h.2.imp fun conn => hconns c conn⟩
    | callback c => trivial
    | closing c => exact hclosed h
    | removing c => exact ⟨h.1, h.2.imp fun l => hclosed⟩
    | destroying c => exact ⟨h.1, h.2.1.imp fun l => hup, hlog h.2.2⟩
    | removingChannel c => trivial
    | waking l => trivial
  | guarded c => exact hup h
  | functor functor =>
    cases functor with
    | connectEstablished c => exact h.imp fun conn hconn => ⟨hconns c conn hconn.1, hconn.2⟩
    | removeConnectionInLoop c => exact ⟨h.1, h.2.imp fun l => hclosed⟩
    | connectDestroyed c => exact ⟨hup h.1, hlog h.2⟩
    | other => trivial

end Monotone

section Items

variable {s : State} {i j : LoopId} {item : Item}

theorem hasItem_setTask {task : Task} (h : (s.setTask i task).HasItem j item)
    : s.HasItem j item ∨ j = i ∧ item = .task task := by
  cases item with
  | task t =>
    simp only [State.HasItem, State.setTask] at h
    by_cases hj : j = i
    . rw [hj, Function.update_self] at h
      exact Or.inr ⟨hj, by rw [h]⟩
    . rw [Function.update_of_ne hj] at h
      exact Or.inl h
  | guarded c => exact Or.inl h
  | functor functor => exact Or.inl h

theorem hasItem_setGuard {guarded : Option ConnId} (h : (s.setGuard i guarded).HasItem j item)
    : s.HasItem j item ∨ j = i ∧ ∃ c, guarded = some c ∧ item = .guarded c := by
  cases item with
  | task t => exact Or.inl h
  | guarded c =>
    simp only [State.HasItem, State.setGuard] at h
    by_cases hj : j = i
    . rw [hj, Function.update_self] at h
      exact Or.inr ⟨hj, c, h, rfl⟩
    . rw [Function.update_of_ne hj] at h
      exact Or.inl h
  | functor functor => exact Or.inl h

theorem hasItem_setLoop {loop : EventLoop.State Functor} (h : (s.setLoop i loop).HasItem j item)
    : s.HasItem j item ∨ j = i ∧ ∃ queued ∈ loop.waiting, item = .functor queued.functor := by
  cases item with
  | task t => exact Or.inl h
  | guarded c => exact Or.inl h
  | functor functor =>
    simp only [State.HasItem, State.setLoop] at h
    by_cases hj : j = i
    . rw [hj, Function.update_self] at h
      rcases h with ⟨queued, hmem, heq⟩
      exact Or.inr ⟨hj, queued, hmem, by rw [heq]⟩
    . rw [Function.update_of_ne hj] at h
      exact Or.inl h

end Items

section Flow

variable {s s' : State}

theorem Flow.task_ok {i : LoopId} {task : Task} (h : Flow s) (htask : s.tasks i = task)
    : s.ItemOk i (.task task) := by
  apply h.items i (.task task) htask

theorem Flow.move (h : Flow s) (hconns : s'.conns = s.conns) (hlog : s'.log = s.log)
    (hregistered : ∀ c, s'.registered c = true → s.registered c = true
      ∧ ∀ i, s.tasks i = .removingChannel c → s'.tasks i = .removingChannel c)
    (hitems : ∀ j item, s'.HasItem j item → s.HasItem j item ∨ s.ItemOk j item)
    (honce : ∀ c conn, s.conns c = some conn →
      s'.establishCount conn.loop c = s.establishCount conn.loop c)
    (howner : ∀ c conn, s.conns c = some conn → s.Leaving conn.loop c → s'.Leaving conn.loop c)
    : Flow s' := by
  have hext : ∀ c conn, s.conns c = some conn → s'.conns c = some conn := by
    rw [hconns]
    exact fun _ _ => id
  have hsub : s.log ⊆ s'.log := by
    rw [hlog]
    exact List.Subset.refl _
  constructor
  . intro j item hitem
    rcases hitems j item hitem with hold | hok
    . exact (h.items j item hold).mono hext hsub
    . apply hok.mono hext hsub
  . rw [hlog]
    apply h.order
  . intro c hc
    rcases hregistered c hc with ⟨hold, htasks⟩
    rcases h.registered c hold with ⟨i, hup, hdestroyed⟩
    refine ⟨i, hup.mono hext hsub, ?_⟩
    rw [hlog]
    intro hmem
    exact htasks i (hdestroyed hmem)
  . intro c conn hconn
    rw [hconns] at hconn
    rw [honce c conn hconn]
    apply h.once c conn hconn
  . intro c conn hconn hremoved
    rw [hconns] at hconn
    rw [hlog] at hremoved ⊢
    exact (h.owner c conn hconn hremoved).imp_right (howner c conn hconn)

theorem State.Attached.record {e : Entry} {c : ConnId} (h : s.Attached c)
    (hconns : s'.conns = s.conns) (hlog : s'.log = s.log ++ [e])
    (htasks : ∀ i, s.tasks i = .removingChannel c → s'.tasks i = .removingChannel c)
    (he : ∀ i, e = .destroyed i c → s'.tasks i = .removingChannel c)
    : s'.Attached c := by
  rcases h with ⟨i, ⟨conn, hconn, hloop, hup⟩, hdestroyed⟩
  refine ⟨i, ⟨conn, ?_, hloop, ?_⟩, ?_⟩
  . rw [hconns]
    exact hconn
  . rw [hlog]
    apply List.mem_append_left _ hup
  . rw [hlog, List.mem_append, List.mem_singleton]
    rintro (hmem | heq)
    . exact htasks i (hdestroyed hmem)
    . exact he i heq.symm

theorem Flow.record {e : Entry} (h : Flow s) (hconns : s'.conns = s.conns)
    (hlog : s'.log = s.log ++ [e]) (hbefore : Before s.log e)
    (hitems : ∀ j item, s'.HasItem j item → s.HasItem j item ∨ s'.ItemOk j item)
    (hregistered : ∀ c, s'.registered c = true → s'.Attached c)
    (honce : ∀ c conn, s.conns c = some conn →
      s'.establishCount conn.loop c = s.establishCount conn.loop c)
    (hremoved : ∀ c conn, s.conns c = some conn → e = .removed 0 c → s'.Leaving conn.loop c)
    (howner : ∀ c conn, s.conns c = some conn → s.Leaving conn.loop c →
      e = .destroyed conn.loop c ∨ s'.Leaving conn.loop c)
    : Flow s' := by
  have hext : ∀ c conn, s.conns c = some conn → s'.conns c = some conn := by
    rw [hconns]
    exact fun _ _ => id
  have hsub : s.log ⊆ s'.log := by
    rw [hlog]
    apply List.subset_append_left _ _
  constructor
  . intro j item hitem
    rcases hitems j item hitem with hold | hok
    . exact (h.items j item hold).mono hext hsub
    . exact hok
  . rw [hlog]
    apply h.order.concat hbefore
  . exact hregistered
  . intro c conn hconn
    rw [hconns] at hconn
    rw [honce c conn hconn]
    apply h.once c conn hconn
  . intro c conn hconn hmem
    rw [hconns] at hconn
    rw [hlog, List.mem_append, List.mem_singleton] at hmem
    rw [hlog, List.mem_append, List.mem_singleton]
    rcases hmem with hmem | heq
    . rcases h.owner c conn hconn hmem with hdestroyed | hleaving
      . exact Or.inl (Or.inl hdestroyed)
      . exact (howner c conn hconn hleaving).imp (fun heq => Or.inr heq.symm) id
    . exact Or.inr (hremoved c conn hconn heq.symm)

theorem establishCount_eq_zero {task : Task} (h : ∀ c, task ≠ .establishing c) (c : ConnId)
    : task.establishCount c = 0 := by
  cases task with
  | establishing d => exact absurd rfl (h d)
  | _ => rfl

theorem establishCount_update {i : LoopId} {task : Task} (hold : ∀ c, s.tasks i ≠ .establishing c)
    (hnew : ∀ c, task ≠ .establishing c) (c : ConnId)
    : (Function.update s.tasks i task 0).establishCount c = (s.tasks 0).establishCount c := by
  by_cases hi : 0 = i
  . rw [hi, Function.update_self, establishCount_eq_zero hold, establishCount_eq_zero hnew]
  . rw [Function.update_of_ne hi]

theorem Task.ne_of_settled {task : Task} (h : task.settled = true)
    : (∀ c, task ≠ .establishing c) ∧ (∀ c, task ≠ .removingChannel c)
      ∧ ∀ c, task ≠ .destroying c := by
  cases task with
  | _ => simp [Task.settled] at h ⊢

theorem removingChannel_update {i j : LoopId} {c : ConnId} {task : Task}
    (hold : s.tasks i ≠ .removingChannel c) (h : s.tasks j = .removingChannel c)
    : Function.update s.tasks i task j = .removingChannel c := by
  have hj : j ≠ i := by
    intro heq
    rw [heq] at h
    exact hold h
  rw [Function.update_of_ne hj]
  exact h

theorem leaving_setTask {i j : LoopId} {c : ConnId} {task : Task}
    (hold : s.tasks i = .destroying c →
      ∃ queued ∈ (s.loops j).waiting, queued.functor = .connectDestroyed c)
    (h : s.Leaving j c)
    : (s.setTask i task).Leaving j c := by
  rcases h with htask | hqueued
  . by_cases hi : i = 0
    . rw [← hi] at htask
      exact Or.inr (hold htask)
    . left
      simp only [State.setTask]
      rw [Function.update_of_ne (Ne.symm hi)]
      exact htask
  . exact Or.inr hqueued

theorem Flow.setTask {i : LoopId} {task : Task} (h : Flow s) (hok : s.ItemOk i (.task task))
    (hold : ∀ c, s.tasks i ≠ .establishing c) (hnew : ∀ c, task ≠ .establishing c)
    (hchannel : ∀ c, s.tasks i ≠ .removingChannel c)
    (hleaving : ∀ c conn, s.conns c = some conn → s.tasks i = .destroying c →
      ∃ queued ∈ (s.loops conn.loop).waiting, queued.functor = .connectDestroyed c)
    : Flow (s.setTask i task) := by
  apply h.move
  . rfl
  . rfl
  . intro c hc
    exact ⟨hc, fun j => removingChannel_update (hchannel c)⟩
  . intro j item hitem
    rcases hasItem_setTask hitem with hitem | ⟨rfl, rfl⟩
    . exact Or.inl hitem
    . exact Or.inr hok
  . intro c conn hconn
    simp only [State.establishCount, State.setTask]
    rw [establishCount_update hold hnew]
  . intro c conn hconn hleave
    apply leaving_setTask (hleaving c conn hconn) hleave

theorem Flow.setLoop {i : LoopId} {loop : EventLoop.State Functor} (h : Flow s)
    (hwaiting : loop.waiting = (s.loops i).waiting)
    : Flow (s.setLoop i loop) := by
  have hloops : ∀ j, ((s.setLoop i loop).loops j).waiting = (s.loops j).waiting := by
    intro j
    simp only [State.setLoop]
    by_cases hj : j = i
    . rw [hj, Function.update_self]
      exact hwaiting
    . rw [Function.update_of_ne hj]
  apply h.move
  . rfl
  . rfl
  . exact fun c hc => ⟨hc, fun _ => id⟩
  . intro j item hitem
    left
    cases item with
    | task t => exact hitem
    | guarded c => exact hitem
    | functor f =>
      simp only [State.HasItem, hloops] at hitem
      exact hitem
  . intro c conn hconn
    simp only [State.establishCount, hloops]
    rfl
  . intro c conn hconn hleave
    simp only [State.Leaving, hloops]
    exact hleave

theorem leaving_push {i j : LoopId} {c : ConnId} {loop : EventLoop.State Functor}
    {queued : Queued Functor} (hwaiting : loop.waiting = (s.loops i).waiting ++ [queued])
    (h : s.Leaving j c)
    : (s.setLoop i loop).Leaving j c := by
  rcases h with htask | ⟨q, hmem, hq⟩
  . exact Or.inl htask
  . right
    refine ⟨q, ?_, hq⟩
    simp only [State.setLoop]
    by_cases hj : j = i
    . rw [hj] at hmem ⊢
      rw [Function.update_self, hwaiting]
      apply List.mem_append_left _ hmem
    . rw [Function.update_of_ne hj]
      exact hmem

theorem Flow.push {i : LoopId} {loop : EventLoop.State Functor} {queued : Queued Functor}
    (h : Flow s) (hwaiting : loop.waiting = (s.loops i).waiting ++ [queued])
    (hok : s.ItemOk i (.functor queued.functor))
    (hnew : ∀ c, queued.functor ≠ .connectEstablished c)
    : Flow (s.setLoop i loop) := by
  apply h.move
  . rfl
  . rfl
  . exact fun c hc => ⟨hc, fun _ => id⟩
  . intro j item hitem
    rcases hasItem_setLoop hitem with hitem | ⟨hj, q, hmem, hitem⟩
    . exact Or.inl hitem
    . rw [hwaiting, List.mem_append, List.mem_singleton] at hmem
      rw [hj, hitem]
      rcases hmem with hmem | heq
      . exact Or.inl ⟨q, hmem, rfl⟩
      . rw [heq]
        exact Or.inr hok
  . intro c conn hconn
    simp only [State.establishCount, State.setLoop]
    by_cases hj : conn.loop = i
    . rw [hj, Function.update_self, hwaiting, List.countP_append]
      simp [establishes, hnew c]
    . rw [Function.update_of_ne hj]
  . intro c conn hconn hleave
    apply leaving_push hwaiting hleave

theorem Flow.dispatch {c : ConnId} {conn : Conn} {caller : Caller}
    {loop : EventLoop.State Functor} (h : Flow s) (htask : s.tasks 0 = .establishing c)
    (hconn : s.conns c = some conn)
    (hwaiting : loop.waiting
      = (s.loops conn.loop).waiting ++ [⟨caller, .connectEstablished c⟩])
    : Flow ((s.setLoop conn.loop loop).setTask 0 (.waking conn.loop)) := by
  apply h.move
  . rfl
  . rfl
  . intro d hd
    refine ⟨hd, fun j => removingChannel_update ?_⟩
    simp [htask]
  . intro j item hitem
    rcases hasItem_setTask hitem with hitem | ⟨hj, hitem⟩
    . rcases hasItem_setLoop hitem with hitem | ⟨hj, q, hmem, hitem⟩
      . exact Or.inl hitem
      . rw [hwaiting, List.mem_append, List.mem_singleton] at hmem
        rw [hj, hitem]
        rcases hmem with hmem | heq
        . exact Or.inl ⟨q, hmem, rfl⟩
        . rw [heq]
          exact Or.inr ⟨conn, hconn, rfl⟩
    . rw [hitem]
      exact Or.inr trivial
  . intro d conn' hconn'
    simp only [State.establishCount, State.setTask, State.setLoop]
    rw [Function.update_self, htask]
    by_cases hd : c = d
    . rw [← hd, hconn] at hconn'
      cases hconn'
      rw [Function.update_self, hwaiting, List.countP_append]
      simp only [Task.establishCount, establishes, hd, List.countP_singleton, decide_true, if_true]
      omega
    . have hloop : (Function.update s.loops conn.loop loop conn'.loop).waiting.countP (establishes d)
          = (s.loops conn'.loop).waiting.countP (establishes d) := by
        by_cases hj : conn'.loop = conn.loop
        . rw [hj, Function.update_self, hwaiting, List.countP_append]
          simp [establishes, hd]
        . rw [Function.update_of_ne hj]
      rw [hloop]
      simp [Task.establishCount, hd]
  . intro d conn' hconn' hleave
    apply leaving_setTask _ (leaving_push hwaiting hleave)
    simp [State.setLoop, htask]

theorem Flow.not_destroyed {c : ConnId} {conn : Conn} (h : Flow s) (hconn : s.conns c = some conn)
    (hpending : 0 < (s.tasks 0).establishCount c
      + (s.loops conn.loop).waiting.countP (establishes c))
    : .destroyed conn.loop c ∉ s.log := by
  intro hmem
  rcases h.order.of_mem hmem with ⟨pre, hpre, hbefore⟩
  have hpos : 0 < s.log.countP (isEstablished c) := by
    rw [List.countP_pos_iff]
    refine ⟨_, hpre hbefore.1, ?_⟩
    simp [isEstablished]
  have hone := h.once c conn hconn
  unfold State.establishCount at hone
  omega

theorem countP_record (c : ConnId) (log : List Entry) (e : Entry)
    : (log ++ [e]).countP (isEstablished c)
      =
      log.countP (isEstablished c) + if isEstablished c e then 1 else 0 := by
  rw [List.countP_append, List.countP_singleton]

theorem attached_connectEstablished {i : LoopId} {c : ConnId} {conn : Conn}
    (h : ∀ d, s.registered d = true → s.Attached d) (hconn : s.conns c = some conn)
    (hloop : conn.loop = i) (hnot : .destroyed i c ∉ s.log)
    (hchannel : ∀ d, s.tasks i ≠ .removingChannel d) (d : ConnId)
    (hd : (s.connectEstablished i c).registered d = true)
    : (s.connectEstablished i c).Attached d := by
  by_cases hdc : d = c
  . rw [hdc]
    refine ⟨i, ⟨conn, hconn, hloop, ?_⟩, ?_⟩
    . simp [State.connectEstablished]
    . intro hmem
      simp only [State.connectEstablished, List.mem_append, List.mem_singleton, reduceCtorEq,
        or_false] at hmem
      exact absurd hmem hnot
  . simp only [State.connectEstablished] at hd
    rw [Function.update_of_ne hdc] at hd
    apply (h d hd).record
    . rfl
    . rfl
    . intro j
      apply removingChannel_update (hchannel d)
    . simp

theorem Flow.establish {c : ConnId} {conn : Conn} (h : Flow s) (htask : s.tasks 0 = .establishing c)
    (hconn : s.conns c = some conn) (hloop : conn.loop = 0)
    : Flow (s.connectEstablished 0 c) := by
  have hnot : .destroyed 0 c ∉ s.log := by
    rw [← hloop]
    apply h.not_destroyed hconn
    rw [htask]
    simp [Task.establishCount]
  apply h.record
  . rfl
  . rfl
  . trivial
  . intro j item hitem
    change (s.setTask 0 (.callback c)).HasItem j item at hitem
    rcases hasItem_setTask hitem with hitem | ⟨rfl, rfl⟩
    . exact Or.inl hitem
    . exact Or.inr trivial
  . apply attached_connectEstablished h.registered hconn hloop hnot
    simp [htask]
  . intro d conn' hconn'
    simp only [State.establishCount, State.connectEstablished]
    rw [Function.update_self, htask, countP_record]
    simp only [Task.establishCount, isEstablished, decide_eq_true_eq]
    omega
  . simp
  . intro d conn' hconn' hleave
    right
    apply leaving_setTask _ hleave
    simp [htask]

end Flow

section Start

variable {s : State} {i : LoopId} {loop : EventLoop.State Functor} {queued : Queued Functor}

theorem hasItem_pop {j : LoopId} {item : Item}
    (hwaiting : (s.loops i).waiting = queued :: loop.waiting)
    (h : (s.setLoop i loop).HasItem j item)
    : s.HasItem j item := by
  rcases hasItem_setLoop h with hitem | ⟨hj, q, hmem, hitem⟩
  . exact hitem
  . rw [hj, hitem]
    refine ⟨q, ?_, rfl⟩
    rw [hwaiting]
    apply List.mem_cons_of_mem _ hmem

theorem leaving_pop {j : LoopId} {c : ConnId}
    (hwaiting : (s.loops i).waiting = queued :: loop.waiting) (h : s.Leaving j c)
    : j = i ∧ queued.functor = .connectDestroyed c ∨ (s.setLoop i loop).Leaving j c := by
  rcases h with htask | ⟨q, hmem, hq⟩
  . exact Or.inr (Or.inl htask)
  . by_cases hj : j = i
    . rw [hj, hwaiting, List.mem_cons] at hmem
      rcases hmem with heq | hmem
      . rw [← heq]
        exact Or.inl ⟨hj, hq⟩
      . right; right
        refine ⟨q, ?_, hq⟩
        rw [hj]
        simpa [State.setLoop] using hmem
    . right; right
      refine ⟨q, ?_, hq⟩
      simpa [State.setLoop, hj] using hmem

theorem countP_pop (hwaiting : (s.loops i).waiting = queued :: loop.waiting) (j : LoopId)
    (c : ConnId)
    : (s.loops j).waiting.countP (establishes c)
      =
      ((s.setLoop i loop).loops j).waiting.countP (establishes c)
        + if j = i ∧ establishes c queued = true then 1 else 0 := by
  by_cases hj : j = i
  . rw [hj, hwaiting, List.countP_cons]
    simp [State.setLoop]
  . simp [State.setLoop, hj]

theorem Flow.pop (h : Flow s) (hwaiting : (s.loops i).waiting = queued :: loop.waiting)
    (hestablish : ∀ c, queued.functor ≠ .connectEstablished c)
    (hdestroy : ∀ c, queued.functor ≠ .connectDestroyed c)
    : Flow (s.setLoop i loop) := by
  apply h.move
  . rfl
  . rfl
  . exact fun c hc => ⟨hc, fun _ => id⟩
  . intro j item hitem
    exact Or.inl (hasItem_pop hwaiting hitem)
  . intro c conn hconn
    have hcount := countP_pop hwaiting conn.loop c
    simp only [establishes, hestablish c, decide_false, Bool.false_eq_true, and_false,
      if_false] at hcount
    simp only [State.establishCount]
    rw [hcount]
    rfl
  . intro c conn hconn hleave
    rcases leaving_pop hwaiting hleave with ⟨-, heq⟩ | hleave
    . exact absurd heq (hdestroy c)
    . exact hleave

theorem Flow.startEstablished {c : ConnId} (h : Flow s) (hidle : s.tasks i = .none)
    (hwaiting : (s.loops i).waiting = queued :: loop.waiting)
    (hqueued : queued.functor = .connectEstablished c)
    : Flow ((s.setLoop i loop).connectEstablished i c) := by
  have hitem : s.HasItem i (.functor (.connectEstablished c)) := by
    refine ⟨queued, ?_, hqueued⟩
    rw [hwaiting]
    apply List.mem_cons_self
  rcases h.items i _ hitem with ⟨conn, hconn, hloop⟩
  have hnot : .destroyed i c ∉ s.log := by
    rw [← hloop]
    apply h.not_destroyed hconn
    rw [hloop, hwaiting, List.countP_cons]
    simp [establishes, hqueued]
  apply h.record
  . rfl
  . rfl
  . trivial
  . intro j item hitem
    change ((s.setLoop i loop).setTask i (.callback c)).HasItem j item at hitem
    rcases hasItem_setTask hitem with hitem | ⟨rfl, rfl⟩
    . exact Or.inl (hasItem_pop hwaiting hitem)
    . exact Or.inr trivial
  . apply attached_connectEstablished
    . apply h.registered
    . exact hconn
    . exact hloop
    . exact hnot
    . simp [State.setLoop, hidle]
  . intro d conn' hconn'
    have hcount := countP_pop hwaiting conn'.loop d
    have htask : (Function.update s.tasks i (.callback c) 0).establishCount d
        = (s.tasks 0).establishCount d := by
      apply establishCount_update
      . simp [hidle]
      . simp
    have hsame : conn'.loop = i ∧ establishes d queued = true ↔ c = d := by
      simp only [establishes, hqueued, Functor.connectEstablished.injEq, decide_eq_true_eq]
      constructor
      . exact And.right
      . intro heq
        rw [← heq, hconn] at hconn'
        cases hconn'
        exact ⟨hloop, heq⟩
    simp only [hsame] at hcount
    simp only [State.establishCount, State.connectEstablished, State.setLoop] at hcount ⊢
    rw [htask, countP_record, hcount]
    simp only [isEstablished, decide_eq_true_eq]
    omega
  . simp
  . intro d conn' hconn' hleave
    right
    rcases leaving_pop hwaiting hleave with ⟨-, heq⟩ | hleave
    . simp [hqueued] at heq
    . apply leaving_setTask _ hleave
      simp [State.setLoop, hidle]

theorem Flow.startDestroyed {c : ConnId} (h : Flow s) (hidle : s.tasks i = .none)
    (hwaiting : (s.loops i).waiting = queued :: loop.waiting)
    (hqueued : queued.functor = .connectDestroyed c)
    : Flow ((s.setLoop i loop).connectDestroyed i c) := by
  have hitem : s.HasItem i (.functor (.connectDestroyed c)) := by
    refine ⟨queued, ?_, hqueued⟩
    rw [hwaiting]
    apply List.mem_cons_self
  rcases h.items i _ hitem with ⟨⟨conn, hconn, hloop, hestablished⟩, hremoved⟩
  apply h.record
  . rfl
  . rfl
  . exact ⟨hestablished, hremoved⟩
  . intro j item hitem
    change ((s.setLoop i loop).setTask i (.removingChannel c)).HasItem j item at hitem
    rcases hasItem_setTask hitem with hitem | ⟨rfl, rfl⟩
    . exact Or.inl (hasItem_pop hwaiting hitem)
    . exact Or.inr trivial
  . intro d hd
    apply (h.registered d hd).record
    . rfl
    . rfl
    . intro j
      apply removingChannel_update
      simp [hidle]
    . intro j heq
      cases heq
      simp [State.connectDestroyed]
  . intro d conn' hconn'
    have hcount := countP_pop hwaiting conn'.loop d
    have htask : (Function.update s.tasks i (.removingChannel c) 0).establishCount d
        = (s.tasks 0).establishCount d := by
      apply establishCount_update
      . simp [hidle]
      . simp
    simp only [establishes, hqueued, reduceCtorEq, decide_false, Bool.false_eq_true, and_false,
      if_false] at hcount
    simp only [State.establishCount, State.connectDestroyed, State.setLoop] at hcount ⊢
    rw [htask, countP_record, hcount]
    simp [isEstablished]
  . simp
  . intro d conn' hconn' hleave
    rcases leaving_pop hwaiting hleave with ⟨hj, heq⟩ | hleave
    . rw [hqueued] at heq
      cases heq
      left
      rw [hj]
    . right
      apply leaving_setTask _ hleave
      simp [State.setLoop, hidle]

theorem Flow.removeChannel {c : ConnId} (h : Flow s) (htask : s.tasks i = .removingChannel c)
    : Flow (s.removeChannel i c) := by
  apply h.move
  . rfl
  . rfl
  . intro d hd
    simp only [State.removeChannel] at hd ⊢
    have hdc : d ≠ c := by
      intro heq
      rw [heq, Function.update_self] at hd
      cases hd
    rw [Function.update_of_ne hdc] at hd
    refine ⟨hd, fun j => removingChannel_update ?_⟩
    rw [htask]
    simp [Ne.symm hdc]
  . intro j item hitem
    change (s.setTask i .none).HasItem j item at hitem
    rcases hasItem_setTask hitem with hitem | ⟨rfl, rfl⟩
    . exact Or.inl hitem
    . exact Or.inr trivial
  . intro d conn hconn
    simp only [State.establishCount, State.removeChannel]
    rw [establishCount_update]
    . simp [htask]
    . simp
  . intro d conn hconn hleave
    apply leaving_setTask _ hleave
    simp [htask]

end Start

section Record

variable {s s' : State} {c : ConnId} {conn : Conn}

theorem Flow.recordTask {i : LoopId} {task task' : Task} {e : Entry} (h : Flow s)
    (hconns : s'.conns = s.conns) (hregistered : s'.registered = s.registered)
    (hguards : s'.guards = s.guards) (hloops : s'.loops = s.loops)
    (htasks : s'.tasks = Function.update s.tasks i task') (hlog : s'.log = s.log ++ [e])
    (htask : s.tasks i = task) (hsettled : task.settled = true)
    (hnew : ∀ c, task' ≠ .establishing c)
    (hestablished : ∀ c, isEstablished c e = false) (hdestroyed : ∀ j c, e ≠ .destroyed j c)
    (hbefore : Before s.log e) (hok : s'.ItemOk i (.task task'))
    (hremoved : ∀ c conn, s.conns c = some conn → e = .removed 0 c → s'.Leaving conn.loop c)
    : Flow s' := by
  rw [← htask] at hsettled
  rcases Task.ne_of_settled hsettled with ⟨hold, hchannel, hdestroying⟩
  apply h.record hconns hlog hbefore
  . intro j item hitem
    have hitem : (s.setTask i task').HasItem j item := by
      cases item with
      | task t => rwa [State.HasItem, htasks] at hitem
      | guarded c => rwa [State.HasItem, hguards] at hitem
      | functor f => rwa [State.HasItem, hloops] at hitem
    rcases hasItem_setTask hitem with hitem | ⟨hj, hitem⟩
    . exact Or.inl hitem
    . right
      rw [hj, hitem]
      exact hok
  . intro d hd
    rw [hregistered] at hd
    apply (h.registered d hd).record hconns hlog
    . intro j
      rw [htasks]
      apply removingChannel_update (hchannel d)
    . intro j heq
      exact absurd heq (hdestroyed j d)
  . intro d conn hconn
    unfold State.establishCount
    rw [htasks, hloops, hlog, establishCount_update hold hnew, countP_record, hestablished]
    rfl
  . exact hremoved
  . intro d conn hconn hleave
    right
    unfold State.Leaving
    rw [htasks, hloops]
    apply leaving_setTask _ hleave
    intro heq
    exact absurd heq (hdestroying d)

theorem Flow.erase (h : Flow s) (htask : s.tasks 0 = .removing c)
    : Flow (s.eraseConnection 0 c conn) := by
  rcases h.task_ok htask with ⟨-, l, hup, hclosed⟩
  refine Flow.recordTask h rfl rfl rfl rfl rfl rfl htask rfl ?_ ?_ ?_ ?_ ?_ ?_
  . simp
  . simp [isEstablished]
  . simp
  . exact ⟨l, hclosed⟩
  . refine ⟨rfl, ⟨l, hup.mono (fun _ _ => id) ?_⟩, ?_⟩
    . apply List.subset_append_left _ _
    . simp [State.eraseConnection]
  . intro d conn' hconn' heq
    cases heq
    left
    simp [State.eraseConnection]

theorem Flow.startClosing {i : LoopId} (h : Flow s) (hidle : s.tasks i = .none) (hup : s.Up i c)
    : Flow (s.startClosing i c) := by
  refine Flow.recordTask h rfl rfl rfl rfl rfl rfl hidle rfl ?_ ?_ ?_ ?_ ?_ ?_
  . simp
  . simp [isEstablished]
  . simp
  . rcases hup with ⟨conn, hconn, hloop, hestablished⟩
    exact hestablished
  . refine ⟨hup.mono (fun _ _ => id) ?_, ?_⟩
    . apply List.subset_append_left _ _
    . simp [State.startClosing]
  . simp

theorem Flow.handleEvent {i : LoopId} (h : Flow s) (hregistered : s.registered c = true)
    (hconn : s.conns c = some conn) (hloop : conn.loop = i)
    : Flow ((s.setGuard i (some c)).record (.handler i c)) := by
  rcases h.registered c hregistered with ⟨l, hup, -⟩
  have hl : conn.loop = l := hup.loop_eq hconn
  rcases hup with ⟨-, -, -, hestablished⟩
  rw [← hl, hloop] at hestablished
  apply h.record
  . rfl
  . rfl
  . exact hestablished
  . intro j item hitem
    change (s.setGuard i (some c)).HasItem j item at hitem
    rcases hasItem_setGuard hitem with hitem | ⟨hj, d, hd, hitem⟩
    . exact Or.inl hitem
    . right
      cases hd
      rw [hj, hitem]
      refine ⟨conn, hconn, hloop, ?_⟩
      apply List.mem_append_left _ hestablished
  . intro d hd
    apply (h.registered d hd).record
    . rfl
    . rfl
    . exact fun _ => id
    . simp
  . intro d conn' hconn'
    simp only [State.establishCount, State.record, State.setGuard]
    rw [countP_record]
    simp [isEstablished]
  . simp
  . intro d conn' hconn' hleave
    exact Or.inr hleave

end Record

section Accept

variable {s : State}

theorem Flow.addConnection (h : Flow s) (htable : Table s) (hidle : s.tasks 0 = .none)
    (tcp : TcpConnection)
    : Flow (s.addConnection tcp) := by
  have hfresh : s.conns s.accepted = none := by
    rw [htable.fresh]
  have hext : ∀ c conn, s.conns c = some conn → (s.addConnection tcp).conns c = some conn :=
    fun _ _ => conns_addConnection hfresh tcp
  have hold : ∀ c conn, (s.addConnection tcp).conns c = some conn → c ≠ s.accepted →
      s.conns c = some conn := by
    intro c conn hconn hne
    simp only [State.addConnection] at hconn
    rwa [Function.update_of_ne hne] at hconn
  constructor
  . intro j item hitem
    change (s.setTask 0 (.establishing s.accepted)).HasItem j item at hitem
    rcases hasItem_setTask hitem with hitem | ⟨hj, hitem⟩
    . exact (h.items j item hitem).mono hext (List.Subset.refl _)
    . rw [hitem]
      refine ⟨hj, (s.server.newConn s.accepted).1, ?_⟩
      simp [State.addConnection]
  . apply h.order
  . intro c hc
    rcases h.registered c hc with ⟨i, hup, hdestroyed⟩
    refine ⟨i, hup.mono hext (List.Subset.refl _), ?_⟩
    intro hmem
    apply removingChannel_update _ (hdestroyed hmem)
    simp [hidle]
  . intro c conn hconn
    simp only [State.establishCount, State.addConnection]
    rw [Function.update_self]
    by_cases hc : c = s.accepted
    . have hwaiting : (s.loops conn.loop).waiting.countP (establishes c) = 0 := by
        rw [List.countP_eq_zero]
        intro queued hmem hestablish
        simp only [establishes, decide_eq_true_eq] at hestablish
        rcases h.items conn.loop (.functor (.connectEstablished c)) ⟨queued, hmem, hestablish⟩
          with ⟨conn', hconn', -⟩
        rw [hc, hfresh] at hconn'
        cases hconn'
      have hlog : s.log.countP (isEstablished c) = 0 := by
        apply htable.established_eq_zero
        rw [hc]
        exact hfresh
      rw [hwaiting, hlog, hc]
      simp [Task.establishCount]
    . have hone := h.once c conn (hold c conn hconn hc)
      simp only [State.establishCount, hidle] at hone
      simp only [Task.establishCount, Ne.symm hc, if_false] at hone ⊢
      exact hone
  . intro c conn hconn hremoved
    change .removed 0 c ∈ s.log at hremoved
    by_cases hc : c = s.accepted
    . rcases htable.entries _ hremoved with ⟨-, conn', hconn'⟩
      rw [hc, hfresh] at hconn'
      cases hconn'
    . rcases h.owner c conn (hold c conn hconn hc) hremoved with hdestroyed | hleave
      . exact Or.inl hdestroyed
      . right
        rcases hleave with htask | hqueued
        . simp [hidle] at htask
        . exact Or.inr hqueued

end Accept

end TcpServer
