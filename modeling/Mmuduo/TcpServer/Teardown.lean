import Mmuduo.TcpConnection.Lemmas
import Mmuduo.TcpServer.Ownership

/-!
This module contains the destructor of a server. It runs on the thread of the base loop while the other
loops go on: it hands `connectDestroyed` to all connections of the table and joins the threads of the
pool. Close callbacks refer to the server by a raw pointer, so a removal that is under way does not
end with the server.
-/

namespace TcpServer

def Handler.closes : Handler → Bool
  | .read (.ok bytes) => bytes.isEmpty
  | .read (.error _) => false
  | .write _ => false
  | .close => true
  | .error => false

def Event.closes : Event → Bool
  | .handle _ handler => handler.closes
  | _ => false

def Event.thread : Event → Option LoopId
  | .accept _ => some 0
  | .task i => some i
  | .loop i _ => some i
  | .handleEvent i _ => some i
  | .handle i _ => some i
  | .handleEventReturn i => some i
  | .call i event => some (callThread i event)
  | .keep i => some i
  | .drop _ => none
where
  callThread (i : LoopId) : EventLoop.Event Functor → LoopId
    | .queueInLoop (.other n) _ => n
    | .runInLoop (.other n) _ => n
    | .queueReturn (.other n) => n
    | _ => i

def Event.isUser : Event → Bool
  | .call _ _ => true
  | .keep _ => true
  | _ => false

def Event.isAccept : Event → Bool
  | .accept _ => true
  | _ => false

namespace State

def inTable (s : State) (c : ConnId) : Bool :=
  match s.conns c with
  | some conn => s.server.connections conn.name == some c
  | none => false

/--
One round of the loop over `m_connections`. The null pointer that stays in the table is no
reference.
-/
def destroyConnection (s : State) (c : ConnId) : Option State := do
  let conn ← s.conns c
  let s := { s with server := s.server.erase conn.name }
  if conn.loop = 0 then
    return s.connectDestroyed 0 c
  else
    s.queueInLoop 0 conn.loop (.connectDestroyed c)

end State

namespace Teardown

inductive Phase where
  | running
  | visiting (rest : List ConnId)
  -- the destructor of the pool: `quit`, its wake-up and `join` for one thread after the other
  | joining (rest : List LoopId)
  | waking (i : LoopId) (rest : List LoopId)
  | awaiting (i : LoopId) (rest : List LoopId)
  | destroyed
  deriving DecidableEq, Repr

structure State where
  inner : TcpServer.State
  phase : Phase
  -- what the base thread was in the middle of when it called the destructor
  outer : Task
  threads : List LoopId
  -- the threads of the pool that have left `loop()`
  ended : LoopId → Bool

inductive Event where
  | inner (e : TcpServer.Event)
  -- `~TcpServer` is called; the orders are those of the hash table and of the vector of threads
  | destroy (connections : List ConnId) (threads : List LoopId)
  | next

namespace State

def start (server : TcpServer) : State where
  inner := .start server
  phase := .running
  outer := .none
  threads := []
  ended := fun _ => false

/--
The base thread is in the destructor, up to the callbacks of `connectDestroyed`. Afterwards the
acceptor is gone.
-/
def mayRun (s : State) (e : TcpServer.Event) : Bool :=
  match s.phase with
  | .running => true
  | .destroyed => !e.isAccept
  | _ =>
    e.thread != some 0
      || (s.inner.tasks 0 != .none
        && (e.isUser || match e with | .task _ => true | _ => false))

def alive (s : State) (e : TcpServer.Event) : Bool :=
  e.thread.all fun i => !s.ended i

def leaves (s : State) (i : LoopId) : TcpServer.Event → Bool
  | .loop j _ => decide (j = i) && decide (i ≠ 0)
    && match (s.inner.loops i).pc with
      | .leaving => true
      | _ => false
  | _ => false

def runInner (s : State) (e : TcpServer.Event) : Option State :=
  if s.mayRun e && s.alive e then do
    let inner ← TcpServer.step s.inner e
    return { s with inner, ended := fun i => s.ended i || s.leaves i e }
  else
    none

def canDestroy (s : State) : Bool :=
  (s.inner.tasks 0).userCode && (s.inner.loops 0).canCall .owner
    && (List.range (s.inner.server.numThread + 1)).all fun i =>
      decide ((s.inner.loops i).calls (TcpServer.State.caller 0 i) = .idle)

def destroy (s : State) (connections : List ConnId) (threads : List LoopId) : Option State :=
  if s.phase = .running && s.canDestroy
      && connections.isPerm ((List.range s.inner.accepted).filter s.inner.inTable)
      && threads.isPerm (List.range' 1 s.inner.server.numThread) then
    some { s with
      inner := s.inner.setTask 0 .none
      phase := .visiting connections
      outer := s.inner.tasks 0
      threads }
  else
    none

def loopCall (s : State) (i : LoopId) (event : EventLoop.Event Functor) (phase : Phase)
    : Option State := do
  let loop ← EventLoop.step (s.inner.loops i) event
  return { s with inner := s.inner.setLoop i loop, phase }

def destroyNext (s : State) : Option State :=
  match s.phase with
  | .running => none
  | .visiting connections =>
    -- the call of the last round has returned
    if s.inner.tasks 0 = .none then
      match connections with
      | c :: rest => do
        let inner ← s.inner.destroyConnection c
        return { s with inner, phase := .visiting rest }
      | [] => some { s with phase := .joining s.threads }
    else
      none
  | .joining (i :: rest) =>
    -- `m_loop` is null when the thread has left `loop()`
    if s.ended i then
      some { s with phase := .joining rest }
    else
      s.loopCall i (.quit (.other 0)) (.waking i rest)
  | .waking i rest => s.loopCall i (.quitReturn (.other 0)) (.awaiting i rest)
  | .awaiting i rest =>
    if s.ended i then
      some { s with phase := .joining rest }
    else
      none
  | .joining [] => some { s with inner := s.inner.setTask 0 s.outer, phase := .destroyed }
  | .destroyed => none

end State

def step (s : State) : Event → Option State
  | .inner e => s.runInner e
  | .destroy connections threads => s.destroy connections threads
  | .next => s.destroyNext

def system (server : TcpServer) : LTS State Event where
  Init s := s = .start server
  next := step

end Teardown

def Item.isRemoval : Item → Bool
  | .task (.closing _) => true
  | .task (.removing _) => true
  | .functor (.removeConnectionInLoop _) => true
  | _ => false

def State.Quiet (s : State) : Prop :=
  ∀ i item, s.HasItem i item → item.isRemoval = false

namespace State.Quiet

variable {s s' : State} {i : LoopId}

theorem start (server : TcpServer) : (State.start server).Quiet := by
  intro i item hitem
  cases item with
  | task task =>
    rw [← show Task.none = task from hitem]
    rfl
  | guarded c => rfl
  | functor functor =>
    rcases hitem with ⟨queued, hmem, -⟩
    cases hmem

theorem setTask (h : s.Quiet) {task : Task} (htask : (Item.task task).isRemoval = false)
    : (s.setTask i task).Quiet := by
  intro j item hitem
  rcases hasItem_setTask hitem with hold | ⟨-, rfl⟩
  . exact h j item hold
  . exact htask

theorem setLoop (h : s.Quiet) {loop : EventLoop.State Functor}
    (hwaiting : ∀ queued ∈ loop.waiting, queued ∈ (s.loops i).waiting
      ∨ (Item.functor queued.functor).isRemoval = false)
    : (s.setLoop i loop).Quiet := by
  intro j item hitem
  rcases hasItem_setLoop hitem with hold | ⟨-, queued, hmem, rfl⟩
  . exact h j item hold
  . rcases hwaiting queued hmem with hold | hnew
    . exact h i (.functor queued.functor) ⟨queued, hold, rfl⟩
    . exact hnew

theorem keepLoop (h : s.Quiet) {loop : EventLoop.State Functor}
    (hwaiting : loop.waiting = (s.loops i).waiting)
    : (s.setLoop i loop).Quiet := by
  apply h.setLoop
  intro queued hmem
  rw [hwaiting] at hmem
  exact Or.inl hmem

theorem push (h : s.Quiet) {loop : EventLoop.State Functor} {caller : Caller} {functor : Functor}
    (hwaiting : loop.waiting = (s.loops i).waiting ++ [⟨caller, functor⟩])
    (hfunctor : (Item.functor functor).isRemoval = false)
    : (s.setLoop i loop).Quiet := by
  apply h.setLoop
  intro queued hmem
  rw [hwaiting, List.mem_append, List.mem_singleton] at hmem
  apply hmem.imp id
  intro heq
  rw [heq]
  exact hfunctor

theorem queueInLoop (h : s.Quiet) {loop : LoopId} {functor : Functor}
    (hfunctor : (Item.functor functor).isRemoval = false)
    (hqueue : s.queueInLoop i loop functor = some s')
    : s'.Quiet := by
  rcases queueInLoop_eq_some hqueue with ⟨target, hwaiting, rfl⟩
  exact (h.push hwaiting hfunctor).setTask rfl

theorem setGuard (h : s.Quiet) (guarded : Option ConnId) : (s.setGuard i guarded).Quiet := by
  intro j item hitem
  rcases hasItem_setGuard hitem with hold | ⟨-, c, -, rfl⟩
  . exact h j item hold
  . rfl

theorem taskStep (h : s.Quiet) (hstep : TaskStep s i s') : s'.Quiet := by
  cases hstep with
  | establish htask hconn hloop => exact h.setTask rfl
  | dispatch htask hconn hloop hqueue => exact h.queueInLoop rfl hqueue
  | callbackReturn htask => exact h.setTask rfl
  | @removeDirectly c htask hi => exact absurd (h i (.task (.closing c)) htask) nofun
  | @removeInLoop c _ htask hi hqueue => exact absurd (h i (.task (.closing c)) htask) nofun
  | @erase c _ htask hconn => exact absurd (h i (.task (.removing c)) htask) nofun
  | destroy htask hconn hqueue => exact h.queueInLoop rfl hqueue
  | removeChannel htask => exact h.setTask rfl
  | wakeUp htask hwaiting => exact (h.keepLoop hwaiting).setTask rfl

theorem startFunctor (h : s.Quiet) {loop : EventLoop.State Functor} {queued : Queued Functor}
    (hwaiting : (s.loops i).waiting = queued :: loop.waiting)
    : ((s.setLoop i loop).startFunctor i queued.functor).Quiet := by
  have hloop : (s.setLoop i loop).Quiet := by
    apply h.setLoop
    intro queued hmem
    rw [hwaiting]
    exact Or.inl (List.mem_cons_of_mem _ hmem)
  have hfunctor : (Item.functor queued.functor).isRemoval = false := by
    apply h i
    exact ⟨queued, by rw [hwaiting]; apply List.mem_cons_self, rfl⟩
  cases hf : queued.functor with
  | connectEstablished c => exact hloop.setTask rfl
  | removeConnectionInLoop c =>
    rw [hf] at hfunctor
    cases hfunctor
  | connectDestroyed c => exact hloop.setTask rfl
  | other => exact hloop

theorem closeCallback_notMem {tcp : TcpConnection} {handler : Handler}
    {r : TcpConnection × List TcpConnection.Action} (hopen : handler.closes = false)
    (hrun : handler.run tcp = some r)
    : .closeCallback ∉ r.2 := by
  cases handler with
  | read received =>
    cases received with
    | error errno =>
      cases hrun
      exact List.not_mem_nil
    | ok bytes =>
      have hpos : 0 < bytes.length := by
        cases bytes with
        | nil => cases hopen
        | cons b bytes => apply Nat.succ_pos
      rcases TcpConnection.handleRead_pos hpos hrun with ⟨inputBuffer, rfl⟩
      simp
  | write res =>
    rcases (TcpConnection.handleWrite_output hrun).2 with rfl | ⟨-, bytes, rest, hr, hrest⟩
    . exact List.not_mem_nil
    . rw [hr, List.mem_cons, not_or]
      refine ⟨nofun, ?_⟩
      intro hmem
      rcases hrest _ hmem with heq | ⟨heq, -⟩
      . cases heq
      . cases heq
  | close => cases hopen
  | error =>
    cases hrun
    exact List.not_mem_nil

theorem handle (h : s.Quiet) {c : ConnId} {handler : Handler} (hopen : handler.closes = false)
    (hhandle : s.handle i c handler = some s')
    : s'.Quiet := by
  unfold State.handle at hhandle
  rcases Option.bind_eq_some_iff.mp hhandle with ⟨tcp, -, hhandle⟩
  rcases Option.bind_eq_some_iff.mp hhandle with ⟨r, hrun, hhandle⟩
  rw [if_neg (closeCallback_notMem hopen hrun)] at hhandle
  cases hhandle
  exact h

theorem step (h : s.Quiet) {e : Event} (hopen : e.closes = false)
    (hstep : TcpServer.step s e = some s')
    : s'.Quiet := by
  cases Step.of_step hstep with
  | accept hidle => exact h.setTask rfl
  | task htask => exact h.taskStep htask
  | startFunctor hidle hwaiting => exact h.startFunctor hwaiting
  | loop hwaiting => exact h.keepLoop hwaiting
  | handleEvent hidle hregistered hconn hloop => exact h.setGuard _
  | handle hguard hidle => exact h
  | @handleClose i c handler tcp hguard hidle =>
    simp only [TcpServer.step, hguard, hidle] at hstep
    exact h.handle hopen hstep
  | handleEventReturn hidle => exact h.setGuard none
  | callQueue hwaiting => exact h.push hwaiting rfl
  | call hwaiting => exact h.keepLoop hwaiting
  | keep huser => exact h
  | drop => exact h

theorem destroyConnection (h : s.Quiet) {c : ConnId} (hdestroy : s.destroyConnection c = some s')
    : s'.Quiet := by
  unfold State.destroyConnection at hdestroy
  rcases Option.bind_eq_some_iff.mp hdestroy with ⟨conn, -, hdestroy⟩
  dsimp only at hdestroy
  have herase : State.Quiet { s with server := s.server.erase conn.name } := h
  split at hdestroy
  . cases hdestroy
    exact herase.setTask rfl
  . exact herase.queueInLoop rfl hdestroy

end State.Quiet

namespace Teardown

def Event.closes : Event → Bool
  | .inner e => e.closes
  | _ => false

/--
When the destructor is called no removal is under way, and no `handleClose` is executed from then
on.
-/
def NoClose (s : State) (e : Event) : Prop :=
  match e with
  | .destroy _ _ => s.inner.Quiet
  | _ => s.phase ≠ .running → e.closes = false

structure State.Quiet (s : State) : Prop where
  inner : s.inner.Quiet
  outer : (Item.task s.outer).isRemoval = false

namespace State.Quiet

variable {s s' : State}

theorem start (server : TcpServer) : (State.start server).Quiet :=
  ⟨.start server, rfl⟩

theorem runInner (h : s.Quiet) {e : TcpServer.Event} (hopen : e.closes = false)
    (hstep : s.runInner e = some s')
    : s'.Quiet := by
  unfold State.runInner at hstep
  split at hstep
  . rcases Option.bind_eq_some_iff.mp hstep with ⟨inner, hinner, heq⟩
    cases heq
    exact ⟨h.inner.step hopen hinner, h.outer⟩
  . cases hstep

theorem destroy {connections : List ConnId} {threads : List LoopId} (hquiet : s.inner.Quiet)
    (hstep : s.destroy connections threads = some s')
    : s'.Quiet := by
  unfold State.destroy at hstep
  split at hstep
  . cases hstep
    exact ⟨hquiet.setTask rfl, hquiet 0 (.task (s.inner.tasks 0)) rfl⟩
  . cases hstep

theorem loopCall (h : s.Quiet) {i : LoopId} {event : EventLoop.Event Functor} {phase : Phase}
    (hpush : event.pushes = none) (hstep : s.loopCall i event phase = some s')
    : s'.Quiet := by
  unfold State.loopCall at hstep
  rcases Option.bind_eq_some_iff.mp hstep with ⟨loop, hloop, heq⟩
  cases heq
  refine ⟨h.inner.setLoop ?_, h.outer⟩
  intro queued hmem
  rcases (EventLoop.Step.of_step hloop).mem_waiting hmem with hold | hnew
  . exact Or.inl hold
  . rw [hpush] at hnew
    cases hnew

theorem setPhase (h : s.Quiet) (phase : Phase) : State.Quiet { s with phase } :=
  ⟨h.inner, h.outer⟩

theorem destroyNext (h : s.Quiet) (hstep : s.destroyNext = some s') : s'.Quiet := by
  unfold State.destroyNext at hstep
  split at hstep
  . cases hstep
  . split at hstep
    . split at hstep
      . rcases Option.bind_eq_some_iff.mp hstep with ⟨inner, hinner, heq⟩
        cases heq
        exact ⟨h.inner.destroyConnection hinner, h.outer⟩
      . cases hstep
        exact h.setPhase _
    . cases hstep
  . split at hstep
    . cases hstep
      exact h.setPhase _
    . exact h.loopCall rfl hstep
  . exact h.loopCall rfl hstep
  . split at hstep
    . cases hstep
      exact h.setPhase _
    . cases hstep
  . cases hstep
    exact ⟨h.inner.setTask h.outer, h.outer⟩
  . cases hstep

theorem step (h : s.Quiet) {e : Event} (hopen : e.closes = false)
    (hstep : Teardown.step s e = some s')
    : s'.Quiet := by
  cases e with
  | inner e => exact h.runInner hopen hstep
  | destroy connections threads => exact destroy h.inner hstep
  | next => exact h.destroyNext hstep

theorem along (server : TcpServer) (h : s.Quiet) {es : List Event} (hopen : ∀ e ∈ es, e.closes = false)
    : (system server).Along NoClose s es := by
  induction es generalizing s with
  | nil => trivial
  | cons e es ih =>
    rw [List.forall_mem_cons] at hopen
    refine ⟨?_, fun s' hstep => ih (h.step hopen.1 hstep) hopen.2⟩
    cases e with
    | inner e => exact fun _ => hopen.1
    | destroy connections threads => exact h.inner
    | next => exact fun _ => hopen.1

end State.Quiet

theorem quiet_step {s s' : State} {e : Event} (h : s.phase ≠ .running → s.Quiet) (hok : NoClose s e)
    (hstep : step s e = some s') (hphase : s'.phase ≠ .running)
    : s'.Quiet := by
  cases e with
  | inner e =>
    have hsame : s'.phase = s.phase := by
      simp only [step, State.runInner] at hstep
      split at hstep
      . rcases Option.bind_eq_some_iff.mp hstep with ⟨inner, -, heq⟩
        cases heq
        rfl
      . cases hstep
    rw [hsame] at hphase
    exact (h hphase).step (hok hphase) hstep
  | destroy connections threads => exact .destroy hok hstep
  | next =>
    by_cases hrunning : s.phase = .running
    . simp only [step, State.destroyNext, hrunning] at hstep
      cases hstep
    . exact (h hrunning).destroyNext hstep

theorem no_removal_after_destructor (server : TcpServer) (es : List Event) (s : State)
    (hrun : (system server).run (.start server) es = some s)
    (hok : (system server).Along NoClose (.start server) es)
    : s.phase = .destroyed → ∀ i c, s.inner.tasks i ≠ .removing c := by
  have hquiet : s.phase ≠ .running → s.Quiet := by
    refine LTS.Along.invariant _ (I := fun s => s.phase ≠ .running → s.Quiet) ?_ hok ?_ hrun
    . intro s e s' h hok hnext
      exact quiet_step h hok hnext
    . intro h
      exact absurd rfl h
  intro hphase i c htask
  have hinner := (hquiet (by rw [hphase]; exact nofun)).inner
  cases hinner i (.task (.removing c)) htask

def established : List Event :=
  [.inner (.loop 0 false), .inner (.loop 0 false), .inner (.loop 0 false), .inner (.loop 0 false),
    .inner (.accept 7), .inner (.task 0), .inner (.task 0),
    .inner (.loop 1 false), .inner (.loop 1 false), .inner (.loop 1 false), .inner (.loop 1 true),
    .inner (.loop 1 false), .inner (.loop 1 false), .inner (.loop 1 false), .inner (.loop 1 false),
    .inner (.task 1), .inner (.loop 1 false), .inner (.loop 1 false), .inner (.loop 1 false),
    .inner (.loop 1 false)]

def destroying : List Event :=
  [.destroy [0] [1], .next, .inner (.task 0), .next, .next, .next]

def joined : List Event :=
  [.inner (.loop 1 false), .inner (.loop 1 false), .inner (.loop 1 false), .inner (.task 1),
    .inner (.loop 1 false), .inner (.loop 1 false), .inner (.loop 1 false), .inner (.loop 1 false),
    .next, .next]

def goesOn : List Event :=
  [.inner (.loop 0 false), .inner (.loop 0 false), .inner (.loop 0 false)]

theorem no_removal_after_destructor_joined
    : ∃ s, (system oneThread).run (.start oneThread) (established ++ destroying ++ joined ++ goesOn)
        = some s
      ∧ s.phase = .destroyed ∧ ∀ i c, s.inner.tasks i ≠ .removing c := by
  have hrun : ((system oneThread).run (.start oneThread)
      (established ++ destroying ++ joined ++ goesOn)).map (fun s => s.phase) = some .destroyed := by
    decide +kernel
  rcases Option.map_eq_some_iff.mp hrun with ⟨s, hrun, hphase⟩
  refine ⟨s, hrun, hphase, ?_⟩
  apply no_removal_after_destructor oneThread _ s hrun _ hphase
  apply State.Quiet.along oneThread (.start oneThread)
  decide

def closing : List Event :=
  [.inner (.handleEvent 1 0), .inner (.handle 1 .close), .inner (.task 1), .inner (.task 1),
    .inner (.handleEventReturn 1)]

theorem removal_after_destructor
    : ∃ s, (system oneThread).run (.start oneThread)
          (established ++ destroying ++ closing ++ joined ++ goesOn) = some s
      ∧ s.phase = .destroyed ∧ s.inner.tasks 0 = .removing 0
      ∧ ¬∀ (server : TcpServer) (es : List Event) (s : State),
        (system server).run (.start server) es = some s → s.phase = .destroyed →
          ∀ i c, s.inner.tasks i ≠ .removing c := by
  have hrun : ((system oneThread).run (.start oneThread)
      (established ++ destroying ++ closing ++ joined ++ goesOn)).map
        (fun s => (s.phase, s.inner.tasks 0)) = some (.destroyed, .removing 0) := by
    decide +kernel
  rcases Option.map_eq_some_iff.mp hrun with ⟨s, hrun, heq⟩
  rw [Prod.mk.injEq] at heq
  refine ⟨s, hrun, heq.1, heq.2, ?_⟩
  intro h
  exact h oneThread _ s hrun heq.1 0 0 heq.2

end Teardown

end TcpServer
