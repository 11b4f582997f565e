import Mmuduo.TcpServer.Ownership

/-!
This module contains the calls of `send` and `shutdown` from threads other than the loop of the connection.
They bind their functor to `this` and not to a reference, so the connection has to be kept by somebody
else until the functor has run. A queued `connectDestroyed` does so for the functors in front of it.
-/

namespace TcpServer

namespace RawThis

structure State where
  server : TcpServer.State
  -- for each waiting functor of a loop, the connection that it is bound to without a reference
  marks : LoopId → List (Option ConnId)
  -- the connection whose `this` the running functor of the loop uses
  running : LoopId → Option ConnId
  calls : List (Nat × ConnId)

inductive Event where
  | server (event : TcpServer.Event)
  | send (n : Nat) (c : ConnId)
  | shutdown (n : Nat) (c : ConnId)
  -- `runInLoop` of `send` or `shutdown`
  | runInLoop (n : Nat) (c : ConnId)

namespace State

def start (server : TcpServer) : State where
  server := .start server
  marks := fun _ => []
  running := fun _ => none
  calls := []

def follow (before after : Nat) (marks : List (Option ConnId)) : List (Option ConnId) :=
  if after < before then
    marks.tail
  else
    marks ++ List.replicate (after - before) none

def runningAfter (s : State) : TcpServer.Event → LoopId → Option ConnId
  | .loop i _ =>
    Function.update s.running i
      (if (s.server.loops i).pc.starting.isSome then (s.marks i).head?.join else none)
  | _ => s.running

def serve (s : State) (event : TcpServer.Event) : Option State := do
  let server ← TcpServer.step s.server event
  return {
    s with
    server
    marks := fun i =>
      follow (s.server.loops i).waiting.length (server.loops i).waiting.length (s.marks i)
    running := s.runningAfter event
  }

def mayCall (s : State) (c : ConnId) : Bool :=
  decide (c ∈ s.server.users) && (s.server.tcps c).any TcpConnection.connected

def beginCall (s : State) (n : Nat) (c : ConnId) : State :=
  { s with calls := (n, c) :: s.calls }

def setState (s : State) (c : ConnId) (state : StateE) : State :=
  { s with
    server := { s.server with
      tcps := Function.update s.server.tcps c
        ((s.server.tcps c).map fun tcp => { tcp with state }) } }

def runInLoop (s : State) (n : Nat) (c : ConnId) : Option State := do
  let conn ← s.server.conns c
  let server ← TcpServer.step s.server (.call conn.loop (.runInLoop (.other n) .other))
  return {
    s with
    server
    marks := Function.update s.marks conn.loop (s.marks conn.loop ++ [some c])
    calls := s.calls.erase (n, c)
  }

end State

def step (s : State) : Event → Option State
  | .server event => s.serve event
  | .send n c =>
    if s.mayCall c then
      some (s.beginCall n c)
    else
      none
  | .shutdown n c =>
    if s.mayCall c then
      some ((s.beginCall n c).setState c .kDisconnecting)
    else
      none
  | .runInLoop n c =>
    if (n, c) ∈ s.calls then
      s.runInLoop n c
    else
      none

def system (server : TcpServer) : LTS State Event where
  Init s := s = .start server
  next := step

/--
The functor is queued before the base loop has removed the connection from the table.
-/
def inTable (s : State) : Event → Bool
  | .runInLoop _ c => decide (.removed 0 c ∉ s.server.log)
  | _ => true

def inTableSystem (server : TcpServer) : LTS State Event :=
  (system server).restrict fun s e => inTable s e = true

section Step

variable {s s' : TcpServer.State}

structure Grows (s s' : TcpServer.State) : Prop where
  waiting : ∀ i, ∃ new, (s'.loops i).waiting = (s.loops i).waiting ++ new
  conns : ∀ c conn, s.conns c = some conn → s'.conns c = some conn
  destroyed : ∀ i c, .destroyed i c ∈ s'.log → .destroyed i c ∈ s.log

theorem Grows.of_eq (hloops : s'.loops = s.loops) (hconns : s'.conns = s.conns)
    (hlog : ∀ i c, .destroyed i c ∈ s'.log → .destroyed i c ∈ s.log)
    : Grows s s' := by
  constructor
  . intro i
    exact ⟨[], by rw [hloops, List.append_nil]⟩
  . intro c conn hconn
    rw [hconns]
    exact hconn
  . exact hlog

theorem Grows.record {e : Entry} (hloops : s'.loops = s.loops) (hconns : s'.conns = s.conns)
    (hlog : s'.log = s.log ++ [e]) (he : ∀ i c, e ≠ .destroyed i c)
    : Grows s s' := by
  apply of_eq hloops hconns
  intro i c hmem
  rw [hlog, List.mem_append, List.mem_singleton] at hmem
  rcases hmem with hmem | heq
  . exact hmem
  . exact absurd heq.symm (he i c)

theorem Grows.setLoop {i : LoopId} {loop : EventLoop.State Functor} {new : List (Queued Functor)}
    (hloops : s'.loops = Function.update s.loops i loop) (hconns : s'.conns = s.conns)
    (hlog : s'.log = s.log) (hwaiting : loop.waiting = (s.loops i).waiting ++ new)
    : Grows s s' := by
  constructor
  . intro j
    rw [hloops]
    by_cases hj : j = i
    . rw [hj, Function.update_self]
      exact ⟨new, hwaiting⟩
    . rw [Function.update_of_ne hj]
      exact ⟨[], by simp⟩
  . intro c conn hconn
    rw [hconns]
    exact hconn
  . intro j c hmem
    rw [hlog] at hmem
    exact hmem

theorem Grows.setLoop_same {i : LoopId} {loop : EventLoop.State Functor}
    (hloops : s'.loops = Function.update s.loops i loop) (hconns : s'.conns = s.conns)
    (hlog : s'.log = s.log) (hwaiting : loop.waiting = (s.loops i).waiting)
    : Grows s s' := by
  apply setLoop hloops hconns hlog
  rw [hwaiting, List.append_nil]

theorem Grows.queueInLoop {i loop : LoopId} {functor : Functor}
    (h : s.queueInLoop i loop functor = some s')
    : Grows s s' := by
  rcases queueInLoop_eq_some h with ⟨target, hwaiting, heq⟩
  rw [heq]
  exact .setLoop rfl rfl rfl hwaiting

theorem Grows.taskStep {i : LoopId} (h : TaskStep s i s') : Grows s s' := by
  cases h with
  | establish htask hconn hloop => exact .record rfl rfl rfl (by simp)
  | dispatch htask hconn hloop hqueue => exact .queueInLoop hqueue
  | callbackReturn htask => exact .of_eq rfl rfl (fun _ _ => id)
  | removeDirectly htask hi => exact .of_eq rfl rfl (fun _ _ => id)
  | removeInLoop htask hi hqueue => exact .queueInLoop hqueue
  | erase htask hconn => exact .record rfl rfl rfl (by simp)
  | destroy htask hconn hqueue => exact .queueInLoop hqueue
  | removeChannel htask => exact .of_eq rfl rfl (fun _ _ => id)
  | wakeUp htask hwaiting => exact .setLoop_same rfl rfl rfl hwaiting

structure Starts (s s' : TcpServer.State) (i : LoopId) (queued : Queued Functor) : Prop where
  waiting_self : (s.loops i).waiting = queued :: (s'.loops i).waiting
  waiting_ne : ∀ j, j ≠ i → (s'.loops j).waiting = (s.loops j).waiting
  conns : s'.conns = s.conns
  destroyed : ∀ j c, .destroyed j c ∈ s'.log →
    .destroyed j c ∈ s.log ∨ j = i ∧ queued.functor = .connectDestroyed c

theorem Starts.startFunctor {i : LoopId} {queued : Queued Functor} {loop : EventLoop.State Functor}
    (hwaiting : (s.loops i).waiting = queued :: loop.waiting)
    : Starts s ((s.setLoop i loop).startFunctor i queued.functor) i queued := by
  have hloops : ((s.setLoop i loop).startFunctor i queued.functor).loops
      = Function.update s.loops i loop := by
    cases queued.functor with
    | _ => rfl
  constructor
  . rw [hloops, Function.update_self]
    exact hwaiting
  . intro j hj
    rw [hloops, Function.update_of_ne hj]
  . cases queued.functor with
    | _ => rfl
  . intro j c hmem
    cases hfunctor : queued.functor with
    | connectDestroyed d =>
      rw [hfunctor] at hmem
      simpa [State.startFunctor, State.connectDestroyed, State.setLoop, eq_comm] using hmem
    | connectEstablished d =>
      rw [hfunctor] at hmem
      left
      simpa [State.startFunctor, State.connectEstablished, State.setLoop] using hmem
    | removeConnectionInLoop d =>
      rw [hfunctor] at hmem
      exact Or.inl hmem
    | other =>
      rw [hfunctor] at hmem
      exact Or.inl hmem

theorem grows_or_starts {i : LoopId} {active : Bool}
    (h : TcpServer.step s (.loop i active) = some s')
    : (s.loops i).pc.starting = none ∧ Grows s s'
      ∨ ∃ queued, (s.loops i).pc.starting = some queued ∧ Starts s s' i queued := by
  simp only [TcpServer.step] at h
  split at h
  . unfold State.loopNext at h
    rcases Option.bind_eq_some_iff.mp h with ⟨loop, hloop, h⟩
    have hwaiting := EventLoop.waiting_of_loop hloop
    split at h
    . next queued hstart =>
      rw [hstart] at hwaiting
      cases h
      exact Or.inr ⟨queued, hstart, .startFunctor hwaiting⟩
    . next hstart =>
      rw [hstart] at hwaiting
      cases h
      exact Or.inl ⟨hstart, .setLoop_same rfl rfl rfl hwaiting.symm⟩
  . cases h

theorem eq_setLoop_of_runInLoop {i : LoopId} {n : Nat}
    (h : TcpServer.step s (.call i (.runInLoop (.other n) .other)) = some s')
    : ∃ loop, loop.waiting = (s.loops i).waiting ++ [⟨.other n, .other⟩] ∧ s' = s.setLoop i loop := by
  simp only [TcpServer.step] at h
  split at h
  . rcases Option.bind_eq_some_iff.mp h with ⟨loop, hloop, heq⟩
    cases heq
    exact ⟨loop, EventLoop.waiting_of_runInLoop hloop, rfl⟩
  . cases h

theorem grows_of_step {e : TcpServer.Event} (hfresh : s.conns s.accepted = none)
    (h : TcpServer.step s e = some s') (he : ∀ i active, e ≠ .loop i active)
    : Grows s s' := by
  cases Step.of_step h with
  | @accept _ tcp hidle =>
    constructor
    . intro i
      exact ⟨[], (List.append_nil _).symm⟩
    . intro c conn hconn
      exact conns_addConnection hfresh tcp hconn
    . exact fun _ _ => id
  | task htask => exact .taskStep htask
  | startFunctor hidle hwaiting => exact absurd rfl (he _ _)
  | loop hwaiting => exact absurd rfl (he _ _)
  | handleEvent => exact .record rfl rfl rfl (by simp)
  | handle hguard hidle => exact .of_eq rfl rfl (fun _ _ => id)
  | handleClose hguard hidle => exact .record rfl rfl rfl (by simp)
  | handleEventReturn hidle => exact .of_eq rfl rfl (fun _ _ => id)
  | callQueue hwaiting => exact .setLoop rfl rfl rfl hwaiting
  | call hwaiting => exact .setLoop_same rfl rfl rfl hwaiting
  | keep huser => exact .of_eq rfl rfl (fun _ _ => id)
  | drop => exact .of_eq rfl rfl (fun _ _ => id)

end Step

section Inv

variable {s s' : State}

def State.waiting (s : State) (i : LoopId) : List (Queued Functor × Option ConnId) :=
  (s.server.loops i).waiting.zip (s.marks i)

def State.UsesRaw (s : State) (i : LoopId) (c : ConnId) : Prop :=
  some c ∈ s.marks i ∨ s.running i = some c

def Alive (server : TcpServer.State) (i : LoopId) (c : ConnId) : Prop :=
  ∃ conn, server.conns c = some conn ∧ conn.loop = i ∧ .destroyed i c ∉ server.log

def MayFollow (p q : Queued Functor × Option ConnId) : Prop :=
  ∀ c, p.1.functor = .connectDestroyed c → q.2 ≠ some c

structure Inv (s : State) : Prop where
  server : TcpServer.Inv s.server
  length_eq : ∀ i, (s.marks i).length = (s.server.loops i).waiting.length
  other : ∀ i, ∀ p ∈ s.waiting i, ∀ c, p.2 = some c → p.1.functor = .other
  behind : ∀ i, (s.waiting i).Pairwise MayFollow
  alive : ∀ i c, s.UsesRaw i c → Alive s.server i c

theorem Alive.grows {server server' : TcpServer.State} {i : LoopId} {c : ConnId}
    (h : Alive server i c) (hgrows : Grows server server')
    : Alive server' i c := by
  rcases h with ⟨conn, hconn, hloop, hnot⟩
  exact ⟨conn, hgrows.conns c conn hconn, hloop, fun hmem => hnot (hgrows.destroyed i c hmem)⟩

theorem Inv.start (server : TcpServer) (hid : server.nextConnId = 1)
    (hconnections : server.connections = fun _ => none)
    : Inv (.start server) := by
  constructor
  . exact TcpServer.Inv.start server hid hconnections
  . intro i
    rfl
  . intro i p hp
    cases hp
  . intro i
    exact List.Pairwise.nil
  . rintro i c (hmem | hrunning)
    . cases hmem
    . cases hrunning

theorem follow_append {before after : Nat} {marks : List (Option ConnId)} (h : before ≤ after)
    : State.follow before after marks = marks ++ List.replicate (after - before) none := by
  unfold State.follow
  rw [if_neg (Nat.not_lt.mpr h)]

theorem some_mem_append_none {c : ConnId} {n : Nat} {marks : List (Option ConnId)}
    : some c ∈ marks ++ List.replicate n none ↔ some c ∈ marks := by
  simp [List.mem_replicate]

section Zip

variable {waiting new : List (Queued Functor)} {marks : List (Option ConnId)}

theorem zip_append_none (h : marks.length = waiting.length)
    : (waiting ++ new).zip (marks ++ List.replicate new.length none)
      =
      waiting.zip marks ++ new.map (·, none) := by
  rw [List.zip_append h.symm]
  congr 1
  induction new with
  | nil => rfl
  | cons queued new ih => rw [List.length_cons, List.replicate_succ, List.zip_cons_cons, ih]; rfl

theorem pairwise_append_none {l : List (Queued Functor × Option ConnId)}
    (h : l.Pairwise MayFollow)
    : (l ++ new.map (·, none)).Pairwise MayFollow := by
  rw [List.pairwise_append]
  refine ⟨h, ?_, ?_⟩
  . rw [List.pairwise_map]
    apply List.pairwise_of_forall
    simp [MayFollow]
  . intro p _ q hq c _
    rcases List.mem_map.mp hq with ⟨queued, -, rfl⟩
    simp

end Zip

theorem exists_of_mem_marks {i : LoopId} {c : ConnId}
    (hlength : (s.marks i).length = (s.server.loops i).waiting.length) (hmem : some c ∈ s.marks i)
    : ∃ p ∈ s.waiting i, p.2 = some c := by
  have hmap : (s.waiting i).map Prod.snd = s.marks i := List.map_snd_zip hlength.le
  rw [← hmap] at hmem
  exact List.mem_map.mp hmem

theorem Inv.grows (h : Inv s) (hserver : TcpServer.Inv s'.server)
    (hgrows : Grows s.server s'.server)
    (hmarks : ∀ i, s'.marks i
      =
      State.follow (s.server.loops i).waiting.length (s'.server.loops i).waiting.length (s.marks i))
    (hrunning : ∀ i c, s'.running i = some c → s.running i = some c)
    : Inv s' := by
  have hqueue : ∀ i, ∃ new : List (Queued Functor),
      (s'.server.loops i).waiting = (s.server.loops i).waiting ++ new
        ∧ s'.marks i = s.marks i ++ List.replicate new.length none := by
    intro i
    rcases hgrows.waiting i with ⟨new, hnew⟩
    refine ⟨new, hnew, ?_⟩
    rw [hmarks, hnew, List.length_append, follow_append (Nat.le_add_right _ _),
      Nat.add_sub_cancel_left]
  have hwaiting : ∀ i, ∃ new : List (Queued Functor),
      s'.waiting i = s.waiting i ++ new.map (·, none) := by
    intro i
    rcases hqueue i with ⟨new, hnew, hmarks⟩
    refine ⟨new, ?_⟩
    simp only [State.waiting]
    rw [hnew, hmarks, zip_append_none (h.length_eq i)]
  constructor
  . exact hserver
  . intro i
    rcases hqueue i with ⟨new, hnew, hmarks⟩
    rw [hnew, hmarks, List.length_append, List.length_append, List.length_replicate, h.length_eq]
  . intro i p hp c hc
    rcases hwaiting i with ⟨new, hwaiting⟩
    rw [hwaiting, List.mem_append] at hp
    rcases hp with hp | hp
    . exact h.other i p hp c hc
    . rcases List.mem_map.mp hp with ⟨queued, -, rfl⟩
      cases hc
  . intro i
    rcases hwaiting i with ⟨new, hwaiting⟩
    rw [hwaiting]
    apply pairwise_append_none (h.behind i)
  . intro i c huses
    have hold : s.UsesRaw i c := by
      rcases huses with hmem | hrun
      . left
        rcases hqueue i with ⟨new, -, hmarks⟩
        rw [hmarks, some_mem_append_none] at hmem
        exact hmem
      . exact Or.inr (hrunning i c hrun)
    exact (h.alive i c hold).grows hgrows

theorem Inv.starts {i : LoopId} {queued : Queued Functor} (h : Inv s)
    (hserver : TcpServer.Inv s'.server) (hstarts : Starts s.server s'.server i queued)
    (hself : s'.marks i = (s.marks i).tail) (hne : ∀ j, j ≠ i → s'.marks j = s.marks j)
    (hrunning : s'.running = Function.update s.running i (s.marks i).head?.join)
    : Inv s' := by
  rcases List.exists_cons_of_length_pos (l := s.marks i) (by
    rw [h.length_eq, hstarts.waiting_self]
    simp) with ⟨mark, marks, hmark⟩
  have hself_waiting : s.waiting i = (queued, mark) :: s'.waiting i := by
    simp only [State.waiting]
    rw [hstarts.waiting_self, hself, hmark]
    rfl
  have hne_waiting : ∀ j, j ≠ i → s'.waiting j = s.waiting j := by
    intro j hj
    simp only [State.waiting]
    rw [hstarts.waiting_ne j hj, hne j hj]
  have hsub : ∀ j, ∀ p ∈ s'.waiting j, p ∈ s.waiting j := by
    intro j p hp
    by_cases hj : j = i
    . rw [hj] at hp ⊢
      rw [hself_waiting]
      exact List.mem_cons_of_mem _ hp
    . rw [hne_waiting j hj] at hp
      exact hp
  have huses : ∀ j c, s'.UsesRaw j c → s.UsesRaw j c := by
    rintro j c (hmem | hrun)
    . left
      by_cases hj : j = i
      . rw [hj, hself] at hmem
        rw [hj]
        exact List.mem_of_mem_tail hmem
      . rw [hne j hj] at hmem
        exact hmem
    . rw [hrunning] at hrun
      by_cases hj : j = i
      . rw [hj, Function.update_self, hmark] at hrun
        left
        rw [hj, hmark]
        simpa using Or.inl hrun.symm
      . rw [Function.update_of_ne hj] at hrun
        exact Or.inr hrun
  have hlength : ∀ j, (s'.marks j).length = (s'.server.loops j).waiting.length := by
    intro j
    by_cases hj : j = i
    . have hold := h.length_eq i
      rw [hstarts.waiting_self, hmark, List.length_cons, List.length_cons] at hold
      rw [hj, hself, hmark, List.tail_cons]
      omega
    . rw [hne j hj, hstarts.waiting_ne j hj]
      apply h.length_eq
  have hbehind : ∀ q ∈ s'.waiting i, MayFollow (queued, mark) q := by
    have hpairwise := h.behind i
    rw [hself_waiting, List.pairwise_cons] at hpairwise
    exact hpairwise.1
  constructor
  . exact hserver
  . exact hlength
  . intro j p hp
    exact h.other j p (hsub j p hp)
  . intro j
    by_cases hj : j = i
    . have hpairwise := h.behind i
      rw [hself_waiting, List.pairwise_cons] at hpairwise
      rw [hj]
      exact hpairwise.2
    . rw [hne_waiting j hj]
      apply h.behind
  . intro j c hraw
    rcases h.alive j c (huses j c hraw) with ⟨conn, hconn, hloop, hnot⟩
    refine ⟨conn, by rw [hstarts.conns]; exact hconn, hloop, ?_⟩
    intro hmem
    rcases hstarts.destroyed j c hmem with hold | ⟨hj, hfunctor⟩
    . exact hnot hold
    . rw [hj] at hraw
      rcases hraw with hmem | hrun
      . rcases exists_of_mem_marks (hlength i) hmem with ⟨q, hq, hqc⟩
        exact hbehind q hq c hfunctor hqc
      . rw [hrunning, Function.update_self, hmark] at hrun
        have hhead : (queued, mark) ∈ s.waiting i := by
          rw [hself_waiting]
          apply List.mem_cons_self
        have hother := h.other i _ hhead c hrun
        rw [hfunctor] at hother
        cases hother

theorem Inv.serve {e : TcpServer.Event} (h : Inv s) (hserve : s.serve e = some s')
    (hfew : s'.server.accepted < 2 ^ 31)
    : Inv s' := by
  rcases Option.bind_eq_some_iff.mp hserve with ⟨server, hserver, heq⟩
  cases heq
  have hinv : TcpServer.Inv server := h.server.step hfew (.of_step hserver)
  have hfresh : s.server.conns s.server.accepted = none := by
    rw [h.server.table.fresh]
  by_cases hloop : ∃ i active, e = .loop i active
  . rcases hloop with ⟨i, active, rfl⟩
    rcases grows_or_starts hserver with ⟨hnone, hgrows⟩ | ⟨queued, hsome, hstarts⟩
    . apply h.grows hinv hgrows
      . intro j
        rfl
      . intro j c hrun
        simp only [State.runningAfter, hnone, Option.isSome_none, Bool.false_eq_true,
          if_false] at hrun
        by_cases hj : j = i
        . rw [hj, Function.update_self] at hrun
          cases hrun
        . rw [Function.update_of_ne hj] at hrun
          exact hrun
    . apply h.starts hinv hstarts
      . simp only [State.follow]
        rw [hstarts.waiting_self, List.length_cons, if_pos (Nat.lt_succ_self _)]
      . intro j hj
        simp only [State.follow]
        rw [hstarts.waiting_ne j hj]
        simp
      . simp only [State.runningAfter, hsome, Option.isSome_some, if_true]
  . have hgrows : Grows s.server server := by
      apply grows_of_step hfresh hserver
      intro i active heq
      exact hloop ⟨i, active, heq⟩
    apply h.grows hinv hgrows
    . intro j
      rfl
    . intro j c hrun
      cases e with
      | loop i active => exact absurd ⟨i, active, rfl⟩ hloop
      | _ => exact hrun

theorem not_destroyed_of_inTable {c : ConnId} (h : TcpServer.Inv s.server)
    (htable : .removed 0 c ∉ s.server.log) (i : LoopId)
    : .destroyed i c ∉ s.server.log := by
  intro hmem
  rcases h.flow.order.of_mem hmem with ⟨pre, hsub, -, hremoved⟩
  exact htable (hsub hremoved)

theorem Inv.push {i : LoopId} {c : ConnId} {queued : Queued Functor} (h : Inv s)
    (hserver : TcpServer.Inv s'.server) (hgrows : Grows s.server s'.server)
    (hself : (s'.server.loops i).waiting = (s.server.loops i).waiting ++ [queued])
    (hne : ∀ j, j ≠ i → (s'.server.loops j).waiting = (s.server.loops j).waiting)
    (hmarks : s'.marks = Function.update s.marks i (s.marks i ++ [some c]))
    (hrunning : s'.running = s.running) (hother : queued.functor = .other)
    (hfollow : ∀ p ∈ s.waiting i, p.1.functor ≠ .connectDestroyed c)
    (halive : Alive s'.server i c)
    : Inv s' := by
  have hself_waiting : s'.waiting i = s.waiting i ++ [(queued, some c)] := by
    simp only [State.waiting]
    rw [hself, hmarks, Function.update_self, List.zip_append (h.length_eq i).symm]
    rfl
  have hne_waiting : ∀ j, j ≠ i → s'.waiting j = s.waiting j := by
    intro j hj
    simp only [State.waiting]
    rw [hne j hj, hmarks, Function.update_of_ne hj]
  constructor
  . exact hserver
  . intro j
    by_cases hj : j = i
    . rw [hj, hself, hmarks, Function.update_self, List.length_append, List.length_append,
        h.length_eq]
      rfl
    . rw [hne j hj, hmarks, Function.update_of_ne hj]
      apply h.length_eq
  . intro j p hp d hd
    by_cases hj : j = i
    . rw [hj, hself_waiting, List.mem_append, List.mem_singleton] at hp
      rcases hp with hp | heq
      . exact h.other i p hp d hd
      . rw [heq]
        exact hother
    . rw [hne_waiting j hj] at hp
      exact h.other j p hp d hd
  . intro j
    by_cases hj : j = i
    . rw [hj, hself_waiting, List.pairwise_append]
      refine ⟨h.behind i, List.pairwise_singleton _ _, ?_⟩
      intro p hp q hq d hd hqd
      rw [List.mem_singleton] at hq
      rw [hq] at hqd
      cases hqd
      exact hfollow p hp hd
    . rw [hne_waiting j hj]
      apply h.behind
  . intro j d huses
    have hold : s.UsesRaw j d ∨ j = i ∧ d = c := by
      rcases huses with hmem | hrun
      . rw [hmarks] at hmem
        by_cases hj : j = i
        . rw [hj, Function.update_self, List.mem_append, List.mem_singleton] at hmem
          rcases hmem with hmem | heq
          . left; left
            rw [hj]
            exact hmem
          . exact Or.inr ⟨hj, Option.some.inj heq⟩
        . rw [Function.update_of_ne hj] at hmem
          exact Or.inl (Or.inl hmem)
      . rw [hrunning] at hrun
        exact Or.inl (Or.inr hrun)
    rcases hold with hold | ⟨rfl, rfl⟩
    . exact (h.alive j d hold).grows hgrows
    . exact halive

theorem Inv.runInLoop {n : Nat} {c : ConnId} (h : Inv s) (htable : .removed 0 c ∉ s.server.log)
    (hrun : s.runInLoop n c = some s') (hfew : s'.server.accepted < 2 ^ 31)
    : Inv s' := by
  rcases Option.bind_eq_some_iff.mp hrun with ⟨conn, hconn, hrun⟩
  rcases Option.bind_eq_some_iff.mp hrun with ⟨server, hserver, heq⟩
  cases heq
  have hinv : TcpServer.Inv server := h.server.step hfew (.of_step hserver)
  rcases eq_setLoop_of_runInLoop hserver with ⟨loop, hwaiting, rfl⟩
  have hgrows : Grows s.server (s.server.setLoop conn.loop loop) :=
    .setLoop rfl rfl rfl hwaiting
  have hself : ((s.server.setLoop conn.loop loop).loops conn.loop).waiting
      = (s.server.loops conn.loop).waiting ++ [⟨.other n, .other⟩] := by
    simp only [TcpServer.State.setLoop]
    rw [Function.update_self]
    exact hwaiting
  refine h.push hinv hgrows hself ?_ rfl rfl rfl ?_ ?_
  . intro j hj
    simp only [TcpServer.State.setLoop]
    rw [Function.update_of_ne hj]
  . intro p hp hfunctor
    -- The functor that destroys the connection is queued after its removal.
    have hitem : s.server.HasItem conn.loop (.functor (.connectDestroyed c)) :=
      ⟨p.1, (List.of_mem_zip hp).1, hfunctor⟩
    exact htable (h.server.flow.items _ _ hitem).2
  . have hnot := not_destroyed_of_inTable h.server htable conn.loop
    exact Alive.grows ⟨conn, hconn, rfl, hnot⟩ hgrows

theorem Inv.setState {c : ConnId} {state : StateE} (h : Inv s) : Inv (s.setState c state) := by
  constructor
  . exact h.server.congr rfl rfl rfl rfl rfl rfl rfl rfl
  . exact h.length_eq
  . exact h.other
  . exact h.behind
  . exact h.alive

theorem Inv.step {e : Event} (h : Inv s) (hok : inTable s e = true) (hstep : step s e = some s')
    (hfew : s'.server.accepted < 2 ^ 31)
    : Inv s' := by
  cases e with
  | server event => exact h.serve hstep hfew
  | send n c =>
    simp only [RawThis.step] at hstep
    split at hstep
    . cases hstep
      exact ⟨h.server, h.length_eq, h.other, h.behind, h.alive⟩
    . cases hstep
  | shutdown n c =>
    simp only [RawThis.step] at hstep
    split at hstep
    . cases hstep
      apply Inv.setState
      exact ⟨h.server, h.length_eq, h.other, h.behind, h.alive⟩
    . cases hstep
  | runInLoop n c =>
    simp only [RawThis.step] at hstep
    split at hstep
    . exact h.runInLoop (of_decide_eq_true hok) hstep hfew
    . cases hstep

theorem accepted_le {e : Event} (hstep : step s e = some s')
    : s.server.accepted ≤ s'.server.accepted := by
  cases e with
  | server event =>
    rcases Option.bind_eq_some_iff.mp hstep with ⟨server, hserver, heq⟩
    cases heq
    exact (Step.of_step hserver).accepted_le
  | send n c =>
    simp only [RawThis.step] at hstep
    split at hstep
    . cases hstep
      exact Nat.le_refl _
    . cases hstep
  | shutdown n c =>
    simp only [RawThis.step] at hstep
    split at hstep
    . cases hstep
      exact Nat.le_refl _
    . cases hstep
  | runInLoop n c =>
    simp only [RawThis.step] at hstep
    split at hstep
    . rcases Option.bind_eq_some_iff.mp hstep with ⟨conn, -, hrun⟩
      rcases Option.bind_eq_some_iff.mp hrun with ⟨server, hserver, heq⟩
      cases heq
      exact (Step.of_step hserver).accepted_le
    . cases hstep

end Inv

section Run

variable {name : String} {listenAddr : InetAddress} {hasCb : Bool} {numThread : Nat} {s : State}

theorem Inv.of_reachable (hs : (inTableSystem (.new name listenAddr hasCb numThread)).Reachable s)
    (hfew : s.server.accepted < 2 ^ 31)
    : Inv s := by
  revert hfew
  apply hs.invariant
  . intro s hinit hfew
    rw [hinit]
    apply Inv.start _ rfl rfl
  . intro s e s' ih hstep hfew
    rcases (LTS.restrict_next_eq_some _).mp hstep with ⟨hok, hstep⟩
    exact (ih (Nat.lt_of_le_of_lt (accepted_le hstep) hfew)).step hok hstep hfew

theorem raw_referenced (hs : (inTableSystem (.new name listenAddr hasCb numThread)).Reachable s)
    (hfew : s.server.accepted < 2 ^ 31) {i : LoopId} {c : ConnId} (huses : s.UsesRaw i c)
    : s.server.Referenced c := by
  have h := Inv.of_reachable hs hfew
  rcases h.alive i c huses with ⟨conn, hconn, hloop, hnot⟩
  by_contra hfree
  have hdestroyed := Flow.destroyed_of_not_referenced h.server hconn hfree
  rw [hloop] at hdestroyed
  exact hnot hdestroyed

end Run

def established : List Event :=
  (wholeLife.take 15).map .server

def sentInTable : List Event :=
  established
    ++ [.server (.keep 1), .send 5 0, .server (.task 1), .runInLoop 5 0]
    ++ List.replicate 7 (.server (.loop 1 false))

theorem raw_referenced_sentInTable
    : ∃ s, (inTableSystem oneThread).run (.start oneThread) sentInTable = some s
      ∧ s.UsesRaw 1 0 ∧ s.server.Referenced 0 := by
  have hrun : ((inTableSystem oneThread).run (.start oneThread) sentInTable).map
      (fun s => (s.server.accepted, s.running 1))
      = some (1, some 0) := by
    decide +kernel
  rcases Option.map_eq_some_iff.mp hrun with ⟨s, hrun, heq⟩
  rw [Prod.mk.injEq] at heq
  have huses : s.UsesRaw 1 0 := Or.inr heq.2
  refine ⟨s, hrun, huses, ?_⟩
  apply raw_referenced (LTS.Reachable.of_run _ (.init rfl) hrun) _ huses
  rw [heq.1]
  decide

def sentLate : List Event :=
  established
    ++ [.server (.keep 1), .send 5 0]
    ++ ((wholeLife.drop 15).take 16).map .server
    ++ [.runInLoop 5 0]
    ++ (wholeLife.drop 31).map .server
    ++ [.server (.drop 0), .server (.loop 1 false), .server (.loop 1 false)]

theorem usesRaw_destroyed
    : ∃ s, (system oneThread).Reachable s ∧ s.running 1 = some 0
      ∧ .destroyed 1 0 ∈ s.server.log ∧ s.server.users = [] := by
  have hrun : ((system oneThread).run (.start oneThread) sentLate).map
      (fun s => (s.running 1, decide (.destroyed 1 0 ∈ s.server.log), s.server.users))
      = some (some 0, true, []) := by
    decide +kernel
  rcases Option.map_eq_some_iff.mp hrun with ⟨s, hrun, heq⟩
  rw [Prod.mk.injEq, Prod.mk.injEq, decide_eq_true_eq] at heq
  exact ⟨s, LTS.Reachable.of_run _ (.init rfl) hrun, heq⟩

end RawThis

end TcpServer
