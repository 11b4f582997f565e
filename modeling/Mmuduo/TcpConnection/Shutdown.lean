import Mmuduo.TcpConnection.Lifecycle

namespace TcpConnection

def Action.isWrite : Action → Bool
  | .write _ => true
  | _ => false

namespace Threads

/--
No `send` that has passed its test is still to be executed.
-/
def State.quiet (s : State) : Bool :=
  s.senders.isEmpty && s.loop.waiting.all fun queued => decide (queued.functor ≠ .sendInLoop)

def State.shutsDown (s : State) : Event → Bool
  | .shutdownRun .owner => !s.conn.channel.isWriting
  | .loop .. =>
    s.loop.pc.starting.any fun queued =>
      decide (queued.functor = .shutdownInLoop) && !s.conn.channel.isWriting
  | .handleWrite _ =>
    s.conn.channel.isWriting && decide (s.conn.state = .kDisconnecting)
      && s.conn.outputBuffer.getReadableLen == 0
  | _ => false

def shutsDownQuietly (s : State) (e : Event) : Bool :=
  !s.shutsDown e || s.quiet

def NotAfter (actions : List Action) : Prop :=
  actions.Pairwise fun a b => a = .shutdownWrite → b.isWrite = false

structure Shut (s : State) : Prop where
  stored : ∀ caller, s.calls caller = .stored → 2 ≤ s.conn.state.rank
  queued : ∀ queued ∈ s.loop.waiting, queued.functor = .shutdownInLoop → 2 ≤ s.conn.state.rank
  down : .shutdownWrite ∈ s.log → 2 ≤ s.conn.state.rank
  writing : .shutdownWrite ∈ s.log → s.conn.channel.isWriting = false
  quiet : .shutdownWrite ∈ s.log → s.quiet = true
  ordered : NotAfter s.log

theorem notAfter_of_notMem {actions : List Action} (h : .shutdownWrite ∉ actions)
    : NotAfter actions := by
  apply List.pairwise_of_forall_mem_list
  intro a ha b hb heq
  rw [heq] at ha
  contradiction

theorem notMem_of_isOutput {actions : List Action} (h : ∀ a ∈ actions, a.isOutput = true)
    : .shutdownWrite ∉ actions := by
  intro hmem
  have := h _ hmem
  contradiction

namespace Shut

variable {s s' : State}

theorem start (conn : TcpConnection) : Shut (.start conn) := by
  constructor
  . simp [State.start]
  . simp [State.start]
  . simp [State.start]
  . simp [State.start]
  . simp [State.start]
  . apply List.Pairwise.nil

theorem notMem_of_rank (h : Shut s) (hrank : s.conn.state.rank < 2) : .shutdownWrite ∉ s.log := by
  intro hmem
  have := h.down hmem
  omega

theorem notMem_of_sender {caller : Caller} (h : Shut s) (hsender : caller ∈ s.senders)
    : .shutdownWrite ∉ s.log := by
  intro hmem
  have hquiet := h.quiet hmem
  unfold State.quiet at hquiet
  rw [Bool.and_eq_true, List.isEmpty_iff] at hquiet
  rw [hquiet.1] at hsender
  contradiction

theorem notMem_of_waiting {queued : Queued Functor} (h : Shut s) (hqueued : queued ∈ s.loop.waiting)
    (hfunctor : queued.functor = .sendInLoop)
    : .shutdownWrite ∉ s.log := by
  intro hmem
  have hquiet := h.quiet hmem
  unfold State.quiet at hquiet
  rw [Bool.and_eq_true, List.all_eq_true] at hquiet
  apply of_decide_eq_true (hquiet.2 queued hqueued) hfunctor

theorem setCall {call : Call} (h : Shut s) (caller : Caller)
    (hcall : call = .stored → 2 ≤ s.conn.state.rank)
    : Shut (s.setCall caller call) := by
  refine ⟨?_, h.queued, h.down, h.writing, h.quiet, h.ordered⟩
  intro other hother
  simp only [State.setCall, Function.update_apply] at hother
  split at hother
  . apply hcall hother
  . apply h.stored other hother

theorem idle (h : Shut s) (caller : Caller) : Shut (s.setCall caller .idle) := by
  apply h.setCall
  intro hcall
  contradiction

theorem setDestroyed (h : Shut s) (destroyed : Option (List Action)) : Shut { s with destroyed } := by
  exact ⟨h.stored, h.queued, h.down, h.writing, h.quiet, h.ordered⟩

theorem beginSend (h : Shut s) (caller : Caller) (hstate : s.conn.state = .kConnected)
    : Shut (s.beginSend caller) := by
  refine ⟨h.stored, h.queued, h.down, h.writing, ?_, h.ordered⟩
  intro hmem
  have hnot : .shutdownWrite ∉ s.log := by
    apply h.notMem_of_rank
    rw [hstate]
    decide
  contradiction

theorem endSend (h : Shut s) (caller : Caller) : Shut (s.endSend caller) := by
  refine ⟨h.stored, h.queued, h.down, h.writing, ?_, h.ordered⟩
  intro hmem
  have hquiet := h.quiet hmem
  unfold State.quiet at hquiet ⊢
  rw [Bool.and_eq_true, List.isEmpty_iff] at hquiet
  simp only [State.endSend]
  rw [hquiet.1]
  apply hquiet.2

theorem setLoop {loop : EventLoop.State Functor} (h : Shut s)
    (hwaiting : ∀ queued ∈ loop.waiting, queued ∈ s.loop.waiting ∨ queued.functor = .other)
    : Shut { s with loop } := by
  refine ⟨h.stored, ?_, h.down, h.writing, ?_, h.ordered⟩
  . intro queued hmem hfunctor
    rcases hwaiting queued hmem with hold | hother
    . apply h.queued queued hold hfunctor
    . rw [hother] at hfunctor
      contradiction
  . intro hmem
    have hquiet := h.quiet hmem
    unfold State.quiet at hquiet ⊢
    rw [Bool.and_eq_true, List.all_eq_true] at hquiet ⊢
    refine ⟨hquiet.1, ?_⟩
    intro queued hqueued
    rcases hwaiting queued hqueued with hold | hother
    . apply hquiet.2 queued hold
    . rw [hother]
      decide

theorem pushSend {loop : EventLoop.State Functor} {caller : Caller} (h : Shut s)
    (hsender : caller ∈ s.senders)
    (hwaiting : loop.waiting = s.loop.waiting ++ [⟨caller, .sendInLoop⟩])
    : Shut { s with loop } := by
  have hnot := h.notMem_of_sender hsender
  refine ⟨h.stored, ?_, h.down, h.writing, ?_, h.ordered⟩
  . intro queued hmem hfunctor
    dsimp only at hmem
    rw [hwaiting, List.mem_append, List.mem_singleton] at hmem
    rcases hmem with hold | rfl
    . apply h.queued queued hold hfunctor
    . contradiction
  . intro hmem
    contradiction

theorem pushShutdown {loop : EventLoop.State Functor} {caller : Caller} (h : Shut s)
    (hcall : s.calls caller = .stored)
    (hwaiting : loop.waiting = s.loop.waiting ++ [⟨caller, .shutdownInLoop⟩])
    : Shut { s with loop } := by
  refine ⟨h.stored, fun _ _ _ => h.stored caller hcall, h.down, h.writing, ?_, h.ordered⟩
  intro hmem
  have hquiet := h.quiet hmem
  unfold State.quiet at hquiet ⊢
  dsimp only
  rw [hwaiting, List.all_append, ← Bool.and_assoc, hquiet]
  rfl

theorem act {r : TcpConnection × List Action} (h : Shut s)
    (hrank : 2 ≤ s.conn.state.rank → 2 ≤ r.1.state.rank)
    (hold : .shutdownWrite ∈ s.log → r.1.channel.isWriting = false ∧ ∀ a ∈ r.2, a.isWrite = false)
    (hnew : .shutdownWrite ∈ r.2 →
      2 ≤ r.1.state.rank ∧ r.1.channel.isWriting = false ∧ s.quiet = true)
    (hordered : NotAfter r.2)
    : Shut (s.act r) := by
  constructor
  . intro caller hcaller
    apply hrank (h.stored caller hcaller)
  . intro queued hmem hfunctor
    apply hrank (h.queued queued hmem hfunctor)
  . intro hmem
    rcases List.mem_append.mp hmem with hmem | hmem
    . apply hrank (h.down hmem)
    . apply (hnew hmem).1
  . intro hmem
    rcases List.mem_append.mp hmem with hmem | hmem
    . apply (hold hmem).1
    . apply (hnew hmem).2.1
  . intro hmem
    rcases List.mem_append.mp hmem with hmem | hmem
    . apply h.quiet hmem
    . apply (hnew hmem).2.2
  . apply List.pairwise_append.mpr
    refine ⟨h.ordered, hordered, ?_⟩
    intro a ha b hb heq
    rw [heq] at ha
    apply (hold ha).2 b hb

theorem sendInLoop {data : List UInt8} {res : WriteResult} {r : TcpConnection × List Action}
    (h : Shut s) (hnot : .shutdownWrite ∉ s.log) (hsend : s.conn.sendInLoop data res = some r)
    : Shut (s.act r) := by
  rcases sendInLoop_output hsend with ⟨hstate, houtput, -⟩
  have hnone := notMem_of_isOutput houtput
  apply h.act
  . rw [hstate]
    apply id
  . intro hmem
    contradiction
  . intro hmem
    contradiction
  . apply notAfter_of_notMem hnone

theorem shutdownInLoop (h : Shut s) (hrank : 2 ≤ s.conn.state.rank)
    (hquiet : s.conn.channel.isWriting = false → s.quiet = true)
    : Shut (s.act (s.conn, s.conn.shutdownInLoop)) := by
  apply h.act
  . apply id
  . intro hmem
    refine ⟨h.writing hmem, ?_⟩
    intro a ha
    rw [(mem_shutdownInLoop ha).1]
    rfl
  . intro hmem
    have hwriting := (mem_shutdownInLoop hmem).2
    exact ⟨hrank, hwriting, hquiet hwriting⟩
  . apply List.pairwise_of_forall_mem_list
    intro a ha b hb heq
    rw [(mem_shutdownInLoop hb).1]
    rfl

theorem callbacks {r : TcpConnection × List Action} (h : Shut s)
    (hrank : s.conn.state.rank ≤ r.1.state.rank)
    (hwriting : s.conn.channel.isWriting = false → r.1.channel.isWriting = false)
    (hactions : ∀ a ∈ r.2, a.isWrite = false ∧ a ≠ .shutdownWrite)
    : Shut (s.act r) := by
  have hnone : .shutdownWrite ∉ r.2 := by
    intro hmem
    apply (hactions _ hmem).2 rfl
  apply h.act
  . intro hdown
    omega
  . intro hmem
    exact ⟨hwriting (h.writing hmem), fun a ha => (hactions a ha).1⟩
  . intro hmem
    contradiction
  . apply notAfter_of_notMem hnone

theorem handleClose (h : Shut s) (conn : TcpConnection) : Shut (s.act conn.handleClose) := by
  apply h.callbacks
  . apply StateE.rank_le
  . intro hwriting
    apply Channel.isWriting_disableAll
  . simp [handleClose_eq, Action.isWrite]

theorem handleRead {received : ReadResult} {r : TcpConnection × List Action} (h : Shut s)
    (hread : s.conn.handleRead received = some r)
    : Shut (s.act r) := by
  rcases handleRead_cases hread with ⟨hstate, hchannel, hactions⟩ | ⟨inputBuffer, rfl⟩
  . apply h.callbacks
    . rw [hstate]
    . rw [hchannel]
      apply id
    . rcases hactions with hactions | hactions
      . simp [hactions, Action.isWrite]
      . simp [hactions]
  . apply h.handleClose

theorem handleWrite {res : WriteResult} {r : TcpConnection × List Action} (h : Shut s)
    (hquiet : s.shutsDown (.handleWrite res) = true → s.quiet = true)
    (hwrite : s.conn.handleWrite res = some r)
    : Shut (s.act r) := by
  rcases handleWrite_output hwrite with ⟨hstate, rfl | ⟨hwriting, bytes, rest, hactions, hrest⟩⟩
  . apply h.callbacks
    . apply Nat.le_refl
    . apply id
    . simp
  . apply h.act
    . rw [hstate]
      apply id
    . intro hmem
      rw [h.writing hmem] at hwriting
      contradiction
    . intro hmem
      rw [hactions, List.mem_cons] at hmem
      rcases hrest _ (hmem.resolve_left (by simp)) with heq | ⟨-, hdisconnecting, hempty, hstopped⟩
      . contradiction
      . refine ⟨?_, hstopped, ?_⟩
        . rw [hstate, hdisconnecting]
          decide
        . apply hquiet
          simp [State.shutsDown, hwriting, hdisconnecting, hempty]
    . rw [hactions]
      apply List.Pairwise.cons
      . intro a ha heq
        contradiction
      . apply List.pairwise_of_forall_mem_list
        intro a ha b hb heq
        rcases hrest b hb with hb | ⟨hb, -⟩
        . rw [hb]
          rfl
        . rw [hb]
          rfl

theorem connectEstablished (h : Shut s) (hstate : s.conn.state = .kConnecting)
    : Shut { s.act s.conn.connectEstablished with established := true } := by
  have hact : Shut (s.act s.conn.connectEstablished) := by
    have hrank : s.conn.state.rank < 2 := by
      rw [hstate]
      decide
    have hnot := h.notMem_of_rank hrank
    apply h.act
    . intro hdown
      omega
    . intro hmem
      contradiction
    . simp [TcpConnection.connectEstablished]
    . apply notAfter_of_notMem
      simp [TcpConnection.connectEstablished]
  exact ⟨hact.stored, hact.queued, hact.down, hact.writing, hact.quiet, hact.ordered⟩

theorem goDown (h : Shut s) : Shut s.goDown := by
  have hact : Shut (s.act s.conn.goDown) := by
    apply h.callbacks
    . apply StateE.rank_le
    . intro hwriting
      apply Channel.isWriting_disableAll
    . simp [TcpConnection.goDown, Action.isWrite]
  apply (hact.idle .owner).setDestroyed

theorem setState (h : Shut s) (caller : Caller)
    : Shut ((s.act ({ s.conn with state := .kDisconnecting }, [])).setCall caller .stored) := by
  apply setCall
  . apply h.act
    . intro hdown
      apply Nat.le_refl
    . intro hmem
      refine ⟨h.writing hmem, ?_⟩
      simp
    . simp
    . apply List.Pairwise.nil
  . intro hcall
    apply Nat.le_refl

theorem step {e : Event} (h : Shut s) (hinv : Inv s) (hcond : shutsDownQuietly s e = true)
    (hstep : Step s e s')
    : Shut s' := by
  have hquiet : s.shutsDown e = true → s.quiet = true := by
    intro hshuts
    simpa [shutsDownQuietly, hshuts] using hcond
  cases hstep with
  | connectEstablished hnew => apply h.connectEstablished (hinv.connecting.mpr hnew)
  | connectDestroyed hestablished hdestroyed hstate => apply h.setCall _ (by simp)
  | remove hestablished hdestroyed hstate => apply h.setDestroyed
  | goDown hcall => apply h.goDown
  | send hstate => apply h.beginSend _ hstate
  | noSend => exact h
  | sendDirectly hcall hsend => apply (h.sendInLoop (h.notMem_of_sender hcall) hsend).endSend
  | sendQueued hcall hwaiting => apply (h.pushSend hcall hwaiting).endSend
  | shutdown hstate => apply h.setCall _ (by simp)
  | noShutdown => exact h
  | setState hcall => apply h.setState
  | shutdownDirectly hcall =>
    apply idle
    apply h.shutdownInLoop (h.stored _ hcall)
    intro hwriting
    apply hquiet
    simp [State.shutsDown, hwriting]
  | shutdownQueued hcall hwaiting => apply (h.pushShutdown hcall hwaiting).idle
  | handleRead hestablished hread => apply h.handleRead hread
  | handleWrite hestablished hwrite => apply h.handleWrite hquiet hwrite
  | handleClose hestablished => apply h.handleClose
  | call hwaiting => apply h.setLoop hwaiting
  | loop hwaiting =>
    apply setLoop
    . apply h.callbacks
      . apply Nat.le_refl
      . apply id
      . simp
    . intro queued hmem
      left
      apply hwaiting hmem
  | @runSend active data res caller loop r hwaiting hsend =>
    have hqueued : ⟨caller, .sendInLoop⟩ ∈ s.loop.waiting := by
      rw [hwaiting]
      apply List.mem_cons_self
    apply (h.sendInLoop (h.notMem_of_waiting hqueued rfl) hsend).setLoop
    intro queued hmem
    left
    rw [State.act, hwaiting]
    apply List.mem_cons_of_mem _ hmem
  | @runShutdown active data res caller loop hstart hwaiting =>
    have hqueued : ⟨caller, .shutdownInLoop⟩ ∈ s.loop.waiting := by
      rw [hwaiting]
      apply List.mem_cons_self
    apply setLoop
    . apply h.shutdownInLoop (h.queued _ hqueued rfl)
      intro hwriting
      apply hquiet
      simp [State.shutsDown, hstart, hwriting]
    . intro queued hmem
      left
      rw [State.act, hwaiting]
      apply List.mem_cons_of_mem _ hmem

end Shut

theorem no_write_after_shutdown {s : State} (h : (systemWith shutsDownQuietly).Reachable s)
    : s.log.Pairwise fun a b => a = .shutdownWrite → b.isWrite = false := by
  have hshut : Inv s ∧ Shut s := by
    apply LTS.Reachable.invariant (systemWith shutsDownQuietly) _ _ h
    . intro s hinit
      refine ⟨init_inv hinit, ?_⟩
      rcases hinit with ⟨sockfd, conn, cb, cb', mark, -, rfl⟩
      apply Shut.start
    . rintro s e s' ⟨hinv, hshut⟩ hnext
      rcases (LTS.restrict_next_eq_some system).mp hnext with ⟨hcond, hnext⟩
      have hstep := Step.of_step hnext
      exact ⟨hinv.step hstep, hshut.step hinv hcond hstep⟩
  apply hshut.2.ordered

def runQueued (data : List UInt8) (res : WriteResult) : List Event :=
  [.loop false [] (.ok 0), .loop false [] (.ok 0), .loop false data res, .loop false [] (.ok 0)]

def sendThenShutdown : List Event :=
  established ++ [.send (.other 1), .sendRun (.other 1) [] (.ok 0),
      .call (.queueReturn (.other 1)), .shutdown (.other 1), .setState (.other 1),
      .shutdownRun (.other 1)]
    ++ runQueued [97, 98] (.ok 2) ++ [.loop false [] (.ok 0)]

theorem no_write_after_shutdown_queued
    : ∃ s, (systemWith shutsDownQuietly).run (.start fresh) sendThenShutdown = some s
      ∧ .write [97, 98] ∈ s.log ∧ .shutdownWrite ∈ s.log
      ∧ s.log.Pairwise fun a b => a = .shutdownWrite → b.isWrite = false := by
  have hrun : ((systemWith shutsDownQuietly).run (.start fresh) sendThenShutdown).any (fun s =>
      decide (.write [97, 98] ∈ s.log ∧ .shutdownWrite ∈ s.log)) = true := by
    decide +kernel
  rcases (Option.any_eq_true _ _).mp hrun with ⟨s, hs, hlog⟩
  rw [decide_eq_true_eq] at hlog
  refine ⟨s, hs, hlog.1, hlog.2, ?_⟩
  apply no_write_after_shutdown (LTS.Reachable.of_run _ (.init fresh_init) hs)

def shutdownOvertakes : List Event :=
  established ++ [.send (.other 1), .sendRun (.other 1) [] (.ok 0), .shutdown .owner,
      .setState .owner, .shutdownRun .owner]
    ++ runQueued [97, 98] (.error .EPIPE)

theorem write_after_shutdown
    : ∃ s, system.run (.start fresh) shutdownOvertakes = some s
      ∧ ∃ pre post, s.log = pre ++ .shutdownWrite :: .write [] :: post := by
  have hrun : (system.run (.start fresh) shutdownOvertakes).any (fun s =>
      decide (s.log = [.connectionCallback true, .shutdownWrite, .write []])) = true := by
    decide +kernel
  rcases (Option.any_eq_true _ _).mp hrun with ⟨s, hs, hlog⟩
  exact ⟨s, hs, [.connectionCallback true], [], of_decide_eq_true hlog⟩

end Threads

end TcpConnection
