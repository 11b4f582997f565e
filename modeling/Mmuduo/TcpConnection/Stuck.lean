import Mmuduo.TcpConnection.SendInLoop
import Mmuduo.TcpConnection.Threads

namespace TcpConnection

structure Grows (c c' : TcpConnection) (actions : List Action) : Prop where
  content : c.outputBuffer.content <+: c'.outputBuffer.content
  writing : (c.outputBuffer.content ≠ [] → c.channel.isWriting = true) →
    c'.outputBuffer.content ≠ [] → c'.channel.isWriting = true
  quiet : c.outputBuffer.content ≠ [] → c.channel.isWriting = true →
    .queueWriteComplete ∉ actions ∧ .shutdownWrite ∉ actions

namespace Grows

variable {c c' c'' : TcpConnection} {actions actions' : List Action}

theorem refl (c : TcpConnection) : Grows c c [] := by
  refine ⟨List.prefix_rfl, id, ?_⟩
  simp

theorem trans (h : Grows c c' actions) (h' : Grows c' c'' actions')
    : Grows c c'' (actions ++ actions') := by
  refine ⟨h.content.trans h'.content, h'.writing ∘ h.writing, ?_⟩
  intro hcontent hwriting
  have hcontent' : c'.outputBuffer.content ≠ [] := h.content.ne_nil hcontent
  have hquiet := h.quiet hcontent hwriting
  have hquiet' := h'.quiet hcontent' (h.writing (fun _ => hwriting) hcontent')
  simp only [List.mem_append, not_or]
  exact ⟨⟨hquiet.1, hquiet'.1⟩, hquiet.2, hquiet'.2⟩

theorem of_outputBuffer_eq (hbuffer : c'.outputBuffer = c.outputBuffer)
    (hwriting : c.channel.isWriting = true → c'.channel.isWriting = true)
    (hquiet : c.outputBuffer.content ≠ [] → c.channel.isWriting = true →
      .queueWriteComplete ∉ actions ∧ .shutdownWrite ∉ actions)
    : Grows c c' actions := by
  refine ⟨?_, ?_, hquiet⟩
  . rw [hbuffer]
  . rw [hbuffer]
    exact fun h hcontent => hwriting (h hcontent)

end Grows

section Handlers

variable {c : TcpConnection} {r : TcpConnection × List Action}

theorem unread_ne_zero_iff (hinv : c.outputBuffer.Inv)
    : c.outputBuffer.unread ≠ 0 ↔ c.outputBuffer.content ≠ [] := by
  rw [Ne, Ne, ← List.length_eq_zero_iff, hinv.length_content]

theorem isWriting_storeChannel : c.storeChannel.isWriting = true := by
  unfold storeChannel
  split
  . assumption
  . apply Channel.isWriting_enableWriting

theorem remaining_firstWrite (c : TcpConnection) (data : List UInt8) (res : WriteResult)
    : (c.firstWrite data res).remaining = data.length - (c.firstWrite data res).nwrote := by
  unfold firstWrite writeDirect Direct.skipped
  split
  . cases res with
    | ok n => rfl
    | error errno => rfl
  . rfl

theorem sendInLoop_grows {data : List UInt8} {res : WriteResult} (hinv : c.outputBuffer.Inv)
    (h : c.sendInLoop data res = some r)
    : r.1.outputBuffer.Inv ∧ Grows c r.1 r.2 := by
  unfold sendInLoop at h
  split at h
  . cases h
    exact ⟨hinv, .refl c⟩
  . dsimp only at h
    have hdirect : c.outputBuffer.content ≠ [] → c.channel.isWriting = true →
        c.firstWrite data res = .skipped data.length := by
      intro _ hwriting
      simp [firstWrite, writesDirectly, hwriting]
    split at h
    . next hrest =>
      have hlen : (c.firstWrite data res).remaining
          = (data.drop (c.firstWrite data res).nwrote).length := by
        rw [remaining_firstWrite, List.length_drop]
      rw [hlen] at h
      rcases storeRest_spec hinv (data.drop (c.firstWrite data res).nwrote)
        with ⟨k', heq, hinv', hcontent, _⟩
      rw [heq] at h
      cases h
      refine ⟨hinv', ?_, ?_, ?_⟩
      . dsimp only
        rw [hcontent]
        apply List.prefix_append
      . intro _ _
        apply isWriting_storeChannel
      . intro hne hwriting
        rw [hdirect hne hwriting]
        constructor
        . intro hmem
          cases (mem_highWater.mp hmem).1
        . intro hmem
          cases (mem_highWater.mp hmem).1
    . cases h
      refine ⟨hinv, .of_outputBuffer_eq rfl id ?_⟩
      intro hne hwriting
      rw [hdirect hne hwriting]
      simp [Direct.skipped]

theorem handleWrite_grows {res : WriteResult} (hinv : c.outputBuffer.Inv)
    (h : c.handleWrite res = some r)
    : r.1.outputBuffer = c.outputBuffer ∧ Grows c r.1 r.2 := by
  unfold handleWrite at h
  split at h
  . rw [Option.bind_eq_bind, Option.bind_eq_some_iff] at h
    rcases h with ⟨sent, -, h⟩
    split at h
    . dsimp only at h
      split at h
      . next hempty =>
        rw [Bool.and_eq_true, beq_iff_eq] at hempty
        have hunread : c.outputBuffer.unread = 0 := by
          unfold Kfifo.unread
          rw [hempty.2]
          rfl
        have hnone : ¬c.outputBuffer.content ≠ [] := by
          rw [← unread_ne_zero_iff hinv, not_not]
          exact hunread
        cases h
        refine ⟨rfl, List.prefix_rfl, ?_, ?_⟩
        . intro _ hne
          exact absurd hne hnone
        . intro hne
          exact absurd hne hnone
      . cases h
        refine ⟨rfl, .of_outputBuffer_eq rfl id ?_⟩
        simp
    . cases h
      refine ⟨rfl, .of_outputBuffer_eq rfl id ?_⟩
      simp
  . cases h
    exact ⟨rfl, .refl c⟩

theorem shutdownInLoop_grows : Grows c c c.shutdownInLoop := by
  apply Grows.of_outputBuffer_eq rfl id
  intro _ hwriting
  constructor
  . intro hmem
    cases (mem_shutdownInLoop hmem).1
  . intro hmem
    rw [(mem_shutdownInLoop hmem).2] at hwriting
    cases hwriting

theorem handleRead_grows {received : ReadResult} (h : c.handleRead received = some r)
    : r.1.outputBuffer = c.outputBuffer
      ∧ (.connectionCallback false ∉ r.2 → Grows c r.1 r.2) := by
  rcases handleRead_eq h with ⟨inputBuffer, rfl | rfl | rfl⟩
  . refine ⟨rfl, fun _ => .of_outputBuffer_eq rfl id ?_⟩
    simp
  . refine ⟨rfl, fun _ => .of_outputBuffer_eq rfl id ?_⟩
    simp
  . refine ⟨rfl, fun hup => absurd ?_ hup⟩
    simp [handleClose_eq]

end Handlers

namespace Threads

variable {s s' : State}

structure Advances (s s' : State) (new : List Action) : Prop where
  log : s'.log = s.log ++ new
  inv : s'.conn.outputBuffer.Inv
  grows : .connectionCallback false ∉ new → Grows s.conn s'.conn new

theorem Advances.of_conn_eq (hinv : s.conn.outputBuffer.Inv) (hconn : s'.conn = s.conn)
    (hlog : s'.log = s.log)
    : Advances s s' [] := by
  refine ⟨?_, ?_, ?_⟩
  . rw [hlog, List.append_nil]
  . rw [hconn]
    exact hinv
  . intro _
    rw [hconn]
    exact .refl s.conn

theorem Step.advances {e : Event} (hinv : s.conn.outputBuffer.Inv) (h : Step s e s')
    : ∃ new, Advances s s' new := by
  cases h with
  | connectEstablished hnew =>
    refine ⟨_, rfl, hinv, fun _ => .of_outputBuffer_eq rfl ?_ ?_⟩
    . simp only [State.act, TcpConnection.connectEstablished, Channel.isWriting_enableReading]
      exact id
    . simp [TcpConnection.connectEstablished]
  | connectDestroyed => exact ⟨[], .of_conn_eq hinv rfl rfl⟩
  | remove => exact ⟨[], .of_conn_eq hinv rfl rfl⟩
  | goDown hcall =>
    refine ⟨_, rfl, hinv, fun hup => absurd ?_ hup⟩
    simp [TcpConnection.goDown, connected]
  | send => exact ⟨[], .of_conn_eq hinv rfl rfl⟩
  | noSend => exact ⟨[], .of_conn_eq hinv rfl rfl⟩
  | sendDirectly hcall hsend =>
    rcases sendInLoop_grows hinv hsend with ⟨hinv', hgrows⟩
    exact ⟨_, rfl, hinv', fun _ => hgrows⟩
  | sendQueued => exact ⟨[], .of_conn_eq hinv rfl rfl⟩
  | shutdown => exact ⟨[], .of_conn_eq hinv rfl rfl⟩
  | noShutdown => exact ⟨[], .of_conn_eq hinv rfl rfl⟩
  | setState hcall =>
    refine ⟨[], rfl, hinv, fun _ => .of_outputBuffer_eq rfl id ?_⟩
    simp
  | shutdownDirectly hcall => exact ⟨_, rfl, hinv, fun _ => shutdownInLoop_grows⟩
  | shutdownQueued => exact ⟨[], .of_conn_eq hinv rfl rfl⟩
  | handleRead hestablished hread =>
    rcases handleRead_grows hread with ⟨hbuffer, hgrows⟩
    refine ⟨_, rfl, ?_, hgrows⟩
    simp only [State.act, hbuffer]
    exact hinv
  | handleWrite hestablished hwrite =>
    rcases handleWrite_grows hinv hwrite with ⟨hbuffer, hgrows⟩
    refine ⟨_, rfl, ?_, fun _ => hgrows⟩
    simp only [State.act, hbuffer]
    exact hinv
  | handleClose hestablished =>
    refine ⟨_, rfl, hinv, fun hup => absurd ?_ hup⟩
    simp [handleClose_eq]
  | call => exact ⟨[], .of_conn_eq hinv rfl rfl⟩
  | loop => exact ⟨[], rfl, hinv, fun _ => .refl s.conn⟩
  | runSend hwaiting hsend =>
    rcases sendInLoop_grows hinv hsend with ⟨hinv', hgrows⟩
    exact ⟨_, rfl, hinv', fun _ => hgrows⟩
  | runShutdown hstart hwaiting => exact ⟨_, rfl, hinv, fun _ => shutdownInLoop_grows⟩

theorem run_advances {es : List Event} (hinv : s.conn.outputBuffer.Inv)
    (hrun : system.run s es = some s')
    : ∃ new, Advances s s' new := by
  induction es generalizing s with
  | nil =>
    cases hrun
    exact ⟨[], .of_conn_eq hinv rfl rfl⟩
  | cons e es ih =>
    rw [LTS.run_cons, Option.bind_eq_some_iff] at hrun
    rcases hrun with ⟨s₁, hnext, hrun⟩
    rcases (Step.of_step hnext).advances hinv with ⟨new, hfirst⟩
    rcases ih hfirst.inv hrun with ⟨new', hrest⟩
    refine ⟨new ++ new', ?_, hrest.inv, ?_⟩
    . rw [hrest.log, hfirst.log, List.append_assoc]
    . intro hup
      rw [List.mem_append, not_or] at hup
      exact (hfirst.grows hup.1).trans (hrest.grows hup.2)

structure Watched (s : State) : Prop where
  inv : s.conn.outputBuffer.Inv
  writing : .connectionCallback false ∉ s.log → s.conn.outputBuffer.content ≠ [] →
    s.conn.channel.isWriting = true

theorem reachable_watched (h : system.Reachable s) : Watched s := by
  apply LTS.Reachable.invariant _ ?_ ?_ h
  . rintro s ⟨sockfd, conn, cb, cb', mark, hnew, rfl⟩
    rcases new_outputBuffer hnew with ⟨hinv, hcontent, -⟩
    refine ⟨hinv, ?_⟩
    intro _ hne
    exact absurd hcontent hne
  . intro s e s' hs hnext
    rcases (Step.of_step hnext).advances hs.inv with ⟨new, hstep⟩
    refine ⟨hstep.inv, ?_⟩
    intro hup
    rw [hstep.log, List.mem_append, not_or] at hup
    exact (hstep.grows hup.2).writing (hs.writing hup.1)

/--
Once a byte is buffered, whatever the threads and the kernel do, the backlog only grows until the
connection is reported down, and neither a complete write nor the end of the write side comes any more.
-/
theorem never_drained (h : system.Reachable s) (hbacklog : s.conn.outputBuffer.content ≠ [])
    {es : List Event} (hrun : system.run s es = some s') (hup : .connectionCallback false ∉ s'.log)
    : s.conn.outputBuffer.content <+: s'.conn.outputBuffer.content
      ∧ s'.conn.channel.isWriting = true
      ∧ ∃ new, s'.log = s.log ++ new ∧ .queueWriteComplete ∉ new ∧ .shutdownWrite ∉ new := by
  have hs := reachable_watched h
  rcases run_advances hs.inv hrun with ⟨new, hnew⟩
  rw [hnew.log, List.mem_append, not_or] at hup
  have hgrows := hnew.grows hup.2
  have hwriting := hs.writing hup.1 hbacklog
  refine ⟨hgrows.content, ?_, new, hnew.log, hgrows.quiet hbacklog hwriting⟩
  apply hgrows.writing (fun _ => hwriting) (hgrows.content.ne_nil hbacklog)

def backlogged : List Event :=
  established ++ [.send .owner, .sendRun .owner [1, 2, 3] (.ok 1)]

def shutDown : List Event :=
  [.shutdown .owner, .setState .owner, .shutdownRun .owner, .handleWrite (.ok 2),
    .handleWrite (.ok 2)]

theorem never_drained_shutDown
    : ∃ s, system.run (.start fresh) backlogged = some s
      ∧ ∃ s', system.run s shutDown = some s' ∧ s'.conn.state = .kDisconnecting
        ∧ s.conn.outputBuffer.content <+: s'.conn.outputBuffer.content
        ∧ s'.conn.channel.isWriting = true := by
  have hrun : (system.run (.start fresh) backlogged).any (fun s =>
      decide (s.conn.outputBuffer.content ≠ []) && (system.run s shutDown).any fun s' =>
        decide (s'.conn.state = .kDisconnecting ∧ .connectionCallback false ∉ s'.log)) = true := by
    decide +kernel
  rcases (Option.any_eq_true _ _).mp hrun with ⟨s, hs, hrun⟩
  rw [Bool.and_eq_true, decide_eq_true_eq] at hrun
  rcases (Option.any_eq_true _ _).mp hrun.2 with ⟨s', hs', hfacts⟩
  rw [decide_eq_true_eq] at hfacts
  have hreach := LTS.Reachable.of_run _ (.init fresh_init) hs
  rcases never_drained hreach hrun.1 hs' hfacts.2 with ⟨hcontent, hwriting, -⟩
  exact ⟨s, hs, s', hs', hfacts.1, hcontent, hwriting⟩

end Threads

end TcpConnection
