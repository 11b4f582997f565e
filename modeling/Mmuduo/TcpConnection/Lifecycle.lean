import Mmuduo.TcpConnection.Threads

def StateE.rank : StateE → Nat
  | .kConnecting => 0
  | .kConnected => 1
  | .kDisconnecting => 2
  | .kDisconnected => 3

theorem StateE.rank_le (state : StateE) : state.rank ≤ StateE.kDisconnected.rank := by
  cases state with
  | kDisconnected => decide
  | kConnecting => decide
  | kConnected => decide
  | kDisconnecting => decide

namespace TcpConnection

namespace Threads

structure Inv (s : State) : Prop where
  connecting : s.conn.state = .kConnecting ↔ s.established = false
  calls : ∀ caller, s.calls caller ≠ .idle → s.established = true
  current : ∃ before, s.states = before ++ [s.conn.state]
  up : s.established = true → .connectionCallback true ∈ s.log

namespace Inv

variable {s s' : State}

theorem start {conn : TcpConnection} (hstate : conn.state = .kConnecting) : Inv (.start conn) := by
  constructor
  . simp [State.start, hstate]
  . simp [State.start]
  . exact ⟨[], rfl⟩
  . simp [State.start]

theorem not_connecting (h : Inv s) (hestablished : s.established = true)
    : s.conn.state ≠ .kConnecting := by
  intro hstate
  rw [h.connecting.mp hstate] at hestablished
  contradiction

theorem established_of_connected (h : Inv s) (hstate : s.conn.state = .kConnected)
    : s.established = true := by
  rw [← Bool.not_eq_false, ← h.connecting, hstate]
  simp

theorem established_of_call {caller : Caller} {call : Call} (h : Inv s)
    (hcall : s.calls caller = call) (hne : call ≠ .idle)
    : s.established = true := by
  apply h.calls caller
  rw [hcall]
  apply hne

theorem act {r : TcpConnection × List Action} (h : Inv s)
    (hstate : r.1.state = s.conn.state ∨ (s.established = true ∧ r.1.state ≠ .kConnecting))
    : Inv (s.act r) := by
  constructor
  . rcases hstate with hstate | ⟨hestablished, hstate⟩
    . simp only [State.act]
      rw [hstate]
      apply h.connecting
    . simp [State.act, hestablished, hstate]
  . apply h.calls
  . exact ⟨_, rfl⟩
  . intro hestablished
    apply List.mem_append_left
    apply h.up hestablished

theorem setCall {caller : Caller} {call : Call} (h : Inv s)
    (hcall : call ≠ .idle → s.established = true)
    : Inv (s.setCall caller call) := by
  refine ⟨h.connecting, ?_, h.current, h.up⟩
  intro other hother
  simp only [State.setCall, Function.update_apply] at hother
  split at hother
  . apply hcall hother
  . apply h.calls other hother

theorem idle {caller : Caller} (h : Inv s) : Inv (s.setCall caller .idle) := by
  apply h.setCall
  intro hcall
  contradiction

theorem setLoop (h : Inv s) (loop : EventLoop.State Functor) : Inv { s with loop } := by
  exact ⟨h.connecting, h.calls, h.current, h.up⟩

theorem setSenders (h : Inv s) (senders : List Caller) : Inv { s with senders } := by
  exact ⟨h.connecting, h.calls, h.current, h.up⟩

theorem setDestroyed (h : Inv s) (destroyed : Option (List Action)) : Inv { s with destroyed } := by
  exact ⟨h.connecting, h.calls, h.current, h.up⟩

theorem connectEstablished (s : State)
    : Inv { s.act s.conn.connectEstablished with established := true } := by
  constructor
  . simp [State.act, TcpConnection.connectEstablished]
  . simp
  . exact ⟨_, rfl⟩
  . intro hestablished
    apply List.mem_append_right
    apply List.mem_singleton_self

theorem step {e : Event} (h : Inv s) (hstep : Step s e s') : Inv s' := by
  cases hstep with
  | connectEstablished hnew => apply Inv.connectEstablished
  | connectDestroyed hestablished hdestroyed hstate => apply h.setCall (fun _ => hestablished)
  | remove hestablished hdestroyed hstate => apply h.setDestroyed
  | goDown hcall =>
    have hestablished := h.established_of_call hcall (by simp)
    have hdown : Inv (s.act s.conn.goDown) := by
      apply h.act
      right
      exact ⟨hestablished, by simp [TcpConnection.goDown]⟩
    apply hdown.idle.setDestroyed
  | send hstate => apply h.setSenders
  | noSend => exact h
  | sendDirectly hcall hsend =>
    apply setSenders
    apply h.act
    left
    apply (sendInLoop_output hsend).1
  | sendQueued hcall hwaiting => apply (h.setSenders _).setLoop
  | shutdown hstate => apply h.setCall (fun _ => h.established_of_connected hstate)
  | noShutdown => exact h
  | setState hcall =>
    have hestablished := h.established_of_call hcall (by simp)
    apply setCall
    . apply h.act
      right
      exact ⟨hestablished, by simp⟩
    . intro hidle
      apply hestablished
  | shutdownDirectly hcall =>
    apply idle
    apply h.act
    left
    rfl
  | shutdownQueued hcall hwaiting => apply h.idle.setLoop
  | handleRead hestablished hread =>
    apply h.act
    rcases handleRead_cases hread with ⟨hstate, -, -⟩ | ⟨inputBuffer, rfl⟩
    . left
      apply hstate
    . right
      exact ⟨hestablished, by simp [handleClose_eq]⟩
  | handleWrite hestablished hwrite =>
    apply h.act
    left
    apply (handleWrite_output hwrite).1
  | handleClose hestablished =>
    apply h.act
    right
    exact ⟨hestablished, by simp [handleClose_eq]⟩
  | call hwaiting => apply h.setLoop
  | loop hwaiting =>
    apply setLoop
    apply h.act
    left
    rfl
  | runSend hwaiting hsend =>
    apply setLoop
    apply h.act
    left
    apply (sendInLoop_output hsend).1
  | runShutdown hstart hwaiting =>
    apply setLoop
    apply h.act
    left
    rfl

end Inv

theorem init_inv {s : State} (hinit : system.Init s) : Inv s := by
  rcases hinit with ⟨sockfd, conn, cb, cb', mark, hnew, rfl⟩
  apply Inv.start
  unfold TcpConnection.new at hnew
  simp only [Option.pure_def, Option.bind_eq_bind, Option.bind_eq_some_iff, Option.some.injEq] at hnew
  rcases hnew with ⟨inputBuffer, -, outputBuffer, -, rfl⟩
  rfl

/--
A `shutdown` that has seen `kConnected` stores its state before the connection is down.
-/
def storesInTime (s : State) : Event → Bool
  | .setState _ => s.conn.state != .kDisconnected
  | _ => true

def Forward (states : List StateE) : Prop :=
  states.Pairwise fun a b => a.rank ≤ b.rank

section Forward

variable {s s' : State} {e : Event}

theorem Inv.forward_concat (h : Inv s) (hforward : Forward s.states) (state : StateE)
    : Forward (s.states ++ [state]) ↔ s.conn.state.rank ≤ state.rank := by
  rcases h.current with ⟨before, hcurrent⟩
  unfold Forward at hforward ⊢
  rw [List.pairwise_append]
  constructor
  . intro hpairwise
    apply hpairwise.2.2 _ _ _ (List.mem_singleton_self _)
    rw [hcurrent]
    apply List.mem_append_right _ (List.mem_singleton_self _)
  . intro hle
    refine ⟨hforward, List.pairwise_singleton _ _, ?_⟩
    intro a ha b hb
    rw [List.mem_singleton] at hb
    rw [hb]
    rw [hcurrent, List.mem_append, List.mem_singleton] at ha
    rw [hcurrent, List.pairwise_append] at hforward
    rcases ha with ha | rfl
    . apply Nat.le_trans (hforward.2.2 a ha _ (List.mem_singleton_self _)) hle
    . apply hle

theorem Step.states_eq (hstep : Step s e s')
    : (s'.states = s.states ∧ s'.conn = s.conn) ∨ s'.states = s.states ++ [s'.conn.state] := by
  cases hstep with
  | connectEstablished hnew => exact Or.inr rfl
  | connectDestroyed hestablished hdestroyed hstate => exact Or.inl ⟨rfl, rfl⟩
  | remove hestablished hdestroyed hstate => exact Or.inl ⟨rfl, rfl⟩
  | goDown hcall => exact Or.inr rfl
  | send hstate => exact Or.inl ⟨rfl, rfl⟩
  | noSend => exact Or.inl ⟨rfl, rfl⟩
  | sendDirectly hcall hsend => exact Or.inr rfl
  | sendQueued hcall hwaiting => exact Or.inl ⟨rfl, rfl⟩
  | shutdown hstate => exact Or.inl ⟨rfl, rfl⟩
  | noShutdown => exact Or.inl ⟨rfl, rfl⟩
  | setState hcall => exact Or.inr rfl
  | shutdownDirectly hcall => exact Or.inr rfl
  | shutdownQueued hcall hwaiting => exact Or.inl ⟨rfl, rfl⟩
  | handleRead hestablished hread => exact Or.inr rfl
  | handleWrite hestablished hwrite => exact Or.inr rfl
  | handleClose hestablished => exact Or.inr rfl
  | call hwaiting => exact Or.inl ⟨rfl, rfl⟩
  | loop hwaiting => exact Or.inr rfl
  | runSend hwaiting hsend => exact Or.inr rfl
  | runShutdown hstart hwaiting => exact Or.inr rfl

theorem Inv.rank_setState {caller : Caller} (h : Inv s) (hcall : s.calls caller = .shuttingDown)
    : s.conn.state.rank ≤ StateE.kDisconnecting.rank ↔ (s.conn.state != .kDisconnected) = true := by
  have hconnecting := h.not_connecting (h.established_of_call hcall (by simp))
  cases hstate : s.conn.state with
  | kConnecting => contradiction
  | kConnected => decide
  | kDisconnecting => decide
  | kDisconnected => decide

theorem Inv.rank_le_iff (h : Inv s) (hstep : Step s e s')
    : s.conn.state.rank ≤ s'.conn.state.rank ↔ storesInTime s e = true := by
  have hkeep : s'.conn.state = s.conn.state → storesInTime s e = true →
      (s.conn.state.rank ≤ s'.conn.state.rank ↔ storesInTime s e = true) := by
    intro hstate hcond
    rw [hstate]
    exact iff_of_true (Nat.le_refl _) hcond
  cases hstep with
  | connectEstablished hnew =>
    apply iff_of_true _ rfl
    rw [h.connecting.mpr hnew]
    apply Nat.zero_le
  | connectDestroyed hestablished hdestroyed hstate => apply hkeep rfl rfl
  | remove hestablished hdestroyed hstate => apply hkeep rfl rfl
  | goDown hcall => exact iff_of_true (StateE.rank_le _) rfl
  | send hstate => apply hkeep rfl rfl
  | noSend => apply hkeep rfl rfl
  | sendDirectly hcall hsend => apply hkeep (sendInLoop_output hsend).1 rfl
  | sendQueued hcall hwaiting => apply hkeep rfl rfl
  | shutdown hstate => apply hkeep rfl rfl
  | noShutdown => apply hkeep rfl rfl
  | setState hcall => apply h.rank_setState hcall
  | shutdownDirectly hcall => apply hkeep rfl rfl
  | shutdownQueued hcall hwaiting => apply hkeep rfl rfl
  | handleRead hestablished hread =>
    rcases handleRead_cases hread with ⟨hstate, -, -⟩ | ⟨inputBuffer, rfl⟩
    . apply hkeep hstate rfl
    . exact iff_of_true (StateE.rank_le _) rfl
  | handleWrite hestablished hwrite => apply hkeep (handleWrite_output hwrite).1 rfl
  | handleClose hestablished => exact iff_of_true (StateE.rank_le _) rfl
  | call hwaiting => apply hkeep rfl rfl
  | loop hwaiting => apply hkeep rfl rfl
  | runSend hwaiting hsend => apply hkeep (sendInLoop_output hsend).1 rfl
  | runShutdown hstart hwaiting => apply hkeep rfl rfl

theorem Inv.forward_iff (h : Inv s) (hforward : Forward s.states) (hstep : Step s e s')
    : Forward s'.states ↔ storesInTime s e = true := by
  have hrank := h.rank_le_iff hstep
  rcases hstep.states_eq with ⟨hstates, hconn⟩ | hstates
  . rw [hconn] at hrank
    rw [hstates, ← hrank]
    exact iff_of_true hforward (Nat.le_refl _)
  . rw [hstates, h.forward_concat hforward]
    apply hrank

theorem Step.forward_before (hstep : Step s e s') (hforward : Forward s'.states)
    : Forward s.states := by
  rcases hstep.states_eq with ⟨hstates, -⟩ | hstates
  . rw [hstates] at hforward
    exact hforward
  . rw [hstates] at hforward
    apply (List.pairwise_append.mp hforward).1

end Forward

theorem state_only_advances {s s' : State} {es : List Event} (hinit : system.Init s)
    (hrun : system.run s es = some s')
    : (s'.states.Pairwise fun a b => a.rank ≤ b.rank)
        ↔
      system.Along (fun s e => storesInTime s e = true) s es := by
  have hinv : ∀ s e s', Inv s → Forward s.states → system.next s e = some s' →
      Forward s'.states → Inv s' :=
    fun s e s' h _ hnext _ => h.step (.of_step hnext)
  have hstep : ∀ s e s', Inv s → Forward s.states → system.next s e = some s' →
      (Forward s'.states ↔ storesInTime s e = true) :=
    fun s e s' h hforward hnext => h.forward_iff hforward (.of_step hnext)
  have hlost : ∀ s e s', system.next s e = some s' → Forward s'.states → Forward s.states :=
    fun s e s' hnext hforward => (Step.of_step hnext).forward_before hforward
  apply system.run_iff_along hinv hstep hlost (init_inv hinit) _ hrun
  rcases hinit with ⟨sockfd, conn, cb, cb', mark, -, rfl⟩
  apply List.pairwise_singleton

def shutdownThenClose : List Event :=
  established ++ [.shutdown (.other 1), .setState (.other 1), .handleClose]

theorem state_only_advances_close
    : ∃ s, system.run (.start fresh) shutdownThenClose = some s
      ∧ s.states.Pairwise fun a b => a.rank ≤ b.rank := by
  have hrun : (system.run (.start fresh) shutdownThenClose).isSome = true := by
    decide +kernel
  rcases Option.isSome_iff_exists.mp hrun with ⟨s, hs⟩
  refine ⟨s, hs, ?_⟩
  rw [state_only_advances fresh_init hs]
  decide +kernel

def closeInShutdown : List Event :=
  established ++ [.shutdown (.other 1), .handleClose, .setState (.other 1)]

theorem state_goes_back
    : ∃ s, system.run (.start fresh) closeInShutdown = some s
      ∧ .kDisconnected ∈ s.states ∧ s.conn.state = .kDisconnecting
      ∧ ¬ s.states.Pairwise fun a b => a.rank ≤ b.rank := by
  have hrun : (system.run (.start fresh) closeInShutdown).any (fun s =>
      decide (.kDisconnected ∈ s.states ∧ s.conn.state = .kDisconnecting
        ∧ ¬ s.states.Pairwise fun a b => a.rank ≤ b.rank)) = true := by
    decide +kernel
  rcases (Option.any_eq_true _ _).mp hrun with ⟨s, hs, hback⟩
  exact ⟨s, hs, of_decide_eq_true hback⟩

def ReportedDown (log : List Action) : Prop :=
  ∃ pre post, log = pre ++ .connectionCallback true :: post ∧ .connectionCallback false ∈ post

/--
The teardown starts on a connection that is up, or after `handleClose`.
-/
def destroysReported (s : State) : Event → Bool
  | .connectDestroyed => decide (s.conn.state = .kConnected ∨ .closeCallback ∈ s.log)
  | _ => true

theorem ReportedDown.append {log : List Action} (h : ReportedDown log) (actions : List Action)
    : ReportedDown (log ++ actions) := by
  rcases h with ⟨pre, post, rfl, hmem⟩
  refine ⟨pre, post ++ actions, ?_, List.mem_append_left _ hmem⟩
  rw [List.append_assoc, List.cons_append]

theorem ReportedDown.of_up {log actions : List Action} (hup : .connectionCallback true ∈ log)
    (hdown : .connectionCallback false ∈ actions)
    : ReportedDown (log ++ actions) := by
  rcases List.append_of_mem hup with ⟨pre, post, rfl⟩
  refine ⟨pre, post ++ actions, ?_, List.mem_append_right _ hdown⟩
  rw [List.append_assoc, List.cons_append]

theorem ReportedDown.mem {log : List Action} (h : ReportedDown log)
    : .connectionCallback false ∈ log := by
  rcases h with ⟨pre, post, rfl, hmem⟩
  apply List.mem_append_right
  apply List.mem_cons_of_mem _ hmem

structure Reports (s : State) : Prop where
  closed : .closeCallback ∈ s.log → ReportedDown s.log
  down : .connectionCallback false ∈ s.log → .closeCallback ∈ s.log ∨ s.destroyed.isSome = true

namespace Reports

variable {s s' : State}

theorem start (conn : TcpConnection) : Reports (.start conn) := by
  constructor
  . simp [State.start]
  . simp [State.start]

theorem setCall (h : Reports s) (caller : Caller) (call : Call)
    : Reports (s.setCall caller call) := by
  exact ⟨h.closed, h.down⟩

theorem setSenders (h : Reports s) (senders : List Caller) : Reports { s with senders } := by
  exact ⟨h.closed, h.down⟩

theorem setLoop (h : Reports s) (loop : EventLoop.State Functor) : Reports { s with loop } := by
  exact ⟨h.closed, h.down⟩

theorem act {r : TcpConnection × List Action} (h : Reports s)
    (hsilent : ∀ a ∈ r.2, a.reportsDown = false)
    : Reports (s.act r) := by
  constructor
  . intro hclosed
    rcases List.mem_append.mp hclosed with hclosed | hclosed
    . apply (h.closed hclosed).append
    . have := hsilent _ hclosed
      contradiction
  . intro hdown
    rcases List.mem_append.mp hdown with hdown | hdown
    . apply (h.down hdown).imp_left
      apply List.mem_append_left
    . have := hsilent _ hdown
      contradiction

theorem sendInLoop {data : List UInt8} {res : WriteResult} {r : TcpConnection × List Action}
    (h : Reports s) (hsend : s.conn.sendInLoop data res = some r)
    : Reports (s.act r) := by
  apply h.act
  intro a ha
  apply Action.reportsDown_of_isOutput ((sendInLoop_output hsend).2.1 a ha)

theorem shutdownInLoop (h : Reports s) : Reports (s.act (s.conn, s.conn.shutdownInLoop)) := by
  apply h.act
  intro a ha
  rw [(mem_shutdownInLoop ha).1]
  rfl

theorem handleClose (hinv : Inv s) (hestablished : s.established = true) (conn : TcpConnection)
    : Reports (s.act conn.handleClose) := by
  constructor
  . intro hclosed
    apply ReportedDown.of_up (hinv.up hestablished)
    simp [handleClose_eq]
  . intro hdown
    left
    apply List.mem_append_right
    simp [handleClose_eq]

theorem handleRead {received : ReadResult} {r : TcpConnection × List Action} (h : Reports s)
    (hinv : Inv s) (hestablished : s.established = true)
    (hread : s.conn.handleRead received = some r)
    : Reports (s.act r) := by
  rcases handleRead_cases hread with ⟨-, -, hactions⟩ | ⟨inputBuffer, rfl⟩
  . apply h.act
    rcases hactions with hactions | hactions
    . simp [hactions, Action.reportsDown]
    . simp [hactions]
  . apply handleClose hinv hestablished

theorem handleWrite {res : WriteResult} {r : TcpConnection × List Action} (h : Reports s)
    (hwrite : s.conn.handleWrite res = some r)
    : Reports (s.act r) := by
  apply h.act
  rcases (handleWrite_output hwrite).2 with rfl | ⟨-, bytes, rest, hactions, hrest⟩
  . simp
  . rw [hactions, List.forall_mem_cons]
    refine ⟨rfl, ?_⟩
    intro a ha
    rcases hrest a ha with rfl | ⟨rfl, -⟩
    . rfl
    . rfl

theorem goDown (h : Reports s) : Reports s.goDown := by
  constructor
  . intro hclosed
    rcases List.mem_append.mp hclosed with hclosed | hclosed
    . apply (h.closed hclosed).append
    . simp [TcpConnection.goDown] at hclosed
  . intro hdown
    right
    simp [State.goDown]

theorem step {e : Event} (h : Reports s) (hinv : Inv s) (hstep : Step s e s') : Reports s' := by
  cases hstep with
  | connectEstablished hnew =>
    have hact : Reports (s.act s.conn.connectEstablished) := by
      apply h.act
      simp [TcpConnection.connectEstablished, connected, Action.reportsDown]
    exact ⟨hact.closed, hact.down⟩
  | connectDestroyed hestablished hdestroyed hstate => apply h.setCall
  | remove hestablished hdestroyed hstate => exact ⟨h.closed, fun _ => Or.inr rfl⟩
  | goDown hcall => apply h.goDown
  | send hstate => apply h.setSenders
  | noSend => exact h
  | sendDirectly hcall hsend => apply (h.sendInLoop hsend).setSenders
  | sendQueued hcall hwaiting => apply (h.setSenders _).setLoop
  | shutdown hstate => apply h.setCall
  | noShutdown => exact h
  | setState hcall =>
    apply setCall
    apply h.act
    simp
  | shutdownDirectly hcall => apply h.shutdownInLoop.setCall
  | shutdownQueued hcall hwaiting => apply (h.setCall _ _).setLoop
  | handleRead hestablished hread => apply h.handleRead hinv hestablished hread
  | handleWrite hestablished hwrite => apply h.handleWrite hwrite
  | handleClose hestablished => apply handleClose hinv hestablished
  | call hwaiting => apply h.setLoop
  | loop hwaiting =>
    apply setLoop
    apply h.act
    simp
  | runSend hwaiting hsend => apply (h.sendInLoop hsend).setLoop
  | runShutdown hstart hwaiting => apply h.shutdownInLoop.setLoop

theorem goDown_reported (hinv : Inv s) (hcall : s.calls .owner = .destroying)
    : ReportedDown (s.log ++ s.conn.goDown.2) := by
  have hestablished := hinv.established_of_call hcall (by simp)
  apply ReportedDown.of_up (hinv.up hestablished)
  apply List.mem_singleton_self

theorem reported_iff (h : Reports s) (hdestroyed : s.destroyed = none)
    : ReportedDown s.log ↔ .closeCallback ∈ s.log := by
  constructor
  . intro hreported
    apply (h.down hreported.mem).resolve_right
    rw [hdestroyed]
    simp
  . apply h.closed

end Reports

def Complete (s : State) : Prop :=
  ∀ log, s.destroyed = some log → ReportedDown log

section Complete

variable {s s' : State} {e : Event}

theorem Reports.complete_iff (h : Reports s) (hinv : Inv s) (hcomplete : Complete s)
    (hstep : Step s e s')
    : Complete s' ↔ destroysReported s e = true := by
  have hkeep : s'.destroyed = s.destroyed → destroysReported s e = true →
      (Complete s' ↔ destroysReported s e = true) := by
    intro hdestroyed hcond
    unfold Complete
    rw [hdestroyed]
    exact iff_of_true hcomplete hcond
  cases hstep with
  | connectDestroyed hestablished hdestroyed hstate =>
    apply hkeep rfl
    simp [destroysReported, hstate]
  | remove hestablished hdestroyed hstate =>
    simp only [Complete, Option.some.injEq, forall_eq', destroysReported, decide_eq_true_eq]
    rw [h.reported_iff hdestroyed]
    simp [hstate]
  | goDown hcall =>
    apply iff_of_true _ rfl
    intro log hlog
    cases hdestroyed : s.destroyed with
    | none =>
      rw [State.goDown, hdestroyed, Option.none_or] at hlog
      rw [← Option.some.inj hlog]
      apply goDown_reported hinv hcall
    | some first =>
      rw [State.goDown, hdestroyed, Option.some_or] at hlog
      rw [← Option.some.inj hlog]
      apply hcomplete first hdestroyed
  | _ => apply hkeep rfl rfl

theorem Step.complete_before (hstep : Step s e s') (hcomplete : Complete s') : Complete s := by
  intro log hlog
  cases hstep with
  | remove hestablished hdestroyed hstate =>
    rw [hdestroyed] at hlog
    contradiction
  | goDown hcall =>
    apply hcomplete log
    rw [State.goDown, hlog, Option.some_or]
  | _ => apply hcomplete log hlog

end Complete

theorem destroyed_after_down {s s' : State} {es : List Event} (hinit : system.Init s)
    (hrun : system.run s es = some s')
    : (∀ log, s'.destroyed = some log → ∃ pre post, log = pre ++ .connectionCallback true :: post
          ∧ .connectionCallback false ∈ post)
        ↔
      system.Along (fun s e => destroysReported s e = true) s es := by
  have hinv : ∀ s e s', Inv s ∧ Reports s → Complete s → system.next s e = some s' →
      Complete s' → Inv s' ∧ Reports s' := by
    rintro s e s' ⟨hinv, hreports⟩ - hnext -
    exact ⟨hinv.step (.of_step hnext), hreports.step hinv (.of_step hnext)⟩
  have hstep : ∀ s e s', Inv s ∧ Reports s → Complete s → system.next s e = some s' →
      (Complete s' ↔ destroysReported s e = true) :=
    fun s e s' h hcomplete hnext => h.2.complete_iff h.1 hcomplete (.of_step hnext)
  have hlost : ∀ s e s', system.next s e = some s' → Complete s' → Complete s :=
    fun s e s' hnext hcomplete => (Step.of_step hnext).complete_before hcomplete
  have hs := init_inv hinit
  rcases hinit with ⟨sockfd, conn, cb, cb', mark, -, rfl⟩
  apply system.run_iff_along hinv hstep hlost ⟨hs, Reports.start _⟩ _ hrun
  intro log hlog
  contradiction

def destroyedUp : List Event :=
  established ++ [.connectDestroyed, .goDown]

theorem destroyed_after_down_up
    : ∃ s, system.run (.start fresh) destroyedUp = some s ∧ s.destroyed.isSome = true
      ∧ ∀ log, s.destroyed = some log → ∃ pre post, log = pre ++ .connectionCallback true :: post
          ∧ .connectionCallback false ∈ post := by
  have hrun : (system.run (.start fresh) destroyedUp).any (·.destroyed.isSome) = true := by
    decide +kernel
  rcases (Option.any_eq_true _ _).mp hrun with ⟨s, hs, hdestroyed⟩
  refine ⟨s, hs, hdestroyed, ?_⟩
  rw [destroyed_after_down fresh_init hs]
  decide +kernel

def destroyedShutDown : List Event :=
  established ++ [.shutdown .owner, .setState .owner, .shutdownRun .owner, .connectDestroyed]

theorem destroyed_unreported
    : ∃ s, system.run (.start fresh) destroyedShutDown = some s
      ∧ ∃ log, s.destroyed = some log ∧ .connectionCallback true ∈ log
        ∧ .connectionCallback false ∉ log := by
  have hrun : (system.run (.start fresh) destroyedShutDown).any (fun s =>
      s.destroyed.any fun log => decide (.connectionCallback true ∈ log
        ∧ .connectionCallback false ∉ log)) = true := by
    decide +kernel
  rcases (Option.any_eq_true _ _).mp hrun with ⟨s, hs, hlog⟩
  rcases (Option.any_eq_true _ _).mp hlog with ⟨log, hdestroyed, hlog⟩
  exact ⟨s, hs, log, hdestroyed, of_decide_eq_true hlog⟩

end Threads

end TcpConnection
