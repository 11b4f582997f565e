import Mmuduo.EventLoop.Fifo

namespace EventLoop

variable {F : Type}

def Pc.beforeSwap : Pc F → Bool
  | .outside => true
  | .entered => true
  | .polling => true
  | .handling _ => true
  | .flagSet => true
  | _ => false

def State.drained (s : State F) : Bool :=
  s.returned.all fun index => decide (index + s.loop.pendingFunctors.length < s.pushed.length)

def quitInTime (s : State F) : Event F → Bool
  | .quit _ => s.pc.beforeSwap || s.drained
  | _ => true

def timelySystem (F : Type) : LTS (State F) (Event F) :=
  (system F).restrict fun s e => quitInTime s e = true

def State.reach (s : State F) : Nat :=
  match s.pc with
  | .running functors _ => s.executed.length + functors.length
  | .test => s.executed.length
  | .leaving => s.executed.length
  | _ => s.pushed.length

structure Settled (s : State F) : Prop where
  fifo : Fifo s
  queueing_lt : ∀ caller index, s.calls caller = .queueing index → index < s.pushed.length
  returned_lt : ∀ index ∈ s.returned, index < s.pushed.length
  mustRun_returned : ∀ index ∈ s.mustRun, index ∈ s.returned
  quit_of_leaving : s.pc = .leaving → s.loop.quit = true
  reached : s.loop.quit = true → ∀ index ∈ s.mustRun, index < s.reach

theorem Fifo.length_pushed {s : State F} (h : Fifo s)
    : s.pushed.length
      =
      s.executed.length + s.pc.rest.length + s.loop.pendingFunctors.length := by
  rw [← h.sequence]
  simp only [List.length_append]

theorem Fifo.reach_eq {s : State F} (h : Fifo s) (hpc : s.pc.beforeSwap = false)
    : s.reach + s.loop.pendingFunctors.length = s.pushed.length := by
  have hlength := h.length_pushed
  unfold State.reach
  cases hcases : s.pc with
  | running functors inFunctor =>
    rw [hcases] at hlength
    apply hlength.symm
  | test =>
    rw [hcases] at hlength
    apply hlength.symm
  | leaving =>
    rw [hcases] at hlength
    apply hlength.symm
  | _ => simp [hcases, Pc.beforeSwap] at hpc

theorem State.reach_of_beforeSwap {s : State F} (hpc : s.pc.beforeSwap = true)
    : s.reach = s.pushed.length := by
  unfold State.reach
  cases hcases : s.pc with
  | running functors inFunctor => simp [hcases, Pc.beforeSwap] at hpc
  | test => simp [hcases, Pc.beforeSwap] at hpc
  | leaving => simp [hcases, Pc.beforeSwap] at hpc
  | _ => rfl

theorem Fifo.getElem?_executed {s : State F} (h : Fifo s) {index : Nat}
    (hindex : index < s.executed.length)
    : s.executed[index]? = s.pushed[index]? := by
  rw [← h.sequence, List.append_assoc]
  rw [List.getElem?_append_left hindex]

namespace Settled

variable {s s' : State F}

theorem new : Settled (.new : State F) := by
  constructor
  . apply Fifo.new
  . intro caller index hcall
    simp [State.new] at hcall
  . simp [State.new]
  . simp [State.new]
  . simp [State.new]
  . simp [State.new]

theorem mustRun_lt (h : Settled s) : ∀ index ∈ s.mustRun, index < s.pushed.length := by
  intro index hindex
  apply h.returned_lt index (h.mustRun_returned index hindex)

theorem reach_queueInLoop (s : State F) (caller : Caller) (functor : F)
    : s.reach ≤ (s.queueInLoop caller functor).reach := by
  simp only [State.reach, State.queueInLoop, State.setCall, List.length_append]
  cases s.pc with
  | running functors inFunctor => apply Nat.le_refl
  | test => apply Nat.le_refl
  | leaving => apply Nat.le_refl
  | _ => apply Nat.le_add_right

theorem queueInLoop (h : Settled s) (caller : Caller) (functor : F)
    : Settled (s.queueInLoop caller functor) := by
  have hlength : (s.queueInLoop caller functor).pushed.length = s.pushed.length + 1 := by
    simp [State.queueInLoop]
  constructor
  . apply h.fifo.queueInLoop caller functor
  . intro c index hcall
    rw [hlength]
    by_cases hc : c = caller
    . simp only [State.queueInLoop, State.setCall, hc, Function.update_self,
        Call.queueing.injEq] at hcall
      omega
    . simp only [State.queueInLoop, State.setCall, Function.update_of_ne hc] at hcall
      have := h.queueing_lt c index hcall
      omega
  . intro index hindex
    rw [hlength]
    have := h.returned_lt index hindex
    omega
  . apply h.mustRun_returned
  . apply h.quit_of_leaving
  . intro hquit index hindex
    apply Nat.lt_of_lt_of_le (h.reached hquit index hindex)
    apply reach_queueInLoop

theorem setCall_lt (h : Settled s) {caller : Caller} {call : Call}
    (hcall : ∀ index, call ≠ .queueing index) (c : Caller) (index : Nat)
    (hc : Function.update s.calls caller call c = .queueing index)
    : index < s.pushed.length := by
  by_cases heq : c = caller
  . rw [heq, Function.update_self] at hc
    exact absurd hc (hcall index)
  . rw [Function.update_of_ne heq] at hc
    apply h.queueing_lt c index hc

theorem queueReturn {caller : Caller} {index : Nat} (h : Settled s)
    (hcall : s.calls caller = .queueing index)
    : Settled (s.queueReturn caller index) := by
  constructor
  . apply h.fifo.queueReturn caller index
  . apply h.setCall_lt (by simp)
  . simp only [State.queueReturn, State.setCall, List.mem_cons]
    rintro i (rfl | hi)
    . apply h.queueing_lt caller i hcall
    . apply h.returned_lt i hi
  . intro i hi
    apply List.mem_cons_of_mem
    apply h.mustRun_returned i hi
  . simp only [State.queueReturn, State.setCall, queueWakeUp_quit]
    apply h.quit_of_leaving
  . simp only [State.queueReturn, State.setCall, queueWakeUp_quit]
    apply h.reached

theorem quit (h : Settled s) (caller : Caller) (htime : (s.pc.beforeSwap || s.drained) = true)
    : Settled (s.quit caller) := by
  constructor
  . apply h.fifo.quit caller
  . apply h.setCall_lt (by simp)
  . apply h.returned_lt
  . simp [State.quit, State.setCall]
  . simp [State.quit, State.setCall]
  . intro hquit index hindex
    change index ∈ s.returned at hindex
    change index < s.reach
    cases hpc : s.pc.beforeSwap with
    | true =>
      rw [State.reach_of_beforeSwap hpc]
      apply h.returned_lt index hindex
    | false =>
      have hreach := h.fifo.reach_eq hpc
      simp only [hpc, Bool.false_or, State.drained, List.all_eq_true, decide_eq_true_eq] at htime
      have := htime index hindex
      omega

theorem quitReturn (h : Settled s) (caller : Caller) : Settled (s.quitReturn caller) := by
  constructor
  . apply h.fifo.quitReturn caller
  . apply h.setCall_lt (by simp)
  . apply h.returned_lt
  . apply h.mustRun_returned
  . simp only [State.quitReturn, State.setCall, quitWakeUp_quit]
    apply h.quit_of_leaving
  . simp only [State.quitReturn, State.setCall, quitWakeUp_quit]
    apply h.reached

theorem loopStep {active : Bool} (h : Settled s) (hstep : LoopStep s active s') : Settled s' := by
  have hfifo := h.fifo.loopStep hstep
  have hlt := h.mustRun_lt
  have hreached := h.reached
  unfold State.reach at hreached
  cases hstep with
  | enter hpc =>
    exact ⟨hfifo, h.queueing_lt, h.returned_lt, h.mustRun_returned, by simp, fun _ => hlt⟩
  | clearQuit hpc =>
    exact ⟨hfifo, h.queueing_lt, h.returned_lt, h.mustRun_returned, by simp, by simp⟩
  | testQuit hpc hquit =>
    rw [hpc] at hreached
    exact ⟨hfifo, h.queueing_lt, h.returned_lt, h.mustRun_returned, fun _ => hquit, hreached⟩
  | testPoll hpc hquit =>
    exact ⟨hfifo, h.queueing_lt, h.returned_lt, h.mustRun_returned, by simp, fun _ => hlt⟩
  | pollReturn hpc hactive =>
    exact ⟨hfifo, h.queueing_lt, h.returned_lt, h.mustRun_returned, by simp, fun _ => hlt⟩
  | handRead hpc =>
    exact ⟨hfifo, h.queueing_lt, h.returned_lt, h.mustRun_returned, by simp, fun _ => hlt⟩
  | setFlag hpc =>
    exact ⟨hfifo, h.queueing_lt, h.returned_lt, h.mustRun_returned, by simp, fun _ => hlt⟩
  | swap hpc =>
    refine ⟨hfifo, h.queueing_lt, h.returned_lt, h.mustRun_returned, by simp, ?_⟩
    intro hquit index hindex
    have hlength := hfifo.length_pushed
    have := hlt index hindex
    simp only [Pc.rest, List.length_nil] at hlength
    simp only [State.reach]
    omega
  | runFunctor hpc =>
    refine ⟨hfifo, h.queueing_lt, h.returned_lt, h.mustRun_returned, by simp, ?_⟩
    intro hquit index hindex
    rw [hpc] at hreached
    have := hreached hquit index hindex
    simp only [List.length_cons] at this
    simp only [State.reach, List.length_append, List.length_singleton]
    omega
  | functorReturn hpc =>
    rw [hpc] at hreached
    exact ⟨hfifo, h.queueing_lt, h.returned_lt, h.mustRun_returned, by simp, hreached⟩
  | clearFlag hpc =>
    rw [hpc] at hreached
    exact ⟨hfifo, h.queueing_lt, h.returned_lt, h.mustRun_returned, by simp, hreached⟩
  | leave hpc =>
    exact ⟨hfifo, h.queueing_lt, h.returned_lt, h.mustRun_returned, by simp, fun _ => hlt⟩

theorem step {e : Event F} (h : Settled s) (htime : quitInTime s e = true) (hstep : Step s e s')
    : Settled s' := by
  cases hstep with
  | queueInLoop hcall => apply h.queueInLoop
  | runInLoop hcall => apply h.queueInLoop
  | runDirectly => exact h
  | queueReturn hcall => apply h.queueReturn hcall
  | quit hcall => apply h.quit _ htime
  | quitReturn hcall => apply h.quitReturn
  | loop hidle hloop => apply h.loopStep hloop

end Settled

def State.HasRun (s : State F) (index : Nat) : Prop :=
  ∃ queued, s.pushed[index]? = some queued ∧ s.executed[index]? = some queued

theorem queued_before_quit_runs {s : State F} (h : (timelySystem F).Reachable s)
    (hpc : s.pc = .leaving)
    : ∀ index ∈ s.mustRun, s.HasRun index := by
  have hsettled : Settled s := by
    apply LTS.Reachable.invariant (timelySystem F) _ _ h
    . intro s hinit
      rw [hinit]
      apply Settled.new
    . intro s e s' hs hnext
      rw [timelySystem, LTS.restrict_next_eq_some] at hnext
      apply hs.step hnext.1 (.of_step hnext.2)
  intro index hindex
  have hlt := hsettled.reached (hsettled.quit_of_leaving hpc) index hindex
  simp only [State.reach, hpc] at hlt
  refine ⟨s.executed[index], ?_, ?_⟩
  . rw [← hsettled.fifo.getElem?_executed hlt]
    exact List.getElem?_eq_getElem hlt
  . exact List.getElem?_eq_getElem hlt

def quitWhilePolling : List (Event Nat) :=
  [.loop false, .loop false, .loop false, .queueInLoop (.other 1) 10, .queueReturn (.other 1),
    .quit (.other 2), .quitReturn (.other 2), .loop true, .loop false, .loop false, .loop false,
    .loop false, .loop false, .loop false, .loop false]

theorem queued_before_quit_runs_polling
    : ∃ s, (timelySystem Nat).run .new quitWhilePolling = some s ∧ s.pc = .leaving
      ∧ s.mustRun = [0] ∧ ∀ index ∈ s.mustRun, s.HasRun index := by
  have hrun : (timelySystem Nat).run .new quitWhilePolling = some _ := rfl
  refine ⟨_, hrun, rfl, rfl, ?_⟩
  apply queued_before_quit_runs (LTS.Reachable.of_run _ (.init rfl) hrun) rfl

def quitAfterSwap : List (Event Nat) :=
  [.loop false, .loop false, .loop false, .loop false, .loop false, .loop false,
    .queueInLoop (.other 1) 10, .queueReturn (.other 1), .quit (.other 1), .quitReturn (.other 1),
    .loop false, .loop false]

theorem quit_drops_functor
    : ¬ ∀ s, (system Nat).Reachable s → s.pc = .leaving → ∀ index ∈ s.mustRun, s.HasRun index := by
  intro h
  have hrun : (system Nat).run .new quitAfterSwap = some _ := rfl
  have hreach := LTS.Reachable.of_run _ (.init rfl) hrun
  have hmem : 0 ∈ [0] := List.mem_singleton_self 0
  rcases h _ hreach rfl 0 hmem with ⟨queued, -, hexecuted⟩
  cases hexecuted

end EventLoop
