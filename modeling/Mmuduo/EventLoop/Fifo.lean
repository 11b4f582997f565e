import Mmuduo.EventLoop.Lemmas

namespace EventLoop

variable {F : Type}

def Pc.inBatch : Pc F → Bool
  | .running _ _ => true
  | _ => false

structure Fifo (s : State F) : Prop where
  sequence : s.executed ++ s.pc.rest ++ s.loop.pendingFunctors = s.pushed
  swapped_le : s.swapped ≤ s.pushed.length
  batch : ∀ functors inFunctor, s.pc = .running functors inFunctor →
    s.executed ++ functors = s.pushed.take s.swapped

namespace Fifo

variable {s s' : State F}

theorem of_sequence (hpc : s.pc.inBatch = false)
    (hsequence : s.executed ++ s.loop.pendingFunctors = s.pushed)
    (hle : s.swapped ≤ s.pushed.length)
    : Fifo s := by
  constructor
  . cases h : s.pc with
    | running functors inFunctor => simp [h, Pc.inBatch] at hpc
    | _ => simpa [Pc.rest] using hsequence
  . exact hle
  . intro functors inFunctor h
    simp [h, Pc.inBatch] at hpc

theorem sequence_of_not_inBatch (h : Fifo s) (hpc : s.pc.inBatch = false)
    : s.executed ++ s.loop.pendingFunctors = s.pushed := by
  have hsequence := h.sequence
  cases hcases : s.pc with
  | running functors inFunctor => simp [hcases, Pc.inBatch] at hpc
  | _ => simpa [hcases, Pc.rest] using hsequence

theorem of_running {functors : List (Queued F)} {inFunctor : Bool}
    (hpc : s.pc = .running functors inFunctor)
    (hsequence : s.executed ++ functors ++ s.loop.pendingFunctors = s.pushed)
    (hle : s.swapped ≤ s.pushed.length)
    (hbatch : s.executed ++ functors = s.pushed.take s.swapped)
    : Fifo s := by
  constructor
  . rw [hpc]
    exact hsequence
  . exact hle
  . intro functors' inFunctor' hpc'
    rw [hpc] at hpc'
    cases hpc'
    exact hbatch

theorem new : Fifo (.new : State F) := by
  apply of_sequence
  . rfl
  . rfl
  . apply Nat.le_refl

theorem queueInLoop (h : Fifo s) (caller : Caller) (functor : F)
    : Fifo (s.queueInLoop caller functor) := by
  constructor
  . simp only [State.queueInLoop, State.setCall, push]
    rw [← List.append_assoc]
    rw [h.sequence]
  . simp only [State.queueInLoop, State.setCall, List.length_append]
    have := h.swapped_le
    omega
  . intro functors inFunctor hpc
    simp only [State.queueInLoop, State.setCall] at hpc ⊢
    rw [List.take_append_of_le_length h.swapped_le]
    apply h.batch _ _ hpc

theorem queueReturn (h : Fifo s) (caller : Caller) (index : Nat)
    : Fifo (s.queueReturn caller index) := by
  constructor
  . simp only [State.queueReturn, State.setCall, queueWakeUp_pendingFunctors]
    apply h.sequence
  . apply h.swapped_le
  . apply h.batch

theorem quit (h : Fifo s) (caller : Caller) : Fifo (s.quit caller) := by
  constructor
  . apply h.sequence
  . apply h.swapped_le
  . apply h.batch

theorem quitReturn (h : Fifo s) (caller : Caller) : Fifo (s.quitReturn caller) := by
  constructor
  . simp only [State.quitReturn, State.setCall, quitWakeUp_pendingFunctors]
    apply h.sequence
  . apply h.swapped_le
  . apply h.batch

theorem loopStep {active : Bool} (h : Fifo s) (hstep : LoopStep s active s') : Fifo s' := by
  have hidle := h.sequence_of_not_inBatch
  have hle := h.swapped_le
  cases hstep with
  | enter hpc => exact of_sequence rfl (hidle (by simp [hpc, Pc.inBatch])) hle
  | clearQuit hpc => exact of_sequence rfl (hidle (by simp [hpc, Pc.inBatch])) hle
  | testQuit hpc hquit => exact of_sequence rfl (hidle (by simp [hpc, Pc.inBatch])) hle
  | testPoll hpc hquit => exact of_sequence rfl (hidle (by simp [hpc, Pc.inBatch])) hle
  | pollReturn hpc hactive => exact of_sequence rfl (hidle (by simp [hpc, Pc.inBatch])) hle
  | handRead hpc => exact of_sequence rfl (hidle (by simp [hpc, Pc.inBatch])) hle
  | setFlag hpc => exact of_sequence rfl (hidle (by simp [hpc, Pc.inBatch])) hle
  | leave hpc => exact of_sequence rfl (hidle (by simp [hpc, Pc.inBatch])) hle
  | swap hpc =>
    have hsequence := hidle (by simp [hpc, Pc.inBatch])
    apply of_running rfl
    . simpa using hsequence
    . apply Nat.le_refl
    . simpa using hsequence
  | runFunctor hpc =>
    have hsequence := h.sequence
    rw [hpc] at hsequence
    apply of_running rfl
    . simpa [Pc.rest] using hsequence
    . exact hle
    . simpa using h.batch _ _ hpc
  | functorReturn hpc =>
    have hsequence := h.sequence
    rw [hpc] at hsequence
    exact of_running rfl hsequence hle (h.batch _ _ hpc)
  | clearFlag hpc =>
    have hsequence := h.sequence
    rw [hpc] at hsequence
    apply of_sequence rfl
    . simpa [Pc.rest] using hsequence
    . exact hle

theorem step {e : Event F} (h : Fifo s) (hstep : Step s e s') : Fifo s' := by
  cases hstep with
  | queueInLoop hcall => apply h.queueInLoop
  | runInLoop hcall => apply h.queueInLoop
  | runDirectly => exact h
  | queueReturn hcall => apply h.queueReturn
  | quit hcall => apply h.quit
  | quitReturn hcall => apply h.quitReturn
  | loop hidle hloop => apply h.loopStep hloop

theorem of_reachable (h : (system F).Reachable s) : Fifo s := by
  apply LTS.Reachable.invariant (system F) _ _ h
  . intro s hinit
    rw [hinit]
    exact new
  . intro s e s' hs hnext
    apply hs.step (.of_step hnext)

theorem caller_prefix (h : Fifo s) (caller : Caller)
    : s.executed.filter (·.caller = caller) <+: s.pushed.filter (·.caller = caller) := by
  rw [← h.sequence, List.append_assoc, List.filter_append]
  apply List.prefix_append

end Fifo

@[simp]
theorem waiting_new : (State.new : State F).waiting = [] := by
  rfl

theorem LoopStep.waiting_eq {s s' : State F} {active : Bool} (h : LoopStep s active s')
    : s.waiting = s.pc.starting.toList ++ s'.waiting := by
  unfold State.waiting
  cases h with
  | swap hpc =>
    rw [hpc]
    simp [Pc.rest, Pc.starting]
  | enter hpc =>
    rw [hpc]
    rfl
  | clearQuit hpc =>
    rw [hpc]
    rfl
  | testQuit hpc hquit =>
    rw [hpc]
    rfl
  | testPoll hpc hquit =>
    rw [hpc]
    rfl
  | pollReturn hpc hactive =>
    rw [hpc]
    rfl
  | handRead hpc =>
    rw [hpc]
    rfl
  | setFlag hpc =>
    rw [hpc]
    rfl
  | runFunctor hpc =>
    rw [hpc]
    rfl
  | functorReturn hpc =>
    rw [hpc]
    simp [Pc.rest, Pc.starting]
  | clearFlag hpc =>
    rw [hpc]
    rfl
  | leave hpc =>
    rw [hpc]
    rfl

theorem mem_waiting_of_starting {s : State F} {queued : Queued F}
    (h : s.pc.starting = some queued)
    : queued ∈ s.waiting := by
  unfold Pc.starting at h
  split at h
  . next hpc =>
    cases h
    rw [State.waiting, hpc]
    apply List.mem_cons_self
  . simp at h

theorem waiting_queueInLoop (s : State F) (caller : Caller) (functor : F)
    : (s.queueInLoop caller functor).waiting = s.waiting ++ [⟨caller, functor⟩] := by
  unfold State.waiting
  rw [List.append_assoc]
  rfl

theorem waiting_queueReturn (s : State F) (caller : Caller) (index : Nat)
    : (s.queueReturn caller index).waiting = s.waiting := by
  simp [State.waiting, State.queueReturn, State.setCall]

theorem waiting_quitReturn (s : State F) (caller : Caller)
    : (s.quitReturn caller).waiting = s.waiting := by
  simp [State.waiting, State.quitReturn, State.setCall]

def Event.pushes : Event F → Option (Queued F)
  | .queueInLoop caller functor => some ⟨caller, functor⟩
  | .runInLoop caller functor => some ⟨caller, functor⟩
  | _ => none

theorem Step.waiting_eq {s s' : State F} {e : Event F} (h : Step s e s')
    : s'.waiting = s.waiting ∨ (∃ queued, e.pushes = some queued ∧ s'.waiting = s.waiting ++ [queued])
      ∨ ∃ active, e = .loop active ∧ s.waiting = s.pc.starting.toList ++ s'.waiting := by
  cases h with
  | queueInLoop hcall =>
    right; left
    exact ⟨_, rfl, waiting_queueInLoop _ _ _⟩
  | runInLoop hcall =>
    right; left
    exact ⟨_, rfl, waiting_queueInLoop _ _ _⟩
  | runDirectly =>
    left
    rfl
  | queueReturn hcall =>
    left
    apply waiting_queueReturn
  | quit hcall =>
    left
    rfl
  | quitReturn hcall =>
    left
    apply waiting_quitReturn
  | loop hidle hloop =>
    right; right
    exact ⟨_, rfl, hloop.waiting_eq⟩

theorem Step.mem_waiting {s s' : State F} {e : Event F} (h : Step s e s') {queued : Queued F}
    (hmem : queued ∈ s'.waiting)
    : queued ∈ s.waiting ∨ e.pushes = some queued := by
  rcases h.waiting_eq with heq | ⟨pushed, hpush, heq⟩ | ⟨active, -, heq⟩
  . rw [heq] at hmem
    exact Or.inl hmem
  . rw [heq, List.mem_append, List.mem_singleton] at hmem
    apply hmem.imp_right
    intro hqueued
    rw [hqueued]
    exact hpush
  . left
    rw [heq]
    apply List.mem_append_right _ hmem

theorem waiting_of_queueInLoop {s s' : State F} {caller : Caller} {functor : F}
    (h : EventLoop.step s (.queueInLoop caller functor) = some s')
    : s'.waiting = s.waiting ++ [⟨caller, functor⟩] := by
  cases Step.of_step h with
  | queueInLoop hcall => apply waiting_queueInLoop

theorem waiting_of_runInLoop {s s' : State F} {n : Nat} {functor : F}
    (h : EventLoop.step s (.runInLoop (.other n) functor) = some s')
    : s'.waiting = s.waiting ++ [⟨.other n, functor⟩] := by
  cases Step.of_step h with
  | runInLoop hcall => apply waiting_queueInLoop

theorem waiting_of_queueReturn {s s' : State F} {caller : Caller}
    (h : EventLoop.step s (.queueReturn caller) = some s')
    : s'.waiting = s.waiting := by
  cases Step.of_step h with
  | queueReturn hcall => apply waiting_queueReturn

theorem waiting_of_loop {s s' : State F} {active : Bool}
    (h : EventLoop.step s (.loop active) = some s')
    : s.waiting = s.pc.starting.toList ++ s'.waiting := by
  cases Step.of_step h with
  | loop hidle hloop => apply hloop.waiting_eq

theorem executed_in_order {s : State F} (h : (system F).Reachable s)
    : s.executed ++ s.pc.rest ++ s.loop.pendingFunctors = s.pushed
      ∧ (∀ caller, s.executed.filter (·.caller = caller) <+: s.pushed.filter (·.caller = caller))
      ∧ ∀ functors inFunctor, s.pc = .running functors inFunctor →
        s.executed ++ functors = s.pushed.take s.swapped := by
  have hfifo := Fifo.of_reachable h
  exact ⟨hfifo.sequence, hfifo.caller_prefix, hfifo.batch⟩

def requeue : List (Event Nat) :=
  [.queueInLoop (.other 1) 10, .runInLoop (.other 2) 20, .loop false, .loop false, .loop false,
    .queueReturn (.other 1), .loop true, .loop false, .loop false, .loop false, .loop false,
    .queueInLoop .owner 30]

theorem executed_in_order_requeue
    : ∃ s, (system Nat).run .new requeue = some s
      ∧ s.executed = [⟨.other 1, 10⟩]
      ∧ s.executed ++ s.pc.rest ++ s.loop.pendingFunctors = s.pushed
      ∧ (∀ caller, s.executed.filter (·.caller = caller) <+: s.pushed.filter (·.caller = caller))
      ∧ ∀ functors inFunctor, s.pc = .running functors inFunctor →
        s.executed ++ functors = s.pushed.take s.swapped := by
  have hrun : (system Nat).run .new requeue = some _ := rfl
  refine ⟨_, hrun, rfl, ?_⟩
  apply executed_in_order (LTS.Reachable.of_run _ (.init rfl) hrun)

end EventLoop
