import Mmuduo.EventLoop.Impl

namespace EventLoop

variable {F : Type}

inductive LoopStep (s : State F) : Bool → State F → Prop where
  | enter (hpc : s.pc = .outside)
    : LoopStep s active { s with pc := .entered, loop := { s.loop with looping := true } }
  | clearQuit (hpc : s.pc = .entered)
    : LoopStep s active { s with pc := .test, loop := { s.loop with quit := false } }
  | testQuit (hpc : s.pc = .test) (hquit : s.loop.quit = true)
    : LoopStep s active { s with pc := .leaving }
  | testPoll (hpc : s.pc = .test) (hquit : s.loop.quit = false)
    : LoopStep s active { s with pc := .polling }
  | pollReturn (hpc : s.pc = .polling) (hactive : active = true → 0 < s.loop.wakeUpFd)
    : LoopStep s active { s with pc := .handling active }
  | handRead (hpc : s.pc = .handling true)
    : LoopStep s active { s with pc := .handling false, loop := s.loop.handRead }
  | setFlag (hpc : s.pc = .handling false)
    : LoopStep s active
        { s with pc := .flagSet, loop := { s.loop with callingPendingFunctors := true } }
  | swap (hpc : s.pc = .flagSet)
    : LoopStep s active
        { s with
          pc := .running s.loop.pendingFunctors false
          loop := { s.loop with pendingFunctors := [] }
          functors := s.loop.pendingFunctors
          swapped := s.pushed.length }
  | runFunctor {queued : Queued F} {functors : List (Queued F)}
    (hpc : s.pc = .running (queued :: functors) false)
    : LoopStep s active
        { s with pc := .running functors true, executed := s.executed ++ [queued] }
  | functorReturn {functors : List (Queued F)} (hpc : s.pc = .running functors true)
    : LoopStep s active { s with pc := .running functors false }
  | clearFlag (hpc : s.pc = .running [] false)
    : LoopStep s active
        { s with
          pc := .test
          loop := { s.loop with callingPendingFunctors := false }
          functors := [] }
  | leave (hpc : s.pc = .leaving)
    : LoopStep s active
        { s with
          pc := .outside
          loop := { s.loop with looping := false }
          quitRequested := false }

theorem LoopStep.of_loopNext {s s' : State F} {active : Bool} (h : s.loopNext active = some s')
    : LoopStep s active s' := by
  unfold State.loopNext at h
  split at h
  . next hpc =>
    cases h
    exact .enter hpc
  . next hpc =>
    cases h
    exact .clearQuit hpc
  . next hpc =>
    cases h
    split
    . next hquit => exact .testQuit hpc hquit
    . next hquit => exact .testPoll hpc (by simpa using hquit)
  . next hpc =>
    split at h
    . next hactive =>
      cases h
      exact .pollReturn hpc hactive
    . simp at h
  . next hpc =>
    cases h
    exact .handRead hpc
  . next hpc =>
    cases h
    exact .setFlag hpc
  . next hpc =>
    cases h
    exact .swap hpc
  . next hpc =>
    cases h
    exact .runFunctor hpc
  . next hpc =>
    cases h
    exact .functorReturn hpc
  . next hpc =>
    cases h
    exact .clearFlag hpc
  . next hpc =>
    cases h
    exact .leave hpc

inductive Step (s : State F) : Event F → State F → Prop where
  | queueInLoop {caller : Caller} {functor : F} (hcall : s.canCall caller = true)
    : Step s (.queueInLoop caller functor) (s.queueInLoop caller functor)
  | runInLoop {n : Nat} {functor : F} (hcall : s.canCall (.other n) = true)
    : Step s (.runInLoop (.other n) functor) (s.queueInLoop (.other n) functor)
  | runDirectly {functor : F}
    : Step s (.runInLoop .owner functor) s
  | queueReturn {caller : Caller} {index : Nat} (hcall : s.calls caller = .queueing index)
    : Step s (.queueReturn caller) (s.queueReturn caller index)
  | quit {caller : Caller} (hcall : s.canCall caller = true)
    : Step s (.quit caller) (s.quit caller)
  | quitReturn {caller : Caller} (hcall : s.calls caller = .quitting)
    : Step s (.quitReturn caller) (s.quitReturn caller)
  | loop {active : Bool} {s' : State F} (hidle : s.calls .owner = .idle)
    (hloop : LoopStep s active s')
    : Step s (.loop active) s'

theorem Step.of_step {s s' : State F} {e : Event F} (h : step s e = some s') : Step s e s' := by
  unfold step at h
  split at h
  . split at h
    . next hcall =>
      cases h
      exact .queueInLoop hcall
    . simp at h
  . next caller functor =>
    split at h
    . next hcall =>
      cases h
      cases caller with
      | owner => exact .runDirectly
      | other n => exact .runInLoop hcall
    . simp at h
  . split at h
    . next hcall =>
      cases h
      exact .queueReturn hcall
    . simp at h
  . split at h
    . next hcall =>
      cases h
      exact .quit hcall
    . simp at h
  . split at h
    . next hcall =>
      cases h
      exact .quitReturn hcall
    . simp at h
  . split at h
    . next hidle => exact .loop hidle (.of_loopNext h)
    . simp at h

def Event.isCall : Event F → Bool
  | .loop _ => false
  | _ => true

theorem Step.pc_of_isCall {s s' : State F} {e : Event F} (h : Step s e s') (hcall : e.isCall = true)
    : s'.pc = s.pc := by
  cases h with
  | loop hidle hloop => simp [Event.isCall] at hcall
  | _ => rfl

section Fields

variable (loop : EventLoop F) (s : State F) (caller : Caller)

@[simp]
theorem queueWakeUp_pendingFunctors
    : (loop.queueWakeUp caller).pendingFunctors = loop.pendingFunctors := by
  unfold queueWakeUp
  split
  . rfl
  . rfl

@[simp]
theorem queueWakeUp_callingPendingFunctors
    : (loop.queueWakeUp caller).callingPendingFunctors = loop.callingPendingFunctors := by
  unfold queueWakeUp
  split
  . rfl
  . rfl

@[simp]
theorem queueWakeUp_quit : (loop.queueWakeUp caller).quit = loop.quit := by
  unfold queueWakeUp
  split
  . rfl
  . rfl

@[simp]
theorem quitWakeUp_pendingFunctors
    : (loop.quitWakeUp caller).pendingFunctors = loop.pendingFunctors := by
  unfold quitWakeUp
  split
  . rfl
  . rfl

@[simp]
theorem quitWakeUp_callingPendingFunctors
    : (loop.quitWakeUp caller).callingPendingFunctors = loop.callingPendingFunctors := by
  unfold quitWakeUp
  split
  . rfl
  . rfl

@[simp]
theorem quitWakeUp_quit : (loop.quitWakeUp caller).quit = loop.quit := by
  unfold quitWakeUp
  split
  . rfl
  . rfl

end Fields

end EventLoop
