import Mmuduo.EventLoop.Lemmas

namespace EventLoop

variable {F : Type}

/--
The loop thread queues nothing while it is outside of `loop()`.
-/
def ownerQuiet (s : State F) : Event F → Bool
  | .queueInLoop .owner _ =>
    match s.pc with
    | .outside => false
    | _ => true
  | _ => true

def quietSystem (F : Type) : LTS (State F) (Event F) :=
  (system F).restrict fun s e => ownerQuiet s e = true

def Pc.flag : Pc F → Bool
  | .flagSet => true
  | .running _ _ => true
  | _ => false

def Pc.willSwap : Pc F → Bool
  | .handling _ => true
  | .flagSet => true
  | _ => false

def Pc.callback : Pc F → Bool
  | .handling _ => true
  | .running _ inFunctor => inFunctor
  | _ => false

def Notified (s : State F) : Prop :=
  0 < s.loop.wakeUpFd
    ∨ (∃ n index, s.calls (.other n) = .queueing index)
    ∨ (∃ index, s.calls .owner = .queueing index) ∧ s.loop.callingPendingFunctors = true

structure Woken (s : State F) : Prop where
  flag : s.loop.callingPendingFunctors = s.pc.flag
  owner : ∀ index, s.calls .owner = .queueing index → s.pc.callback = true
  notified : s.pc.willSwap = false → s.loop.pendingFunctors ≠ [] → Notified s

theorem Pc.flag_of_callback {pc : Pc F} (hcallback : pc.callback = true)
    (hswap : pc.willSwap = false)
    : pc.flag = true := by
  cases pc with
  | running functors inFunctor => rfl
  | handling active => simp [Pc.willSwap] at hswap
  | _ => simp [Pc.callback] at hcallback

theorem callback_of_ownerQuiet {s : State F} {functor : F} (hcall : s.canCall .owner = true)
    (hquiet : ownerQuiet s (.queueInLoop .owner functor) = true)
    : s.pc.callback = true := by
  simp only [State.canCall, Caller.isInLoopThread, Bool.not_true, Bool.false_or,
    Bool.and_eq_true] at hcall
  have huser := hcall.2
  simp only [ownerQuiet] at hquiet
  cases hpc : s.pc with
  | outside => simp [hpc] at hquiet
  | handling active => rfl
  | running functors inFunctor => simpa [hpc, Pc.userCode, Pc.callback] using huser
  | _ => simp [hpc, Pc.userCode] at huser

theorem idle_of_canCall {s : State F} {caller : Caller} (hcall : s.canCall caller = true)
    : s.calls caller = .idle := by
  simp only [State.canCall, Bool.and_eq_true, decide_eq_true_eq] at hcall
  exact hcall.1

theorem Notified.setCall {s s' : State F} {caller : Caller} {call : Call} (h : Notified s)
    (hcaller : ∀ index, s.calls caller ≠ .queueing index)
    (hfd : s'.loop.wakeUpFd = s.loop.wakeUpFd)
    (hflag : s'.loop.callingPendingFunctors = s.loop.callingPendingFunctors)
    (hcalls : s'.calls = Function.update s.calls caller call)
    : Notified s' := by
  have hkeep : ∀ c index, s.calls c = .queueing index → s'.calls c = .queueing index := by
    intro c index hc
    have hne : c ≠ caller := by
      intro heq
      exact hcaller index (heq ▸ hc)
    rw [hcalls, Function.update_of_ne hne]
    exact hc
  rcases h with h | ⟨n, index, h⟩ | ⟨⟨index, h⟩, hcalling⟩
  . left
    rw [hfd]
    exact h
  . right; left
    exact ⟨n, index, hkeep _ _ h⟩
  . right; right
    exact ⟨⟨index, hkeep _ _ h⟩, hflag.trans hcalling⟩

namespace Woken

variable {s s' : State F}

theorem new : Woken (.new : State F) := by
  constructor
  . rfl
  . intro index hcall
    simp [State.new] at hcall
  . intro hswap hpending
    simp [State.new, EventLoop.new] at hpending

theorem queueInLoop {caller : Caller} (h : Woken s) (functor : F)
    (howner : caller = .owner → s.pc.callback = true)
    : Woken (s.queueInLoop caller functor) := by
  have hself : (s.queueInLoop caller functor).calls caller = .queueing s.pushed.length := by
    simp [State.queueInLoop, State.setCall]
  constructor
  . apply h.flag
  . intro index hcall
    cases caller with
    | owner => exact howner rfl
    | other n => apply h.owner index hcall
  . intro hswap hpending
    cases caller with
    | owner =>
      right; right
      refine ⟨⟨_, hself⟩, ?_⟩
      change s.loop.callingPendingFunctors = true
      rw [h.flag]
      apply Pc.flag_of_callback (howner rfl) hswap
    | other n =>
      right; left
      exact ⟨n, _, hself⟩

theorem queueReturn {caller : Caller} {index : Nat} (h : Woken s)
    (hcall : s.calls caller = .queueing index)
    : Woken (s.queueReturn caller index) := by
  constructor
  . simp only [State.queueReturn, State.setCall, queueWakeUp_callingPendingFunctors]
    apply h.flag
  . intro index' hcall'
    cases caller with
    | owner => simp [State.queueReturn, State.setCall] at hcall'
    | other n => apply h.owner index' hcall'
  . intro hswap hpending
    left
    have hwrite : (!caller.isInLoopThread || s.loop.callingPendingFunctors) = true := by
      cases caller with
      | owner =>
        rw [h.flag]
        apply Pc.flag_of_callback (h.owner index hcall) hswap
      | other n => rfl
    simp only [State.queueReturn, State.setCall, queueWakeUp, hwrite, if_true]
    apply Nat.succ_pos

theorem quit {caller : Caller} (h : Woken s) (hcall : s.canCall caller = true)
    : Woken (s.quit caller) := by
  have hidle := idle_of_canCall hcall
  constructor
  . apply h.flag
  . intro index hqueueing
    cases caller with
    | owner => simp [State.quit, State.setCall] at hqueueing
    | other n => apply h.owner index hqueueing
  . intro hswap hpending
    refine Notified.setCall (h.notified hswap hpending) ?_ rfl rfl rfl
    simp [hidle]

theorem quitReturn {caller : Caller} (h : Woken s) (hcall : s.calls caller = .quitting)
    : Woken (s.quitReturn caller) := by
  constructor
  . simp only [State.quitReturn, State.setCall, quitWakeUp_callingPendingFunctors]
    apply h.flag
  . intro index hqueueing
    cases caller with
    | owner => simp [State.quitReturn, State.setCall] at hqueueing
    | other n => apply h.owner index hqueueing
  . intro hswap hpending
    cases caller with
    | owner =>
      refine Notified.setCall (h.notified hswap hpending) ?_ rfl rfl rfl
      simp [hcall]
    | other n =>
      left
      apply Nat.succ_pos

theorem loopNotified (h : Woken s) (hidle : s.calls .owner = .idle) (hswap : s.pc.willSwap = false)
    (hfd : s'.loop.wakeUpFd = s.loop.wakeUpFd) (hcalls : s'.calls = s.calls)
    (hpending : s'.loop.pendingFunctors = s.loop.pendingFunctors)
    : s'.loop.pendingFunctors ≠ [] → Notified s' := by
  intro hne
  rw [hpending] at hne
  rcases h.notified hswap hne with hpos | hother | ⟨⟨index, howner⟩, -⟩
  . left
    rw [hfd]
    exact hpos
  . right; left
    rw [hcalls]
    exact hother
  . simp [hidle] at howner

theorem loopStep {active : Bool} (h : Woken s) (hidle : s.calls .owner = .idle)
    (hstep : LoopStep s active s')
    : Woken s' := by
  have hflag := h.flag
  have howner : ∀ (pc : Pc F) index, s.calls .owner = .queueing index → pc.callback = true := by
    simp [hidle]
  have hkeep := @loopNotified F s s' h hidle
  cases hstep with
  | enter hpc =>
    rw [hpc] at hflag hkeep
    exact ⟨hflag, howner _, fun _ => hkeep rfl rfl rfl rfl⟩
  | clearQuit hpc =>
    rw [hpc] at hflag hkeep
    exact ⟨hflag, howner _, fun _ => hkeep rfl rfl rfl rfl⟩
  | testQuit hpc hquit =>
    rw [hpc] at hflag hkeep
    exact ⟨hflag, howner _, fun _ => hkeep rfl rfl rfl rfl⟩
  | testPoll hpc hquit =>
    rw [hpc] at hflag hkeep
    exact ⟨hflag, howner _, fun _ => hkeep rfl rfl rfl rfl⟩
  | runFunctor hpc =>
    rw [hpc] at hflag hkeep
    exact ⟨hflag, howner _, fun _ => hkeep rfl rfl rfl rfl⟩
  | functorReturn hpc =>
    rw [hpc] at hflag hkeep
    exact ⟨hflag, howner _, fun _ => hkeep rfl rfl rfl rfl⟩
  | clearFlag hpc =>
    rw [hpc] at hkeep
    exact ⟨rfl, howner _, fun _ => hkeep rfl rfl rfl rfl⟩
  | leave hpc =>
    rw [hpc] at hflag hkeep
    exact ⟨hflag, howner _, fun _ => hkeep rfl rfl rfl rfl⟩
  | pollReturn hpc hactive =>
    rw [hpc] at hflag
    refine ⟨hflag, howner _, ?_⟩
    simp [Pc.willSwap]
  | handRead hpc =>
    rw [hpc] at hflag
    refine ⟨hflag, howner _, ?_⟩
    simp [Pc.willSwap]
  | setFlag hpc =>
    refine ⟨rfl, howner _, ?_⟩
    simp [Pc.willSwap]
  | swap hpc =>
    rw [hpc] at hflag
    refine ⟨hflag, howner _, ?_⟩
    simp

theorem step {e : Event F} (h : Woken s) (hquiet : ownerQuiet s e = true) (hstep : Step s e s')
    : Woken s' := by
  cases hstep with
  | @queueInLoop caller functor hcall =>
    apply h.queueInLoop
    intro howner
    rw [howner] at hcall hquiet
    apply callback_of_ownerQuiet hcall hquiet
  | runInLoop hcall =>
    apply h.queueInLoop
    simp
  | runDirectly => exact h
  | queueReturn hcall => apply h.queueReturn hcall
  | quit hcall => apply h.quit hcall
  | quitReturn hcall => apply h.quitReturn hcall
  | loop hidle hloop => apply h.loopStep hidle hloop

end Woken

theorem no_lost_wakeUp {s : State F} (h : (quietSystem F).Reachable s) (hpc : s.pc = .polling)
    (hpending : s.loop.pendingFunctors ≠ [])
    : 0 < s.loop.wakeUpFd ∨ ∃ n index, s.calls (.other n) = .queueing index := by
  have hwoken : Woken s := by
    apply LTS.Reachable.invariant (quietSystem F) _ _ h
    . intro s hinit
      rw [hinit]
      apply Woken.new
    . intro s e s' hs hnext
      rw [quietSystem, LTS.restrict_next_eq_some] at hnext
      apply hs.step hnext.1 (.of_step hnext.2)
  rcases hwoken.notified (by simp [hpc, Pc.willSwap]) hpending with hfd | hother | ⟨⟨index, hcall⟩, -⟩
  . exact Or.inl hfd
  . exact Or.inr hother
  . have := hwoken.owner index hcall
    simp [hpc, Pc.callback] at this

def queueInFunctor : List (Event Nat) :=
  [.queueInLoop (.other 1) 10, .loop false, .loop false, .loop false, .queueReturn (.other 1),
    .loop true, .loop false, .loop false, .loop false, .loop false, .queueInLoop .owner 20,
    .queueReturn .owner, .loop false, .loop false, .loop false]

theorem no_lost_wakeUp_queueInFunctor
    : ∃ s, (quietSystem Nat).run .new queueInFunctor = some s
      ∧ s.pc = .polling ∧ s.loop.pendingFunctors ≠ []
      ∧ (0 < s.loop.wakeUpFd ∨ ∃ n index, s.calls (.other n) = .queueing index) := by
  have hrun : (quietSystem Nat).run .new queueInFunctor = some _ := rfl
  have hpending : [(⟨.owner, 20⟩ : Queued Nat)] ≠ [] := by
    simp
  refine ⟨_, hrun, rfl, hpending, ?_⟩
  apply no_lost_wakeUp (LTS.Reachable.of_run _ (.init rfl) hrun) rfl hpending

/--
The same holds for `quit()`: the flag is not set while the loop thread blocks, unless the poller is
woken up for it.
-/
structure QuitWoken (s : State F) : Prop where
  owner : s.calls .owner = .quitting → s.pc.userCode = true
  notified : s.pc = .polling → s.loop.quit = true →
    0 < s.loop.wakeUpFd ∨ ∃ n, s.calls (.other n) = .quitting

namespace QuitWoken

variable {s s' : State F}

theorem new : QuitWoken (.new : State F) := by
  constructor
  . simp [State.new]
  . simp [State.new]

theorem setCall {caller : Caller} {call : Call} (h : QuitWoken s)
    (hcaller : s.calls caller ≠ .quitting) (hcall : call ≠ .quitting) (hpc : s'.pc = s.pc)
    (hquit : s'.loop.quit = s.loop.quit) (hfd : s.loop.wakeUpFd ≤ s'.loop.wakeUpFd)
    (hcalls : s'.calls = Function.update s.calls caller call)
    : QuitWoken s' := by
  constructor
  . rw [hcalls, hpc]
    by_cases heq : Caller.owner = caller
    . rw [heq, Function.update_self]
      intro hset
      exact absurd hset hcall
    . rw [Function.update_of_ne heq]
      apply h.owner
  . intro hpolling hset
    rw [hpc] at hpolling
    rw [hquit] at hset
    rcases h.notified hpolling hset with hpos | ⟨n, hn⟩
    . left
      omega
    . right
      refine ⟨n, ?_⟩
      have hne : Caller.other n ≠ caller := by
        intro heq
        exact hcaller (heq ▸ hn)
      rw [hcalls, Function.update_of_ne hne]
      exact hn

theorem wakeUpFd_le_queueWakeUp (loop : EventLoop F) (caller : Caller)
    : loop.wakeUpFd ≤ (loop.queueWakeUp caller).wakeUpFd := by
  unfold queueWakeUp
  split
  . apply Nat.le_succ
  . apply Nat.le_refl

theorem quit {caller : Caller} (h : QuitWoken s) (hcall : s.canCall caller = true)
    : QuitWoken (s.quit caller) := by
  have huser : caller = .owner → s.pc.userCode = true := by
    intro howner
    rw [howner] at hcall
    simp only [State.canCall, Caller.isInLoopThread, Bool.not_true, Bool.false_or,
      Bool.and_eq_true] at hcall
    exact hcall.2
  constructor
  . intro howner
    cases caller with
    | owner => exact huser rfl
    | other n => apply h.owner howner
  . intro hpolling hset
    change s.pc = .polling at hpolling
    cases caller with
    | owner => simp [hpolling, Pc.userCode] at huser
    | other n =>
      right
      refine ⟨n, ?_⟩
      simp [State.quit, State.setCall]

theorem quitReturn {caller : Caller} (h : QuitWoken s) (hcall : s.calls caller = .quitting)
    : QuitWoken (s.quitReturn caller) := by
  constructor
  . intro howner
    cases caller with
    | owner => simp [State.quitReturn, State.setCall] at howner
    | other n => apply h.owner howner
  . intro hpolling hset
    change s.pc = .polling at hpolling
    cases caller with
    | owner =>
      have := h.owner hcall
      simp [hpolling, Pc.userCode] at this
    | other n =>
      left
      apply Nat.succ_pos

theorem loopStep {active : Bool} (hidle : s.calls .owner = .idle) (hstep : LoopStep s active s')
    : QuitWoken s' := by
  cases hstep with
  | testPoll hpc hquit =>
    constructor
    . simp [hidle]
    . simp [hquit]
  | _ =>
    constructor
    . simp [hidle]
    . simp

theorem step {e : Event F} (h : QuitWoken s) (hstep : Step s e s') : QuitWoken s' := by
  cases hstep with
  | queueInLoop hcall =>
    have hidle := idle_of_canCall hcall
    refine h.setCall ?_ ?_ rfl rfl (Nat.le_refl _) rfl
    . simp [hidle]
    . simp
  | runInLoop hcall =>
    have hidle := idle_of_canCall hcall
    refine h.setCall ?_ ?_ rfl rfl (Nat.le_refl _) rfl
    . simp [hidle]
    . simp
  | runDirectly => exact h
  | queueReturn hcall =>
    refine h.setCall ?_ ?_ rfl (queueWakeUp_quit _ _) (wakeUpFd_le_queueWakeUp _ _) rfl
    . simp [hcall]
    . simp
  | quit hcall => apply h.quit hcall
  | quitReturn hcall => apply h.quitReturn hcall
  | loop hidle hloop => exact loopStep hidle hloop

end QuitWoken

end EventLoop
