import Mmuduo.EventLoop.Progress
import Mmuduo.EventLoopThread.Quit

namespace EventLoop

variable {F : Type} {s s' : State F}

def Event.caller : Event F → Option Caller
  | .queueInLoop caller _ => some caller
  | .runInLoop caller _ => some caller
  | .queueReturn caller => some caller
  | .quit caller => some caller
  | .quitReturn caller => some caller
  | .loop _ => none

theorem calls_setCall {caller : Caller} {call : Call} (hcall : call ≠ .quitting) (c : Caller)
    : (s.setCall caller call).calls c = s.calls c
      ∨ (s.setCall caller call).calls c ≠ .quitting ∧ some caller = some c := by
  simp only [State.setCall]
  by_cases hc : c = caller
  . rw [hc, Function.update_self]
    exact Or.inr ⟨hcall, rfl⟩
  . rw [Function.update_of_ne hc]
    exact Or.inl rfl

theorem Step.calls_cases {e : Event F} (h : Step s e s') (hquit : ∀ caller, e ≠ .quit caller)
    (c : Caller)
    : s'.calls c = s.calls c ∨ s'.calls c ≠ .quitting ∧ e.caller = some c := by
  cases h with
  | queueInLoop hcall => exact calls_setCall (by simp) c
  | runInLoop hcall => exact calls_setCall (by simp) c
  | runDirectly => exact Or.inl rfl
  | queueReturn hcall => exact calls_setCall (by simp) c
  | quit hcall => exact absurd rfl (hquit _)
  | quitReturn hcall => exact calls_setCall (by simp) c
  | loop hidle hloop =>
    left
    cases hloop with
    | _ => rfl

theorem Step.quit_of_isCall {e : Event F} (h : Step s e s') (hcall : e.isCall = true)
    (hquit : ∀ caller, e ≠ .quit caller)
    : s'.loop.quit = s.loop.quit := by
  cases h with
  | queueReturn hcall => exact queueWakeUp_quit _ _
  | quit hcall => exact absurd rfl (hquit _)
  | quitReturn hcall => exact quitWakeUp_quit _ _
  | loop hidle hloop => cases hcall
  | _ => rfl

def State.remaining (s : State F) : Nat :=
  match s.pc with
  | .polling => 7 + 2 * s.loop.pendingFunctors.length
  | .handling wakeUpActive => 5 + wakeUpActive.toNat + 2 * s.loop.pendingFunctors.length
  | .flagSet => 4 + 2 * s.loop.pendingFunctors.length
  | .running functors inFunctor => 3 + inFunctor.toNat + 2 * functors.length
  | .test => 2
  | .leaving => 1
  | _ => 0

theorem remaining_le (s : State F) : s.remaining ≤ 7 + 2 * s.waiting.length := by
  simp only [State.remaining, State.waiting, List.length_append]
  split
  . omega
  . next active hpc =>
    have hle := Bool.toNat_le active
    omega
  . omega
  . next functors inFunctor hpc =>
    have hle := Bool.toNat_le inFunctor
    simp only [hpc, Pc.rest]
    omega
  . omega
  . omega
  . omega

theorem LoopStep.remaining_lt {active : Bool} (h : LoopStep s active s')
    (hquit : s.loop.quit = true) (houtside : s.pc ≠ .outside) (hentered : s.pc ≠ .entered)
    : s'.remaining < s.remaining := by
  cases h with
  | enter hpc => exact absurd hpc houtside
  | clearQuit hpc => exact absurd hpc hentered
  | testQuit hpc hflag => simp [State.remaining, hpc]
  | testPoll hpc hflag => simp [hflag] at hquit
  | pollReturn hpc hactive =>
    have hle := Bool.toNat_le active
    simp only [State.remaining, hpc]
    omega
  | handRead hpc => simp [State.remaining, EventLoop.handRead, hpc]
  | setFlag hpc => simp [State.remaining, hpc]
  | swap hpc => simp [State.remaining, hpc]
  | runFunctor hpc =>
    simp only [State.remaining, hpc, List.length_cons, Bool.toNat_true, Bool.toNat_false]
    omega
  | functorReturn hpc => simp [State.remaining, hpc]
  | clearFlag hpc => simp [State.remaining, hpc]
  | leave hpc => simp [State.remaining, hpc]

theorem Event.ownerQueues_le (e : Event F) : e.ownerQueues.toNat ≤ e.pushes.isSome.toNat := by
  unfold Event.ownerQueues
  split
  . exact Nat.le_refl 1
  . exact Nat.zero_le _

theorem remaining_queueInLoop (s : State F) (caller : Caller) (functor : F)
    : (s.queueInLoop caller functor).remaining ≤ s.remaining + 2 := by
  have hlength : (s.loop.push ⟨caller, functor⟩).pendingFunctors.length
      = s.loop.pendingFunctors.length + 1 := by
    simp [EventLoop.push]
  simp only [State.remaining, State.queueInLoop, State.setCall, hlength]
  split
  . omega
  . omega
  . omega
  . omega
  . omega
  . omega
  . omega

theorem Step.remaining_le {e : Event F} (h : Step s e s') (hcall : e.isCall = true)
    : s'.remaining ≤ s.remaining + 2 * e.pushes.isSome.toNat := by
  cases h with
  | queueInLoop hcan => exact remaining_queueInLoop s _ _
  | runInLoop hcan => exact remaining_queueInLoop s _ _
  | runDirectly => exact Nat.le_add_right _ _
  | queueReturn hcalls =>
    simp only [State.remaining, State.queueReturn, State.setCall, queueWakeUp_pendingFunctors]
    exact Nat.le_add_right _ _
  | quit hcan => exact Nat.le_add_right _ _
  | quitReturn hcalls =>
    simp only [State.remaining, State.quitReturn, State.setCall, quitWakeUp_pendingFunctors]
    exact Nat.le_add_right _ _
  | loop hidle hloop => cases hcall

end EventLoop

namespace EventLoopThread

variable {F : Type}

/--
The destructor comes after `startLoop`, and it alone quits the loop.
-/
def soleQuit (s : State F) : Event F → Bool
  | .destroy _ => decide (s.start = .returned)
  | .loop (.quit _) => false
  | _ => true

def ownedSystem (F : Type) : LTS (State F) (Event F) :=
  (system F).restrict fun s e => soleQuit s e = true

def FuncPc.published : FuncPc → Bool
  | .looping => true
  | .returned => true
  | _ => false

def DestroyPc.beforeQuit : DestroyPc → Bool
  | .notCalled => true
  | .checking _ => true
  | .quitting _ => true
  | _ => false

structure Owned (s : State F) : Prop where
  published : s.published = s.func.published
  outside : s.func ≠ .looping → s.loop.pc = .outside
  returned : s.start = .returned → s.func.published = true ∨ s.func = .finished
  destroy : s.destroy ≠ .notCalled → s.start = .returned
  -- The loop runs until the destructor quits it.
  running : s.destroy.beforeQuit = true →
    s.func.ended = false ∧ s.loop.loop.quit = false ∧ s.loop.pc ≠ .leaving
  quitting : ∀ caller, s.loop.calls caller = .quitting →
    ∃ n, s.destroy = .waking n ∧ caller = .other n
  outsideIdle : s.func.published = true → s.loop.pc = .outside → s.loop.calls .owner = .idle
  joined : s.destroy = .done → s.func = .finished

namespace Owned

variable {s s' : State F}

theorem new : Owned (.new : State F) := by
  constructor
  . rfl
  . exact fun _ => rfl
  . intro h
    cases h
  . intro h
    exact absurd rfl h
  . intro _
    refine ⟨rfl, rfl, ?_⟩
    intro h
    cases h
  . intro caller h
    cases h
  . intro h
    cases h
  . intro h
    cases h

theorem startLoop (h : Owned s) (hfunc : s.func = .notStarted)
    : Owned { s with start := .waiting, func := .started } := by
  have hdestroy : s.destroy = .notCalled := by
    by_contra hcalled
    rcases h.returned (h.destroy hcalled) with hpublished | hfinished
    . simp [hfunc, FuncPc.published] at hpublished
    . simp [hfunc] at hfinished
  constructor
  . rw [h.published, hfunc]
    rfl
  . intro _
    apply h.outside
    simp [hfunc]
  . intro hreturned
    cases hreturned
  . intro hcalled
    exact absurd hdestroy hcalled
  . intro hbefore
    exact ⟨rfl, (h.running hbefore).2⟩
  . exact h.quitting
  . intro hpublished
    cases hpublished
  . intro hdone
    rw [hdestroy] at hdone
    cases hdone

theorem startLoopReturn (h : Owned s) (hpublished : s.published = true)
    : Owned { s with start := .returned } := by
  constructor
  . exact h.published
  . exact h.outside
  . intro _
    rw [h.published] at hpublished
    exact Or.inl hpublished
  . exact fun _ => rfl
  . exact h.running
  . exact h.quitting
  . exact h.outsideIdle
  . exact h.joined

theorem threadFunc (h : Owned s) (hstep : s.threadFunc = some s') : Owned s' := by
  unfold State.threadFunc at hstep
  split at hstep
  . next hfunc =>
    cases hstep
    constructor
    . rw [h.published, hfunc]
      rfl
    . intro _
      apply h.outside
      simp [hfunc]
    . intro hreturned
      rcases h.returned hreturned with hpublished | hfinished
      . simp [hfunc, FuncPc.published] at hpublished
      . simp [hfunc] at hfinished
    . exact h.destroy
    . intro hbefore
      exact ⟨rfl, (h.running hbefore).2⟩
    . exact h.quitting
    . intro hpublished
      cases hpublished
    . intro hdone
      have hfinished := h.joined hdone
      simp [hfunc] at hfinished
  . next hfunc =>
    split at hstep
    . next hidle =>
      cases hstep
      constructor
      . rfl
      . intro hne
        exact absurd rfl hne
      . intro _
        exact Or.inl rfl
      . exact h.destroy
      . intro hbefore
        exact ⟨rfl, (h.running hbefore).2⟩
      . exact h.quitting
      . exact fun _ _ => hidle
      . intro hdone
        have hfinished := h.joined hdone
        simp [hfunc] at hfinished
    . cases hstep
  . next hfunc =>
    split at hstep
    . next hidle =>
      cases hstep
      constructor
      . rfl
      . intro _
        apply h.outside
        simp [hfunc]
      . intro _
        exact Or.inr rfl
      . exact h.destroy
      . intro hbefore
        have hended := (h.running hbefore).1
        simp [hfunc, FuncPc.ended] at hended
      . exact h.quitting
      . intro hpublished
        cases hpublished
      . exact fun _ => rfl
    . cases hstep
  . cases hstep

theorem call {event : EventLoop.Event F} {loop : EventLoop.State F} (h : Owned s)
    (hallowed : s.allowed event = true) (hcall : event.isCall = true)
    (hquit : ∀ caller, event ≠ .quit caller) (hstep : EventLoop.Step s.loop event loop)
    : Owned { s with loop } := by
  have hpc : loop.pc = s.loop.pc := hstep.pc_of_isCall hcall
  constructor
  . exact h.published
  . intro hne
    exact hpc.trans (h.outside hne)
  . exact h.returned
  . exact h.destroy
  . intro hbefore
    rcases h.running hbefore with ⟨hended, hflag, hleaving⟩
    refine ⟨hended, (hstep.quit_of_isCall hcall hquit).trans hflag, ?_⟩
    dsimp only
    rw [hpc]
    exact hleaving
  . intro caller hquitting
    rcases hstep.calls_cases hquit caller with hsame | ⟨hnot, -⟩
    . apply h.quitting caller
      rw [← hsame]
      exact hquitting
    . exact absurd hquitting hnot
  . intro hpublished houtside
    rcases hstep.calls_cases hquit .owner with hsame | ⟨-, howner⟩
    . exact hsame.trans (h.outsideIdle hpublished (hpc.symm.trans houtside))
    . -- The loop thread calls its loop in the init callback and within `loop()`.
      have hmay : s.mayCall .owner = true := by
        cases event with
        | loop active => cases hcall
        | _ =>
          cases howner
          exact hallowed
      unfold State.mayCall at hmay
      dsimp only at hmay hpublished
      split at hmay
      . next hfunc => simp [hfunc, FuncPc.published] at hpublished
      . simp [hpc.symm.trans houtside, EventLoop.Pc.inLoop] at hmay
      . cases hmay
  . exact h.joined

theorem loopStep {active : Bool} {loop : EventLoop.State F} (h : Owned s)
    (hfunc : s.func = .looping) (hstep : EventLoop.Step s.loop (.loop active) loop)
    : Owned (s.afterLoop loop) := by
  have hcalls : loop.calls = s.loop.calls := by
    cases hstep with
    | loop hidle hloop =>
      cases hloop with
      | _ => rfl
  have hidle : s.loop.calls .owner = .idle := by
    cases hstep with
    | loop hidle hloop => exact hidle
  have hdone : s.destroy ≠ .done := by
    intro hdone
    have hfinished := h.joined hdone
    simp [hfunc] at hfinished
  have hstay : loop.pc.inLoop = true →
      (s.loop.loop.quit = false → loop.loop.quit = false ∧ loop.pc ≠ .leaving) →
      Owned (s.afterLoop loop) := by
    intro hin hflag
    have hafter : s.afterLoop loop = { s with loop } := by
      simp [State.afterLoop, hin]
    rw [hafter]
    constructor
    . exact h.published
    . exact fun hne => absurd hfunc hne
    . exact h.returned
    . exact h.destroy
    . intro hbefore
      rcases h.running hbefore with ⟨hended, hquit, -⟩
      exact ⟨hended, hflag hquit⟩
    . dsimp only
      rw [hcalls]
      exact h.quitting
    . intro _ houtside
      dsimp only at houtside
      simp [houtside, EventLoop.Pc.inLoop] at hin
    . exact h.joined
  cases hstep with
  | loop hidle' hloop =>
    cases hloop with
    | testQuit hpc hquit =>
      apply hstay rfl
      intro hflag
      simp [hflag] at hquit
    | leave hpc =>
      have hafter : ∀ loop' : EventLoop.State F, loop'.pc = .outside →
          s.afterLoop loop' = { s with loop := loop', func := .returned } := by
        intro loop' hpc'
        simp [State.afterLoop, hpc, hpc', EventLoop.Pc.inLoop]
      rw [hafter _ rfl]
      constructor
      . rw [h.published, hfunc]
        rfl
      . exact fun _ => rfl
      . exact fun _ => Or.inl rfl
      . exact h.destroy
      . intro hbefore
        exact absurd hpc (h.running hbefore).2.2
      . exact h.quitting
      . exact fun _ _ => hidle
      . exact fun hd => absurd hd hdone
    | clearQuit hpc =>
      apply hstay rfl
      intro _
      refine ⟨rfl, ?_⟩
      simp
    | _ =>
      apply hstay rfl
      intro hflag
      refine ⟨hflag, ?_⟩
      simp

theorem published_of_beforeQuit (h : Owned s) (hcalled : s.destroy ≠ .notCalled)
    (hbefore : s.destroy.beforeQuit = true)
    : s.func.published = true := by
  rcases h.returned (h.destroy hcalled) with hpublished | hfinished
  . exact hpublished
  . have hended := (h.running hbefore).1
    simp [hfinished, FuncPc.ended] at hended

theorem quit {n : Nat} {loop : EventLoop.State F} (h : Owned s) (hdestroy : s.destroy = .quitting n)
    (hstep : EventLoop.Step s.loop (.quit (.other n)) loop)
    : Owned { s with loop, destroy := .waking n } := by
  have hcalled : s.destroy ≠ .notCalled := by
    simp [hdestroy]
  cases hstep with
  | quit hcall =>
    constructor
    . exact h.published
    . exact h.outside
    . exact h.returned
    . exact fun _ => h.destroy hcalled
    . intro hbefore
      cases hbefore
    . intro caller hquitting
      by_cases hc : caller = .other n
      . exact ⟨n, rfl, hc⟩
      . simp only [EventLoop.State.quit, EventLoop.State.setCall, Function.update_of_ne hc]
          at hquitting
        rcases h.quitting caller hquitting with ⟨m, hwaking, -⟩
        simp [hdestroy] at hwaking
    . intro hpublished houtside
      simp only [EventLoop.State.quit, EventLoop.State.setCall, ne_eq, reduceCtorEq,
        not_false_eq_true, Function.update_of_ne]
      exact h.outsideIdle hpublished houtside
    . intro hdone
      cases hdone

theorem quitReturn {n : Nat} {loop : EventLoop.State F} (h : Owned s)
    (hdestroy : s.destroy = .waking n)
    (hstep : EventLoop.Step s.loop (.quitReturn (.other n)) loop)
    : Owned { s with loop, destroy := .joining } := by
  have hcalled : s.destroy ≠ .notCalled := by
    simp [hdestroy]
  cases hstep with
  | quitReturn hcall =>
    constructor
    . exact h.published
    . exact h.outside
    . exact h.returned
    . exact fun _ => h.destroy hcalled
    . intro hbefore
      cases hbefore
    . intro caller hquitting
      simp only [EventLoop.State.quitReturn, EventLoop.State.setCall] at hquitting
      by_cases hc : caller = .other n
      . rw [hc, Function.update_self] at hquitting
        cases hquitting
      . rw [Function.update_of_ne hc] at hquitting
        rcases h.quitting caller hquitting with ⟨m, hwaking, heq⟩
        rw [hdestroy] at hwaking
        cases hwaking
        exact absurd heq hc
    . intro hpublished houtside
      simp only [EventLoop.State.quitReturn, EventLoop.State.setCall, ne_eq, reduceCtorEq,
        not_false_eq_true, Function.update_of_ne]
      exact h.outsideIdle hpublished houtside
    . intro hdone
      cases hdone

theorem destroyNext (h : Owned s) (hstep : s.destroyNext = some s') : Owned s' := by
  unfold State.destroyNext at hstep
  split at hstep
  . next n hdestroy =>
    have hcalled : s.destroy ≠ .notCalled := by
      simp [hdestroy]
    have hpublished : s.published = true := by
      rw [h.published]
      apply h.published_of_beforeQuit hcalled
      simp [hdestroy, DestroyPc.beforeQuit]
    rw [if_pos hpublished] at hstep
    cases hstep
    constructor
    . exact h.published
    . exact h.outside
    . exact h.returned
    . exact fun _ => h.destroy hcalled
    . intro _
      apply h.running
      simp [hdestroy, DestroyPc.beforeQuit]
    . intro caller hquitting
      rcases h.quitting caller hquitting with ⟨m, hwaking, -⟩
      simp [hdestroy] at hwaking
    . exact h.outsideIdle
    . intro hdone
      cases hdone
  . next n hdestroy =>
    split at hstep
    . rcases Option.bind_eq_some_iff.mp hstep with ⟨loop, hloop, heq⟩
      cases heq
      exact h.quit hdestroy (.of_step hloop)
    . cases hstep
  . next n hdestroy =>
    split at hstep
    . rcases Option.bind_eq_some_iff.mp hstep with ⟨loop, hloop, heq⟩
      cases heq
      exact h.quitReturn hdestroy (.of_step hloop)
    . cases hstep
  . next hdestroy =>
    have hcalled : s.destroy ≠ .notCalled := by
      simp [hdestroy]
    split at hstep
    . next hfinished =>
      cases hstep
      constructor
      . exact h.published
      . exact h.outside
      . exact h.returned
      . exact fun _ => h.destroy hcalled
      . intro hbefore
        cases hbefore
      . intro caller hquitting
        rcases h.quitting caller hquitting with ⟨m, hwaking, -⟩
        simp [hdestroy] at hwaking
      . exact h.outsideIdle
      . exact fun _ => hfinished
    . cases hstep
  . cases hstep

theorem destroyCalled {n : Nat} (h : Owned s) (hreturned : s.start = .returned)
    (hdestroy : s.destroy = .notCalled)
    : Owned { s with exiting := true, destroy := .checking n } := by
  constructor
  . exact h.published
  . exact h.outside
  . exact h.returned
  . exact fun _ => hreturned
  . intro _
    apply h.running
    simp [hdestroy, DestroyPc.beforeQuit]
  . intro caller hquitting
    rcases h.quitting caller hquitting with ⟨m, hwaking, -⟩
    simp [hdestroy] at hwaking
  . exact h.outsideIdle
  . intro hdone
    cases hdone

theorem loopEvent {event : EventLoop.Event F} (h : Owned s)
    (hsole : soleQuit s (.loop event) = true) (hstep : step s (.loop event) = some s')
    : Owned s' := by
  simp only [step] at hstep
  split at hstep
  . next hallowed =>
    rcases Option.bind_eq_some_iff.mp hstep with ⟨loop, hloop, heq⟩
    cases heq
    have hloop := EventLoop.Step.of_step hloop
    cases hcall : event.isCall with
    | true =>
      have hafter : s.afterLoop loop = { s with loop } := by
        simp [State.afterLoop, hloop.pc_of_isCall hcall]
      rw [hafter]
      apply h.call hallowed hcall _ hloop
      intro caller hquit
      rw [hquit] at hsole
      cases hsole
    | false =>
      cases event with
      | loop active =>
        simp only [State.allowed, decide_eq_true_eq] at hallowed
        exact h.loopStep hallowed hloop
      | _ => cases hcall
  . cases hstep

theorem step {e : Event F} (h : Owned s) (hsole : soleQuit s e = true) (hstep : step s e = some s')
    : Owned s' := by
  cases e with
  | startLoop =>
    simp only [EventLoopThread.step] at hstep
    split at hstep
    . next hfunc =>
      cases hstep
      exact h.startLoop hfunc
    . cases hstep
  | startLoopReturn =>
    simp only [EventLoopThread.step] at hstep
    split at hstep
    . next hready =>
      cases hstep
      exact h.startLoopReturn hready.2
    . cases hstep
  | threadFunc => exact h.threadFunc hstep
  | loop event => exact h.loopEvent hsole hstep
  | destroy n =>
    simp only [EventLoopThread.step] at hstep
    split at hstep
    . next hdestroy =>
      cases hstep
      exact h.destroyCalled (of_decide_eq_true hsole) hdestroy
    . cases hstep
  | destroyNext => exact h.destroyNext hstep

theorem of_reachable (h : (ownedSystem F).Reachable s) : Owned s := by
  apply LTS.Reachable.invariant (ownedSystem F) _ _ h
  . intro s hinit
    rw [hinit]
    exact new
  . intro s e s' hs hnext
    rw [ownedSystem, LTS.restrict_next_eq_some] at hnext
    exact hs.step hnext.1 hnext.2

end Owned

/--
The destructor finds the loop published at both of its reads of the pointer, so it neither calls
`quit` through a null pointer nor skips the join, and it returns after `threadFunc`.
-/
structure Joins (s : State F) : Prop where
  published : ∀ n, s.destroy = .checking n ∨ s.destroy = .quitting n → s.published = true
  joined : s.destroy = .done → s.func = .finished

theorem destroy_joins {s : State F} (h : (ownedSystem F).Reachable s) : Joins s := by
  have howned := Owned.of_reachable h
  constructor
  . rintro n (hchecking | hquitting)
    . rw [howned.published]
      apply howned.published_of_beforeQuit
      . simp [hchecking]
      . simp [hchecking, DestroyPc.beforeQuit]
    . rw [howned.published]
      apply howned.published_of_beforeQuit
      . simp [hquitting]
      . simp [hquitting, DestroyPc.beforeQuit]
  . exact howned.joined

def destroyWhileTesting : List (Event Nat) :=
  startLoop ++ [.loop (.loop false), .loop (.loop false), .loop (.queueInLoop (.other 1) 10),
    .destroy 0, .destroyNext]

theorem destroy_joins_whileTesting
    : ∃ s, (ownedSystem Nat).run .new destroyWhileTesting = some s
      ∧ s.destroy = .quitting 0 ∧ Joins s := by
  have hrun : (ownedSystem Nat).run .new destroyWhileTesting = some _ := rfl
  refine ⟨_, hrun, rfl, ?_⟩
  apply destroy_joins (LTS.Reachable.of_run _ (.init rfl) hrun)

def quitBetweenReads : List (Event Nat) :=
  startLoop ++ [.loop (.loop false), .loop (.loop false), .destroy 0, .destroyNext,
    .loop (.quit (.other 1)), .loop (.quitReturn (.other 1)), .loop (.loop false),
    .loop (.loop false), .threadFunc]

theorem quitBetweenReads_null
    : ∃ s, (system Nat).run .new quitBetweenReads = some s
      ∧ s.destroy = .quitting 0 ∧ s.published = false := by
  have hrun : (system Nat).run .new quitBetweenReads = some _ := rfl
  exact ⟨_, hrun, rfl, rfl⟩

def joinSystem (F : Type) : LTS (State F) (Event F) :=
  (system F).restrict fun s e => (soleQuit s e && quitAfterStart s e) = true

def Event.ending : Event F → Bool
  | .threadFunc => true
  | .destroyNext => true
  | .loop event => event.ofLoopThread
  | _ => false

def Event.queues : Event F → Bool
  | .loop event => event.pushes.isSome
  | _ => false

def Event.prompt (s : State F) : Event F → Bool
  | .threadFunc => true
  | .destroyNext => true
  | .loop event => event.prompt s.loop
  | _ => false

def State.stepsLeft (s : State F) : Nat :=
  (if s.destroy = .done then 0 else 1) + s.loop.ownerCalls
    +
    match s.func with
    | .looping => 2 + s.loop.remaining
    | .returned => 1
    | _ => 0

structure Joining (s : State F) : Prop where
  kept : Kept s
  owned : Owned s
  joining : s.destroy = .joining ∨ s.destroy = .done

namespace Joining

variable {s s' : State F}

theorem quitting (h : Joining s) (hfunc : s.func = .looping)
    : s.loop.loop.quit = true ∧ s.loop.pc ≠ .outside ∧ s.loop.pc ≠ .entered := by
  have hended : s.func.ended = false := by
    simp [hfunc, FuncPc.ended]
  have hrequest : s.loop.quitRequested = true := by
    rcases h.joining with hjoining | hdone
    . rcases h.kept.destroy (by simp [hjoining, DestroyPc.hasQuit]) with hrequest | hend
      . exact hrequest
      . simp [hended] at hend
    . have hfinished := h.owned.joined hdone
      simp [hfunc] at hfinished
  have hfresh : s.loop.pc = .outside ∨ s.loop.pc = .entered → False := by
    intro hpc
    have hcleared : s.quitCleared = false := by
      rcases hpc with hpc | hpc
      . simp [State.quitCleared, hended, hpc]
      . simp [State.quitCleared, hended, hpc]
    simp [h.kept.fresh hcleared] at hrequest
  exact ⟨h.kept.quit hrequest, fun hpc => hfresh (Or.inl hpc), fun hpc => hfresh (Or.inr hpc)⟩

theorem calls_ne_quitting (h : Joining s) (caller : Caller) : s.loop.calls caller ≠ .quitting := by
  intro hquitting
  rcases h.owned.quitting caller hquitting with ⟨n, hwaking, -⟩
  rcases h.joining with hjoining | hdone
  . simp [hwaking] at hjoining
  . simp [hwaking] at hdone

theorem called (h : Joining s) : s.destroy ≠ .notCalled := by
  rcases h.joining with hjoining | hdone
  . simp [hjoining]
  . simp [hdone]

theorem func (h : Joining s) : s.func = .looping ∨ s.func = .returned ∨ s.func = .finished := by
  rcases h.owned.returned (h.owned.destroy h.called) with hpublished | hfinished
  . unfold FuncPc.published at hpublished
    split at hpublished
    . next hfunc => exact Or.inl hfunc
    . next hfunc => exact Or.inr (Or.inl hfunc)
    . cases hpublished
  . exact Or.inr (Or.inr hfinished)

theorem call {event : EventLoop.Event F} {loop : EventLoop.State F} (h : Joining s)
    (hcall : event.isCall = true) (hquit : EventLoop.noQuit event = true)
    (hstep : EventLoop.Step s.loop event loop)
    : { s with loop }.stepsLeft + event.ofLoopThread.toNat
      ≤ s.stepsLeft + 3 * event.pushes.isSome.toNat := by
  have hcalls := hstep.ownerCalls_le hcall hquit h.calls_ne_quitting
  have hqueues := event.ownerQueues_le
  have hremaining := hstep.remaining_le hcall
  unfold State.stepsLeft
  cases s.func with
  | looping =>
    dsimp only
    omega
  | _ =>
    dsimp only
    omega

theorem loopStep {active : Bool} {loop : EventLoop.State F} (h : Joining s)
    (hfunc : s.func = .looping) (hstep : EventLoop.Step s.loop (.loop active) loop)
    : (s.afterLoop loop).stepsLeft + 1 ≤ s.stepsLeft := by
  rcases h.quitting hfunc with ⟨hquit, houtside, hentered⟩
  cases hstep with
  | loop hidle hloop =>
    have hlt := hloop.remaining_lt hquit houtside hentered
    have hcalls := hloop.ownerCalls_eq
    cases hin : s.loop.pc.inLoop && !loop.pc.inLoop with
    | true =>
      simp only [State.afterLoop, hin, if_true, State.stepsLeft, hfunc]
      omega
    | false =>
      simp only [State.afterLoop, hin, Bool.false_eq_true, if_false, State.stepsLeft, hfunc]
      omega

theorem destroyNext (h : Joining s) (hstep : s.destroyNext = some s')
    : (s'.destroy = .joining ∨ s'.destroy = .done) ∧ s'.stepsLeft + 1 ≤ s.stepsLeft := by
  unfold State.destroyNext at hstep
  rcases h.joining with hjoining | hdone
  . simp only [hjoining] at hstep
    split at hstep
    . cases hstep
      refine ⟨Or.inr rfl, ?_⟩
      simp only [State.stepsLeft, hjoining, reduceCtorEq, if_true, if_false]
      omega
    . cases hstep
  . simp only [hdone] at hstep
    cases hstep

theorem threadFunc (h : Joining s) (hstep : s.threadFunc = some s')
    : s'.destroy = s.destroy ∧ s'.stepsLeft + 1 ≤ s.stepsLeft := by
  unfold State.threadFunc at hstep
  rcases h.func with hfunc | hfunc | hfunc
  . simp only [hfunc] at hstep
    cases hstep
  . simp only [hfunc] at hstep
    split at hstep
    . cases hstep
      simp [State.stepsLeft, hfunc]
    . cases hstep
  . simp only [hfunc] at hstep
    cases hstep

theorem loopEvent {event : EventLoop.Event F} (h : Joining s)
    (hsole : soleQuit s (.loop event) = true) (hstep : EventLoopThread.step s (.loop event) = some s')
    : s'.destroy = s.destroy
      ∧ s'.stepsLeft + event.ofLoopThread.toNat ≤ s.stepsLeft + 3 * event.pushes.isSome.toNat := by
  simp only [EventLoopThread.step] at hstep
  split at hstep
  . next hallowed =>
    rcases Option.bind_eq_some_iff.mp hstep with ⟨loop, hloop, heq⟩
    cases heq
    have hloop := EventLoop.Step.of_step hloop
    refine ⟨rfl, ?_⟩
    cases hcall : event.isCall with
    | true =>
      have hafter : s.afterLoop loop = { s with loop } := by
        simp [State.afterLoop, hloop.pc_of_isCall hcall]
      rw [hafter]
      apply h.call hcall _ hloop
      cases event with
      | quit caller => cases hsole
      | _ => rfl
    | false =>
      cases event with
      | loop active =>
        simp only [State.allowed, decide_eq_true_eq] at hallowed
        exact h.loopStep hallowed hloop
      | _ => cases hcall
  . cases hstep

theorem step {e : Event F} (h : Joining s) (hnext : (joinSystem F).next s e = some s')
    : Joining s' ∧ s'.stepsLeft + e.ending.toNat ≤ s.stepsLeft + 3 * e.queues.toNat := by
  rw [joinSystem, LTS.restrict_next_eq_some, Bool.and_eq_true] at hnext
  rcases hnext with ⟨⟨hsole, hafter⟩, hstep⟩
  have hkept := h.kept.step hafter hstep
  have howned := h.owned.step hsole hstep
  have hstay : s'.destroy = s.destroy → Joining s' := by
    intro hsame
    refine ⟨hkept, howned, ?_⟩
    rw [hsame]
    exact h.joining
  cases e with
  | startLoop =>
    simp only [system, EventLoopThread.step] at hstep
    split at hstep
    . next hfunc =>
      rcases h.func with hfunc' | hfunc' | hfunc'
      . simp [hfunc] at hfunc'
      . simp [hfunc] at hfunc'
      . simp [hfunc] at hfunc'
    . cases hstep
  | startLoopReturn =>
    simp only [system, EventLoopThread.step] at hstep
    split at hstep
    . next hwaiting =>
      have hreturned := h.owned.destroy h.called
      simp [hwaiting.1] at hreturned
    . cases hstep
  | threadFunc =>
    rcases h.threadFunc hstep with ⟨hsame, hlt⟩
    exact ⟨hstay hsame, hlt⟩
  | loop event =>
    rcases h.loopEvent hsole hstep with ⟨hsame, hrank⟩
    exact ⟨hstay hsame, hrank⟩
  | destroy n =>
    simp only [system, EventLoopThread.step] at hstep
    split at hstep
    . next hdestroy => exact absurd hdestroy h.called
    . cases hstep
  | destroyNext =>
    rcases h.destroyNext hstep with ⟨hjoining, hlt⟩
    exact ⟨⟨hkept, howned, hjoining⟩, hlt⟩

theorem loopNext_of_idle (h : Joining s) (hfunc : s.func = .looping)
    (hidle : s.loop.calls .owner = .idle)
    : ((joinSystem F).next s (.loop (.loop true))).isSome = true := by
  rcases h.quitting hfunc with ⟨hquit, houtside, hentered⟩
  have hsome : (s.loop.loopNext true).isSome = true := by
    apply EventLoop.State.loopNext_isSome
    intro hpc _
    rcases h.kept.woken.notified hpc hquit with hfd | ⟨n, hquitting⟩
    . exact hfd
    . exact absurd hquitting (h.calls_ne_quitting _)
  rcases Option.isSome_iff_exists.mp hsome with ⟨loop, hloop⟩
  simp [joinSystem, LTS.restrict, system, soleQuit, quitAfterStart, State.quits, EventLoopThread.step,
    State.allowed, EventLoop.step, hfunc, hidle, hloop]

theorem queueReturn_of_queueing {index : Nat} (h : Joining s) (hfunc : s.func = .looping)
    (hcalls : s.loop.calls .owner = .queueing index)
    : ((joinSystem F).next s (.loop (.queueReturn .owner))).isSome = true := by
  have hin : s.loop.pc.inLoop = true := by
    have houtside := (h.quitting hfunc).2.1
    unfold EventLoop.Pc.inLoop
    split
    . next hpc => exact absurd hpc houtside
    . rfl
  simp [joinSystem, LTS.restrict, system, soleQuit, quitAfterStart, State.quits, EventLoopThread.step,
    State.allowed, State.mayCall, EventLoop.step, hfunc, hcalls, hin]

theorem progress (h : Joining s) (hdone : s.destroy ≠ .done)
    : ∃ e, e.prompt s = true ∧ ((joinSystem F).next s e).isSome = true := by
  rcases h.func with hfunc | hfunc | hfunc
  . cases hcalls : s.loop.calls .owner with
    | idle => exact ⟨.loop (.loop true), rfl, h.loopNext_of_idle hfunc hcalls⟩
    | queueing index =>
      exact ⟨.loop (.queueReturn .owner), rfl, h.queueReturn_of_queueing hfunc hcalls⟩
    | quitting => exact absurd hcalls (h.calls_ne_quitting .owner)
  . refine ⟨.threadFunc, rfl, ?_⟩
    have hidle : s.loop.calls .owner = .idle := by
      apply h.owned.outsideIdle
      . simp [hfunc, FuncPc.published]
      . apply h.owned.outside
        simp [hfunc]
    simp [joinSystem, LTS.restrict, system, soleQuit, quitAfterStart, State.quits,
      EventLoopThread.step, State.threadFunc, hfunc, hidle]
  . refine ⟨.destroyNext, rfl, ?_⟩
    have hjoining := h.joining.resolve_right hdone
    simp [joinSystem, LTS.restrict, system, soleQuit, quitAfterStart, State.quits,
      EventLoopThread.step, State.destroyNext, hfunc, hjoining]

theorem of_reachable (h : (joinSystem F).Reachable s) (hjoining : s.destroy = .joining)
    : Joining s := by
  refine ⟨?_, ?_, Or.inl hjoining⟩
  . apply Kept.of_reachable
    apply h.restrict_mono
    intro s e hboth
    exact (Bool.and_eq_true_iff.mp hboth).2
  . apply Owned.of_reachable
    apply h.restrict_mono
    intro s e hboth
    exact (Bool.and_eq_true_iff.mp hboth).1

end Joining

theorem stepsLeft_le (s : State F) : s.stepsLeft ≤ 11 + 2 * s.loop.waiting.length := by
  have hremaining := EventLoop.remaining_le s.loop
  have hcalls := EventLoop.ownerCalls_le s.loop
  have hdestroy : (if s.destroy = .done then 0 else 1) ≤ 1 := by
    split
    . exact Nat.zero_le 1
    . exact Nat.le_refl 1
  unfold State.stepsLeft
  cases s.func with
  | looping =>
    dsimp only
    omega
  | _ =>
    dsimp only
    omega

theorem join_returns {s s' : State F} {es : List (Event F)} (h : (joinSystem F).Reachable s)
    (hjoining : s.destroy = .joining) (hrun : (joinSystem F).run s es = some s')
    : es.countP Event.ending ≤ 11 + 2 * s.loop.waiting.length + 3 * es.countP Event.queues
      ∧ (s'.destroy = .done ∧ s'.func = .finished
        ∨ s'.destroy = .joining
          ∧ ∃ e, e.prompt s' = true ∧ ((joinSystem F).next s' e).isSome = true) := by
  have hkeep : ∀ s e s', False → (joinSystem F).next s e = some s' → False := fun _ _ _ h _ => h
  have hstep : ∀ s e s', Joining s → (joinSystem F).next s e = some s' → Joining s'
      ∧ (False ∨ s'.stepsLeft + e.ending.toNat ≤ s.stepsLeft + 3 * e.queues.toNat) := by
    intro s e s' hs hnext
    exact (hs.step hnext).imp_right Or.inr
  rcases LTS.countP_add_rank_le (joinSystem F) hkeep hstep (Joining.of_reachable h hjoining) hrun
    with ⟨hs', hfalse | hle⟩
  . exact hfalse.elim
  . constructor
    . have hbound := stepsLeft_le s
      omega
    . rcases hs'.joining with hjoining' | hdone
      . right
        refine ⟨hjoining', hs'.progress ?_⟩
        simp [hjoining']
      . exact Or.inl ⟨hdone, hs'.owned.joined hdone⟩

def joinWhilePolling : List (Event Nat) :=
  startLoop ++ [.loop (.loop false), .loop (.loop false), .loop (.loop false),
    .loop (.queueInLoop (.other 1) 10), .destroy 0, .destroyNext, .destroyNext, .destroyNext]

def queueWhileJoining : List (Event Nat) :=
  [.loop (.queueReturn (.other 1)), .loop (.loop true), .loop (.queueInLoop (.other 2) 20),
    .loop (.loop false), .loop (.loop false), .loop (.loop false), .loop (.loop false),
    .loop (.loop false), .loop (.loop false), .loop (.loop false), .loop (.loop false),
    .loop (.loop false), .loop (.loop false), .threadFunc, .destroyNext]

theorem join_returns_queueWhileJoining
    : ∃ s s', (joinSystem Nat).run .new joinWhilePolling = some s
      ∧ (joinSystem Nat).run s queueWhileJoining = some s'
      ∧ s.loop.waiting.length = 1 ∧ s'.loop.executed.length = 2 ∧ s'.destroy = .done
      ∧ queueWhileJoining.countP Event.ending
        ≤ 11 + 2 * s.loop.waiting.length + 3 * queueWhileJoining.countP Event.queues := by
  have hrun : (joinSystem Nat).run .new joinWhilePolling = some _ := rfl
  refine ⟨_, _, hrun, rfl, rfl, rfl, rfl, ?_⟩
  exact (join_returns (LTS.Reachable.of_run _ (.init rfl) hrun) rfl rfl).1

end EventLoopThread
