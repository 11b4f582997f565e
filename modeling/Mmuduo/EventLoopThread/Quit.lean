import Mmuduo.EventLoop.WakeUp
import Mmuduo.EventLoopThread.Impl

namespace EventLoopThread

variable {F : Type}

def FuncPc.ended : FuncPc → Bool
  | .returned => true
  | .finished => true
  | _ => false

def State.quitCleared (s : State F) : Bool :=
  s.func.ended ||
    match s.loop.pc with
    | .outside => false
    | .entered => false
    | _ => true

def State.quits (s : State F) : Event F → Bool
  | .loop (.quit _) => true
  | .destroyNext =>
    match s.destroy with
    | .quitting _ => true
    | _ => false
  | _ => false

def quitAfterStart (s : State F) (e : Event F) : Bool :=
  !s.quits e || s.quitCleared

def startedSystem (F : Type) : LTS (State F) (Event F) :=
  (system F).restrict fun s e => quitAfterStart s e = true

def DestroyPc.hasQuit : DestroyPc → Bool
  | .waking _ => true
  | .joining => true
  | _ => false

end EventLoopThread

namespace EventLoop

variable {F : Type} {s s' : State F}

theorem Step.quit_kept {e : Event F} (h : Step s e s')
    (hfresh : s.pc = .entered → s.quitRequested = false)
    (hquit : s.quitRequested = true → s.loop.quit = true)
    : s'.quitRequested = true → s'.loop.quit = true := by
  cases h with
  | queueInLoop hcall => exact hquit
  | runInLoop hcall => exact hquit
  | runDirectly => exact hquit
  | queueReturn hcall =>
    simp only [State.queueReturn, State.setCall, queueWakeUp_quit]
    exact hquit
  | quit hcall => simp [State.quit]
  | quitReturn hcall =>
    simp only [State.quitReturn, State.setCall, quitWakeUp_quit]
    exact hquit
  | loop hidle hloop =>
    cases hloop with
    | clearQuit hpc => simp [hfresh hpc]
    | leave hpc => simp
    | _ => exact hquit

end EventLoop

namespace EventLoopThread

variable {F : Type}

structure Kept (s : State F) : Prop where
  outside : s.func ≠ .looping → s.loop.pc = .outside
  fresh : s.quitCleared = false → s.loop.quitRequested = false
  quit : s.loop.quitRequested = true → s.loop.loop.quit = true
  woken : EventLoop.QuitWoken s.loop
  destroy : s.destroy.hasQuit = true → s.loop.quitRequested = true ∨ s.func.ended = true

namespace Kept

variable {s s' : State F}

theorem new : Kept (.new : State F) := by
  constructor
  . simp [State.new, EventLoop.State.new]
  . simp [State.new, EventLoop.State.new]
  . simp [State.new, EventLoop.State.new]
  . apply EventLoop.QuitWoken.new
  . simp [State.new, DestroyPc.hasQuit]

theorem call {loop : EventLoop.State F} {event : EventLoop.Event F} {destroy : DestroyPc}
    (h : Kept s) (hcall : event.isCall = true) (hstep : EventLoop.Step s.loop event loop)
    (hquit : (∃ caller, event = .quit caller) → s.quitCleared = true)
    (hdestroy : destroy.hasQuit = true → s.destroy.hasQuit = true ∨ ∃ caller, event = .quit caller)
    : Kept { s with loop, destroy } := by
  have hpc := hstep.pc_of_isCall hcall
  have hrequest : loop.quitRequested = true ∧ s.quitCleared = true
      ∨ loop.quitRequested = s.loop.quitRequested ∧ ∀ caller, event ≠ .quit caller := by
    cases hstep with
    | quit hcall => exact Or.inl ⟨rfl, hquit ⟨_, rfl⟩⟩
    | loop hidle hloop => simp [EventLoop.Event.isCall] at hcall
    | _ => exact Or.inr ⟨rfl, by simp⟩
  have hcleared : { s with loop, destroy }.quitCleared = s.quitCleared := by
    simp only [State.quitCleared, hpc]
  constructor
  . intro hfunc
    apply hpc.trans (h.outside hfunc)
  . intro hfresh
    rw [hcleared] at hfresh
    rcases hrequest with ⟨-, hset⟩ | ⟨hsame, -⟩
    . simp [hfresh] at hset
    . apply hsame.trans (h.fresh hfresh)
  . apply hstep.quit_kept
    . intro hentered
      by_cases hended : s.func.ended = true
      . have hfunc : s.func ≠ .looping := by
          intro heq
          simp [heq, FuncPc.ended] at hended
        have := h.outside hfunc
        simp [hentered] at this
      . apply h.fresh
        simpa [State.quitCleared, hentered] using hended
    . apply h.quit
  . apply h.woken.step hstep
  . intro hhas
    rcases hrequest with ⟨hset, -⟩ | ⟨hsame, hnot⟩
    . exact Or.inl hset
    . rw [hsame]
      rcases hdestroy hhas with hhas | ⟨caller, heq⟩
      . apply h.destroy hhas
      . exact absurd heq (hnot caller)

theorem loopStep {loop : EventLoop.State F} {active : Bool} (h : Kept s) (hfunc : s.func = .looping)
    (hstep : EventLoop.Step s.loop (.loop active) loop)
    : Kept (s.afterLoop loop) := by
  have hended : s.func.ended = false := by
    simp [hfunc, FuncPc.ended]
  have hfresh : s.loop.pc = .outside ∨ s.loop.pc = .entered → s.loop.quitRequested = false := by
    rintro (hpc | hpc)
    . apply h.fresh
      simp [State.quitCleared, hended, hpc]
    . apply h.fresh
      simp [State.quitCleared, hended, hpc]
  have hquit := hstep.quit_kept (fun hpc => hfresh (Or.inr hpc)) h.quit
  have hwoken := h.woken.step hstep
  have hdestroy : s.destroy.hasQuit = true → s.loop.quitRequested = true := by
    intro hhas
    rcases h.destroy hhas with hrequest | hend
    . exact hrequest
    . simp [hended] at hend
  have hstay : loop.pc.inLoop = true → (loop.pc = .entered → loop.quitRequested = false) →
      loop.quitRequested = s.loop.quitRequested → Kept (s.afterLoop loop) := by
    intro hin hentered hsame
    have hafter : s.afterLoop loop = { s with loop } := by
      simp [State.afterLoop, hin]
    rw [hafter]
    refine ⟨fun hne => absurd hfunc hne, ?_, hquit, hwoken, ?_⟩
    . intro hcleared
      simp only [State.quitCleared, hended, Bool.false_or] at hcleared
      split at hcleared
      . next hpc => simp [hpc, EventLoop.Pc.inLoop] at hin
      . next hpc => exact hentered hpc
      . simp at hcleared
    . intro hhas
      left
      apply hsame.trans (hdestroy hhas)
  cases hstep with
  | loop hidle hloop =>
    cases hloop with
    | enter hpc =>
      apply hstay rfl
      . intro _
        exact hfresh (Or.inl hpc)
      . rfl
    | leave hpc =>
      have hafter : ∀ loop' : EventLoop.State F, loop'.pc = .outside →
          s.afterLoop loop' = { s with loop := loop', func := .returned } := by
        intro loop' hpc'
        simp [State.afterLoop, hpc, hpc', EventLoop.Pc.inLoop]
      rw [hafter _ rfl]
      exact ⟨fun _ => rfl, fun _ => rfl, hquit, hwoken, fun _ => Or.inr rfl⟩
    | _ =>
      apply hstay
      . rfl
      . simp
      . rfl

theorem congr (h : Kept s) (hloop : s'.loop = s.loop) (hended : s'.func.ended = s.func.ended)
    (houtside : s'.func ≠ .looping → s.func ≠ .looping)
    (hdestroy : s'.destroy.hasQuit = true → s.destroy.hasQuit = true)
    : Kept s' := by
  have hcleared : s'.quitCleared = s.quitCleared := by
    simp only [State.quitCleared, hloop, hended]
  constructor
  . intro hfunc
    rw [hloop]
    apply h.outside (houtside hfunc)
  . rw [hcleared, hloop]
    apply h.fresh
  . rw [hloop]
    apply h.quit
  . rw [hloop]
    apply h.woken
  . intro hhas
    rw [hloop, hended]
    apply h.destroy (hdestroy hhas)

theorem threadFunc (h : Kept s) (hstep : s.threadFunc = some s') : Kept s' := by
  unfold State.threadFunc at hstep
  split at hstep
  . next hfunc =>
    cases hstep
    apply h.congr
    . rfl
    . simp [hfunc, FuncPc.ended]
    . simp [hfunc]
    . exact id
  . next hfunc =>
    split at hstep
    . cases hstep
      apply h.congr
      . rfl
      . simp [hfunc, FuncPc.ended]
      . simp
      . exact id
    . simp at hstep
  . next hfunc =>
    split at hstep
    . cases hstep
      apply h.congr
      . rfl
      . simp [hfunc, FuncPc.ended]
      . simp [hfunc]
      . exact id
    . simp at hstep
  . simp at hstep

theorem loopEvent {event : EventLoop.Event F} (h : Kept s)
    (hquit : quitAfterStart s (.loop event) = true) (hstep : step s (.loop event) = some s')
    : Kept s' := by
  simp only [step] at hstep
  split at hstep
  . next hallowed =>
    rcases Option.bind_eq_some_iff.mp hstep with ⟨loop, hloop, heq⟩
    cases heq
    have hloop := EventLoop.Step.of_step hloop
    cases hcall : event.isCall with
    | true =>
      have hpc := hloop.pc_of_isCall hcall
      have hafter : s.afterLoop loop = { s with loop, destroy := s.destroy } := by
        simp [State.afterLoop, hpc]
      rw [hafter]
      apply h.call hcall hloop
      . rintro ⟨caller, rfl⟩
        simpa [quitAfterStart, State.quits] using hquit
      . exact Or.inl
    | false =>
      cases event with
      | loop active =>
        simp only [State.allowed, decide_eq_true_eq] at hallowed
        apply h.loopStep hallowed hloop
      | _ => simp [EventLoop.Event.isCall] at hcall
  . simp at hstep

theorem destroyNext (h : Kept s) (hquit : quitAfterStart s .destroyNext = true)
    (hstep : s.destroyNext = some s')
    : Kept s' := by
  unfold State.destroyNext at hstep
  split at hstep
  . cases hstep
    apply h.congr
    . rfl
    . rfl
    . exact id
    . intro hhas
      split at hhas
      . simp [DestroyPc.hasQuit] at hhas
      . simp [DestroyPc.hasQuit] at hhas
  . next n hdestroy =>
    split at hstep
    . rcases Option.bind_eq_some_iff.mp hstep with ⟨loop, hloop, heq⟩
      cases heq
      apply h.call rfl (.of_step hloop)
      . intro _
        simpa [quitAfterStart, State.quits, hdestroy] using hquit
      . intro _
        exact Or.inr ⟨_, rfl⟩
    . simp at hstep
  . next n hdestroy =>
    split at hstep
    . rcases Option.bind_eq_some_iff.mp hstep with ⟨loop, hloop, heq⟩
      cases heq
      apply h.call rfl (.of_step hloop)
      . simp
      . intro _
        left
        simp [hdestroy, DestroyPc.hasQuit]
    . simp at hstep
  . split at hstep
    . cases hstep
      apply h.congr
      . rfl
      . rfl
      . exact id
      . simp [DestroyPc.hasQuit]
    . simp at hstep
  . simp at hstep

theorem step {e : Event F} (h : Kept s) (hquit : quitAfterStart s e = true)
    (hstep : step s e = some s')
    : Kept s' := by
  cases e with
  | startLoop =>
    simp only [EventLoopThread.step] at hstep
    split at hstep
    . next hfunc =>
      cases hstep
      apply h.congr
      . rfl
      . simp [hfunc, FuncPc.ended]
      . simp [hfunc]
      . exact id
    . simp at hstep
  | startLoopReturn =>
    simp only [EventLoopThread.step] at hstep
    split at hstep
    . cases hstep
      apply h.congr
      . rfl
      . rfl
      . exact id
      . exact id
    . simp at hstep
  | threadFunc => apply h.threadFunc hstep
  | loop event => apply h.loopEvent hquit hstep
  | destroy n =>
    simp only [EventLoopThread.step] at hstep
    split at hstep
    . cases hstep
      apply h.congr
      . rfl
      . rfl
      . exact id
      . simp [DestroyPc.hasQuit]
    . simp at hstep
  | destroyNext => apply h.destroyNext hquit hstep

theorem of_reachable (h : (startedSystem F).Reachable s) : Kept s := by
  apply LTS.Reachable.invariant (startedSystem F) _ _ h
  . intro s hinit
    rw [hinit]
    exact new
  . intro s e s' hs hnext
    rw [startedSystem, LTS.restrict_next_eq_some] at hnext
    apply hs.step hnext.1 hnext.2

end Kept

/--
A `quit()` that has been executed is not forgotten: the flag stays set until `loop()` has returned,
a loop thread in the poller is woken up, it does not poll again, and the destructor joins a thread
whose loop has the request.
-/
structure QuitHeeded (s : State F) : Prop where
  kept : s.loop.quitRequested = true → s.loop.loop.quit = true
  woken : s.loop.quitRequested = true → s.loop.pc = .polling →
    0 < s.loop.loop.wakeUpFd ∨ ∃ n, s.loop.calls (.other n) = .quitting
  noPoll : s.loop.quitRequested = true → ∀ active s',
    step s (.loop (.loop active)) = some s' → s'.loop.pc ≠ .polling
  joined : s.destroy = .joining →
    s.func.ended = true ∨ s.loop.quitRequested = true ∧ s.loop.loop.quit = true

theorem Kept.quitHeeded {s : State F} (h : Kept s) : QuitHeeded s := by
  constructor
  . apply h.quit
  . intro hrequest hpc
    apply h.woken.notified hpc (h.quit hrequest)
  . intro hrequest active s' hstep hpolling
    simp only [EventLoopThread.step] at hstep
    split at hstep
    . rcases Option.bind_eq_some_iff.mp hstep with ⟨loop, hloop, heq⟩
      cases heq
      cases EventLoop.Step.of_step hloop with
      | loop hidle hloop =>
        cases hloop with
        | testPoll hpc hquit => simp [h.quit hrequest] at hquit
        | _ => simp [State.afterLoop] at hpolling
    . simp at hstep
  . intro hjoining
    rcases h.destroy (by simp [hjoining, DestroyPc.hasQuit]) with hrequest | hended
    . exact Or.inr ⟨hrequest, h.quit hrequest⟩
    . exact Or.inl hended

theorem quit_heeded {s : State F} (h : (startedSystem F).Reachable s) : QuitHeeded s := by
  exact (Kept.of_reachable h).quitHeeded

def startLoop : List (Event Nat) :=
  [.startLoop, .threadFunc, .threadFunc, .startLoopReturn]

def destroyWhilePolling : List (Event Nat) :=
  startLoop ++ [.loop (.loop false), .loop (.loop false), .loop (.loop false), .destroy 0,
    .destroyNext, .destroyNext, .destroyNext, .loop (.loop true)]

theorem quit_heeded_polling
    : ∃ s, (startedSystem Nat).run .new destroyWhilePolling = some s
      ∧ s.destroy = .joining ∧ s.loop.quitRequested = true ∧ QuitHeeded s := by
  have hrun : (startedSystem Nat).run .new destroyWhilePolling = some _ := rfl
  refine ⟨_, hrun, rfl, rfl, ?_⟩
  apply quit_heeded (LTS.Reachable.of_run _ (.init rfl) hrun)

def destroyBeforeLoop : List (Event Nat) :=
  startLoop ++ [.destroy 0, .destroyNext, .destroyNext, .destroyNext, .loop (.loop false),
    .loop (.loop false)]

theorem quit_forgotten : ¬ ∀ s, (system Nat).Reachable s → QuitHeeded s := by
  intro h
  have hrun : (system Nat).run .new destroyBeforeLoop = some _ := rfl
  have hkept := (h _ (LTS.Reachable.of_run _ (.init rfl) hrun)).kept rfl
  cases hkept

end EventLoopThread
