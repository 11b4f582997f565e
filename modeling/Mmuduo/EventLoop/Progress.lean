import Mmuduo.EventLoop.Quit
import Mmuduo.EventLoop.WakeUp

namespace EventLoop

variable {F : Type} {s s' : State F}

def noQuit : Event F → Bool
  | .quit _ => false
  | _ => true

def servingSystem (F : Type) : LTS (State F) (Event F) :=
  (system F).restrict fun s e => (ownerQuiet s e && noQuit e) = true

def Event.ofLoopThread : Event F → Bool
  | .loop _ => true
  | .queueReturn .owner => true
  | _ => false

def Event.ownerQueues : Event F → Bool
  | .queueInLoop .owner _ => true
  | _ => false

/--
The step of the loop thread neither depends on a timeout of the poller nor on another channel.
-/
def Event.prompt (s : State F) : Event F → Bool
  | .loop wakeUpActive =>
    wakeUpActive ||
      match s.pc with
      | .polling => false
      | _ => true
  | .queueReturn .owner => true
  | _ => false

/--
The loop thread can go on, or it is in the poller and a thread within `queueInLoop` is about to wake
it up.
-/
def Advances (s : State F) : Prop :=
  (∃ e, e.prompt s = true ∧ ((servingSystem F).next s e).isSome = true)
    ∨ s.pc = .polling ∧ ∃ n, ((servingSystem F).next s (.queueReturn (.other n))).isSome = true

theorem State.loopNext_isSome {active : Bool}
    (hpoll : s.pc = .polling → active = true → 0 < s.loop.wakeUpFd)
    : (s.loopNext active).isSome = true := by
  unfold State.loopNext
  split
  . rfl
  . rfl
  . rfl
  . next hpc =>
    rw [if_pos (hpoll hpc)]
    rfl
  . rfl
  . rfl
  . rfl
  . rfl
  . rfl
  . rfl
  . rfl

def State.ownerCalls (s : State F) : Nat :=
  if s.calls .owner = .idle then 0 else 1

theorem ownerCalls_le (s : State F) : s.ownerCalls ≤ 1 := by
  unfold State.ownerCalls
  split
  . exact Nat.zero_le 1
  . exact Nat.le_refl 1

theorem LoopStep.ownerCalls_eq {active : Bool} (h : LoopStep s active s')
    : s'.ownerCalls = s.ownerCalls := by
  cases h with
  | _ => rfl

theorem ownerCalls_setCall (s : State F) (n : Nat) (call : Call)
    : (s.setCall (.other n) call).ownerCalls = s.ownerCalls := by
  simp [State.ownerCalls, State.setCall]

theorem Step.ownerCalls_le {e : Event F} (h : Step s e s') (hcall : e.isCall = true)
    (hquit : noQuit e = true) (hquitting : ∀ caller, s.calls caller ≠ .quitting)
    : s'.ownerCalls + e.ofLoopThread.toNat ≤ s.ownerCalls + e.ownerQueues.toNat := by
  cases h with
  | @queueInLoop caller functor hcan =>
    cases caller with
    | owner =>
      have hle := ownerCalls_le (s.queueInLoop .owner functor)
      simp only [Event.ofLoopThread, Event.ownerQueues, Bool.toNat_true, Bool.toNat_false]
      omega
    | other n => exact Nat.le_of_eq (ownerCalls_setCall s n (.queueing s.pushed.length))
  | @runInLoop n functor hcan =>
    exact Nat.le_of_eq (ownerCalls_setCall s n (.queueing s.pushed.length))
  | runDirectly => exact Nat.le_refl _
  | @queueReturn caller i hcalls =>
    cases caller with
    | owner =>
      have hbusy : s.ownerCalls = 1 := by
        simp [State.ownerCalls, hcalls]
      have hidle : (s.queueReturn .owner i).ownerCalls = 0 := by
        simp [State.ownerCalls, State.queueReturn, State.setCall]
      rw [hbusy, hidle]
      exact Nat.le_refl 1
    | other n => exact Nat.le_of_eq (ownerCalls_setCall s n .idle)
  | quit hcan => cases hquit
  | quitReturn hcalls => exact absurd hcalls (hquitting _)
  | loop hidle hloop => cases hcall

def Pc.stepsBefore (pc : Pc F) (ahead : Nat) : Nat :=
  match pc with
  | .outside => 2 * ahead + 8
  | .entered => 2 * ahead + 7
  | .test => 2 * ahead + 6
  | .polling => 2 * ahead + 5
  | .handling wakeUpActive => 2 * ahead + 3 + wakeUpActive.toNat
  | .flagSet => 2 * ahead + 2
  | .running functors inFunctor =>
    if ahead < functors.length then
      2 * ahead + 1 + inFunctor.toNat
    else
      2 * ahead + 7 + inFunctor.toNat
  | .leaving => 0

theorem Pc.stepsBefore_le (pc : Pc F) (ahead : Nat) : pc.stepsBefore ahead ≤ 2 * ahead + 8 := by
  unfold Pc.stepsBefore
  split
  . omega
  . omega
  . omega
  . omega
  . next active =>
    have hle := Bool.toNat_le active
    omega
  . omega
  . next functors inFunctor =>
    have hle := Bool.toNat_le inFunctor
    split
    . omega
    . omega
  . omega

def State.stepsBefore (s : State F) (index : Nat) : Nat :=
  s.pc.stepsBefore (index - s.executed.length) + s.ownerCalls

structure Serving (s : State F) : Prop where
  fifo : Fifo s
  woken : Woken s
  running : s.loop.quit = false
  notLeaving : s.pc ≠ .leaving
  notQuitting : ∀ caller, s.calls caller ≠ .quitting

theorem LoopStep.stepsBefore_lt {active : Bool} {index : Nat} (h : LoopStep s active s')
    (hs : Serving s) (hpushed : index < s.pushed.length) (hwaiting : s.executed.length ≤ index)
    : index < s'.executed.length
      ∨ s'.pc.stepsBefore (index - s'.executed.length)
        < s.pc.stepsBefore (index - s.executed.length) := by
  cases h with
  | enter hpc =>
    right
    simp [hpc, Pc.stepsBefore]
  | clearQuit hpc =>
    right
    simp [hpc, Pc.stepsBefore]
  | testQuit hpc hquit => simp [hs.running] at hquit
  | testPoll hpc hquit =>
    right
    simp [hpc, Pc.stepsBefore]
  | pollReturn hpc hactive =>
    right
    have hle := Bool.toNat_le active
    simp only [hpc, Pc.stepsBefore]
    omega
  | handRead hpc =>
    right
    simp [hpc, Pc.stepsBefore]
  | setFlag hpc =>
    right
    simp [hpc, Pc.stepsBefore]
  | swap hpc =>
    right
    have hlength := congrArg List.length (hs.fifo.sequence_of_not_inBatch (by simp [hpc, Pc.inBatch]))
    rw [List.length_append] at hlength
    have hbatch : index - s.executed.length < s.loop.pendingFunctors.length := by
      omega
    simp [hpc, Pc.stepsBefore, hbatch]
  | @runFunctor queued functors hpc =>
    simp only [hpc, Pc.stepsBefore, List.length_append, List.length_cons, List.length_nil,
      Bool.toNat_true, Bool.toNat_false]
    by_cases hnext : index = s.executed.length
    . left
      omega
    . right
      by_cases hbatch : index - s.executed.length < functors.length + 1
      . rw [if_pos hbatch, if_pos (by omega)]
        omega
      . rw [if_neg hbatch, if_neg (by omega)]
        omega
  | functorReturn hpc =>
    right
    simp only [hpc, Pc.stepsBefore, Bool.toNat_true, Bool.toNat_false]
    split
    . omega
    . omega
  | clearFlag hpc =>
    right
    simp [hpc, Pc.stepsBefore]
  | leave hpc => exact absurd hpc hs.notLeaving

theorem Step.pushed_prefix {e : Event F} (h : Step s e s') : s.pushed <+: s'.pushed := by
  cases h with
  | queueInLoop hcall => exact List.prefix_append _ _
  | runInLoop hcall => exact List.prefix_append _ _
  | loop hidle hloop =>
    cases hloop with
    | _ => exact List.prefix_refl _
  | _ => exact List.prefix_refl _

theorem Step.executed_of_isCall {e : Event F} (h : Step s e s') (hcall : e.isCall = true)
    : s'.executed = s.executed := by
  cases h with
  | loop hidle hloop => cases hcall
  | _ => rfl

theorem Step.executed_prefix {e : Event F} (h : Step s e s') : s.executed <+: s'.executed := by
  cases h with
  | loop hidle hloop =>
    cases hloop with
    | runFunctor hpc => exact List.prefix_append _ _
    | _ => exact List.prefix_refl _
  | _ => exact List.prefix_refl _

namespace Serving

variable {index : Nat}

theorem notQuitting_setCall {caller : Caller} {call : Call} (h : Serving s)
    (hcall : call ≠ .quitting) (c : Caller)
    : (s.setCall caller call).calls c ≠ .quitting := by
  simp only [State.setCall]
  by_cases hc : c = caller
  . rw [hc, Function.update_self]
    exact hcall
  . rw [Function.update_of_ne hc]
    exact h.notQuitting c

theorem loopStep {active : Bool} (h : Serving s) (hstep : LoopStep s active s')
    : s'.loop.quit = false ∧ s'.pc ≠ .leaving := by
  have hrunning := h.running
  cases hstep with
  | clearQuit hpc => exact ⟨rfl, by simp⟩
  | testQuit hpc hquit => simp [hrunning] at hquit
  | _ => exact ⟨hrunning, by simp⟩

theorem step {e : Event F} (h : Serving s) (hquiet : ownerQuiet s e = true)
    (hquit : noQuit e = true) (hstep : Step s e s')
    : Serving s' := by
  have hkept : s'.loop.quit = false ∧ s'.pc ≠ .leaving ∧ ∀ caller, s'.calls caller ≠ .quitting := by
    cases hstep with
    | queueInLoop hcall => exact ⟨h.running, h.notLeaving, h.notQuitting_setCall (by simp)⟩
    | runInLoop hcall => exact ⟨h.running, h.notLeaving, h.notQuitting_setCall (by simp)⟩
    | runDirectly => exact ⟨h.running, h.notLeaving, h.notQuitting⟩
    | queueReturn hcall =>
      refine ⟨?_, h.notLeaving, h.notQuitting_setCall (by simp)⟩
      exact (queueWakeUp_quit _ _).trans h.running
    | quit hcall => cases hquit
    | quitReturn hcall => exact absurd hcall (h.notQuitting _)
    | loop hidle hloop =>
      rcases h.loopStep hloop with ⟨hrunning, hleaving⟩
      refine ⟨hrunning, hleaving, ?_⟩
      cases hloop with
      | _ => exact h.notQuitting
  constructor
  . exact h.fifo.step hstep
  . exact h.woken.step hquiet hstep
  . exact hkept.1
  . exact hkept.2.1
  . exact hkept.2.2

theorem stepsBefore_le {e : Event F} (h : Serving s) (hquit : noQuit e = true)
    (hstep : Step s e s') (hpushed : index < s.pushed.length) (hwaiting : s.executed.length ≤ index)
    : index < s'.executed.length
      ∨ s'.stepsBefore index + e.ofLoopThread.toNat ≤ s.stepsBefore index + e.ownerQueues.toNat := by
  cases hcall : e.isCall with
  | true =>
    right
    have hcalls := hstep.ownerCalls_le hcall hquit h.notQuitting
    unfold State.stepsBefore
    rw [hstep.pc_of_isCall hcall, hstep.executed_of_isCall hcall]
    omega
  | false =>
    cases hstep with
    | loop hidle hloop =>
      apply (hloop.stepsBefore_lt h hpushed hwaiting).imp_right
      intro hlt
      simp only [State.stepsBefore, hloop.ownerCalls_eq, Event.ofLoopThread, Event.ownerQueues, Bool.toNat_true,
        Bool.toNat_false]
      omega
    | _ => cases hcall

theorem pending_of_polling (h : Serving s) (hpc : s.pc = .polling)
    (hpushed : index < s.pushed.length) (hwaiting : s.executed.length ≤ index)
    : s.loop.pendingFunctors ≠ [] := by
  intro hempty
  have hsequence := h.fifo.sequence_of_not_inBatch (by simp [hpc, Pc.inBatch])
  rw [hempty, List.append_nil] at hsequence
  rw [← hsequence] at hpushed
  omega

theorem progress (h : Serving s) (hpushed : index < s.pushed.length)
    (hwaiting : s.executed.length ≤ index)
    : Advances s := by
  cases hcalls : s.calls .owner with
  | queueing i =>
    left
    refine ⟨.queueReturn .owner, rfl, ?_⟩
    simp [servingSystem, LTS.restrict, system, EventLoop.step, ownerQuiet, noQuit, hcalls]
  | quitting => exact absurd hcalls (h.notQuitting .owner)
  | idle =>
    by_cases hpoll : s.pc = .polling ∧ s.loop.wakeUpFd = 0
    . have hpending := h.pending_of_polling hpoll.1 hpushed hwaiting
      have hswap : s.pc.willSwap = false := by
        simp [hpoll.1, Pc.willSwap]
      rcases h.woken.notified hswap hpending with hfd | ⟨n, i, hother⟩ | ⟨⟨i, howner⟩, -⟩
      . omega
      . right
        refine ⟨hpoll.1, n, ?_⟩
        simp [servingSystem, LTS.restrict, system, EventLoop.step, ownerQuiet, noQuit, hother]
      . simp [hcalls] at howner
    . left
      refine ⟨.loop true, rfl, ?_⟩
      have hsome : (s.loopNext true).isSome = true := by
        apply State.loopNext_isSome
        intro hpc _
        have hfd : s.loop.wakeUpFd ≠ 0 := fun hzero => hpoll ⟨hpc, hzero⟩
        omega
      simpa [servingSystem, LTS.restrict, system, EventLoop.step, ownerQuiet, noQuit, hcalls]
        using hsome

end Serving

theorem Fifo.hasRun {index : Nat} (h : Fifo s) (hindex : index < s.executed.length)
    : s.HasRun index := by
  refine ⟨s.executed[index], ?_, List.getElem?_eq_getElem hindex⟩
  rw [← h.getElem?_executed hindex]
  exact List.getElem?_eq_getElem hindex

theorem Serving.new : Serving (.new : State F) := by
  constructor
  . exact Fifo.new
  . exact Woken.new
  . rfl
  . simp [State.new]
  . simp [State.new]

theorem serving_next_eq_some {e : Event F}
    : (servingSystem F).next s e = some s'
      ↔ (ownerQuiet s e = true ∧ noQuit e = true) ∧ EventLoop.step s e = some s' := by
  rw [servingSystem, LTS.restrict_next_eq_some, Bool.and_eq_true]
  rfl

theorem Serving.of_reachable (h : (servingSystem F).Reachable s) : Serving s := by
  apply LTS.Reachable.invariant (servingSystem F) _ _ h
  . intro s hinit
    rw [hinit]
    exact new
  . intro s e s' hs hnext
    rcases serving_next_eq_some.mp hnext with ⟨⟨hquiet, hquit⟩, hstep⟩
    exact hs.step hquiet hquit (.of_step hstep)

theorem functor_runs_soon {s s' : State F} {es : List (Event F)} {index : Nat}
    (h : (servingSystem F).Reachable s) (hpushed : index < s.pushed.length)
    (hrun : (servingSystem F).run s es = some s')
    : s'.HasRun index
      ∨ es.countP Event.ofLoopThread
          ≤ 2 * (index - s.executed.length) + 9 + es.countP Event.ownerQueues
        ∧ Advances s' := by
  have hserving := Serving.of_reachable h
  have hkeep : ∀ s e s', index < s.executed.length → (servingSystem F).next s e = some s' →
      index < s'.executed.length := by
    intro s e s' hindex hnext
    have hstep := Step.of_step (serving_next_eq_some.mp hnext).2
    exact Nat.lt_of_lt_of_le hindex hstep.executed_prefix.length_le
  have hstep : ∀ s e s', Serving s ∧ index < s.pushed.length → (servingSystem F).next s e = some s' →
      (Serving s' ∧ index < s'.pushed.length)
        ∧ (index < s'.executed.length
          ∨ s'.stepsBefore index + e.ofLoopThread.toNat
            ≤ s.stepsBefore index + 1 * e.ownerQueues.toNat) := by
    rintro s e s' ⟨hs, hindex⟩ hnext
    rcases serving_next_eq_some.mp hnext with ⟨⟨hquiet, hquit⟩, hstep⟩
    have hstep := Step.of_step hstep
    refine ⟨⟨hs.step hquiet hquit hstep, ?_⟩, ?_⟩
    . exact Nat.lt_of_lt_of_le hindex hstep.pushed_prefix.length_le
    . by_cases hexecuted : index < s.executed.length
      . exact Or.inl (hkeep s e s' hexecuted hnext)
      . rw [Nat.one_mul]
        exact hs.stepsBefore_le hquit hstep hindex (Nat.le_of_not_lt hexecuted)
  rcases LTS.countP_add_rank_le (servingSystem F) hkeep hstep ⟨hserving, hpushed⟩ hrun
    with ⟨⟨hserving', hpushed'⟩, hexecuted | hle⟩
  . exact Or.inl (hserving'.fifo.hasRun hexecuted)
  . by_cases hexecuted : index < s'.executed.length
    . exact Or.inl (hserving'.fifo.hasRun hexecuted)
    . right
      refine ⟨?_, hserving'.progress hpushed' (Nat.le_of_not_lt hexecuted)⟩
      have hbound : s.stepsBefore index ≤ 2 * (index - s.executed.length) + 9 := by
        have hpc := s.pc.stepsBefore_le (index - s.executed.length)
        have hcalls := ownerCalls_le s
        unfold State.stepsBefore
        omega
      omega

def queueBehind : List (Event Nat) :=
  [.queueInLoop (.other 1) 10, .loop false, .loop false, .loop false, .queueReturn (.other 1),
    .queueInLoop (.other 2) 20]

def serveBatch : List (Event Nat) :=
  [.loop true, .queueInLoop (.other 3) 30, .loop false, .loop false, .loop false, .loop false,
    .queueInLoop .owner 40, .queueReturn .owner]

theorem functor_runs_soon_queueBehind
    : ∃ s s', (servingSystem Nat).run .new queueBehind = some s
      ∧ (servingSystem Nat).run s serveBatch = some s'
      ∧ s'.executed = [⟨.other 1, 10⟩] ∧ serveBatch.countP Event.ofLoopThread = 6
      ∧ (s'.HasRun 1
        ∨ serveBatch.countP Event.ofLoopThread
            ≤ 2 * (1 - s.executed.length) + 9 + serveBatch.countP Event.ownerQueues
          ∧ Advances s') := by
  have hrun : (servingSystem Nat).run .new queueBehind = some _ := rfl
  refine ⟨_, _, hrun, rfl, rfl, rfl, ?_⟩
  exact functor_runs_soon (LTS.Reachable.of_run _ (.init rfl) hrun) (by decide) rfl

end EventLoop
