import Mmuduo.EventLoopThread.Quit

/-!
This module contains how the thread of an event loop is started. `Thread::start` waits on a semaphore
until the new thread runs, and `startLoop` waits on a condition variable until `threadFunc` has
published the loop. A step of `EventLoopThread` is one of the steps here, and the others are the ones
on the semaphore, on the mutex and on the condition variable.
-/

namespace EventLoopThread

namespace Handshake

variable {F : Type}

inductive Side where
  | starter
  | func
  deriving DecidableEq, Repr

inductive StarterPc where
  | notCalled
  -- at `sem_wait`
  | semWaiting
  | locking
  | testing
  -- in `m_cond.wait`, which has released the mutex
  | sleeping
  -- still in `m_cond.wait`, which takes the mutex again
  | waking
  | unlocking
  | returned
  deriving DecidableEq, Repr

inductive ThreadPc where
  | notCreated
  | created
  | tidStored
  | posted
  | constructed
  | locking
  | publishing
  | notifying
  | unlocking
  | looping
  | clearing
  | leaving
  | done
  deriving DecidableEq, Repr

def StarterPc.holds : StarterPc → Bool
  | .testing => true
  | .unlocking => true
  | _ => false

def ThreadPc.holds : ThreadPc → Bool
  | .publishing => true
  | .notifying => true
  | .unlocking => true
  | .clearing => true
  | .leaving => true
  | _ => false

structure State (F : Type) where
  thread : EventLoopThread.State F
  mutex : Option Side
  starter : StarterPc
  func : ThreadPc
  sem : Nat
  -- `m_tid`, and the id that the kernel has given to the thread
  tid : Nat
  kernelTid : Nat

namespace State

def new : State F where
  thread := .new
  mutex := none
  starter := .notCalled
  func := .notCreated
  sem := 0
  tid := 0
  kernelTid := 0

def lock (s : State F) (side : Side) : Option (State F) :=
  match s.mutex with
  | none => some { s with mutex := some side }
  | some _ => none

def unlock (s : State F) : State F :=
  { s with mutex := none }

def threadStep (s : State F) (e : EventLoopThread.Event F) : Option (State F) := do
  let thread ← EventLoopThread.step s.thread e
  return { s with thread }

def startLoop (s : State F) (kernelTid : Nat) : Option (State F) := do
  let s ← s.threadStep .startLoop
  return { s with starter := .semWaiting, func := .created, kernelTid }

def starterNext (s : State F) : Option (State F) :=
  match s.starter with
  | .semWaiting =>
    if 0 < s.sem then
      some { s with sem := s.sem - 1, starter := .locking }
    else
      none
  | .locking => (s.lock .starter).map fun s => { s with starter := .testing }
  -- `m_cond.wait` releases the mutex and falls asleep in one step.
  | .testing =>
    if s.thread.published then
      (s.threadStep .startLoopReturn).map fun s => { s with starter := .unlocking }
    else
      some { s.unlock with starter := .sleeping }
  | .waking => (s.lock .starter).map fun s => { s with starter := .testing }
  | .unlocking => some { s.unlock with starter := .returned }
  | _ => none

def notifyOne (s : State F) : State F :=
  { s with starter := if s.starter = .sleeping then .waking else s.starter }

def funcNext (s : State F) : Option (State F) :=
  match s.func with
  | .created => some { s with tid := s.kernelTid, func := .tidStored }
  | .tidStored => some { s with sem := s.sem + 1, func := .posted }
  | .posted => (s.threadStep .threadFunc).map fun s => { s with func := .constructed }
  | .constructed =>
    if s.thread.loop.calls .owner = .idle then
      some { s with func := .locking }
    else
      none
  | .locking => (s.lock .func).map fun s => { s with func := .publishing }
  | .publishing => (s.threadStep .threadFunc).map fun s => { s with func := .notifying }
  | .notifying => some { s.notifyOne with func := .unlocking }
  | .unlocking => some { s.unlock with func := .looping }
  | .looping =>
    if s.thread.func = .returned then
      (s.lock .func).map fun s => { s with func := .clearing }
    else
      none
  | .clearing => (s.threadStep .threadFunc).map fun s => { s with func := .leaving }
  | .leaving => some { s.unlock with func := .done }
  | _ => none

/--
The init callback and the loop run on the new thread, and everybody else has the loop from
`startLoop`.
-/
def mayCall (s : State F) : Caller → Bool
  | .owner => decide (s.func = .constructed ∨ s.func = .looping)
  | .other _ => decide (s.starter = .returned)

def allowed (s : State F) : EventLoopThread.Event F → Bool
  | .loop (.loop _) => decide (s.func = .looping)
  | .loop (.queueInLoop caller _) => s.mayCall caller
  | .loop (.runInLoop caller _) => s.mayCall caller
  | .loop (.queueReturn caller) => s.mayCall caller
  | .loop (.quit caller) => s.mayCall caller
  | .loop (.quitReturn caller) => s.mayCall caller
  | .destroy _ => decide (s.starter = .returned)
  | .destroyNext => decide (s.thread.destroy = .joining → s.func = .done)
  | _ => false

end State

inductive Event (F : Type) where
  | startLoop (kernelTid : Nat)
  | starter
  | func
  | spuriousWakeUp
  | thread (event : EventLoopThread.Event F)

def step (s : State F) : Event F → Option (State F)
  | .startLoop kernelTid =>
    if s.starter = .notCalled ∧ 0 < kernelTid then
      s.startLoop kernelTid
    else
      none
  | .starter => s.starterNext
  | .func => s.funcNext
  | .spuriousWakeUp =>
    if s.starter = .sleeping then
      some { s with starter := .waking }
    else
      none
  | .thread event =>
    if s.allowed event then
      s.threadStep event
    else
      none

def system (F : Type) : LTS (State F) (Event F) where
  Init s := s = .new
  next := step

def StarterPc.coarse : StarterPc → StartPc
  | .notCalled => .notCalled
  | .unlocking => .returned
  | .returned => .returned
  | _ => .waiting

def ThreadPc.coarse : ThreadPc → FuncPc
  | .notCreated => .notStarted
  | .created => .started
  | .tidStored => .started
  | .posted => .started
  | .constructed => .constructed
  | .locking => .constructed
  | .publishing => .constructed
  | .notifying => .looping
  | .unlocking => .looping
  | .looping => .looping
  | .clearing => .returned
  | .leaving => .finished
  | .done => .finished

def StarterPc.passedSem : StarterPc → Bool
  | .notCalled => false
  | .semWaiting => false
  | _ => true

def ThreadPc.progress : ThreadPc → Nat
  | .notCreated => 0
  | .created => 1
  | .tidStored => 2
  | .posted => 3
  | .constructed => 4
  | .locking => 5
  | .publishing => 6
  | .notifying => 7
  | .unlocking => 8
  | .looping => 9
  | .clearing => 10
  | .leaving => 11
  | .done => 12

def ThreadPc.hasTid (func : ThreadPc) : Bool :=
  decide (2 ≤ func.progress)

def ThreadPc.hasPosted (func : ThreadPc) : Bool :=
  decide (3 ≤ func.progress)

def ThreadPc.hasPublished (func : ThreadPc) : Bool :=
  decide (7 ≤ func.progress)

def ThreadPc.hasNotified (func : ThreadPc) : Bool :=
  decide (8 ≤ func.progress)

def ThreadPc.hasCleared (func : ThreadPc) : Bool :=
  decide (11 ≤ func.progress)

structure Inv (s : State F) : Prop where
  starterHolds : s.mutex = some .starter ↔ s.starter.holds = true
  funcHolds : s.mutex = some .func ↔ s.func.holds = true
  func : s.thread.func = s.func.coarse ∨ s.func = .looping ∧ s.thread.func = .returned
  start : s.thread.start = s.starter.coarse
  published : s.thread.published = (s.func.hasPublished && !s.func.hasCleared)
  created : s.starter = .notCalled ↔ s.func = .notCreated
  sem : s.sem = if s.starter = .semWaiting ∧ s.func.hasPosted = true then 1 else 0
  posted : s.starter ≠ .notCalled → s.starter ≠ .semWaiting → s.func.hasPosted = true
  tid : s.func.hasTid = true → s.tid = s.kernelTid
  kernelTid : s.starter ≠ .notCalled → 0 < s.kernelTid
  sleeping : s.starter = .sleeping → s.func.hasNotified = true → s.func.hasCleared = true
  returned : s.thread.start = .returned → s.func.hasPublished = true
  idle : s.thread.loop.calls .owner ≠ .idle →
    s.func = .constructed ∨ s.func = .looping ∧ s.thread.func = .looping

section Pc

variable {func func' : ThreadPc}

theorem ThreadPc.hasPosted_mono (hle : func.progress ≤ func'.progress)
    (h : func.hasPosted = true)
    : func'.hasPosted = true :=
  decide_eq_true (Nat.le_trans (of_decide_eq_true h) hle)

theorem ThreadPc.hasPublished_mono (hle : func.progress ≤ func'.progress)
    (h : func.hasPublished = true)
    : func'.hasPublished = true :=
  decide_eq_true (Nat.le_trans (of_decide_eq_true h) hle)

theorem ThreadPc.hasTid_of_hasPosted (h : func.hasPosted = true) : func.hasTid = true :=
  decide_eq_true (Nat.le_trans (by decide) (of_decide_eq_true h))

theorem ThreadPc.hasPublished_of_hasNotified (func : ThreadPc) (h : func.hasNotified = true)
    : func.hasPublished = true :=
  decide_eq_true (Nat.le_trans (by decide) (of_decide_eq_true h))

end Pc

structure StarterFrame (s s' : State F) : Prop where
  func : s'.func = s.func
  tid : s'.tid = s.tid
  kernelTid : s'.kernelTid = s.kernelTid
  threadFunc : s'.thread.func = s.thread.func
  published : s'.thread.published = s.thread.published
  loop : s'.thread.loop = s.thread.loop
  mutex : s'.mutex = some .func ↔ s.mutex = some .func

structure FuncFrame (s s' : State F) : Prop where
  starter : s'.starter = s.starter
  kernelTid : s'.kernelTid = s.kernelTid
  start : s'.thread.start = s.thread.start
  loop : s'.thread.loop = s.thread.loop
  mutex : s'.mutex = some .starter ↔ s.mutex = some .starter

section Thread

variable {s s' : State F}

theorem threadStep_threadFunc (h : s.threadStep .threadFunc = some s')
    : s.thread.func = .started ∧ s' = { s with thread := { s.thread with func := .constructed } }
      ∨ s.thread.func = .constructed
        ∧ s' = { s with thread := { s.thread with func := .looping, published := true } }
      ∨ s.thread.func = .returned
        ∧ s' = { s with thread := { s.thread with func := .finished, published := false } } := by
  unfold State.threadStep at h
  rw [Option.bind_eq_bind, Option.bind_eq_some_iff] at h
  rcases h with ⟨thread, hthread, hs'⟩
  cases hs'
  simp only [EventLoopThread.step, EventLoopThread.State.threadFunc] at hthread
  split at hthread
  . next hfunc =>
    cases hthread
    exact Or.inl ⟨hfunc, rfl⟩
  . next hfunc =>
    split at hthread
    . cases hthread
      exact Or.inr (Or.inl ⟨hfunc, rfl⟩)
    . simp at hthread
  . next hfunc =>
    split at hthread
    . cases hthread
      exact Or.inr (Or.inr ⟨hfunc, rfl⟩)
    . simp at hthread
  . simp at hthread

theorem calls_owner_of_step {loop loop' : EventLoop.State F} {event : EventLoop.Event F}
    (h : EventLoop.Step loop event loop')
    : loop'.calls .owner = .idle ∨ loop'.calls .owner = loop.calls .owner
      ∨ (∃ functor, event = .queueInLoop .owner functor) ∨ event = .quit .owner := by
  cases h with
  | @queueInLoop caller functor hcall =>
    cases caller with
    | owner => exact Or.inr (Or.inr (Or.inl ⟨functor, rfl⟩))
    | other n => simp [EventLoop.State.queueInLoop, EventLoop.State.setCall]
  | runInLoop hcall => simp [EventLoop.State.queueInLoop, EventLoop.State.setCall]
  | runDirectly => simp
  | @queueReturn caller index hcall =>
    cases caller with
    | owner => simp [EventLoop.State.queueReturn, EventLoop.State.setCall]
    | other n => simp [EventLoop.State.queueReturn, EventLoop.State.setCall]
  | @quit caller hcall =>
    cases caller with
    | owner => simp
    | other n => simp [EventLoop.State.quit, EventLoop.State.setCall]
  | @quitReturn caller hcall =>
    cases caller with
    | owner => simp [EventLoop.State.quitReturn, EventLoop.State.setCall]
    | other n => simp [EventLoop.State.quitReturn, EventLoop.State.setCall]
  | loop hidle hloop =>
    cases hloop with
    | _ => simp

theorem lock_eq {side : Side} (h : s.lock side = some s')
    : s.mutex = none ∧ s' = { s with mutex := some side } := by
  unfold State.lock at h
  split at h
  . next hnone =>
    cases h
    exact ⟨hnone, rfl⟩
  . simp at h

structure Outside (s : State F) (thread : EventLoopThread.State F) : Prop where
  start : thread.start = s.thread.start
  published : thread.published = s.thread.published
  func : thread.func = s.thread.func
    ∨ s.func = .looping ∧ s.thread.func = .looping ∧ thread.func = .returned
  idle : thread.loop.calls .owner ≠ .idle →
    thread.func = s.thread.func ∧ (s.thread.loop.calls .owner ≠ .idle
      ∨ s.mayCall .owner = true ∧ s.thread.mayCall .owner = true)

theorem Outside.call {event : EventLoop.Event F} {loop : EventLoop.State F} {destroy : DestroyPc}
    (hloop : EventLoop.Step s.thread.loop event loop)
    (howner : (∃ functor, event = .queueInLoop .owner functor) ∨ event = .quit .owner →
      s.mayCall .owner = true ∧ s.thread.mayCall .owner = true)
    : Outside s { s.thread with loop, destroy } := by
  refine ⟨rfl, rfl, Or.inl rfl, ?_⟩
  intro hbusy
  rcases calls_owner_of_step hloop with hidle | hsame | hevent
  . exact absurd hidle hbusy
  . rw [hsame] at hbusy
    exact ⟨rfl, Or.inl hbusy⟩
  . exact ⟨rfl, Or.inr (howner hevent)⟩

theorem Outside.loop {active : Bool} {loop : EventLoop.State F}
    (hfunc : s.func = .looping) (hlooping : s.thread.func = .looping)
    (hloop : EventLoop.Step s.thread.loop (.loop active) loop)
    : Outside s (s.thread.afterLoop loop) := by
  have hidle : loop.calls .owner = .idle := by
    cases hloop with
    | loop hidle hloop =>
      cases hloop with
      | _ => exact hidle
  refine ⟨rfl, rfl, ?_, ?_⟩
  . unfold EventLoopThread.State.afterLoop
    dsimp only
    split
    . exact Or.inr ⟨hfunc, hlooping, rfl⟩
    . exact Or.inl rfl
  . intro hbusy
    exact absurd hidle hbusy

theorem threadStep_outside {event : EventLoopThread.Event F} (hallowed : s.allowed event = true)
    (h : s.threadStep event = some s')
    : ∃ thread, s' = { s with thread } ∧ Outside s thread := by
  unfold State.threadStep at h
  rw [Option.bind_eq_bind, Option.bind_eq_some_iff] at h
  rcases h with ⟨thread, hthread, hs'⟩
  cases hs'
  refine ⟨thread, rfl, ?_⟩
  cases event with
  | startLoop => simp [State.allowed] at hallowed
  | startLoopReturn => simp [State.allowed] at hallowed
  | threadFunc => simp [State.allowed] at hallowed
  | loop event =>
    simp only [EventLoopThread.step] at hthread
    split at hthread
    . next hcoarse =>
      rw [Option.bind_eq_bind, Option.bind_eq_some_iff] at hthread
      rcases hthread with ⟨loop, hloop, heq⟩
      cases heq
      have hloop := EventLoop.Step.of_step hloop
      cases hcall : event.isCall with
      | true =>
        have hafter : s.thread.afterLoop loop = { s.thread with loop, destroy := s.thread.destroy } := by
          simp [EventLoopThread.State.afterLoop, hloop.pc_of_isCall hcall]
        rw [hafter]
        apply Outside.call hloop
        rintro (⟨functor, rfl⟩ | rfl)
        . exact ⟨hallowed, hcoarse⟩
        . exact ⟨hallowed, hcoarse⟩
      | false =>
        cases event with
        | loop active =>
          apply Outside.loop (of_decide_eq_true hallowed) (of_decide_eq_true hcoarse) hloop
        | _ => simp [EventLoop.Event.isCall] at hcall
    . simp at hthread
  | destroy n =>
    simp only [EventLoopThread.step] at hthread
    split at hthread
    . cases hthread
      exact ⟨rfl, rfl, Or.inl rfl, fun hbusy => ⟨rfl, Or.inl hbusy⟩⟩
    . simp at hthread
  | destroyNext =>
    simp only [EventLoopThread.step, EventLoopThread.State.destroyNext] at hthread
    split at hthread
    . cases hthread
      exact ⟨rfl, rfl, Or.inl rfl, fun hbusy => ⟨rfl, Or.inl hbusy⟩⟩
    . split at hthread
      . rw [Option.bind_eq_bind, Option.bind_eq_some_iff] at hthread
        rcases hthread with ⟨loop, hloop, heq⟩
        cases heq
        apply Outside.call (.of_step hloop)
        simp
      . simp at hthread
    . split at hthread
      . rw [Option.bind_eq_bind, Option.bind_eq_some_iff] at hthread
        rcases hthread with ⟨loop, hloop, heq⟩
        cases heq
        apply Outside.call (.of_step hloop)
        simp
      . simp at hthread
    . split at hthread
      . cases hthread
        exact ⟨rfl, rfl, Or.inl rfl, fun hbusy => ⟨rfl, Or.inl hbusy⟩⟩
      . simp at hthread
    . simp at hthread

end Thread

namespace Inv

variable {s s' : State F}

theorem new : Inv (.new : State F) where
  starterHolds := iff_of_false nofun nofun
  funcHolds := iff_of_false nofun nofun
  func := Or.inl rfl
  start := rfl
  published := rfl
  created := iff_of_true rfl rfl
  sem := rfl
  posted := fun hcalled => absurd rfl hcalled
  tid := nofun
  kernelTid := fun hcalled => absurd rfl hcalled
  sleeping := nofun
  returned := nofun
  idle := fun hbusy => absurd rfl hbusy

theorem startLoop {kernelTid : Nat} (h : Inv s) (hstarter : s.starter = .notCalled)
    (hpos : 0 < kernelTid) (hstep : s.startLoop kernelTid = some s')
    : Inv s' := by
  have hfunc := h.created.mp hstarter
  unfold State.startLoop State.threadStep at hstep
  simp only [EventLoopThread.step] at hstep
  split at hstep
  . cases hstep
    constructor
    case starterHolds =>
      rw [h.starterHolds, hstarter]
      exact Iff.rfl
    case funcHolds =>
      rw [h.funcHolds, hfunc]
      exact Iff.rfl
    case func =>
      exact Or.inl rfl
    case start =>
      rfl
    case published =>
      rw [h.published, hfunc]
      rfl
    case created =>
      simp
    case sem =>
      rw [h.sem, hstarter]
      rfl
    case posted =>
      exact fun _ hpassed => absurd rfl hpassed
    case tid =>
      simp [ThreadPc.hasTid, ThreadPc.progress]
    case kernelTid =>
      exact fun _ => hpos
    case sleeping =>
      simp
    case returned =>
      simp
    case idle =>
      intro hbusy
      rcases h.idle hbusy with hconstructed | ⟨hlooping, -⟩
      . simp [hfunc] at hconstructed
      . simp [hfunc] at hlooping
  . simp at hstep

theorem called (h : Inv s) (hfunc : s.func ≠ .notCreated) : s.starter ≠ .notCalled :=
  mt h.created.mp hfunc

theorem sem_eq_zero (h : Inv s) (hpassed : s.starter ≠ .semWaiting) : s.sem = 0 := by
  rw [h.sem, if_neg]
  exact fun hwaiting => hpassed hwaiting.1

theorem created_of_posted (hposted : s.func.hasPosted = true) : s.func ≠ .notCreated := by
  intro hfunc
  rw [hfunc] at hposted
  cases hposted

theorem ofStarter (h : Inv s) (hframe : StarterFrame s s') (hposted : s.func.hasPosted = true)
    (hpassed : s'.starter.passedSem = true) (hsem : s'.sem = 0)
    (hholds : s'.mutex = some .starter ↔ s'.starter.holds = true)
    (hstart : s'.thread.start = s'.starter.coarse)
    (hsleeping : s'.starter = .sleeping → s.func.hasNotified = true → s.func.hasCleared = true)
    (hreturned : s'.starter.coarse = .returned → s.func.hasPublished = true)
    : Inv s' := by
  have hcreated := created_of_posted hposted
  constructor
  case starterHolds =>
    exact hholds
  case funcHolds =>
    rw [hframe.mutex, hframe.func]
    exact h.funcHolds
  case func =>
    rw [hframe.threadFunc, hframe.func]
    exact h.func
  case start =>
    exact hstart
  case published =>
    rw [hframe.published, hframe.func]
    exact h.published
  case created =>
    rw [hframe.func]
    apply iff_of_false _ hcreated
    intro hstarter
    rw [hstarter] at hpassed
    cases hpassed
  case sem =>
    rw [hsem, if_neg]
    rintro ⟨hstarter, -⟩
    rw [hstarter] at hpassed
    cases hpassed
  case posted =>
    intro _ _
    rw [hframe.func]
    exact hposted
  case tid =>
    rw [hframe.func, hframe.tid, hframe.kernelTid]
    exact h.tid
  case kernelTid =>
    intro _
    rw [hframe.kernelTid]
    exact h.kernelTid (h.called hcreated)
  case sleeping =>
    rw [hframe.func]
    exact hsleeping
  case returned =>
    rw [hframe.func, hstart]
    exact hreturned
  case idle =>
    rw [hframe.loop, hframe.func, hframe.threadFunc]
    exact h.idle

theorem lockStarter (h : Inv s) (hpc : s.starter = .locking ∨ s.starter = .waking)
    (hlock : s.lock .starter = some s')
    : Inv { s' with starter := .testing } := by
  rcases lock_eq hlock with ⟨hnone, rfl⟩
  have hcoarse : s.thread.start = .waiting := by
    rw [h.start]
    rcases hpc with hpc | hpc
    . rw [hpc]
      rfl
    . rw [hpc]
      rfl
  have hpassed : s.starter ≠ .notCalled ∧ s.starter ≠ .semWaiting := by
    rcases hpc with hpc | hpc
    . simp [hpc]
    . simp [hpc]
  apply h.ofStarter
  case hframe =>
    exact ⟨rfl, rfl, rfl, rfl, rfl, rfl, by simp [hnone]⟩
  case hposted =>
    exact h.posted hpassed.1 hpassed.2
  case hpassed =>
    rfl
  case hsem =>
    exact h.sem_eq_zero hpassed.2
  case hholds =>
    exact iff_of_true rfl rfl
  case hstart =>
    exact hcoarse
  case hsleeping =>
    exact nofun
  case hreturned =>
    exact nofun

theorem starterNext (h : Inv s) (hstep : s.starterNext = some s') : Inv s' := by
  unfold State.starterNext at hstep
  split at hstep
  . next hpc =>
    split at hstep
    . next hpos =>
      have hposted : s.func.hasPosted = true := by
        by_contra hnot
        simp [h.sem, hnot] at hpos
      have hone : s.sem = 1 := by
        rw [h.sem, if_pos ⟨hpc, hposted⟩]
      cases hstep
      apply h.ofStarter
      case hframe =>
        exact ⟨rfl, rfl, rfl, rfl, rfl, rfl, Iff.rfl⟩
      case hposted =>
        exact hposted
      case hpassed =>
        rfl
      case hsem =>
        simp [hone]
      case hholds =>
        rw [h.starterHolds, hpc]
        exact Iff.rfl
      case hstart =>
        rw [h.start, hpc]
        rfl
      case hsleeping =>
        simp
      case hreturned =>
        simp [StarterPc.coarse]
    . simp at hstep
  . next hpc =>
    rcases Option.map_eq_some_iff.mp hstep with ⟨s₁, hlock, rfl⟩
    exact h.lockStarter (Or.inl hpc) hlock
  . next hpc =>
    have hposted := h.posted (by simp [hpc]) (by simp [hpc])
    have hheld : s.mutex = some .starter := by
      rw [h.starterHolds, hpc]
      rfl
    split at hstep
    . next hnow =>
      simp only [State.threadStep, EventLoopThread.step] at hstep
      split at hstep
      . cases hstep
        apply h.ofStarter
        case hframe =>
          exact ⟨rfl, rfl, rfl, rfl, rfl, rfl, Iff.rfl⟩
        case hposted =>
          exact hposted
        case hpassed =>
          rfl
        case hsem =>
          exact h.sem_eq_zero (by simp [hpc])
        case hholds =>
          exact iff_of_true hheld rfl
        case hstart =>
          rfl
        case hsleeping =>
          simp
        case hreturned =>
          intro _
          rw [h.published, Bool.and_eq_true] at hnow
          exact hnow.1
      . simp at hstep
    . next hnot =>
      cases hstep
      apply h.ofStarter
      case hframe =>
        exact ⟨rfl, rfl, rfl, rfl, rfl, rfl, by simp [State.unlock, hheld]⟩
      case hposted =>
        exact hposted
      case hpassed =>
        rfl
      case hsem =>
        exact h.sem_eq_zero (by simp [hpc])
      case hholds =>
        simp [State.unlock, StarterPc.holds]
      case hstart =>
        exact h.start.trans (by rw [hpc]; rfl)
      case hsleeping =>
        -- The loop is not published, so the notification is still to come or nobody needs it any more.
        intro _ hnotified
        by_contra hcleared
        apply hnot
        rw [h.published, s.func.hasPublished_of_hasNotified hnotified]
        simpa using hcleared
      case hreturned =>
        simp [StarterPc.coarse]
  . next hpc =>
    rcases Option.map_eq_some_iff.mp hstep with ⟨s₁, hlock, rfl⟩
    exact h.lockStarter (Or.inr hpc) hlock
  . next hpc =>
    have hheld : s.mutex = some .starter := by
      rw [h.starterHolds, hpc]
      rfl
    have hstart : s.thread.start = .returned := by
      rw [h.start, hpc]
      rfl
    cases hstep
    apply h.ofStarter
    case hframe =>
      exact ⟨rfl, rfl, rfl, rfl, rfl, rfl, by simp [State.unlock, hheld]⟩
    case hposted =>
      exact h.posted (by simp [hpc]) (by simp [hpc])
    case hpassed =>
      rfl
    case hsem =>
      exact h.sem_eq_zero (by simp [hpc])
    case hholds =>
      simp [State.unlock, StarterPc.holds]
    case hstart =>
      exact hstart
    case hsleeping =>
      simp
    case hreturned =>
      exact fun _ => h.returned hstart
  . simp at hstep

theorem wakeUp (h : Inv s) (hsleeping : s.starter = .sleeping)
    : Inv { s with starter := .waking } := by
  apply h.ofStarter
  case hframe =>
    exact ⟨rfl, rfl, rfl, rfl, rfl, rfl, Iff.rfl⟩
  case hposted =>
    exact h.posted (by simp [hsleeping]) (by simp [hsleeping])
  case hpassed =>
    rfl
  case hsem =>
    exact h.sem_eq_zero (by simp [hsleeping])
  case hholds =>
    rw [h.starterHolds, hsleeping]
    exact Iff.rfl
  case hstart =>
    rw [h.start, hsleeping]
    rfl
  case hsleeping =>
    exact nofun
  case hreturned =>
    exact nofun

theorem notifyOne (h : Inv s) : Inv s.notifyOne ∧ s.notifyOne.starter ≠ .sleeping := by
  unfold State.notifyOne
  by_cases hsleeping : s.starter = .sleeping
  . rw [if_pos hsleeping]
    exact ⟨h.wakeUp hsleeping, nofun⟩
  . rw [if_neg hsleeping]
    exact ⟨h, hsleeping⟩

section At

variable {pc : ThreadPc} (h : Inv s) (hpc : s.func = pc)

include h hpc

theorem coarse_at (hlooping : pc ≠ .looping) : s.thread.func = pc.coarse := by
  subst hpc
  exact h.func.resolve_right fun hfunc => hlooping hfunc.1

theorem funcHolds_at : s.mutex = some .func ↔ pc.holds = true := by
  subst hpc
  exact h.funcHolds

theorem published_at : s.thread.published = (pc.hasPublished && !pc.hasCleared) := by
  subst hpc
  exact h.published

theorem sem_at : s.sem = if s.starter = .semWaiting ∧ pc.hasPosted = true then 1 else 0 := by
  subst hpc
  exact h.sem

theorem tid_at (htid : pc.hasTid = true) : s.tid = s.kernelTid := by
  subst hpc
  exact h.tid htid

theorem awake_at (hnotified : pc.hasNotified = true) (hcleared : pc.hasCleared = false)
    : s.starter ≠ .sleeping := by
  subst hpc
  intro hsleeping
  rw [h.sleeping hsleeping hnotified] at hcleared
  cases hcleared

theorem owner_idle_at (hconstructed : pc ≠ .constructed) (hlooping : pc ≠ .looping)
    : s.thread.loop.calls .owner = .idle := by
  subst hpc
  by_contra hbusy
  rcases h.idle hbusy with hfunc | ⟨hfunc, -⟩
  . exact hconstructed hfunc
  . exact hlooping hfunc

end At

theorem ofFunc {pc pc' : ThreadPc} (h : Inv s) (hframe : FuncFrame s s') (hpc : s.func = pc)
    (hpc' : s'.func = pc') (hcreated : pc ≠ .notCreated) (hprogress : pc.progress < pc'.progress)
    (hholds : s'.mutex = some .func ↔ pc'.holds = true) (hfunc : s'.thread.func = pc'.coarse)
    (hpublished : s'.thread.published = (pc'.hasPublished && !pc'.hasCleared))
    (hsem : s'.sem = if s.starter = .semWaiting ∧ pc'.hasPosted = true then 1 else 0)
    (htid : pc'.hasTid = true → s'.tid = s.kernelTid)
    (hsleeping : s.starter = .sleeping → pc'.hasNotified = true → pc'.hasCleared = true)
    (hidle : s.thread.loop.calls .owner = .idle)
    : Inv s' := by
  subst hpc hpc'
  have hle := Nat.le_of_lt hprogress
  have hcalled := h.called hcreated
  constructor
  case starterHolds =>
    rw [hframe.mutex, hframe.starter]
    exact h.starterHolds
  case funcHolds =>
    exact hholds
  case func =>
    exact Or.inl hfunc
  case start =>
    rw [hframe.start, hframe.starter]
    exact h.start
  case published =>
    exact hpublished
  case created =>
    rw [hframe.starter]
    apply iff_of_false hcalled
    intro hfunc'
    rw [hfunc'] at hprogress
    exact Nat.not_lt_zero _ hprogress
  case sem =>
    rw [hframe.starter]
    exact hsem
  case posted =>
    rw [hframe.starter]
    intro _ hpassed
    exact ThreadPc.hasPosted_mono hle (h.posted hcalled hpassed)
  case tid =>
    rw [hframe.kernelTid]
    exact htid
  case kernelTid =>
    intro _
    rw [hframe.kernelTid]
    exact h.kernelTid hcalled
  case sleeping =>
    rw [hframe.starter]
    exact hsleeping
  case returned =>
    rw [hframe.start]
    intro hreturned
    exact ThreadPc.hasPublished_mono hle (h.returned hreturned)
  case idle =>
    rw [hframe.loop]
    exact fun hbusy => absurd hidle hbusy

theorem ofPosted {pc : ThreadPc} (h : Inv s) (pc' : ThreadPc) (hframe : FuncFrame s s')
    (hpc : s.func = pc) (hpc' : s'.func = pc') (hposted : pc.hasPosted = true)
    (hprogress : pc.progress < pc'.progress) (hsem : s'.sem = s.sem) (htid : s'.tid = s.tid)
    (hholds : s'.mutex = some .func ↔ pc'.holds = true) (hfunc : s'.thread.func = pc'.coarse)
    (hpublished : s'.thread.published = (pc'.hasPublished && !pc'.hasCleared))
    (hsleeping : s.starter = .sleeping → pc'.hasNotified = true → pc'.hasCleared = true)
    (hidle : s.thread.loop.calls .owner = .idle)
    : Inv s' := by
  have hposted' := ThreadPc.hasPosted_mono (Nat.le_of_lt hprogress) hposted
  have hcreated : pc ≠ .notCreated := by
    rintro rfl
    cases hposted
  have hsem' : s'.sem = if s.starter = .semWaiting ∧ pc'.hasPosted = true then 1 else 0 := by
    rw [hsem, h.sem_at hpc, hposted, hposted']
  have htid' : s'.tid = s.kernelTid := by
    rw [htid, h.tid_at hpc (ThreadPc.hasTid_of_hasPosted hposted)]
  exact h.ofFunc hframe hpc hpc' hcreated hprogress hholds hfunc hpublished hsem' (fun _ => htid')
    hsleeping hidle

theorem funcNext_created (h : Inv s) (hpc : s.func = .created)
    : Inv { s with tid := s.kernelTid, func := .tidStored } := by
  have hprogress : ThreadPc.created.progress < ThreadPc.tidStored.progress := by decide
  have hholds := h.funcHolds_at hpc
  have hfunc := h.coarse_at hpc nofun
  have hpublished := h.published_at hpc
  have hsem := h.sem_at hpc
  have hidle := h.owner_idle_at hpc nofun nofun
  exact h.ofFunc ⟨rfl, rfl, rfl, rfl, Iff.rfl⟩ hpc rfl nofun hprogress hholds hfunc hpublished hsem
    (fun _ => rfl) (fun _ => nofun) hidle

theorem funcNext_tidStored (h : Inv s) (hpc : s.func = .tidStored)
    : Inv { s with sem := s.sem + 1, func := .posted } := by
  have hprogress : ThreadPc.tidStored.progress < ThreadPc.posted.progress := by decide
  have hwaiting : s.starter = .semWaiting := by
    by_contra hpassed
    have hposted := h.posted (h.called (by simp [hpc])) hpassed
    rw [hpc] at hposted
    cases hposted
  have hsem : s.sem + 1 = if s.starter = .semWaiting ∧ ThreadPc.posted.hasPosted = true then 1 else 0 := by
    rw [h.sem_at hpc, hwaiting]
    rfl
  have hholds := h.funcHolds_at hpc
  have hfunc := h.coarse_at hpc nofun
  have hpublished := h.published_at hpc
  have htid := h.tid_at hpc rfl
  have hidle := h.owner_idle_at hpc nofun nofun
  exact h.ofFunc ⟨rfl, rfl, rfl, rfl, Iff.rfl⟩ hpc rfl nofun hprogress hholds hfunc hpublished hsem
    (fun _ => htid) (fun _ => nofun) hidle

theorem funcNext (h : Inv s) (hstep : s.funcNext = some s') : Inv s' := by
  unfold State.funcNext at hstep
  split at hstep
  . next hpc =>
    cases hstep
    exact h.funcNext_created hpc
  . next hpc =>
    cases hstep
    exact h.funcNext_tidStored hpc
  . next hpc =>
    have hcoarse := h.coarse_at hpc nofun
    have hholds := h.funcHolds_at hpc
    have hpublished := h.published_at hpc
    have hidle := h.owner_idle_at hpc nofun nofun
    rcases Option.map_eq_some_iff.mp hstep with ⟨s₁, hthread, rfl⟩
    rcases threadStep_threadFunc hthread with ⟨-, rfl⟩ | ⟨hother, -⟩ | ⟨hother, -⟩
    . exact h.ofPosted .constructed ⟨rfl, rfl, rfl, rfl, Iff.rfl⟩ hpc rfl rfl (by decide) rfl rfl
        hholds rfl hpublished (fun _ => nofun) hidle
    . simp [hcoarse, ThreadPc.coarse] at hother
    . simp [hcoarse, ThreadPc.coarse] at hother
  . next hpc =>
    have hholds := h.funcHolds_at hpc
    have hfunc := h.coarse_at hpc nofun
    have hpublished := h.published_at hpc
    split at hstep
    . next hidle =>
      cases hstep
      exact h.ofPosted .locking ⟨rfl, rfl, rfl, rfl, Iff.rfl⟩ hpc rfl rfl (by decide) rfl rfl
        hholds hfunc hpublished (fun _ => nofun) hidle
    . simp at hstep
  . next hpc =>
    have hfunc := h.coarse_at hpc nofun
    have hpublished := h.published_at hpc
    have hidle := h.owner_idle_at hpc nofun nofun
    rcases Option.map_eq_some_iff.mp hstep with ⟨s₁, hlock, rfl⟩
    rcases lock_eq hlock with ⟨hnone, rfl⟩
    have hmutex : some Side.func = some .starter ↔ s.mutex = some .starter := by simp [hnone]
    exact h.ofPosted .publishing ⟨rfl, rfl, rfl, rfl, hmutex⟩ hpc rfl rfl (by decide) rfl rfl
      (iff_of_true rfl rfl) hfunc hpublished (fun _ => nofun) hidle
  . next hpc =>
    have hcoarse := h.coarse_at hpc nofun
    have hholds := h.funcHolds_at hpc
    have hidle := h.owner_idle_at hpc nofun nofun
    rcases Option.map_eq_some_iff.mp hstep with ⟨s₁, hthread, rfl⟩
    rcases threadStep_threadFunc hthread with ⟨hother, -⟩ | ⟨-, rfl⟩ | ⟨hother, -⟩
    . simp [hcoarse, ThreadPc.coarse] at hother
    . exact h.ofPosted .notifying ⟨rfl, rfl, rfl, rfl, Iff.rfl⟩ hpc rfl rfl (by decide) rfl rfl
        hholds rfl rfl (fun _ => nofun) hidle
    . simp [hcoarse, ThreadPc.coarse] at hother
  . next hpc =>
    -- From here on the starter does not fall asleep any more.
    rcases h.notifyOne with ⟨h₁, hawake⟩
    have hpc₁ : s.notifyOne.func = .notifying := hpc
    have hholds := h₁.funcHolds_at hpc₁
    have hfunc := h₁.coarse_at hpc₁ nofun
    have hpublished := h₁.published_at hpc₁
    have hidle := h₁.owner_idle_at hpc₁ nofun nofun
    cases hstep
    exact h₁.ofPosted .unlocking ⟨rfl, rfl, rfl, rfl, Iff.rfl⟩ hpc₁ rfl rfl (by decide) rfl rfl
      hholds hfunc hpublished (fun hsleeping => absurd hsleeping hawake) hidle
  . next hpc =>
    have hheld := (h.funcHolds_at hpc).mpr rfl
    have hfunc := h.coarse_at hpc nofun
    have hpublished := h.published_at hpc
    have hawake := h.awake_at hpc rfl rfl
    have hidle := h.owner_idle_at hpc nofun nofun
    have hmutex : none = some Side.starter ↔ s.mutex = some .starter := by simp [hheld]
    cases hstep
    exact h.ofPosted .looping ⟨rfl, rfl, rfl, rfl, hmutex⟩ hpc rfl rfl (by decide) rfl rfl
      (iff_of_false nofun nofun) hfunc hpublished (fun hsleeping => absurd hsleeping hawake) hidle
  . next hpc =>
    split at hstep
    . next hreturned =>
      have hpublished := h.published_at hpc
      have hawake := h.awake_at hpc rfl rfl
      have hidle : s.thread.loop.calls .owner = .idle := by
        by_contra hbusy
        rcases h.idle hbusy with hfunc | ⟨-, hlooping⟩
        . simp [hpc] at hfunc
        . simp [hreturned] at hlooping
      rcases Option.map_eq_some_iff.mp hstep with ⟨s₁, hlock, rfl⟩
      rcases lock_eq hlock with ⟨hnone, rfl⟩
      have hmutex : some Side.func = some .starter ↔ s.mutex = some .starter := by simp [hnone]
      exact h.ofPosted .clearing ⟨rfl, rfl, rfl, rfl, hmutex⟩ hpc rfl rfl (by decide) rfl rfl
        (iff_of_true rfl rfl) hreturned hpublished (fun hsleeping => absurd hsleeping hawake) hidle
    . simp at hstep
  . next hpc =>
    have hcoarse := h.coarse_at hpc nofun
    have hholds := h.funcHolds_at hpc
    have hidle := h.owner_idle_at hpc nofun nofun
    rcases Option.map_eq_some_iff.mp hstep with ⟨s₁, hthread, rfl⟩
    rcases threadStep_threadFunc hthread with ⟨hother, -⟩ | ⟨hother, -⟩ | ⟨-, rfl⟩
    . simp [hcoarse, ThreadPc.coarse] at hother
    . simp [hcoarse, ThreadPc.coarse] at hother
    . exact h.ofPosted .leaving ⟨rfl, rfl, rfl, rfl, Iff.rfl⟩ hpc rfl rfl (by decide) rfl rfl
        hholds rfl rfl (fun _ _ => rfl) hidle
  . next hpc =>
    have hheld := (h.funcHolds_at hpc).mpr rfl
    have hfunc := h.coarse_at hpc nofun
    have hpublished := h.published_at hpc
    have hidle := h.owner_idle_at hpc nofun nofun
    have hmutex : none = some Side.starter ↔ s.mutex = some .starter := by simp [hheld]
    cases hstep
    exact h.ofPosted .done ⟨rfl, rfl, rfl, rfl, hmutex⟩ hpc rfl rfl (by decide) rfl rfl
      (iff_of_false nofun nofun) hfunc hpublished (fun _ _ => rfl) hidle
  . simp at hstep

theorem outside {thread : EventLoopThread.State F} (h : Inv s) (hout : Outside s thread)
    : Inv { s with thread } := by
  constructor
  case starterHolds =>
    exact h.starterHolds
  case funcHolds =>
    exact h.funcHolds
  case func =>
    rcases hout.func with hsame | ⟨hlooping, -, hreturned⟩
    . rw [hsame]
      exact h.func
    . exact Or.inr ⟨hlooping, hreturned⟩
  case start =>
    exact hout.start.trans h.start
  case published =>
    exact hout.published.trans h.published
  case created =>
    exact h.created
  case sem =>
    exact h.sem
  case posted =>
    exact h.posted
  case tid =>
    exact h.tid
  case kernelTid =>
    exact h.kernelTid
  case sleeping =>
    exact h.sleeping
  case returned =>
    intro hreturned
    rw [hout.start] at hreturned
    apply h.returned hreturned
  case idle =>
    intro hbusy
    rcases hout.idle hbusy with ⟨hsame, hbusy | ⟨hcall, hcoarse⟩⟩
    . rw [hsame]
      apply h.idle hbusy
    . rw [hsame]
      rcases of_decide_eq_true hcall with hfunc | hfunc
      . exact Or.inl hfunc
      . refine Or.inr ⟨hfunc, ?_⟩
        rcases h.func with hfunc' | ⟨-, hfunc'⟩
        . rw [hfunc', hfunc]
          rfl
        . simp [EventLoopThread.State.mayCall, hfunc'] at hcoarse

theorem step {e : Event F} (h : Inv s) (hstep : step s e = some s') : Inv s' := by
  cases e with
  | startLoop kernelTid =>
    simp only [Handshake.step] at hstep
    split at hstep
    . next hguard => apply h.startLoop hguard.1 hguard.2 hstep
    . simp at hstep
  | starter => apply h.starterNext hstep
  | func => apply h.funcNext hstep
  | spuriousWakeUp =>
    simp only [Handshake.step] at hstep
    split at hstep
    . next hsleeping =>
      cases hstep
      exact h.wakeUp hsleeping
    . simp at hstep
  | thread event =>
    simp only [Handshake.step] at hstep
    split at hstep
    . next hallowed =>
      rcases threadStep_outside hallowed hstep with ⟨thread, rfl, hout⟩
      apply h.outside hout
    . simp at hstep

theorem of_reachable (h : (system F).Reachable s) : Inv s := by
  apply LTS.Reachable.invariant (system F) _ _ h
  . intro s hinit
    rw [hinit]
    exact new
  . intro s e s' hs hnext
    apply hs.step hnext

end Inv

section Thread

variable {s s' : State F}

theorem step_of_threadStep {e : EventLoopThread.Event F} (h : s.threadStep e = some s')
    : EventLoopThread.step s.thread e = some s'.thread := by
  unfold State.threadStep at h
  rw [Option.bind_eq_bind, Option.bind_eq_some_iff] at h
  rcases h with ⟨thread, hstep, heq⟩
  cases heq
  exact hstep

theorem thread_lock {side : Side} (h : s.lock side = some s') : s'.thread = s.thread := by
  rcases lock_eq h with ⟨-, rfl⟩
  rfl

theorem thread_starterNext (h : s.starterNext = some s')
    : s'.thread = s.thread ∨ EventLoopThread.step s.thread .startLoopReturn = some s'.thread := by
  unfold State.starterNext at h
  split at h
  . split at h
    . cases h
      exact Or.inl rfl
    . simp at h
  . rcases Option.map_eq_some_iff.mp h with ⟨s₁, hlock, rfl⟩
    have hthread := thread_lock hlock
    exact Or.inl hthread
  . split at h
    . rcases Option.map_eq_some_iff.mp h with ⟨s₁, hstep, rfl⟩
      have hthread := step_of_threadStep hstep
      exact Or.inr hthread
    . cases h
      exact Or.inl rfl
  . rcases Option.map_eq_some_iff.mp h with ⟨s₁, hlock, rfl⟩
    have hthread := thread_lock hlock
    exact Or.inl hthread
  . cases h
    exact Or.inl rfl
  . simp at h

theorem thread_funcNext (h : s.funcNext = some s')
    : s'.thread = s.thread ∨ s.threadStep .threadFunc = some { s with thread := s'.thread } := by
  have hset : ∀ {s₁ : State F}, s.threadStep .threadFunc = some s₁ →
      s.threadStep .threadFunc = some { s with thread := s₁.thread } := by
    intro s₁ hstep
    rcases threadStep_threadFunc hstep with ⟨-, rfl⟩ | ⟨-, rfl⟩ | ⟨-, rfl⟩
    . exact hstep
    . exact hstep
    . exact hstep
  unfold State.funcNext at h
  split at h
  . cases h
    exact Or.inl rfl
  . cases h
    exact Or.inl rfl
  . rcases Option.map_eq_some_iff.mp h with ⟨s₁, hstep, rfl⟩
    have hthread := hset hstep
    exact Or.inr hthread
  . split at h
    . cases h
      exact Or.inl rfl
    . simp at h
  . rcases Option.map_eq_some_iff.mp h with ⟨s₁, hlock, rfl⟩
    have hthread := thread_lock hlock
    exact Or.inl hthread
  . rcases Option.map_eq_some_iff.mp h with ⟨s₁, hstep, rfl⟩
    have hthread := hset hstep
    exact Or.inr hthread
  . cases h
    exact Or.inl rfl
  . cases h
    exact Or.inl rfl
  . split at h
    . rcases Option.map_eq_some_iff.mp h with ⟨s₁, hlock, rfl⟩
      have hthread := thread_lock hlock
      exact Or.inl hthread
    . simp at h
  . rcases Option.map_eq_some_iff.mp h with ⟨s₁, hstep, rfl⟩
    have hthread := hset hstep
    exact Or.inr hthread
  . cases h
    exact Or.inl rfl
  . simp at h

theorem reachable_thread (h : (system F).Reachable s)
    : (EventLoopThread.system F).Reachable s.thread := by
  apply LTS.Reachable.map (system F) _ _ h
  . intro s hinit
    cases hinit
    rfl
  . intro s e s' hnext
    cases e with
    | startLoop kernelTid =>
      simp only [system, step] at hnext
      split at hnext
      . unfold State.startLoop at hnext
        rw [Option.bind_eq_bind, Option.bind_eq_some_iff] at hnext
        rcases hnext with ⟨s₁, hstep, heq⟩
        cases heq
        have hthread := step_of_threadStep hstep
        exact Or.inr ⟨.startLoop, hthread⟩
      . simp at hnext
    | starter => exact (thread_starterNext hnext).imp_right fun hstep => ⟨.startLoopReturn, hstep⟩
    | func =>
      apply (thread_funcNext hnext).imp_right
      intro hstep
      have hthread := step_of_threadStep hstep
      exact ⟨.threadFunc, hthread⟩
    | spuriousWakeUp =>
      simp only [system, step] at hnext
      split at hnext
      . cases hnext
        exact Or.inl rfl
      . simp at hnext
    | thread event =>
      simp only [system, step] at hnext
      split at hnext
      . exact Or.inr ⟨_, step_of_threadStep hnext⟩
      . simp at hnext

end Thread

section Start

variable {s s' : State F}

theorem mayCall_new (caller : Caller) : (.new : State F).mayCall caller = false := by
  cases caller with
  | _ => simp [State.mayCall, State.new]

theorem startLoop_of_step_new {e : Event F} (h : step .new e = some s')
    : ∃ kernelTid, e = .startLoop kernelTid := by
  cases e with
  | startLoop kernelTid => exact ⟨kernelTid, rfl⟩
  | starter => cases h
  | func => cases h
  | spuriousWakeUp => cases h
  | thread event =>
    simp only [step] at h
    split at h
    . next hallowed =>
      cases event with
      | loop event =>
        cases event with
        | loop active => simp [State.allowed, State.new] at hallowed
        | _ => simp [State.allowed, mayCall_new] at hallowed
      | destroyNext => cases h
      | _ => simp [State.allowed, State.new] at hallowed
    . simp at h

theorem starter_threadStep {e : EventLoopThread.Event F} (h : s.threadStep e = some s')
    : s'.starter = s.starter := by
  unfold State.threadStep at h
  rw [Option.bind_eq_bind, Option.bind_eq_some_iff] at h
  rcases h with ⟨thread, hstep, heq⟩
  cases heq
  rfl

theorem starter_lock {side : Side} (h : s.lock side = some s') : s'.starter = s.starter := by
  rcases lock_eq h with ⟨-, rfl⟩
  rfl

theorem starter_funcNext (h : s.funcNext = some s')
    : s'.starter = s.starter ∨ s.func = .notifying ∧ s'.starter = (s.notifyOne).starter := by
  unfold State.funcNext at h
  split at h
  . cases h
    exact Or.inl rfl
  . cases h
    exact Or.inl rfl
  . rcases Option.map_eq_some_iff.mp h with ⟨s₁, hstep, rfl⟩
    have hstarter := starter_threadStep hstep
    exact Or.inl hstarter
  . split at h
    . cases h
      exact Or.inl rfl
    . simp at h
  . rcases Option.map_eq_some_iff.mp h with ⟨s₁, hlock, rfl⟩
    have hstarter := starter_lock hlock
    exact Or.inl hstarter
  . rcases Option.map_eq_some_iff.mp h with ⟨s₁, hstep, rfl⟩
    have hstarter := starter_threadStep hstep
    exact Or.inl hstarter
  . next hpc =>
    cases h
    exact Or.inr ⟨hpc, rfl⟩
  . cases h
    exact Or.inl rfl
  . split at h
    . rcases Option.map_eq_some_iff.mp h with ⟨s₁, hlock, rfl⟩
      have hstarter := starter_lock hlock
      exact Or.inl hstarter
    . simp at h
  . rcases Option.map_eq_some_iff.mp h with ⟨s₁, hstep, rfl⟩
    have hstarter := starter_threadStep hstep
    exact Or.inl hstarter
  . cases h
    exact Or.inl rfl
  . simp at h

theorem returned_of_step {e : Event F} (hreturned : s.starter = .returned)
    (h : step s e = some s')
    : s'.starter = .returned := by
  cases e with
  | startLoop kernelTid =>
    simp [step, hreturned] at h
  | starter =>
    simp [step, State.starterNext, hreturned] at h
  | func =>
    rcases starter_funcNext h with hsame | ⟨-, hnotify⟩
    . rw [hsame, hreturned]
    . rw [hnotify]
      simp [State.notifyOne, hreturned]
  | spuriousWakeUp =>
    simp [step, hreturned] at h
  | thread event =>
    simp only [step] at h
    split at h
    . rw [starter_threadStep h, hreturned]
    . simp at h

end Start

def Event.isHandshake : Event F → Bool
  | .starter => true
  | .func => true
  | _ => false

def handshakes (F : Type) : LTS (State F) (Event F) :=
  (system F).restrict fun _ e => e.isHandshake = true

def StarterPc.rank : StarterPc → Nat
  | .notCalled => 0
  | .semWaiting => 5
  | .locking => 4
  | .testing => 3
  | .sleeping => 2
  | .waking => 4
  | .unlocking => 1
  | .returned => 0

def State.rank (s : State F) : Nat :=
  3 * (12 - s.func.progress) + s.starter.rank

section Rank

variable {s s' : State F}

theorem rank_starterNext (h : s.starterNext = some s') : s'.rank < s.rank := by
  unfold State.starterNext at h
  split at h
  . next hpc =>
    split at h
    . cases h
      simp [State.rank, hpc, StarterPc.rank]
    . simp at h
  . next hpc =>
    rcases Option.map_eq_some_iff.mp h with ⟨s₁, hlock, rfl⟩
    rcases lock_eq hlock with ⟨-, rfl⟩
    simp [State.rank, hpc, StarterPc.rank]
  . next hpc =>
    split at h
    . simp only [State.threadStep, EventLoopThread.step] at h
      split at h
      . cases h
        simp [State.rank, hpc, StarterPc.rank]
      . simp at h
    . cases h
      simp [State.rank, State.unlock, hpc, StarterPc.rank]
  . next hpc =>
    rcases Option.map_eq_some_iff.mp h with ⟨s₁, hlock, rfl⟩
    rcases lock_eq hlock with ⟨-, rfl⟩
    simp [State.rank, hpc, StarterPc.rank]
  . next hpc =>
    cases h
    simp [State.rank, State.unlock, hpc, StarterPc.rank]
  . simp at h

theorem rank_funcNext (h : s.funcNext = some s') : s'.rank < s.rank := by
  unfold State.funcNext at h
  split at h
  . next hpc =>
    cases h
    simp [State.rank, hpc, ThreadPc.progress]
  . next hpc =>
    cases h
    simp [State.rank, hpc, ThreadPc.progress]
  . next hpc =>
    rcases Option.map_eq_some_iff.mp h with ⟨s₁, hstep, rfl⟩
    simp [State.rank, hpc, starter_threadStep hstep, ThreadPc.progress]
  . next hpc =>
    split at h
    . cases h
      simp [State.rank, hpc, ThreadPc.progress]
    . simp at h
  . next hpc =>
    rcases Option.map_eq_some_iff.mp h with ⟨s₁, hlocked, rfl⟩
    simp [State.rank, hpc, starter_lock hlocked, ThreadPc.progress]
  . next hpc =>
    rcases Option.map_eq_some_iff.mp h with ⟨s₁, hstep, rfl⟩
    simp [State.rank, hpc, starter_threadStep hstep, ThreadPc.progress]
  . next hpc =>
    cases h
    unfold State.notifyOne State.rank
    dsimp only
    split
    . next hsleeping => simp [hpc, hsleeping, StarterPc.rank, ThreadPc.progress]
    . simp [hpc, ThreadPc.progress]
  . next hpc =>
    cases h
    simp [State.rank, State.unlock, hpc, ThreadPc.progress]
  . next hpc =>
    split at h
    . rcases Option.map_eq_some_iff.mp h with ⟨s₁, hlocked, rfl⟩
      simp [State.rank, hpc, starter_lock hlocked, ThreadPc.progress]
    . simp at h
  . next hpc =>
    rcases Option.map_eq_some_iff.mp h with ⟨s₁, hstep, rfl⟩
    simp [State.rank, hpc, starter_threadStep hstep, ThreadPc.progress]
  . next hpc =>
    cases h
    simp [State.rank, State.unlock, hpc, ThreadPc.progress]
  . simp at h

end Rank

/--
`startLoop` is called, the init callback makes no call that has to return first, and the loop is not
at its end.
-/
structure Undisturbed (s : State F) : Prop where
  inv : Inv s
  called : s.thread.start ≠ .notCalled
  running : s.thread.func.ended = false
  idle : s.thread.loop.calls .owner = .idle

namespace Undisturbed

variable {s s' : State F}

theorem of_thread (h : Undisturbed s) (hinv : Inv s') (hthread : s'.thread = s.thread)
    : Undisturbed s' := by
  refine ⟨hinv, ?_, ?_, ?_⟩
  . rw [hthread]
    exact h.called
  . rw [hthread]
    exact h.running
  . rw [hthread]
    exact h.idle

theorem starterNext (h : Undisturbed s) (hstep : s.starterNext = some s') : Undisturbed s' := by
  have hinv := h.inv.starterNext hstep
  rcases thread_starterNext hstep with hsame | hreturn
  . apply h.of_thread hinv hsame
  . simp only [EventLoopThread.step] at hreturn
    split at hreturn
    . rw [Option.some.injEq] at hreturn
      refine ⟨hinv, ?_, ?_, ?_⟩
      . simp [← hreturn]
      . rw [← hreturn]
        exact h.running
      . rw [← hreturn]
        exact h.idle
    . simp at hreturn

theorem funcNext (h : Undisturbed s) (hstep : s.funcNext = some s') : Undisturbed s' := by
  have hinv := h.inv.funcNext hstep
  rcases thread_funcNext hstep with hsame | hfunc
  . apply h.of_thread hinv hsame
  . have hrunning := h.running
    rcases threadStep_threadFunc hfunc with ⟨-, heq⟩ | ⟨-, heq⟩ | ⟨hended, -⟩
    . have hthread : s'.thread = { s.thread with func := .constructed } := congrArg State.thread heq
      refine ⟨hinv, ?_, ?_, ?_⟩
      . rw [hthread]
        exact h.called
      . rw [hthread]
        rfl
      . rw [hthread]
        exact h.idle
    . have hthread : s'.thread = { s.thread with func := .looping, published := true } :=
        congrArg State.thread heq
      refine ⟨hinv, ?_, ?_, ?_⟩
      . rw [hthread]
        exact h.called
      . rw [hthread]
        rfl
      . rw [hthread]
        exact h.idle
    . simp [hended, FuncPc.ended] at hrunning

theorem next {e : Event F} (h : Undisturbed s) (hnext : (handshakes F).next s e = some s')
    : Undisturbed s' ∧ s'.rank < s.rank := by
  rw [handshakes, LTS.restrict_next_eq_some] at hnext
  rcases hnext with ⟨hhandshake, hstep⟩
  cases e with
  | starter => exact ⟨h.starterNext hstep, rank_starterNext hstep⟩
  | func => exact ⟨h.funcNext hstep, rank_funcNext hstep⟩
  | _ => simp [Event.isHandshake] at hhandshake

theorem funcNext_isSome (h : Undisturbed s) (hfunc : s.func ≠ .looping) (hdone : s.func ≠ .done)
    (hlocking : s.func = .locking → s.mutex = none)
    : s.funcNext.isSome = true := by
  have hcoarse := h.inv.func
  have hstart := h.inv.start
  have hcalled := h.called
  have hidle := h.idle
  have hcreated := h.inv.created
  unfold State.funcNext
  split
  . rfl
  . rfl
  . next hpc =>
    have hstarted : s.thread.func = .started := by
      simpa [hpc, ThreadPc.coarse] using hcoarse
    simp [State.threadStep, EventLoopThread.step, EventLoopThread.State.threadFunc, hstarted]
  . simp [hidle]
  . next hpc => simp [State.lock, hlocking hpc]
  . next hpc =>
    have hconstructed : s.thread.func = .constructed := by
      simpa [hpc, ThreadPc.coarse] using hcoarse
    simp [State.threadStep, EventLoopThread.step, EventLoopThread.State.threadFunc, hconstructed,
      hidle]
  . rfl
  . rfl
  . next hpc => exact absurd hpc hfunc
  . next hpc =>
    have hreturned : s.thread.func = .returned := by
      simpa [hpc, ThreadPc.coarse] using hcoarse
    simp [State.threadStep, EventLoopThread.step, EventLoopThread.State.threadFunc, hreturned, hidle]
  . rfl
  . next hnot₁ hnot₂ hnot₃ hnot₄ hnot₅ hnot₆ hnot₇ hnot₈ hnot₉ hnot₁₀ hnot₁₁ =>
    cases hcase : s.func <;> simp_all [StarterPc.coarse]

theorem func_of_hasCleared (h : Undisturbed s) : s.func.hasCleared = false := by
  have hfunc := h.inv.func
  have hrunning := h.running
  cases hcase : s.func with
  | leaving => simp_all [ThreadPc.coarse, FuncPc.ended]
  | done => simp_all [ThreadPc.coarse, FuncPc.ended]
  | _ => rfl

theorem lock_isSome_or (h : Undisturbed s) (hholds : s.starter.holds = false)
    : (s.lock .starter).isSome = true ∨ s.funcNext.isSome = true := by
  cases hmutex : s.mutex with
  | none =>
    left
    simp [State.lock, hmutex]
  | some side =>
    cases side with
    | starter => simp [h.inv.starterHolds.mp hmutex] at hholds
    | func =>
      right
      have hfunc := h.inv.funcHolds.mp hmutex
      apply h.funcNext_isSome
      . rintro heq
        simp [heq, ThreadPc.holds] at hfunc
      . rintro heq
        simp [heq, ThreadPc.holds] at hfunc
      . rintro heq
        simp [heq, ThreadPc.holds] at hfunc

theorem progress (h : Undisturbed s) (hwaiting : s.starter ≠ .returned)
    : s.starterNext.isSome = true ∨ s.funcNext.isSome = true := by
  have hstart := h.inv.start
  cases hpc : s.starter with
  | notCalled =>
    rw [hpc] at hstart
    exact absurd hstart h.called
  | semWaiting =>
    by_cases hsem : 0 < s.sem
    . left
      simp [State.starterNext, hpc, hsem]
    . right
      have hnot : s.func.hasPosted = false := by
        have heq := h.inv.sem
        simp only [hpc, true_and] at heq
        split at heq
        . omega
        . next hnot => simpa using hnot
      apply h.funcNext_isSome
      . rintro heq
        simp [heq, ThreadPc.hasPosted, ThreadPc.progress] at hnot
      . rintro heq
        simp [heq, ThreadPc.hasPosted, ThreadPc.progress] at hnot
      . rintro heq
        simp [heq, ThreadPc.hasPosted, ThreadPc.progress] at hnot
  | locking =>
    apply (h.lock_isSome_or (by simp [hpc, StarterPc.holds])).imp_left
    intro hlock
    simpa [State.starterNext, hpc] using hlock
  | testing =>
    left
    rw [hpc] at hstart
    have hstart' : s.thread.start = .waiting := hstart
    unfold State.starterNext
    simp only [hpc]
    split
    . next hpublished =>
      simp [State.threadStep, EventLoopThread.step, hstart', hpublished]
    . rfl
  | sleeping =>
    right
    have hcleared := h.func_of_hasCleared
    have hnot : s.func.hasNotified = false := by
      by_contra hnotified
      have hnow := h.inv.sleeping hpc (by simpa using hnotified)
      simp [hnow] at hcleared
    apply h.funcNext_isSome
    . rintro heq
      simp [heq, ThreadPc.hasNotified, ThreadPc.progress] at hnot
    . rintro heq
      simp [heq, ThreadPc.hasNotified, ThreadPc.progress] at hnot
    . intro heq
      have hstarterHolds := h.inv.starterHolds
      have hfuncHolds := h.inv.funcHolds
      rw [hpc] at hstarterHolds
      rw [heq] at hfuncHolds
      cases hmutex : s.mutex with
      | none => rfl
      | some side =>
        cases side with
        | starter => simp [hmutex, StarterPc.holds] at hstarterHolds
        | func => simp [hmutex, ThreadPc.holds] at hfuncHolds
  | waking =>
    apply (h.lock_isSome_or (by simp [hpc, StarterPc.holds])).imp_left
    intro hlock
    simpa [State.starterNext, hpc] using hlock
  | unlocking =>
    left
    simp [State.starterNext, hpc]
  | returned => exact absurd hpc hwaiting

end Undisturbed

structure Started (s : State F) : Prop where
  tid : s.tid = s.kernelTid ∧ 0 < s.tid
  published : s.func.hasPublished = true
  reachable : (EventLoopThread.system F).Reachable s.thread
  start : s.thread.start = .returned

theorem Inv.started {s : State F} (h : Inv s) (hreach : (system F).Reachable s)
    (hreturned : s.starter = .returned)
    : Started s := by
  have hstart : s.thread.start = .returned := by
    rw [h.start, hreturned]
    rfl
  have hpublished := h.returned hstart
  have htid : s.tid = s.kernelTid := by
    apply h.tid
    simp only [ThreadPc.hasPublished, ThreadPc.hasTid, decide_eq_true_eq] at hpublished ⊢
    omega
  refine ⟨⟨htid, ?_⟩, hpublished, reachable_thread hreach, hstart⟩
  rw [htid]
  apply h.kernelTid
  simp [hreturned]

/--
No notification is lost: `startLoop` sleeps only while `notify_one` is still to come or after the loop
has come to its end, and it returns what the thread has published.
-/
theorem startLoop_notified {s : State F} (h : (system F).Reachable s)
    : (s.starter = .sleeping → s.func.hasNotified = false ∨ s.func.hasCleared = true)
      ∧ (s.starter = .returned → Started s)
      ∧ ¬(s.starter.holds = true ∧ s.func.holds = true) := by
  have hinv := Inv.of_reachable h
  refine ⟨?_, hinv.started h, ?_⟩
  . intro hsleeping
    cases hnotified : s.func.hasNotified with
    | false => exact Or.inl rfl
    | true => exact Or.inr (hinv.sleeping hsleeping hnotified)
  . rintro ⟨hstarter, hfunc⟩
    have hmutex := hinv.starterHolds.mpr hstarter
    rw [hinv.funcHolds.mpr hfunc] at hmutex
    cases hmutex

theorem startLoop_returns {s s' : State F} (h : (system F).Reachable s)
    (hcalled : s.starter ≠ .notCalled) (hrunning : s.thread.func.ended = false)
    (hidle : s.thread.loop.calls .owner = .idle) {es : List (Event F)}
    (hrun : (handshakes F).run s es = some s')
    : es.length ≤ s.rank ∧ ((handshakes F).Stuck s' → s'.starter = .returned ∧ Started s') := by
  have hinv := Inv.of_reachable h
  have hundisturbed : Undisturbed s := by
    refine ⟨hinv, ?_, hrunning, hidle⟩
    rw [hinv.start]
    intro hcoarse
    cases hpc : s.starter with
    | notCalled => exact hcalled hpc
    | _ =>
      rw [hpc] at hcoarse
      cases hcoarse
  have hnext : ∀ s e s', ((system F).Reachable s ∧ Undisturbed s) →
      (handshakes F).next s e = some s' →
      ((system F).Reachable s' ∧ Undisturbed s') ∧ s'.rank < s.rank := by
    rintro s e s' ⟨hreach, hs⟩ hnext
    rcases hs.next hnext with ⟨hs', hlt⟩
    exact ⟨⟨.step hreach (LTS.restrict_next_eq_some _ |>.mp hnext).2, hs'⟩, hlt⟩
  rcases LTS.length_add_rank_le (handshakes F) hnext ⟨h, hundisturbed⟩ hrun
    with ⟨⟨hreach, hs'⟩, hle⟩
  refine ⟨by omega, ?_⟩
  intro hstuck
  have hreturned : s'.starter = .returned := by
    by_contra hwaiting
    rcases hs'.progress hwaiting with hstarter | hfunc
    . have hnone := hstuck .starter
      simp only [handshakes, LTS.restrict, Event.isHandshake, ↓reduceIte, system, step] at hnone
      simp [hnone] at hstarter
    . have hnone := hstuck .func
      simp only [handshakes, LTS.restrict, Event.isHandshake, ↓reduceIte, system, step] at hnone
      simp [hnone] at hfunc
  exact ⟨hreturned, hs'.inv.started hreach hreturned⟩

def sleepFirst : List (Event Nat) :=
  [.startLoop 71, .func, .func, .starter, .starter, .starter]

def wokenUp : List (Event Nat) :=
  [.func, .func, .func, .func, .func, .func, .starter, .starter, .starter]

theorem startLoop_notified_sleepFirst
    : ∃ s, (system Nat).run .new sleepFirst = some s ∧ s.starter = .sleeping
      ∧ s.func.hasNotified = false := by
  have hrun : (system Nat).run .new sleepFirst = some _ := rfl
  refine ⟨_, hrun, rfl, ?_⟩
  rcases (startLoop_notified (LTS.Reachable.of_run _ (.init rfl) hrun)).1 rfl with hnot | hcleared
  . exact hnot
  . cases hcleared

theorem startLoop_returns_sleepFirst
    : ∃ s, (system Nat).run .new sleepFirst = some s
      ∧ ∃ s', (handshakes Nat).run s wokenUp = some s' ∧ s'.starter = .returned
        ∧ wokenUp.length ≤ s.rank := by
  have hrun : (system Nat).run .new sleepFirst = some _ := rfl
  refine ⟨_, hrun, ?_⟩
  refine ⟨_, rfl, rfl, ?_⟩
  exact (startLoop_returns (.of_run _ (.init rfl) hrun) (by decide) rfl rfl rfl).1

end Handshake

end EventLoopThread
