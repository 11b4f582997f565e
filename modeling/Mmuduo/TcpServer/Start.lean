import Mmuduo.EventLoop.Fifo
import Mmuduo.EventLoopThread.Handshake
import Mmuduo.EventLoopThreadPool

/-!
This module contains the start of a server: any number of threads call `TcpServer::start`, one of them
starts the threads of the pool one after another and hands `Acceptor::listen` to the base loop, and the
base loop accepts connections. The functors of the base loop other than `listen` are left open.
-/

namespace TcpServer

namespace Start

variable {F : Type}

inductive Functor where
  | listen
  | other
  deriving DecidableEq, Repr

inductive CallPc where
  | idle
  -- `EventLoopThreadPool::start`, at the test of its loop and in `startLoop` of the thread `i`
  | creating (i : Nat)
  | waiting (i : Nat)
  | handingOver
  deriving DecidableEq, Repr

structure State (F : Type) where
  startedN : Int32
  pool : EventLoopThreadPool
  hasInitCallback : Bool
  -- the number of the calls of the init callback with the base loop, and of `Acceptor::listen`
  baseInits : Nat
  listens : Nat
  threads : Nat → EventLoopThread.Handshake.State F
  baseLoop : EventLoop.State Functor
  calls : Caller → CallPc
  -- the calls of `start`, and the loops of the accepted connections
  starts : Nat
  accepted : List LoopId

namespace State

def new (numThread : Int32) (hasInitCallback : Bool) : State F where
  startedN := 0
  pool := .new numThread
  hasInitCallback := hasInitCallback
  baseInits := 0
  listens := 0
  threads := fun _ => .new
  baseLoop := .new
  calls := fun _ => .idle
  starts := 0
  accepted := []

def setCall (s : State F) (caller : Caller) (call : CallPc) : State F :=
  { s with calls := Function.update s.calls caller call }

def setThread (s : State F) (i : Nat) (thread : EventLoopThread.Handshake.State F) : State F :=
  { s with threads := Function.update s.threads i thread }

def canCall (s : State F) (caller : Caller) : Bool :=
  s.baseLoop.canCall caller && decide (s.calls caller = .idle)

def start (s : State F) (caller : Caller) : State F :=
  let won := s.startedN == 0
  let s := { s with startedN := s.startedN + 1, starts := s.starts + 1 }
  if won then
    { s.setCall caller (.creating 0) with pool := { s.pool with started := true } }
  else
    s

def initBase (s : State F) : State F :=
  if s.pool.numThread = 0 ∧ s.hasInitCallback = true then
    { s with baseInits := s.baseInits + 1 }
  else
    s

def createNext (s : State F) (caller : Caller) (i kernelTid : Nat) : Option (State F) :=
  if (i : Int) < s.pool.numThread.toInt then do
    let thread ← EventLoopThread.Handshake.step (s.threads i) (.startLoop kernelTid)
    return (s.setThread i thread).setCall caller (.waiting i)
  else
    some (s.initBase.setCall caller .handingOver)

def pushLoop (s : State F) (i : Nat) : State F :=
  { s with pool := { s.pool with eventloops := s.pool.eventloops ++ [i + 1] } }

def listen (s : State F) : State F :=
  { s with listens := s.listens + 1 }

def handOver (s : State F) : Caller → Option (State F)
  | .owner => some (s.listen.setCall .owner .idle)
  | .other n => do
    let baseLoop ← EventLoop.step s.baseLoop (.runInLoop (.other n) .listen)
    return { s.setCall (.other n) .idle with baseLoop }

def startNext (s : State F) (caller : Caller) (kernelTid : Nat) : Option (State F) :=
  match s.calls caller with
  | .idle => none
  | .creating i => s.createNext caller i kernelTid
  | .waiting i =>
    if (s.threads i).starter = .returned then
      some ((s.pushLoop i).setCall caller (.creating (i + 1)))
    else
      none
  | .handingOver => s.handOver caller

def runNext (s : State F) : State F :=
  match s.baseLoop.pc.starting with
  | some ⟨_, .listen⟩ => s.listen
  | _ => s

/--
The accept channel is only known to the poller after `listen`.
-/
def canAccept (s : State F) : Bool :=
  match s.baseLoop.pc with
  | .handling _ => s.canCall .owner && decide (0 < s.listens)
  | _ => false

def accept (s : State F) : Option (State F) := do
  let next ← s.pool.getNextLoop
  return { s with pool := next.2, accepted := s.accepted ++ [next.1] }

end State

inductive Event (F : Type) where
  | start (caller : Caller)
  | startNext (caller : Caller) (kernelTid : Nat)
  | thread (i : Nat) (event : EventLoopThread.Handshake.Event F)
  | call (event : EventLoop.Event Functor)
  | loop (wakeUpActive : Bool)
  | accept

def isStartLoop : EventLoopThread.Handshake.Event F → Bool
  | .startLoop _ => true
  | _ => false

def isOther : EventLoop.Event Functor → Bool
  | .queueInLoop _ functor => decide (functor = .other)
  | .runInLoop _ functor => decide (functor = .other)
  | .loop _ => false
  | _ => true

def step (s : State F) : Event F → Option (State F)
  | .start caller =>
    if s.canCall caller then
      some (s.start caller)
    else
      none
  | .startNext caller kernelTid => s.startNext caller kernelTid
  | .thread i event =>
    if isStartLoop event then
      none
    else do
      let thread ← EventLoopThread.Handshake.step (s.threads i) event
      return s.setThread i thread
  | .call event =>
    if isOther event then do
      let baseLoop ← EventLoop.step s.baseLoop event
      return { s with baseLoop }
    else
      none
  | .loop wakeUpActive =>
    if s.calls .owner = .idle then do
      let baseLoop ← EventLoop.step s.baseLoop (.loop wakeUpActive)
      return { s.runNext with baseLoop }
    else
      none
  | .accept =>
    if s.canAccept then
      s.accept
    else
      none

def system (F : Type) : LTS (State F) (Event F) where
  Init s := ∃ numThread hasInitCallback, s = .new numThread hasInitCallback
  next := step

/--
The counter of the calls is 32 bits wide.
-/
def fewStarts (s : State F) : Event F → Bool
  | .start _ => decide (s.starts < 2 ^ 32)
  | _ => true

def boundedSystem (F : Type) : LTS (State F) (Event F) :=
  (system F).restrict fun s e => fewStarts s e = true

def isListen (queued : Queued Functor) : Bool :=
  decide (queued.functor = .listen)

def State.handed (s : State F) : Nat :=
  s.listens + s.baseLoop.waiting.countP isListen

def State.busy (s : State F) (caller : Caller) : Prop :=
  s.calls caller ≠ .idle

def size (s : State F) : Nat :=
  s.pool.eventloops.length

def target (s : State F) : Nat :=
  s.pool.numThread.toInt.toNat

def Fits (s : State F) : CallPc → Prop
  | .idle => True
  | .creating i => size s = i ∧ i ≤ target s
  | .waiting i => size s = i ∧ i < target s
  | .handingOver => size s = target s

structure Calls (s : State F) : Prop where
  startedN : s.startedN = Int32.ofNat s.starts
  unique : ∀ c d, s.busy c → s.busy d → c = d
  started : ∀ c, s.busy c → 0 < s.starts
  fits : ∀ c, Fits s (s.calls c)
  handed : s.handed ≤ 1
  notHanded : s.starts = 0 ∨ (∃ c, s.busy c) → s.handed = 0

structure Pool (s : State F) : Prop where
  inOrder : s.pool.InOrder
  before : s.starts = 0 → s.pool.eventloops = []
  complete : 0 < s.handed → size s = target s
  reachable : ∀ i, (EventLoopThread.Handshake.system F).Reachable (s.threads i)
  returned : ∀ i < size s, (s.threads i).starter = .returned
  unstarted : ∀ i, size s ≤ i → (∀ c, s.calls c ≠ .waiting i) → s.threads i = .new
  accepted : s.accepted = (List.range s.accepted.length).map (EventLoopThreadPool.turn (size s))
  notListening : s.listens = 0 → s.accepted = []
  next : s.pool.next = EventLoopThreadPool.nextAt (size s) s.accepted.length

structure Inv (s : State F) : Prop where
  calls : Calls s
  pool : Pool s

section Handed

variable {s s' : State F} {baseLoop : EventLoop.State Functor}

theorem countP_call {event : EventLoop.Event Functor} (hother : isOther event = true)
    (h : EventLoop.step s.baseLoop event = some baseLoop)
    : baseLoop.waiting.countP isListen = s.baseLoop.waiting.countP isListen := by
  rcases (EventLoop.Step.of_step h).waiting_eq with heq | ⟨queued, hpush, heq⟩ | ⟨active, hloop, -⟩
  . rw [heq]
  . have hnot : isListen queued = false := by
      cases event with
      | queueInLoop caller functor =>
        cases hpush
        simp only [isOther, decide_eq_true_eq] at hother
        simp [isListen, hother]
      | runInLoop caller functor =>
        cases hpush
        simp only [isOther, decide_eq_true_eq] at hother
        simp [isListen, hother]
      | _ => simp [EventLoop.Event.pushes] at hpush
    rw [heq, List.countP_append, List.countP_singleton, hnot]
    rfl
  . simp [hloop, isOther] at hother

theorem listens_runNext
    : s.runNext.listens = s.listens + s.baseLoop.pc.starting.toList.countP isListen := by
  unfold State.runNext
  split
  . next hstart =>
    rw [hstart]
    rfl
  . next hstart =>
    cases hcase : s.baseLoop.pc.starting with
    | none => rfl
    | some queued =>
      rcases queued with ⟨caller, functor⟩
      cases functor with
      | listen => exact absurd hcase (hstart caller)
      | other => rfl

theorem State.runNext_eq (s : State F) : ∃ listens, s.runNext = { s with listens } := by
  unfold State.runNext
  split
  . exact ⟨s.listens + 1, rfl⟩
  . exact ⟨s.listens, rfl⟩

theorem handed_loop {active : Bool} (h : EventLoop.step s.baseLoop (.loop active) = some baseLoop)
    : s.runNext.listens + baseLoop.waiting.countP isListen = s.handed := by
  unfold State.handed
  rw [listens_runNext, EventLoop.waiting_of_loop h, List.countP_append]
  omega

end Handed

theorem Calls.starts_eq_zero {s : State F} (h : Calls s) (hfew : s.starts < 2 ^ 32)
    (hwon : (s.startedN == 0) = true)
    : s.starts = 0 := by
  rw [beq_iff_eq, h.startedN] at hwon
  have hmod := congrArg (fun x : Int32 => x.toBitVec.toNat) hwon
  simp at hmod
  omega

theorem Calls.move {s s' : State F} {caller : Caller} {call : CallPc} (h : Calls s)
    (hbusy : s.busy caller) (hcalls : s'.calls = Function.update s.calls caller call)
    (hstarts : s'.starts = s.starts) (hstartedN : s'.startedN = s.startedN) (hfits : Fits s' call)
    (hle : s'.handed ≤ 1) (hhanded : call ≠ .idle → s'.handed = 0)
    : Calls s' := by
  have hidle : ∀ c, c ≠ caller → s.calls c = .idle := by
    intro c hne
    by_contra hc
    apply hne (h.unique c caller hc hbusy)
  have hcaller : ∀ c, s'.busy c → c = caller := by
    intro c hc
    by_contra hne
    apply hc
    rw [hcalls, Function.update_of_ne hne]
    apply hidle c hne
  constructor
  . rw [hstartedN, hstarts]
    exact h.startedN
  . intro c d hc hd
    rw [hcaller c hc, hcaller d hd]
  . intro c _
    rw [hstarts]
    apply h.started caller hbusy
  . intro c
    rw [hcalls]
    by_cases hc : c = caller
    . rw [hc, Function.update_self]
      exact hfits
    . rw [Function.update_of_ne hc, hidle c hc]
      trivial
  . exact hle
  . rintro (hzero | ⟨c, hc⟩)
    . have := h.started caller hbusy
      omega
    . apply hhanded
      intro hcall
      apply hc
      rw [hcaller c hc, hcalls, Function.update_self, hcall]

namespace Inv

variable {s s' : State F}

theorem new (numThread : Int32) (hasInitCallback : Bool)
    : Inv (.new numThread hasInitCallback : State F) := by
  have hidle : ∀ c, ¬(State.new numThread hasInitCallback : State F).busy c := by
    intro c hbusy
    exact hbusy rfl
  constructor
  . constructor
    . rfl
    . intro c d hc
      exact absurd hc (hidle c)
    . intro c hc
      exact absurd hc (hidle c)
    . intro c
      trivial
    . exact Nat.zero_le 1
    . intro _
      rfl
  . constructor
    . rfl
    . intro _
      rfl
    . intro hpos
      exact absurd hpos (Nat.lt_irrefl 0)
    . intro i
      exact .init rfl
    . intro i hi
      exact absurd hi (Nat.not_lt_zero i)
    . intro i _ _
      rfl
    . rfl
    . intro _
      rfl
    . rfl

theorem keep (h : Inv s) (hcalls : s'.calls = s.calls) (hstarts : s'.starts = s.starts)
    (hstartedN : s'.startedN = s.startedN) (hpool : s'.pool = s.pool)
    (hthreads : s'.threads = s.threads) (haccepted : s'.accepted = s.accepted)
    (hlistens : s.listens ≤ s'.listens) (hhanded : s'.handed = s.handed)
    : Inv s' := by
  have hbusy : ∀ c, s'.busy c ↔ s.busy c := by
    intro c
    unfold State.busy
    rw [hcalls]
  have hsize : size s' = size s := by
    unfold size
    rw [hpool]
  have htarget : target s' = target s := by
    unfold target
    rw [hpool]
  rcases h with ⟨hc, hp⟩
  constructor
  . constructor
    . rw [hstartedN, hstarts]
      exact hc.startedN
    . intro c d
      rw [hbusy, hbusy]
      apply hc.unique
    . intro c
      rw [hbusy, hstarts]
      apply hc.started
    . intro c
      have hfits := hc.fits c
      rw [hcalls]
      cases hcall : s.calls c <;> simp_all [Fits]
    . rw [hhanded]
      exact hc.handed
    . simp only [hstarts, hhanded, hbusy]
      exact hc.notHanded
  . constructor
    . rw [hpool]
      exact hp.inOrder
    . rw [hstarts, hpool]
      exact hp.before
    . rw [hhanded, hsize, htarget]
      exact hp.complete
    . rw [hthreads]
      exact hp.reachable
    . rw [hthreads, hsize]
      exact hp.returned
    . rw [hthreads, hsize, hcalls]
      exact hp.unstarted
    . rw [haccepted, hsize]
      exact hp.accepted
    . intro hzero
      rw [haccepted]
      apply hp.notListening
      omega
    . rw [hpool, haccepted, hsize]
      exact hp.next

theorem start {caller : Caller} (h : Inv s) (hfew : s.starts < 2 ^ 32) : Inv (s.start caller) := by
  rcases h with ⟨hc, hp⟩
  have hstartedN : s.startedN + 1 = Int32.ofNat (s.starts + 1) := by
    rw [hc.startedN, Int32.ofNat_add s.starts 1]
    rfl
  unfold State.start
  dsimp only
  split
  . next hwon =>
    have hzero := hc.starts_eq_zero hfew hwon
    have hidle : ∀ c, s.calls c = .idle := by
      intro c
      by_contra hbusy
      have := hc.started c hbusy
      omega
    have hempty := hp.before hzero
    have hhanded := hc.notHanded (Or.inl hzero)
    have hcalls : ∀ c, c ≠ caller → Function.update s.calls caller (.creating 0) c = .idle := by
      intro c hne
      rw [Function.update_of_ne hne, hidle c]
    constructor
    . constructor
      . exact hstartedN
      . intro c d hbusy hbusy'
        have hcaller : ∀ c, Function.update s.calls caller (.creating 0) c ≠ .idle → c = caller := by
          intro c hne
          by_contra hc
          apply hne (hcalls c hc)
        rw [hcaller c hbusy, hcaller d hbusy']
      . intro c _
        exact Nat.succ_pos _
      . intro c
        simp only [State.setCall]
        by_cases hcaller : c = caller
        . rw [hcaller, Function.update_self]
          exact ⟨by simp [size, hempty], Nat.zero_le _⟩
        . rw [hcalls c hcaller]
          trivial
      . exact hc.handed
      . intro _
        exact hhanded
    . constructor
      . exact hp.inOrder
      . intro hnot
        exact absurd hnot (Nat.succ_ne_zero _)
      . exact hp.complete
      . exact hp.reachable
      . exact hp.returned
      . intro i hi _
        apply hp.unstarted i hi
        intro c hwaiting
        rw [hidle c] at hwaiting
        cases hwaiting
      . exact hp.accepted
      . exact hp.notListening
      . exact hp.next
  . next hlost =>
    have hne : s.starts ≠ 0 := by
      intro hzero
      apply hlost
      rw [beq_iff_eq, hc.startedN, hzero]
      rfl
    constructor
    . constructor
      . exact hstartedN
      . exact hc.unique
      . intro c _
        exact Nat.succ_pos _
      . exact hc.fits
      . exact hc.handed
      . rintro (hzero | hbusy)
        . exact absurd hzero (Nat.succ_ne_zero _)
        . apply hc.notHanded (Or.inr hbusy)
    . constructor
      . exact hp.inOrder
      . intro hzero
        exact absurd hzero (Nat.succ_ne_zero _)
      . exact hp.complete
      . exact hp.reachable
      . exact hp.returned
      . exact hp.unstarted
      . exact hp.accepted
      . exact hp.notListening
      . exact hp.next

theorem busy_of_eq {caller : Caller} {call : CallPc} (hcall : s.calls caller = call)
    (hne : call ≠ .idle)
    : s.busy caller := by
  unfold State.busy
  rw [hcall]
  exact hne

theorem not_waiting {caller : Caller} {call : CallPc} (h : Inv s) (hcall : s.calls caller = call)
    (hne : call ≠ .idle) (hnot : ∀ i, call ≠ .waiting i) (c : Caller) (i : Nat)
    : s.calls c ≠ .waiting i := by
  intro hwaiting
  have hsame := h.calls.unique c caller (busy_of_eq hwaiting nofun) (busy_of_eq hcall hne)
  rw [hsame, hcall] at hwaiting
  exact hnot i hwaiting

theorem createThread {caller : Caller} {i kernelTid : Nat}
    {thread : EventLoopThread.Handshake.State F} (h : Inv s) (hcall : s.calls caller = .creating i)
    (hlt : (i : Int) < s.pool.numThread.toInt)
    (hstep : EventLoopThread.Handshake.step (s.threads i) (.startLoop kernelTid) = some thread)
    : Inv ((s.setThread i thread).setCall caller (.waiting i)) := by
  have hbusy := busy_of_eq hcall nofun
  have hfits : size s = i ∧ i ≤ target s := by
    have hfits := h.calls.fits caller
    rw [hcall] at hfits
    exact hfits
  have hhanded := h.calls.notHanded (Or.inr ⟨caller, hbusy⟩)
  rcases h with ⟨hc, hp⟩
  constructor
  . refine hc.move hbusy rfl rfl rfl ?_ ?_ ?_
    . refine ⟨hfits.1, ?_⟩
      unfold target
      simp only [State.setCall, State.setThread]
      omega
    . exact hc.handed
    . intro _
      exact hhanded
  . constructor
    . exact hp.inOrder
    . exact hp.before
    . exact hp.complete
    . intro j
      simp only [State.setCall, State.setThread]
      by_cases hj : j = i
      . rw [hj, Function.update_self]
        have hnext : (EventLoopThread.Handshake.system F).next (s.threads i) (.startLoop kernelTid)
            = some thread := hstep
        exact .step (hp.reachable i) hnext
      . rw [Function.update_of_ne hj]
        apply hp.reachable
    . intro j hj
      have hne : j ≠ i := by
        have hj : j < size s := hj
        omega
      simp only [State.setCall, State.setThread]
      rw [Function.update_of_ne hne]
      apply hp.returned j hj
    . intro j hj hnot
      have hne : j ≠ i := by
        intro heq
        apply hnot caller
        simp only [State.setCall]
        rw [Function.update_self, heq]
      simp only [State.setCall, State.setThread]
      rw [Function.update_of_ne hne]
      apply hp.unstarted j hj
      intro c
      apply not_waiting ⟨hc, hp⟩ hcall nofun nofun c j
    . exact hp.accepted
    . exact hp.notListening
    . exact hp.next

theorem stopCreating {caller : Caller} {i : Nat} (h : Inv s) (hcall : s.calls caller = .creating i)
    (hle : ¬(i : Int) < s.pool.numThread.toInt)
    : Inv (s.initBase.setCall caller .handingOver) := by
  have hbusy := busy_of_eq hcall nofun
  have hfits : size s = i ∧ i ≤ target s := by
    have hfits := h.calls.fits caller
    rw [hcall] at hfits
    exact hfits
  have hhanded := h.calls.notHanded (Or.inr ⟨caller, hbusy⟩)
  have hsize : size s = target s := by
    unfold target at hfits ⊢
    omega
  have hnot := not_waiting h hcall nofun nofun
  rcases h with ⟨hc, hp⟩
  have hset : ∀ baseInits,
      Inv ({ s with baseInits }.setCall caller .handingOver) := by
    intro baseInits
    constructor
    . refine hc.move hbusy rfl rfl rfl ?_ ?_ ?_
      . exact hsize
      . exact hc.handed
      . intro _
        exact hhanded
    . constructor
      . exact hp.inOrder
      . exact hp.before
      . exact hp.complete
      . exact hp.reachable
      . exact hp.returned
      . intro j hj _
        apply hp.unstarted j hj
        intro c
        apply hnot c j
      . exact hp.accepted
      . exact hp.notListening
      . exact hp.next
  unfold State.initBase
  split
  . apply hset
  . apply hset s.baseInits

theorem pushLoop {caller : Caller} {i : Nat} (h : Inv s) (hcall : s.calls caller = .waiting i)
    (hreturned : (s.threads i).starter = .returned)
    : Inv ((s.pushLoop i).setCall caller (.creating (i + 1))) := by
  have hbusy := busy_of_eq hcall nofun
  have hfits : size s = i ∧ i < target s := by
    have hfits := h.calls.fits caller
    rw [hcall] at hfits
    exact hfits
  have hhanded := h.calls.notHanded (Or.inr ⟨caller, hbusy⟩)
  have hstarts := h.calls.started caller hbusy
  have hwaiting : ∀ c j, s.calls c = .waiting j → j = i := by
    intro c j hc
    have hsame := h.calls.unique c caller (busy_of_eq hc nofun) hbusy
    rw [hsame, hcall] at hc
    cases hc
    rfl
  have hsize : size ((s.pushLoop i).setCall caller (.creating (i + 1))) = i + 1 := by
    simp only [size, State.pushLoop, State.setCall, List.length_append, List.length_singleton]
    rw [← hfits.1]
    rfl
  rcases h with ⟨hc, hp⟩
  have hnone : s.accepted = [] := by
    apply hp.notListening
    unfold State.handed at hhanded
    omega
  constructor
  . refine hc.move hbusy rfl rfl rfl ?_ ?_ ?_
    . exact ⟨hsize, hfits.2⟩
    . exact hc.handed
    . intro _
      exact hhanded
  . constructor
    . have horder := hp.inOrder
      have hlen : s.pool.eventloops.length = i := hfits.1
      unfold EventLoopThreadPool.InOrder at horder ⊢
      simp only [State.pushLoop, State.setCall, List.length_append, List.length_singleton]
      rw [hlen, List.range_succ, List.map_append, ← hlen, ← horder]
      rfl
    . intro hzero
      have hzero : s.starts = 0 := hzero
      omega
    . intro hpos
      have hpos : 0 < s.handed := hpos
      omega
    . exact hp.reachable
    . intro j hj
      rw [hsize] at hj
      by_cases hji : j = i
      . rw [hji]
        exact hreturned
      . apply hp.returned j
        omega
    . intro j hj _
      rw [hsize] at hj
      apply hp.unstarted j
      . omega
      . intro c hc
        have := hwaiting c j hc
        omega
    . simp only [State.pushLoop, State.setCall, hnone]
      rfl
    . intro _
      exact hnone
    . have hnext := hp.next
      rw [hsize]
      simp only [State.pushLoop, State.setCall, hnone, List.length_nil] at hnext ⊢
      rw [hnext]
      simp [EventLoopThreadPool.nextAt]

theorem handOver {caller : Caller} (h : Inv s) (hcall : s.calls caller = .handingOver)
    (hstep : s.handOver caller = some s')
    : Inv s' := by
  have hbusy := busy_of_eq hcall nofun
  have hsize : size s = target s := by
    have hfits := h.calls.fits caller
    rw [hcall] at hfits
    exact hfits
  have hhanded := h.calls.notHanded (Or.inr ⟨caller, hbusy⟩)
  have hnot := not_waiting h hcall nofun nofun
  rcases h with ⟨hc, hp⟩
  have hset : ∀ listens baseLoop, s.listens ≤ listens →
      listens + baseLoop.waiting.countP isListen = 1 →
      Inv { s.setCall caller .idle with listens, baseLoop } := by
    intro listens baseLoop hlistens hone
    constructor
    . refine hc.move hbusy rfl rfl rfl ?_ ?_ ?_
      . trivial
      . unfold State.handed
        exact Nat.le_of_eq hone
      . intro hne
        exact absurd rfl hne
    . constructor
      . exact hp.inOrder
      . exact hp.before
      . intro _
        exact hsize
      . exact hp.reachable
      . exact hp.returned
      . intro j hj _
        apply hp.unstarted j hj
        intro c
        apply hnot c j
      . exact hp.accepted
      . intro hzero
        have hzero : listens = 0 := hzero
        apply hp.notListening
        omega
      . exact hp.next
  unfold State.handed at hhanded
  cases caller with
  | owner =>
    cases hstep
    apply hset
    . exact Nat.le_succ _
    . simp only [State.listen]
      omega
  | other n =>
    simp only [State.handOver] at hstep
    rw [Option.bind_eq_bind, Option.bind_eq_some_iff] at hstep
    rcases hstep with ⟨baseLoop, hloop, heq⟩
    cases heq
    apply hset s.listens baseLoop (Nat.le_refl _)
    rw [EventLoop.waiting_of_runInLoop hloop, List.countP_append]
    have hlisten : [(⟨.other n, .listen⟩ : Queued Functor)].countP isListen = 1 := rfl
    omega

theorem startNext {caller : Caller} {kernelTid : Nat} (h : Inv s)
    (hstep : s.startNext caller kernelTid = some s')
    : Inv s' := by
  unfold State.startNext at hstep
  split at hstep
  . simp at hstep
  . next i hcall =>
    unfold State.createNext at hstep
    split at hstep
    . next hlt =>
      rw [Option.bind_eq_bind, Option.bind_eq_some_iff] at hstep
      rcases hstep with ⟨thread, hthread, heq⟩
      cases heq
      apply h.createThread hcall hlt hthread
    . next hle =>
      cases hstep
      apply h.stopCreating hcall hle
  . next i hcall =>
    split at hstep
    . next hreturned =>
      cases hstep
      apply h.pushLoop hcall hreturned
    . simp at hstep
  . next hcall => apply h.handOver hcall hstep

theorem thread {i : Nat} {e : EventLoopThread.Handshake.Event F}
    {thread : EventLoopThread.Handshake.State F} (h : Inv s) (hstart : isStartLoop e = false)
    (hstep : EventLoopThread.Handshake.step (s.threads i) e = some thread)
    : Inv (s.setThread i thread) := by
  rcases h with ⟨hc, hp⟩
  constructor
  . exact ⟨hc.startedN, hc.unique, hc.started, hc.fits, hc.handed, hc.notHanded⟩
  . constructor
    . exact hp.inOrder
    . exact hp.before
    . exact hp.complete
    . intro j
      simp only [State.setThread]
      by_cases hj : j = i
      . rw [hj, Function.update_self]
        have hnext : (EventLoopThread.Handshake.system F).next (s.threads i) e = some thread := hstep
        exact .step (hp.reachable i) hnext
      . rw [Function.update_of_ne hj]
        apply hp.reachable
    . intro j hj
      simp only [State.setThread]
      by_cases hji : j = i
      . rw [hji, Function.update_self]
        rw [hji] at hj
        apply EventLoopThread.Handshake.returned_of_step (hp.returned i hj) hstep
      . rw [Function.update_of_ne hji]
        apply hp.returned j hj
    . intro j hj hnot
      have hnew := hp.unstarted j hj hnot
      have hne : j ≠ i := by
        intro heq
        rw [← heq, hnew] at hstep
        rcases EventLoopThread.Handshake.startLoop_of_step_new hstep with ⟨kernelTid, rfl⟩
        simp [isStartLoop] at hstart
      simp only [State.setThread]
      rw [Function.update_of_ne hne]
      exact hnew
    . exact hp.accepted
    . exact hp.notListening
    . exact hp.next

theorem accept (h : Inv s) (hcan : s.canAccept = true) (hstep : s.accept = some s') : Inv s' := by
  have hlisten : 0 < s.listens := by
    unfold State.canAccept at hcan
    split at hcan
    . rw [Bool.and_eq_true, decide_eq_true_eq] at hcan
      exact hcan.2
    . simp at hcan
  rcases h with ⟨hc, hp⟩
  have hget := EventLoopThreadPool.getNextLoop_spec hp.inOrder hp.next
  unfold State.accept at hstep
  rw [hget, Option.bind_eq_bind, Option.bind_some] at hstep
  cases hstep
  constructor
  . refine ⟨hc.startedN, hc.unique, hc.started, ?_, hc.handed, hc.notHanded⟩
    intro c
    apply hc.fits c
  . constructor
    . exact hp.inOrder
    . exact hp.before
    . exact hp.complete
    . exact hp.reachable
    . exact hp.returned
    . exact hp.unstarted
    . have haccepted := hp.accepted
      rw [List.length_append, List.length_singleton, List.range_succ, List.map_append]
      unfold size at haccepted ⊢
      dsimp only
      rw [← haccepted]
      rfl
    . intro hzero
      have hzero : s.listens = 0 := hzero
      omega
    . rw [List.length_append, List.length_singleton]
      rfl

theorem step {e : Event F} (h : Inv s) (hfew : fewStarts s e = true) (hstep : step s e = some s')
    : Inv s' := by
  cases e with
  | start caller =>
    simp only [fewStarts, decide_eq_true_eq] at hfew
    simp only [Start.step] at hstep
    split at hstep
    . cases hstep
      apply h.start hfew
    . simp at hstep
  | startNext caller kernelTid => apply h.startNext hstep
  | thread i event =>
    simp only [Start.step] at hstep
    split at hstep
    . simp at hstep
    . next hstart =>
      rw [Option.bind_eq_bind, Option.bind_eq_some_iff] at hstep
      rcases hstep with ⟨thread, hthread, heq⟩
      cases heq
      apply h.thread (Bool.not_eq_true _ |>.mp hstart) hthread
  | call event =>
    simp only [Start.step] at hstep
    split at hstep
    . next hother =>
      rw [Option.bind_eq_bind, Option.bind_eq_some_iff] at hstep
      rcases hstep with ⟨baseLoop, hcall, heq⟩
      cases heq
      refine h.keep rfl rfl rfl rfl rfl rfl (Nat.le_refl _) ?_
      unfold State.handed
      rw [countP_call hother hcall]
    . simp at hstep
  | loop active =>
    simp only [Start.step] at hstep
    split at hstep
    . rw [Option.bind_eq_bind, Option.bind_eq_some_iff] at hstep
      rcases hstep with ⟨baseLoop, hloop, heq⟩
      cases heq
      have hhanded := handed_loop hloop
      have hlistens : s.listens ≤ s.runNext.listens := by
        rw [listens_runNext]
        apply Nat.le_add_right
      rcases s.runNext_eq with ⟨listens, heq⟩
      rw [heq] at hhanded hlistens ⊢
      exact h.keep rfl rfl rfl rfl rfl rfl hlistens hhanded
    . simp at hstep
  | accept =>
    simp only [Start.step] at hstep
    split at hstep
    . next hcan => apply h.accept hcan hstep
    . simp at hstep

theorem of_reachable (h : (boundedSystem F).Reachable s) : Inv s := by
  apply LTS.Reachable.invariant _ ?_ ?_ h
  . rintro s ⟨numThread, hasInitCallback, rfl⟩
    apply Inv.new
  . intro s e s' hs hnext
    rcases (LTS.restrict_next_eq_some _).mp hnext with ⟨hfew, hnext⟩
    apply hs.step hfew hnext

end Inv

section Results

variable {s : State F}

structure CallsKept (s s' : State F) : Prop where
  starts : s.starts ≤ s'.starts
  busy : ∀ c, s'.busy c → s.busy c

theorem CallsKept.of_eq {s' : State F} (hstarts : s'.starts = s.starts) (hcalls : s'.calls = s.calls)
    : CallsKept s s' := by
  constructor
  . rw [hstarts]
  . intro c hbusy
    unfold State.busy at hbusy
    rw [hcalls] at hbusy
    exact hbusy

theorem CallsKept.of_update {s' : State F} {caller : Caller} {call : CallPc} (hbusy : s.busy caller)
    (hstarts : s'.starts = s.starts) (hcalls : s'.calls = Function.update s.calls caller call)
    : CallsKept s s' := by
  constructor
  . rw [hstarts]
  . intro c hc
    by_cases hcaller : c = caller
    . rw [hcaller]
      exact hbusy
    . unfold State.busy at hc
      rw [hcalls, Function.update_of_ne hcaller] at hc
      exact hc

theorem CallsKept.startNext {s' : State F} {caller : Caller} {kernelTid : Nat}
    (hstep : s.startNext caller kernelTid = some s')
    : CallsKept s s' := by
  unfold State.startNext at hstep
  split at hstep
  . simp at hstep
  . next i hcall =>
    have hbusy := Inv.busy_of_eq hcall nofun
    unfold State.createNext at hstep
    split at hstep
    . rw [Option.bind_eq_bind, Option.bind_eq_some_iff] at hstep
      rcases hstep with ⟨thread, -, heq⟩
      cases heq
      exact .of_update hbusy rfl rfl
    . cases hstep
      unfold State.initBase
      split
      . exact .of_update hbusy rfl rfl
      . exact .of_update hbusy rfl rfl
  . next i hcall =>
    have hbusy := Inv.busy_of_eq hcall nofun
    split at hstep
    . cases hstep
      exact .of_update hbusy rfl rfl
    . simp at hstep
  . next hcall =>
    have hbusy := Inv.busy_of_eq hcall nofun
    cases caller with
    | owner =>
      cases hstep
      exact .of_update hbusy rfl rfl
    | other n =>
      simp only [State.handOver] at hstep
      rw [Option.bind_eq_bind, Option.bind_eq_some_iff] at hstep
      rcases hstep with ⟨baseLoop, -, heq⟩
      cases heq
      exact .of_update hbusy rfl rfl

theorem CallsKept.start {caller : Caller} (h : Inv s) (hstarted : 0 < s.starts)
    (hfew : s.starts < 2 ^ 32)
    : CallsKept s (s.start caller) := by
  have hlost : ¬(s.startedN == 0) = true := by
    intro hwon
    have hzero := h.calls.starts_eq_zero hfew hwon
    omega
  unfold State.start
  dsimp only
  rw [if_neg hlost]
  exact ⟨Nat.le_succ _, fun _ => id⟩

theorem CallsKept.step {s' : State F} {e : Event F} (h : Inv s) (hstarted : 0 < s.starts)
    (hnext : (boundedSystem F).next s e = some s')
    : CallsKept s s' := by
  rcases (LTS.restrict_next_eq_some _).mp hnext with ⟨hfew, hstep⟩
  cases e with
  | start caller =>
    simp only [system, Start.step] at hstep
    split at hstep
    . cases hstep
      exact .start h hstarted (of_decide_eq_true hfew)
    . simp at hstep
  | startNext caller kernelTid => exact .startNext hstep
  | thread i event =>
    simp only [system, Start.step] at hstep
    split at hstep
    . simp at hstep
    . rw [Option.bind_eq_bind, Option.bind_eq_some_iff] at hstep
      rcases hstep with ⟨thread, -, heq⟩
      cases heq
      exact .of_eq rfl rfl
  | call event =>
    simp only [system, Start.step] at hstep
    split at hstep
    . rw [Option.bind_eq_bind, Option.bind_eq_some_iff] at hstep
      rcases hstep with ⟨baseLoop, -, heq⟩
      cases heq
      exact .of_eq rfl rfl
    . simp at hstep
  | loop wakeUpActive =>
    simp only [system, Start.step] at hstep
    split at hstep
    . rw [Option.bind_eq_bind, Option.bind_eq_some_iff] at hstep
      rcases hstep with ⟨baseLoop, -, heq⟩
      cases heq
      rcases s.runNext_eq with ⟨listens, hrun⟩
      rw [hrun]
      exact .of_eq rfl rfl
    . simp at hstep
  | accept =>
    simp only [system, Start.step] at hstep
    split at hstep
    . unfold State.accept at hstep
      rw [Option.bind_eq_bind, Option.bind_eq_some_iff] at hstep
      rcases hstep with ⟨next, -, heq⟩
      cases heq
      exact .of_eq rfl rfl
    . simp at hstep

theorem busy_of_run {s' : State F} (h : (boundedSystem F).Reachable s) (hstarted : 0 < s.starts)
    {es : List (Event F)} (hrun : (boundedSystem F).run s es = some s') {c : Caller}
    (hbusy : s'.busy c)
    : s.busy c := by
  induction es generalizing s with
  | nil =>
    cases hrun
    exact hbusy
  | cons e es ih =>
    rw [LTS.run_cons, Option.bind_eq_some_iff] at hrun
    rcases hrun with ⟨s₁, hnext, hrun⟩
    have hkept := CallsKept.step (Inv.of_reachable h) hstarted hnext
    apply hkept.busy
    exact ih (h.step hnext) (Nat.lt_of_lt_of_le hstarted hkept.starts) hrun

/--
However many threads call `start`, one of them creates the threads of the pool, each one once and in
order, and `listen` is handed over once, by a pool that is complete.
-/
theorem start_once (h : (boundedSystem F).Reachable s)
    : (∀ c d, s.busy c → s.busy d → c = d)
      ∧ (0 < s.starts → ∀ es s' c, (boundedSystem F).run s es = some s' → s'.busy c → s.busy c)
      ∧ s.pool.eventloops = (List.range (size s)).map (· + 1)
      ∧ (∀ i < size s, EventLoopThread.Handshake.Started (s.threads i))
      ∧ (∀ i ≥ size s, (∀ c, s.calls c ≠ .waiting i) → s.threads i = .new)
      ∧ s.handed ≤ 1
      ∧ (0 < s.handed → size s = target s ∧ ∀ c, ¬s.busy c) := by
  have hinv := Inv.of_reachable h
  refine ⟨hinv.calls.unique, ?_, hinv.pool.inOrder, ?_, hinv.pool.unstarted, hinv.calls.handed, ?_⟩
  . intro hstarted es s' c hrun hbusy
    exact busy_of_run h hstarted hrun hbusy
  . intro i hi
    have hreach := hinv.pool.reachable i
    apply (EventLoopThread.Handshake.Inv.of_reachable hreach).started hreach
    apply hinv.pool.returned i hi
  . intro hhanded
    refine ⟨hinv.pool.complete hhanded, ?_⟩
    intro c hbusy
    have := hinv.calls.notHanded (Or.inr ⟨c, hbusy⟩)
    omega

/--
A connection is only accepted when the pool is complete, so the connections go round all of its loops,
and no two loops differ by more than one connection.
-/
theorem accepted_inTurn (h : (boundedSystem F).Reachable s)
    : s.accepted = (List.range s.accepted.length).map (EventLoopThreadPool.turn (size s))
      ∧ (s.accepted ≠ [] → size s = target s)
      ∧ (∀ i < size s, ∀ j < size s, s.accepted.count (i + 1) ≤ s.accepted.count (j + 1) + 1)
      ∧ (s.canAccept = true → s.accept.isSome) := by
  have hinv := Inv.of_reachable h
  refine ⟨hinv.pool.accepted, ?_, ?_, ?_⟩
  . intro haccepted
    apply hinv.pool.complete
    have hlisten : s.listens ≠ 0 := by
      intro hzero
      exact haccepted (hinv.pool.notListening hzero)
    unfold State.handed
    omega
  . intro i hi j hj
    rw [hinv.pool.accepted]
    apply EventLoopThreadPool.count_turn_le hi hj
  . intro _
    have hget := EventLoopThreadPool.getNextLoop_spec hinv.pool.inOrder hinv.pool.next
    unfold State.accept
    rw [hget]
    rfl

def createThread (i kernelTid : Nat) : List (Event Nat) :=
  .startNext .owner kernelTid
    :: ([.func, .func, .starter, .starter, .starter, .func, .func, .func, .func, .func, .func,
        .starter, .starter, .starter].map fun event => .thread i event)
    ++ [.startNext .owner 0]

def startedTwice : List (Event Nat) :=
  [.start .owner, .start (.other 3)] ++ createThread 0 71

def threeAccepted : List (Event Nat) :=
  startedTwice ++ createThread 1 72 ++ [.startNext .owner 0, .startNext .owner 0]
    ++ [.loop false, .loop false, .loop false, .loop false, .accept, .accept, .accept]

theorem start_once_startedTwice
    : ∃ s, (boundedSystem Nat).run (.new 2 false) startedTwice = some s ∧ size s = 1
      ∧ EventLoopThread.Handshake.Started (s.threads 0) := by
  have hrun : (boundedSystem Nat).run (.new 2 false) startedTwice = some _ := rfl
  refine ⟨_, hrun, rfl, ?_⟩
  have hreach := LTS.Reachable.of_run (boundedSystem Nat) (.init ⟨2, false, rfl⟩) hrun
  exact (start_once hreach).2.2.2.1 0 Nat.zero_lt_one

theorem accepted_inTurn_threeAccepted
    : ∃ s, (boundedSystem Nat).run (.new 2 false) threeAccepted = some s ∧ s.accepted = [1, 2, 1]
      ∧ size s = 2 := by
  have hrun : (boundedSystem Nat).run (.new 2 false) threeAccepted = some _ := rfl
  refine ⟨_, hrun, ?_, rfl⟩
  have hreach := LTS.Reachable.of_run (boundedSystem Nat) (.init ⟨2, false, rfl⟩) hrun
  exact (accepted_inTurn hreach).1

end Results

end Start

end TcpServer
