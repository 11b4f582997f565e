import Mmuduo.EpollPoller.Poll
import Mmuduo.EventLoop.Lemmas

/-!
This module contains the event loop with its poller: the channels that a poll reports are handled one
after another, each with the callbacks its events ask for, and the channel of the eventfd is one of
them. What the callbacks of the other channels do is left open: they change the interest of channels
and call the loop.
-/

inductive Callback where
  | close
  | error
  | read
  | write
  deriving DecidableEq, Repr

namespace Channel

def callsError (revents : UInt32) : Bool :=
  revents &&& EPOLLERR != 0

def calls (revents : UInt32) : Callback → Bool
  | .close => callsClose revents
  | .error => callsError revents
  | .read => callsRead revents
  | .write => callsWrite revents

def handleEventWithGuard (revents : UInt32) : List Callback :=
  [.close, .error, .read, .write].filter (calls revents)

end Channel

namespace EventLoop

namespace Dispatch

variable {F ι : Type} [DecidableEq ι]

structure Handling (ι : Type) where
  channel : ι
  callbacks : List Callback
  deriving DecidableEq, Repr

structure State (F ι : Type) where
  loop : EventLoop.State F
  polling : EpollPoller.Polling ι
  wakeUpChannel : ι
  activeChannels : List ι
  handling : Option (Handling ι)
  rest : List ι
  tied : ι → Bool
  -- the interest masks at the last poll, the channels whose owner has been found to be gone since then,
  -- and the callbacks called since then
  polled : ι → UInt32
  gone : List ι
  called : List (ι × Callback)

namespace State

def start (fds : ι → Nat) (wakeUpChannel : ι) : Option (State F ι) := do
  let poller ← (EpollPoller.new fds).call wakeUpChannel .enableReading
  return {
    loop := .new
    polling := { EpollPoller.Polling.new fds with poller }
    wakeUpChannel
    activeChannels := []
    handling := none
    rest := []
    tied := fun _ => false
    polled := fun _ => 0
    gone := []
    called := []
  }

def wakeUpFile (s : State F ι) : Nat :=
  (s.polling.poller.channels s.wakeUpChannel).fd

def eventfd (s : State F ι) : UInt32 :=
  if 0 < s.loop.loop.wakeUpFd then EPOLLIN ||| EPOLLOUT else EPOLLOUT

def mayBeReady (s : State F ι) (ready : List (Nat × UInt32)) : Bool :=
  decide (ready.map Prod.fst).Nodup
    && ready.all (fun file => decide (file.1 = s.wakeUpFile → file.2 = s.eventfd))
    && decide (0 < s.loop.loop.wakeUpFd → s.wakeUpFile ∈ ready.map Prod.fst)

def wakeUpActive (s : State F ι) : Bool :=
  decide (s.wakeUpChannel ∈ s.activeChannels)
    && Channel.callsRead (s.polling.revents s.wakeUpChannel)

def callLoop (s : State F ι) (e : EventLoop.Event F) : Option (State F ι) := do
  let loop ← EventLoop.step s.loop e
  return { s with loop }

def pollReturn (s : State F ι) (r : EpollPoller.Polling ι × List ι) : Option (State F ι) :=
  let s := {
    s with
    polling := r.1
    activeChannels := r.2
    rest := r.2
    polled := fun c => (s.polling.poller.channels c).events
    gone := []
    called := []
  }
  s.callLoop (.loop s.wakeUpActive)

def poll (s : State F ι) : Option (List (Nat × UInt32)) → Option (State F ι)
  | some ready => (s.polling.poll ready []).bind s.pollReturn
  | none => s.pollReturn (s.polling, [])

def handleEvent (s : State F ι) (guard : Bool) (channel : ι) (rest : List ι) : State F ι :=
  if s.tied channel && !guard then
    { s with rest, gone := channel :: s.gone }
  else
    { s with
      rest
      handling := some ⟨channel, Channel.handleEventWithGuard (s.polling.revents channel)⟩ }

def callback (s : State F ι) (handling : Handling ι) (callback : Callback)
    (callbacks : List Callback) : Option (State F ι) :=
  let s := {
    s with
    handling := some { handling with callbacks }
    called := s.called ++ [(handling.channel, callback)]
  }
  if handling.channel = s.wakeUpChannel ∧ callback = .read then
    s.callLoop (.loop false)
  else
    some s

def dispatch (s : State F ι) (guard : Bool) : Option (State F ι) :=
  match s.handling with
  | some ⟨channel, callback :: callbacks⟩ =>
    s.callback ⟨channel, callback :: callbacks⟩ callback callbacks
  | some ⟨_, []⟩ => some { s with handling := none }
  | none =>
    match s.rest with
    | channel :: rest => some (s.handleEvent guard channel rest)
    | [] => s.callLoop (.loop false)

def loopNext (s : State F ι) (report : Option (List (Nat × UInt32))) (guard : Bool)
    : Option (State F ι) :=
  match s.loop.pc with
  | .polling =>
    if (report.all s.mayBeReady) = true then
      s.poll report
    else
      none
  | .handling _ => s.dispatch guard
  | _ => s.callLoop (.loop false)

end State

inductive Event (F ι : Type) where
  -- a failed `epoll_wait` reports nothing
  | loop (report : Option (List (Nat × UInt32))) (guard : Bool)
  | call (event : EventLoop.Event F)
  | channelCall (c : ι) (op : ChannelCall)
  | tie (c : ι)

def isLoop : EventLoop.Event F → Bool
  | .loop _ => true
  | _ => false

/--
The eventfd and its channel are private to the loop, and channels are only used by its thread.
-/
def step (s : State F ι) : Event F ι → Option (State F ι)
  | .loop report guard =>
    if s.loop.calls .owner = .idle then
      s.loopNext report guard
    else
      none
  | .call event =>
    if isLoop event then
      none
    else
      s.callLoop event
  | .channelCall c op =>
    if s.loop.canCall .owner ∧ c ≠ s.wakeUpChannel then do
      let poller ← s.polling.poller.call c op
      return { s with polling := { s.polling with poller } }
    else
      none
  | .tie c =>
    if s.loop.canCall .owner ∧ c ≠ s.wakeUpChannel then
      some { s with tied := Function.update s.tied c true }
    else
      none

def system (F : Type) (fds : ι → Nat) : LTS (State F ι) (Event F ι) where
  Init s := ∃ wakeUpChannel, State.start fds wakeUpChannel = some s
  next := step

namespace State

def now (s : State F ι) : List ι :=
  s.handling.toList.map Handling.channel

def pending (s : State F ι) : List (ι × Callback) :=
  s.handling.toList.flatMap fun handling => handling.callbacks.map (Prod.mk handling.channel)

def callsOf (s : State F ι) (c : ι) : List (ι × Callback) :=
  (Channel.handleEventWithGuard (s.polling.revents c)).map (Prod.mk c)

def remaining (s : State F ι) : List (ι × Callback) :=
  s.pending ++ s.rest.flatMap s.callsOf

end State

structure Progress (s : State F ι) (done : List ι) : Prop where
  split : s.activeChannels = done ++ s.now ++ s.rest
  gone : ∀ c ∈ s.gone, c ∈ done
  called : s.called ++ s.pending
    = ((done ++ s.now).filter fun c => decide (c ∉ s.gone)).flatMap s.callsOf

structure Inv (fds : ι → Nat) (s : State F ι) : Prop where
  polling : EpollPoller.Polling.Inv fds s.polling
  watched : (s.polling.poller.channels s.wakeUpChannel).index = .kAdded
  mask : (s.polling.poller.channels s.wakeUpChannel).events = Channel.kReadEvent
  untied : s.tied s.wakeUpChannel = false
  reported : ∀ c ∈ s.activeChannels,
    ∃ bits, s.polling.revents c = bits &&& (s.polled c ||| EPOLLERR ||| EPOLLHUP)
  nodup : s.activeChannels.Nodup
  progress : ∃ done, Progress s done
  once : s.remaining.Nodup
  handRead : ∀ active, s.loop.pc = .handling active →
    (active = true ↔ (s.wakeUpChannel, .read) ∈ s.remaining)
  idle : (∀ active, s.loop.pc ≠ .handling active) → s.rest = [] ∧ s.handling = none

section Steps

variable {s s' : State F ι}

omit [DecidableEq ι] in
theorem callLoop_eq {e : EventLoop.Event F} (h : s.callLoop e = some s')
    : ∃ loop, EventLoop.step s.loop e = some loop ∧ s' = { s with loop } := by
  unfold State.callLoop at h
  rw [Option.bind_eq_bind, Option.bind_eq_some_iff] at h
  rcases h with ⟨loop, hstep, heq⟩
  cases heq
  exact ⟨loop, hstep, rfl⟩

theorem pc_call {loop loop' : EventLoop.State F} {e : EventLoop.Event F} (hnot : isLoop e = false)
    (h : EventLoop.step loop e = some loop')
    : loop'.pc = loop.pc := by
  cases EventLoop.Step.of_step h with
  | loop => simp [isLoop] at hnot
  | _ => rfl

theorem step_poll {loop : EventLoop.State F} {active : Bool} (hpc : loop.pc = .polling)
    (hidle : loop.calls .owner = .idle) (hactive : active = true → 0 < loop.loop.wakeUpFd)
    : EventLoop.step loop (.loop active) = some { loop with pc := .handling active } := by
  simp only [EventLoop.step, hidle, ↓reduceIte, EventLoop.State.loopNext, hpc]
  rw [if_pos hactive]

theorem pc_poll {loop loop' : EventLoop.State F} {active : Bool} (hpc : loop.pc = .polling)
    (h : EventLoop.step loop (.loop active) = some loop')
    : loop'.pc = .handling active := by
  cases EventLoop.Step.of_step h with
  | loop hidle hloop =>
    cases hloop with
    | pollReturn => rfl
    | _ => simp_all

theorem pc_handRead {loop loop' : EventLoop.State F} {active : Bool} (hpc : loop.pc = .handling true)
    (h : EventLoop.step loop (.loop active) = some loop')
    : loop'.pc = .handling false := by
  cases EventLoop.Step.of_step h with
  | loop hidle hloop =>
    cases hloop with
    | handRead => rfl
    | _ => simp_all

theorem pc_setFlag {loop loop' : EventLoop.State F} {active : Bool} (hpc : loop.pc = .handling false)
    (h : EventLoop.step loop (.loop active) = some loop')
    : loop'.pc = .flagSet := by
  cases EventLoop.Step.of_step h with
  | loop hidle hloop =>
    cases hloop with
    | setFlag => rfl
    | _ => simp_all

theorem pc_loop {loop loop' : EventLoop.State F} {active : Bool} (hpc : loop.pc ≠ .polling)
    (hnot : ∀ active, loop.pc ≠ .handling active)
    (h : EventLoop.step loop (.loop active) = some loop') (active' : Bool)
    : loop'.pc ≠ .handling active' := by
  cases EventLoop.Step.of_step h with
  | loop hidle hloop =>
    cases hloop with
    | pollReturn hpolling => exact absurd hpolling hpc
    | handRead hhandling => exact absurd hhandling (hnot true)
    | _ => exact nofun

end Steps

section None

variable {s : State F ι} (hnone : s.handling = none)

include hnone

omit [DecidableEq ι] in
theorem now_of_none : s.now = [] := by
  unfold State.now
  rw [hnone]
  rfl

omit [DecidableEq ι] in
theorem pending_of_none : s.pending = [] := by
  unfold State.pending
  rw [hnone]
  rfl

omit [DecidableEq ι] in
theorem remaining_of_none : s.remaining = s.rest.flatMap s.callsOf := by
  unfold State.remaining
  rw [pending_of_none hnone]
  rfl

theorem Progress.next_not_mem {done rest : List ι} {c : ι} (h : Progress s done)
    (hnodup : s.activeChannels.Nodup) (hrest : s.rest = c :: rest)
    : c ∉ done := by
  rw [h.split, now_of_none hnone, hrest, List.append_nil, List.nodup_append] at hnodup
  intro hc
  exact hnodup.2.2 c hc c List.mem_cons_self rfl

end None

theorem filter_gone_cons {done gone : List ι} {c : ι} (hc : c ∉ done)
    : done.filter (fun d => decide (d ∉ c :: gone)) = done.filter fun d => decide (d ∉ gone) := by
  apply List.filter_congr
  intro d hd
  have hne : d ≠ c := by
    rintro rfl
    exact hc hd
  simp [hne]

section Calls

variable {revents : ι → UInt32} {channels : List ι}

omit [DecidableEq ι] in
theorem nodup_calls (hnodup : channels.Nodup)
    : (channels.flatMap fun c =>
        (Channel.handleEventWithGuard (revents c)).map (Prod.mk c)).Nodup := by
  rw [List.nodup_flatMap]
  constructor
  . intro c _
    have horder : ([.close, .error, .read, .write] : List Callback).Nodup := by decide
    exact (horder.filter _).map (Prod.mk_right_injective c)
  . apply hnodup.imp
    intro c d hne x hc hd
    rcases List.mem_map.mp hc with ⟨_, _, rfl⟩
    rcases List.mem_map.mp hd with ⟨_, _, heq⟩
    exact hne (Prod.mk.inj heq).1.symm

omit [DecidableEq ι] in
theorem mem_calls_iff {c : ι} {callback : Callback}
    : (c, callback) ∈ (channels.flatMap fun c =>
        (Channel.handleEventWithGuard (revents c)).map (Prod.mk c))
      ↔
      c ∈ channels ∧ callback ∈ Channel.handleEventWithGuard (revents c) := by
  simp only [List.mem_flatMap, List.mem_map, Prod.mk.injEq]
  constructor
  . rintro ⟨d, hd, callback, hcallback, rfl, rfl⟩
    exact ⟨hd, hcallback⟩
  . rintro ⟨hc, hcallback⟩
    exact ⟨c, hc, callback, hcallback, rfl, rfl⟩

end Calls

namespace Inv

variable {fds : ι → Nat} {s s' : State F ι}

theorem start (hfds : Function.Injective fds) {wakeUpChannel : ι}
    (hstart : State.start fds wakeUpChannel = some s)
    : Inv fds s := by
  have hagree := EpollPoller.agree_new fds
  unfold State.start at hstart
  rw [hagree.call_eq, Option.bind_eq_bind, Option.bind_some] at hstart
  cases hstart
  constructor
  . exact (EpollPoller.Polling.Inv.new fds).call hfds wakeUpChannel .enableReading
  . simp [EpollPoller.register, EpollPoller.nextChannel, EpollPoller.nextIndex, EpollPoller.new]
  . simp [EpollPoller.register, EpollPoller.nextChannel, EpollPoller.nextMask, EpollPoller.new,
      Channel.enableReading, Channel.new, Channel.kNoneEvent]
  . rfl
  . intro c hc
    exact absurd hc List.not_mem_nil
  . exact List.nodup_nil
  . refine ⟨[], rfl, ?_, rfl⟩
    intro c hc
    exact absurd hc List.not_mem_nil
  . exact List.nodup_nil
  . intro active hactive
    cases hactive
  . intro _
    exact ⟨rfl, rfl⟩

theorem withLoop {loop : EventLoop.State F} (h : Inv fds s)
    (hhandRead : ∀ active, loop.pc = .handling active →
      (active = true ↔ (s.wakeUpChannel, .read) ∈ s.remaining))
    (hidle : (∀ active, loop.pc ≠ .handling active) → s.rest = [] ∧ s.handling = none)
    : Inv fds { s with loop } where
  polling := h.polling
  watched := h.watched
  mask := h.mask
  untied := h.untied
  reported := h.reported
  nodup := h.nodup
  progress := by
    rcases h.progress with ⟨done, hdone⟩
    exact ⟨done, hdone.split, hdone.gone, hdone.called⟩
  once := h.once
  handRead := hhandRead
  idle := hidle

theorem call {loop : EventLoop.State F} {e : EventLoop.Event F} (h : Inv fds s)
    (hnot : isLoop e = false) (hstep : EventLoop.step s.loop e = some loop)
    : Inv fds { s with loop } := by
  have hpc := pc_call hnot hstep
  apply h.withLoop
  . rw [hpc]
    exact h.handRead
  . rw [hpc]
    exact h.idle

theorem channelCall (h : Inv fds s) (hfds : Function.Injective fds) {c : ι}
    (hne : c ≠ s.wakeUpChannel) (op : ChannelCall)
    : Inv fds { s with
        polling := { s.polling with
          poller := s.polling.poller.register c
            (EpollPoller.nextChannel (s.polling.poller.channels c) op) } } where
  polling := h.polling.call hfds c op
  watched := by
    simp [EpollPoller.register, hne.symm, h.watched]
  mask := by
    simp [EpollPoller.register, hne.symm, h.mask]
  untied := h.untied
  reported := h.reported
  nodup := h.nodup
  progress := by
    rcases h.progress with ⟨done, hdone⟩
    exact ⟨done, hdone.split, hdone.gone, hdone.called⟩
  once := h.once
  handRead := h.handRead
  idle := h.idle

theorem tie (h : Inv fds s) {c : ι} (hne : c ≠ s.wakeUpChannel)
    : Inv fds { s with tied := Function.update s.tied c true } where
  polling := h.polling
  watched := h.watched
  mask := h.mask
  untied := by
    dsimp only
    rw [Function.update_of_ne hne.symm]
    exact h.untied
  reported := h.reported
  nodup := h.nodup
  progress := by
    rcases h.progress with ⟨done, hdone⟩
    exact ⟨done, hdone.split, hdone.gone, hdone.called⟩
  once := h.once
  handRead := h.handRead
  idle := h.idle

theorem skip {c : ι} {rest : List ι} (h : Inv fds s) (hnone : s.handling = none)
    (hrest : s.rest = c :: rest) (htied : s.tied c = true)
    (hpc : ∃ active, s.loop.pc = .handling active)
    : Inv fds { s with rest, gone := c :: s.gone } := by
  have hwakeUp : s.wakeUpChannel ≠ c := by
    intro heq
    have huntied := h.untied
    rw [heq, htied] at huntied
    cases huntied
  have hremaining : s.remaining = s.callsOf c ++ rest.flatMap s.callsOf := by
    simp [remaining_of_none hnone, hrest]
  have hremaining' : ({ s with rest, gone := c :: s.gone } : State F ι).remaining
      = rest.flatMap s.callsOf :=
    remaining_of_none hnone
  rcases h.progress with ⟨done, hdone⟩
  have hnot := hdone.next_not_mem hnone h.nodup hrest
  constructor
  . exact h.polling
  . exact h.watched
  . exact h.mask
  . exact h.untied
  . exact h.reported
  . exact h.nodup
  . refine ⟨done ++ [c], ?_, ?_, ?_⟩
    . have hsplit := hdone.split
      rw [now_of_none hnone, hrest] at hsplit
      rw [now_of_none (by exact hnone)]
      simp [hsplit]
    . intro d hd
      rcases List.mem_cons.mp hd with rfl | hd
      . simp
      . exact List.mem_append_left _ (hdone.gone d hd)
    . have hcalled := hdone.called
      rw [now_of_none hnone, pending_of_none hnone, List.append_nil, List.append_nil] at hcalled
      rw [now_of_none (by exact hnone), pending_of_none (by exact hnone), List.append_nil,
        List.append_nil, List.filter_append, filter_gone_cons hnot]
      simp only [List.mem_cons, true_or, not_true_eq_false, decide_false, List.filter_cons_of_neg,
        Bool.false_eq_true, not_false_eq_true, List.filter_nil, List.append_nil]
      exact hcalled
  . have honce := h.once
    rw [hremaining] at honce
    rw [hremaining']
    exact (List.nodup_append.mp honce).2.1
  . intro active hactive
    rw [h.handRead active hactive, hremaining, hremaining', List.mem_append, or_iff_right]
    intro hmem
    rcases List.mem_map.mp hmem with ⟨_, _, heq⟩
    exact hwakeUp (Prod.mk.inj heq).1.symm
  . intro hidle
    rcases hpc with ⟨active, hactive⟩
    exact absurd hactive (hidle active)

theorem handle {c : ι} {rest : List ι} (h : Inv fds s) (hnone : s.handling = none)
    (hrest : s.rest = c :: rest) (hpc : ∃ active, s.loop.pc = .handling active)
    : Inv fds { s with
        rest
        handling := some ⟨c, Channel.handleEventWithGuard (s.polling.revents c)⟩ } := by
  have hremaining : ({ s with
        rest
        handling := some ⟨c, Channel.handleEventWithGuard (s.polling.revents c)⟩ }
        : State F ι).remaining = s.remaining := by
    rw [remaining_of_none hnone, hrest]
    simp [State.remaining, State.pending, State.callsOf]
    rfl
  rcases h.progress with ⟨done, hdone⟩
  have hnot := hdone.next_not_mem hnone h.nodup hrest
  constructor
  . exact h.polling
  . exact h.watched
  . exact h.mask
  . exact h.untied
  . exact h.reported
  . exact h.nodup
  . refine ⟨done, ?_, hdone.gone, ?_⟩
    . have hsplit := hdone.split
      rw [now_of_none hnone, hrest] at hsplit
      simp [State.now, hsplit]
    . have hcalled := hdone.called
      rw [now_of_none hnone, pending_of_none hnone, List.append_nil, List.append_nil] at hcalled
      have hkept : c ∉ s.gone := fun hc => hnot (hdone.gone c hc)
      simp [State.now, State.pending, hcalled, hkept]
      rfl
  . rw [hremaining]
    exact h.once
  . rw [hremaining]
    exact h.handRead
  . intro hidle
    rcases hpc with ⟨active, hactive⟩
    exact absurd hactive (hidle active)

theorem finish {c : ι} (h : Inv fds s) (hhandling : s.handling = some ⟨c, []⟩)
    : Inv fds { s with handling := none } := by
  have hremaining : ({ s with handling := none } : State F ι).remaining = s.remaining := by
    simp [State.remaining, State.pending, hhandling]
    rfl
  rcases h.progress with ⟨done, hdone⟩
  constructor
  . exact h.polling
  . exact h.watched
  . exact h.mask
  . exact h.untied
  . exact h.reported
  . exact h.nodup
  . refine ⟨done ++ [c], ?_, ?_, ?_⟩
    . have hsplit := hdone.split
      simp [State.now, hhandling] at hsplit
      simp [State.now, hsplit]
    . intro d hd
      exact List.mem_append_left _ (hdone.gone d hd)
    . have hcalled := hdone.called
      simp [State.now, State.pending, hhandling] at hcalled
      simp [State.now, State.pending, hcalled]
      rfl
  . rw [hremaining]
    exact h.once
  . rw [hremaining]
    exact h.handRead
  . intro hidle
    have hidle := (h.idle hidle).2
    rw [hhandling] at hidle
    cases hidle

theorem called {c : ι} {callback : Callback} {callbacks : List Callback}
    {loop : EventLoop.State F} (h : Inv fds s)
    (hhandling : s.handling = some ⟨c, callback :: callbacks⟩)
    (hpc : ∃ active, loop.pc = .handling active)
    (hhandRead : ∀ active, loop.pc = .handling active → ∃ before, s.loop.pc = .handling before
      ∧ (active = true ↔ before = true ∧ (s.wakeUpChannel, .read) ≠ (c, callback)))
    : Inv fds { s with
        handling := some ⟨c, callbacks⟩
        called := s.called ++ [(c, callback)]
        loop } := by
  have hremaining : s.remaining = (c, callback) :: ({ s with
        handling := some ⟨c, callbacks⟩
        called := s.called ++ [(c, callback)]
        loop } : State F ι).remaining := by
    simp [State.remaining, State.pending, hhandling]
    rfl
  have honce := h.once
  rw [hremaining, List.nodup_cons] at honce
  rcases h.progress with ⟨done, hdone⟩
  constructor
  . exact h.polling
  . exact h.watched
  . exact h.mask
  . exact h.untied
  . exact h.reported
  . exact h.nodup
  . refine ⟨done, ?_, hdone.gone, ?_⟩
    . have hsplit := hdone.split
      simp [State.now, hhandling] at hsplit
      simp [State.now, hsplit]
    . have hcalled := hdone.called
      simp [State.now, State.pending, hhandling] at hcalled
      simp [State.now, State.pending, hcalled]
      rfl
  . exact honce.2
  . intro active hactive
    rcases hhandRead active hactive with ⟨before, hbefore, hiff⟩
    rw [hiff, h.handRead before hbefore, hremaining, List.mem_cons]
    constructor
    . rintro ⟨heq | hmem, hne⟩
      . exact absurd heq hne
      . exact hmem
    . intro hmem
      refine ⟨Or.inr hmem, ?_⟩
      intro heq
      rw [heq] at hmem
      exact honce.1 hmem
  . intro hidle
    rcases hpc with ⟨active, hactive⟩
    exact absurd hactive (hidle active)

theorem poll {polling : EpollPoller.Polling ι} {activeChannels : List ι} {loop : EventLoop.State F}
    (h : Inv fds s) (hnone : s.handling = none) (hpolling : EpollPoller.Polling.Inv fds polling)
    (hpoller : polling.poller = s.polling.poller) (hnodup : activeChannels.Nodup)
    (hreported : ∀ c ∈ activeChannels, ∃ bits, polling.revents c
      = bits &&& ((s.polling.poller.channels c).events ||| EPOLLERR ||| EPOLLHUP))
    (hpc : loop.pc = .handling (decide (s.wakeUpChannel ∈ activeChannels)
      && Channel.callsRead (polling.revents s.wakeUpChannel)))
    : Inv fds { s with
        polling
        activeChannels
        rest := activeChannels
        polled := fun c => (s.polling.poller.channels c).events
        gone := []
        called := []
        loop } := by
  have hremaining : ({ s with
        polling
        activeChannels
        rest := activeChannels
        polled := fun c => (s.polling.poller.channels c).events
        gone := []
        called := []
        loop } : State F ι).remaining
      = activeChannels.flatMap fun c =>
        (Channel.handleEventWithGuard (polling.revents c)).map (Prod.mk c) :=
    remaining_of_none hnone
  constructor
  . exact hpolling
  . rw [hpoller]
    exact h.watched
  . rw [hpoller]
    exact h.mask
  . exact h.untied
  . exact hreported
  . exact hnodup
  . refine ⟨[], ?_, ?_, ?_⟩
    . rw [now_of_none (by exact hnone)]
      rfl
    . intro c hc
      exact absurd hc List.not_mem_nil
    . rw [now_of_none (by exact hnone), pending_of_none (by exact hnone)]
      rfl
  . rw [hremaining]
    exact nodup_calls hnodup
  . intro active hactive
    rw [hpc] at hactive
    cases hactive
    rw [hremaining, mem_calls_iff]
    simp [Channel.handleEventWithGuard, Channel.calls]
  . intro hidle
    exact absurd hpc (hidle _)

theorem report {ready : List (Nat × UInt32)} {loop : EventLoop.State F} (h : Inv fds s)
    (hnone : s.handling = none) (hready : (ready.map Prod.fst).Nodup)
    (hpc : loop.pc = .handling
      (decide (s.wakeUpChannel ∈ (s.polling.reports ready).map EpollEvent.ptr)
        && Channel.callsRead ((s.polling.polled ready).revents s.wakeUpChannel)))
    : Inv fds { s with
        polling := s.polling.polled ready
        activeChannels := (s.polling.reports ready).map EpollEvent.ptr
        rest := (s.polling.reports ready).map EpollEvent.ptr
        polled := fun c => (s.polling.poller.channels c).events
        gone := []
        called := []
        loop } := by
  have hnodup := EpollPoller.Polling.nodup_reports h.polling.agree hready
  apply h.poll hnone h.polling.poll s.polling.poller_polled hnodup ?_ hpc
  intro c hc
  rcases List.mem_map.mp hc with ⟨event, hevent, rfl⟩
  have hmem := EpollPoller.Polling.mem_readyEvents hevent
  rcases (EpollPoller.mem_readyEvents_iff h.polling.agree).mp hmem with ⟨bits, _, _, heq, _⟩
  refine ⟨bits, ?_⟩
  rw [EpollPoller.Polling.revents_polled, EpollPoller.Polling.fillRevents_of_mem hnodup hevent, heq]

theorem statePoll {report : Option (List (Nat × UInt32))} (h : Inv fds s)
    (hpolling : s.loop.pc = .polling) (hready : report.all s.mayBeReady = true)
    (hstep : s.poll report = some s')
    : Inv fds s' := by
  have hnone : s.handling = none := by
    apply (h.idle _).2
    rw [hpolling]
    exact nofun
  unfold State.poll at hstep
  cases report with
  | some ready =>
    simp only [Option.all_some, State.mayBeReady, Bool.and_eq_true, decide_eq_true_eq] at hready
    simp only [EpollPoller.Polling.poll_eq, Option.bind_some, List.nil_append] at hstep
    rcases callLoop_eq hstep with ⟨loop, hloop, rfl⟩
    exact h.report hnone hready.1.1 (pc_poll hpolling hloop)
  | none =>
    rcases callLoop_eq hstep with ⟨loop, hloop, rfl⟩
    apply h.poll hnone h.polling rfl List.nodup_nil ?_ (pc_poll hpolling hloop)
    intro c hc
    exact absurd hc List.not_mem_nil

theorem stateCallback {c : ι} {callback : Callback} {callbacks : List Callback} {active : Bool}
    (h : Inv fds s) (hpc : s.loop.pc = .handling active)
    (hhandling : s.handling = some ⟨c, callback :: callbacks⟩)
    (hstep : s.callback ⟨c, callback :: callbacks⟩ callback callbacks = some s')
    : Inv fds s' := by
  unfold State.callback at hstep
  dsimp only at hstep
  split at hstep
  . next hread =>
    rcases hread with ⟨rfl, rfl⟩
    rcases callLoop_eq hstep with ⟨loop, hloop, rfl⟩
    have hactive : active = true := by
      apply (h.handRead active hpc).mpr
      simp [State.remaining, State.pending, hhandling]
    rw [hactive] at hpc
    have hpc' := pc_handRead hpc hloop
    apply h.called hhandling ⟨false, hpc'⟩
    intro active' hactive'
    rw [hpc'] at hactive'
    cases hactive'
    refine ⟨true, hpc, ?_⟩
    simp
  . next hother =>
    cases hstep
    apply h.called hhandling ⟨active, hpc⟩
    intro active' hactive'
    refine ⟨active', hactive', ?_⟩
    rw [and_iff_left]
    intro heq
    apply hother
    exact ⟨(Prod.mk.inj heq).1.symm, (Prod.mk.inj heq).2.symm⟩

theorem dispatch {guard active : Bool} (h : Inv fds s) (hpc : s.loop.pc = .handling active)
    (hstep : s.dispatch guard = some s')
    : Inv fds s' := by
  unfold State.dispatch at hstep
  split at hstep
  . next c callback callbacks hhandling => apply h.stateCallback hpc hhandling hstep
  . next c hhandling =>
    cases hstep
    apply h.finish hhandling
  . next hnone =>
    split at hstep
    . next c rest hrest =>
      cases hstep
      unfold State.handleEvent
      split
      . next htied =>
        rw [Bool.and_eq_true] at htied
        apply h.skip hnone hrest htied.1 ⟨active, hpc⟩
      . apply h.handle hnone hrest ⟨active, hpc⟩
    . next hrest =>
      rcases callLoop_eq hstep with ⟨loop, hloop, rfl⟩
      have hactive : active = false := by
        rw [← Bool.not_eq_true, h.handRead active hpc, remaining_of_none hnone, hrest]
        exact List.not_mem_nil
      rw [hactive] at hpc
      have hpc' := pc_setFlag hpc hloop
      apply h.withLoop
      . rw [hpc']
        exact nofun
      . intro _
        exact ⟨hrest, hnone⟩

theorem step {e : Event F ι} (h : Inv fds s) (hfds : Function.Injective fds)
    (hstep : step s e = some s')
    : Inv fds s' := by
  unfold Dispatch.step at hstep
  split at hstep
  . split at hstep
    . unfold State.loopNext at hstep
      split at hstep
      . next hpolling =>
        split at hstep
        . next hready => apply h.statePoll hpolling hready hstep
        . simp at hstep
      . next active hpc => apply h.dispatch hpc hstep
      . next hpolling hhandling =>
        rcases callLoop_eq hstep with ⟨loop, hloop, rfl⟩
        have hnot := pc_loop hpolling hhandling hloop
        apply h.withLoop
        . intro active hactive
          exact absurd hactive (hnot active)
        . intro _
          exact h.idle hhandling
    . simp at hstep
  . split at hstep
    . simp at hstep
    . next hnot =>
      rcases callLoop_eq hstep with ⟨loop, hloop, rfl⟩
      apply h.call (Bool.not_eq_true _ |>.mp hnot) hloop
  . split at hstep
    . next hcan =>
      rw [h.polling.agree.call_eq, Option.bind_eq_bind, Option.bind_some] at hstep
      cases hstep
      apply h.channelCall hfds hcan.2
    . simp at hstep
  . split at hstep
    . next hcan =>
      cases hstep
      apply h.tie hcan.2
    . simp at hstep

theorem of_reachable (hfds : Function.Injective fds) (h : (system F fds).Reachable s)
    : Inv fds s := by
  apply LTS.Reachable.invariant _ ?_ ?_ h
  . rintro s ⟨wakeUpChannel, hstart⟩
    apply Inv.start hfds hstart
  . intro s e s' hs hnext
    apply hs.step hfds hnext

end Inv

section Interest

variable {bits mask asked : UInt32}

theorem interest_of_reported (herr : EPOLLERR &&& asked = 0) (hhup : EPOLLHUP &&& asked = 0)
    (h : (bits &&& (mask ||| EPOLLERR ||| EPOLLHUP)) &&& asked ≠ 0)
    : mask &&& asked ≠ 0 := by
  intro hzero
  apply h
  rw [UInt32.and_assoc, Channel.or_and_distrib, Channel.or_and_distrib, hzero, herr, hhup]
  simp

end Interest

section Results

variable {fds : ι → Nat} {s s' : State F ι}

theorem loop_of_dispatch {guard : Bool} (h : s.dispatch guard = some s')
    : s'.loop = s.loop ∨ ∃ event, EventLoop.step s.loop event = some s'.loop := by
  unfold State.dispatch at h
  split at h
  . unfold State.callback at h
    dsimp only at h
    split at h
    . rcases callLoop_eq h with ⟨loop, hloop, rfl⟩
      exact Or.inr ⟨_, hloop⟩
    . cases h
      exact Or.inl rfl
  . cases h
    exact Or.inl rfl
  . split at h
    . cases h
      unfold State.handleEvent
      split <;> exact Or.inl rfl
    . rcases callLoop_eq h with ⟨loop, hloop, rfl⟩
      exact Or.inr ⟨_, hloop⟩

theorem loop_of_poll {report : Option (List (Nat × UInt32))} (h : s.poll report = some s')
    : ∃ event, EventLoop.step s.loop event = some s'.loop := by
  unfold State.poll at h
  split at h
  . rw [Option.bind_eq_some_iff] at h
    rcases h with ⟨r, _, h⟩
    rcases callLoop_eq h with ⟨loop, hloop, rfl⟩
    exact ⟨_, hloop⟩
  . rcases callLoop_eq h with ⟨loop, hloop, rfl⟩
    exact ⟨_, hloop⟩

theorem loop_of_step {e : Event F ι} (h : step s e = some s')
    : s'.loop = s.loop ∨ ∃ event, EventLoop.step s.loop event = some s'.loop := by
  unfold step at h
  split at h
  . split at h
    . unfold State.loopNext at h
      split at h
      . split at h
        . exact Or.inr (loop_of_poll h)
        . simp at h
      . exact loop_of_dispatch h
      . rcases callLoop_eq h with ⟨loop, hloop, rfl⟩
        exact Or.inr ⟨_, hloop⟩
    . simp at h
  . split at h
    . simp at h
    . rcases callLoop_eq h with ⟨loop, hloop, rfl⟩
      exact Or.inr ⟨_, hloop⟩
  . split at h
    . rw [Option.bind_eq_bind, Option.bind_eq_some_iff] at h
      rcases h with ⟨poller, _, h⟩
      cases h
      exact Or.inl rfl
    . simp at h
  . split at h
    . cases h
      exact Or.inl rfl
    . simp at h

theorem refines_loop (h : (system F fds).Reachable s) : (EventLoop.system F).Reachable s.loop := by
  refine LTS.Reachable.map (system F fds) ?_ ?_ h
  . rintro s ⟨wakeUpChannel, hstart⟩
    unfold State.start at hstart
    rw [Option.bind_eq_bind, Option.bind_eq_some_iff] at hstart
    rcases hstart with ⟨poller, _, heq⟩
    cases heq
    rfl
  . intro s e s' hnext
    apply loop_of_step hnext

theorem Inv.of_called (h : Inv fds s) {c : ι} {callback : Callback} (hcalled : (c, callback) ∈ s.called)
    : c ∈ s.activeChannels ∧ Channel.calls (s.polling.revents c) callback = true := by
  rcases h.progress with ⟨done, hdone⟩
  have hmem : (c, callback) ∈ s.called ++ s.pending := List.mem_append_left _ hcalled
  rw [hdone.called] at hmem
  unfold State.callsOf at hmem
  rcases mem_calls_iff.mp hmem with ⟨hc, hcallback⟩
  constructor
  . rw [hdone.split]
    exact List.mem_append_left _ (List.mem_of_mem_filter hc)
  . exact (List.mem_filter.mp hcallback).2

/--
Every channel that a poll reports is handled once, in the order of the report, with the callbacks that
its events ask for, unless its owner is gone. A read or a write callback is only called if the channel
was interested when it was polled.
-/
theorem dispatch_reported (hfds : Function.Injective fds) (h : (system F fds).Reachable s)
    : s.activeChannels.Nodup
      ∧ (∃ done, s.activeChannels = done ++ s.now ++ s.rest
        ∧ s.called ++ s.pending
          = ((done ++ s.now).filter fun c => decide (c ∉ s.gone)).flatMap s.callsOf)
      ∧ (∀ c, (c, .read) ∈ s.called → s.polled c &&& Channel.kReadEvent ≠ 0)
      ∧ (∀ c, (c, .write) ∈ s.called → s.polled c &&& Channel.kWriteEvent ≠ 0) := by
  have hinv := Inv.of_reachable hfds h
  refine ⟨hinv.nodup, ?_, ?_, ?_⟩
  . rcases hinv.progress with ⟨done, hdone⟩
    exact ⟨done, hdone.split, hdone.called⟩
  . intro c hcalled
    rcases hinv.of_called hcalled with ⟨hc, hread⟩
    rcases hinv.reported c hc with ⟨bits, hbits⟩
    apply interest_of_reported rfl rfl
    simp only [Channel.calls, Channel.callsRead, bne_iff_ne, hbits] at hread
    exact hread
  . intro c hcalled
    rcases hinv.of_called hcalled with ⟨hc, hwrite⟩
    rcases hinv.reported c hc with ⟨bits, hbits⟩
    apply interest_of_reported rfl rfl
    simp only [Channel.calls, Channel.callsWrite, bne_iff_ne, hbits] at hwrite
    exact hwrite

section WakeUp

variable {ready : List (Nat × UInt32)}

omit [DecidableEq ι] in
theorem callsRead_eventfd
    : Channel.callsRead (s.eventfd &&& (Channel.kReadEvent ||| EPOLLERR ||| EPOLLHUP))
      =
      decide (0 < s.loop.loop.wakeUpFd) := by
  unfold State.eventfd
  split
  . next hpos =>
    rw [decide_eq_true hpos]
    rfl
  . next hzero =>
    rw [decide_eq_false hzero]
    rfl

theorem Inv.events_wakeUp (h : Inv fds s) (hready : s.mayBeReady ready = true)
    {event : EpollEvent ι} (hptr : event.ptr = s.wakeUpChannel)
    (hmem : event ∈ readyEvents s.polling.poller.epollSet ready)
    : event.events = s.eventfd &&& (Channel.kReadEvent ||| EPOLLERR ||| EPOLLHUP) := by
  simp only [State.mayBeReady, Bool.and_eq_true, List.all_eq_true, decide_eq_true_eq] at hready
  rcases (EpollPoller.mem_readyEvents_iff h.polling.agree).mp hmem with ⟨bits, hfile, _, heq, _⟩
  have hbits : bits = s.eventfd := by
    apply hready.1.2 _ hfile
    rw [hptr]
    exact (h.polling.agree.fd s.wakeUpChannel).symm
  rw [heq, hptr, h.mask, hbits]

theorem Inv.wakeUp_mem (h : Inv fds s) (hready : s.mayBeReady ready = true)
    (hpos : 0 < s.loop.loop.wakeUpFd)
    : ∃ event ∈ readyEvents s.polling.poller.epollSet ready, event.ptr = s.wakeUpChannel := by
  have hbits := callsRead_eventfd (s := s)
  rw [decide_eq_true hpos] at hbits
  simp only [State.mayBeReady, Bool.and_eq_true, List.all_eq_true, decide_eq_true_eq] at hready
  rcases List.mem_map.mp (hready.2 hpos) with ⟨⟨fd, bits⟩, hfile, hfd⟩
  have heq : bits = s.eventfd := hready.1.2 _ hfile hfd
  refine ⟨⟨bits &&& (Channel.kReadEvent ||| EPOLLERR ||| EPOLLHUP), s.wakeUpChannel⟩, ?_, rfl⟩
  apply (EpollPoller.mem_readyEvents_iff h.polling.agree).mpr
  refine ⟨bits, ?_, h.watched, ?_, ?_⟩
  . have hfd' : fd = s.wakeUpFile := hfd
    rw [hfd'] at hfile
    rw [← h.polling.agree.fd s.wakeUpChannel]
    exact hfile
  . rw [h.mask]
  . intro hzero
    dsimp only at hzero
    rw [← heq, hzero] at hbits
    cases hbits

theorem Inv.reports_ne_nil (h : Inv fds s) (hready : s.mayBeReady ready = true)
    (hpos : 0 < s.loop.loop.wakeUpFd)
    : s.polling.reports ready ≠ [] := by
  rcases h.wakeUp_mem hready hpos with ⟨event, hevent, _⟩
  have hlist : 0 < s.polling.reventList.length := by
    rcases h.polling.size with ⟨k, hlength, _⟩
    rw [hlength]
    exact Nat.mul_pos (by decide) (Nat.two_pow_pos k)
  unfold EpollPoller.Polling.reports epollWait
  rw [← List.length_pos_iff, List.length_take]
  exact Nat.lt_min.mpr ⟨hlist, List.length_pos_of_mem hevent⟩

theorem Inv.wakeUpActive_eq (h : Inv fds s) (hready : s.mayBeReady ready = true)
    (hmem : s.wakeUpChannel ∈ (s.polling.reports ready).map EpollEvent.ptr)
    : Channel.callsRead ((s.polling.polled ready).revents s.wakeUpChannel)
      =
      decide (0 < s.loop.loop.wakeUpFd) := by
  rcases List.mem_map.mp hmem with ⟨event, hevent, hptr⟩
  have hnodup : (ready.map Prod.fst).Nodup := by
    simp only [State.mayBeReady, Bool.and_eq_true, decide_eq_true_eq] at hready
    exact hready.1.1
  have hevents := h.events_wakeUp hready hptr (EpollPoller.Polling.mem_readyEvents hevent)
  have hrevents : EpollPoller.Polling.fillRevents s.polling.revents (s.polling.reports ready)
      event.ptr = event.events :=
    EpollPoller.Polling.fillRevents_of_mem
      (EpollPoller.Polling.nodup_reports h.polling.agree hnodup) hevent
  rw [EpollPoller.Polling.revents_polled, ← hptr, hrevents, hevents, callsRead_eventfd]

def State.reported (s : State F ι) (ready : List (Nat × UInt32)) : State F ι :=
  let active := (s.polling.reports ready).map EpollEvent.ptr
  { s with
    polling := s.polling.polled ready
    activeChannels := active
    rest := active
    polled := fun c => (s.polling.poller.channels c).events
    gone := []
    called := []
    loop := { s.loop with
      pc := .handling (decide (s.wakeUpChannel ∈ active)
        && Channel.callsRead ((s.polling.polled ready).revents s.wakeUpChannel)) } }

theorem Inv.active_iff (h : Inv fds s) (hready : s.mayBeReady ready = true)
    : (decide (s.wakeUpChannel ∈ (s.polling.reports ready).map EpollEvent.ptr)
        && Channel.callsRead ((s.polling.polled ready).revents s.wakeUpChannel)) = true
      ↔
      s.wakeUpChannel ∈ (s.polling.reports ready).map EpollEvent.ptr
        ∧ 0 < s.loop.loop.wakeUpFd := by
  rw [Bool.and_eq_true, decide_eq_true_eq]
  apply and_congr_right
  intro hmem
  rw [h.wakeUpActive_eq hready hmem, decide_eq_true_eq]

theorem Inv.poll_eq (h : Inv fds s) (hpc : s.loop.pc = .polling) (hidle : s.loop.calls .owner = .idle)
    (hready : s.mayBeReady ready = true)
    : s.poll (some ready) = some (s.reported ready) := by
  have hloop := step_poll hpc hidle fun hactive => ((h.active_iff hready).mp hactive).2
  simp only [State.poll, EpollPoller.Polling.poll_eq, Option.bind_some, List.nil_append]
  exact congrArg (Option.bind · fun loop => some { s.reported ready with loop }) hloop

/--
A wake-up is never lost by the poll: the poll never blocks while the counter of the eventfd is positive,
it only leaves the eventfd out when its event list is full, and `handRead` is then one of the callbacks
to come.
-/
theorem wakeUp_polled (hfds : Function.Injective fds) (h : (system F fds).Reachable s)
    (hpc : s.loop.pc = .polling) (hidle : s.loop.calls .owner = .idle)
    (hready : s.mayBeReady ready = true) (guard : Bool)
    : ∃ s', step s (.loop (some ready) guard) = some s'
      ∧ (0 < s.loop.loop.wakeUpFd → s'.activeChannels ≠ [])
      ∧ (0 < s.loop.loop.wakeUpFd → s.polling.misses ready = false →
        (s.wakeUpChannel, .read) ∈ s'.remaining)
      ∧ (s.loop.loop.wakeUpFd = 0 → (s.wakeUpChannel, .read) ∉ s'.remaining) := by
  have hinv := Inv.of_reachable hfds h
  have hpoll := hinv.poll_eq hpc hidle hready
  have hstep : step s (.loop (some ready) guard) = some (s.reported ready) := by
    simp only [step, hidle, ↓reduceIte, State.loopNext, hpc, Option.all_some, hready]
    exact hpoll
  have hinv' := hinv.step hfds hstep
  refine ⟨_, hstep, ?_, ?_, ?_⟩
  . intro hpos
    have hne := hinv.reports_ne_nil hready hpos
    simpa [State.reported] using hne
  . intro hpos hmisses
    apply (hinv'.handRead _ rfl).mp
    apply (hinv.active_iff hready).mpr
    refine ⟨?_, hpos⟩
    rcases hinv.wakeUp_mem hready hpos with ⟨event, hevent, hptr⟩
    have hall : s.polling.reports ready = readyEvents s.polling.poller.epollSet ready := by
      unfold EpollPoller.Polling.misses at hmisses
      rw [decide_eq_false_iff_not] at hmisses
      apply List.take_of_length_le
      omega
    rw [hall, ← hptr]
    exact List.mem_map_of_mem hevent
  . intro hzero hread
    have hactive := (hinv'.handRead _ rfl).mpr hread
    have hpos := ((hinv.active_iff hready).mp hactive).2
    omega

end WakeUp

def woken : List (Event Nat Nat) :=
  [.channelCall 1 .enableReading, .loop none true, .loop none true, .loop none true,
    .call (.queueInLoop (.other 3) 7), .call (.queueReturn (.other 3))]

def twoReady : List (Nat × UInt32) :=
  [(1, EPOLLIN), (0, EPOLLIN ||| EPOLLOUT)]

def bothRead : List (Event Nat Nat) :=
  woken ++ [.loop (some twoReady) true, .loop none true, .loop none true, .loop none true,
    .loop none true, .loop none true]

def runFrom (es : List (Event Nat Nat)) : Option (State Nat Nat) := do
  let s ← State.start (fun c : Nat => c) 0
  (system Nat fun c : Nat => c).run s es

theorem reachable_runFrom {es : List (Event Nat Nat)} {s : State Nat Nat} (h : runFrom es = some s)
    : (system Nat fun c : Nat => c).Reachable s := by
  unfold runFrom at h
  rw [Option.bind_eq_bind, Option.bind_eq_some_iff] at h
  rcases h with ⟨s₀, hstart, hrun⟩
  exact .of_run _ (.init ⟨0, hstart⟩) hrun

theorem dispatch_reported_bothRead
    : ∃ s, runFrom bothRead = some s ∧ s.called = [(1, .read), (0, .read)]
      ∧ s.polled 1 &&& Channel.kReadEvent ≠ 0 := by
  have hcalled : (runFrom bothRead).map State.called = some [(1, .read), (0, .read)] := by decide
  rcases Option.map_eq_some_iff.mp hcalled with ⟨s, hrun, hcalled⟩
  refine ⟨s, hrun, hcalled, ?_⟩
  apply (dispatch_reported (fun _ _ h => h) (reachable_runFrom hrun)).2.2.1
  rw [hcalled]
  exact List.mem_cons_self

theorem wakeUp_polled_woken
    : ∃ s, runFrom woken = some s
      ∧ ∃ s', step s (.loop (some twoReady) true) = some s' ∧ s'.activeChannels ≠ [] := by
  have hwoken : ∃ s, runFrom woken = some s ∧ s.loop.pc = .polling ∧ s.loop.calls .owner = .idle
      ∧ s.mayBeReady twoReady = true ∧ 0 < s.loop.loop.wakeUpFd := by
    have hrun : runFrom woken = some _ := rfl
    exact ⟨_, hrun, rfl, rfl, rfl, by decide⟩
  rcases hwoken with ⟨s, hrun, hpc, hidle, hready, hpos⟩
  refine ⟨s, hrun, ?_⟩
  rcases wakeUp_polled (fun _ _ h => h) (reachable_runFrom hrun) hpc hidle hready true
    with ⟨s', hstep, hne, _⟩
  exact ⟨s', hstep, hne hpos⟩

end Results

end Dispatch

end EventLoop
