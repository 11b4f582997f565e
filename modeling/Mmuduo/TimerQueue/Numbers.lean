import Mmuduo.TimerQueue.Threads

namespace TimerQueue

namespace Threads

def Functor.adds : Functor → Option Addr
  | .addTimerInLoop timer _ => some timer
  | _ => none

namespace State

def handedOver (s : State) : List Addr :=
  s.loop.waiting.filterMap (·.functor.adds)

def pending (s : State) : List Addr :=
  s.creating.map (·.timer) ++ s.handedOver

def numbers (s : State) : List Nat :=
  s.creating.map (·.number) ++ (s.reading.map (·.number) ++ s.issued.map (·.number))

def Named (s : State) (number : Nat) (timer : Addr) : Prop :=
  ∃ sequence, s.names[number]? = some ⟨timer, sequence⟩

end State

structure Inv (s : State) : Prop where
  queue : s.queue.Inv (s.timers.batchTimers ++ s.pending)
  calling : s.queue.callingExpiredTimers = s.batch.isSome
  named : ∀ a t, s.queue.heap a = some t → s.names[s.born a]? = some ⟨a, t.sequence⟩
  creating : ∀ call ∈ s.creating, s.born call.timer = call.number
  reading : ∀ call ∈ s.reading, s.Named call.number call.timer
  issued : ∀ i ∈ s.issued, s.Named i.number i.timerId.timer
  sequence : ∀ i ∈ s.issued, ∀ t, s.queue.heap i.timerId.timer = some t →
    s.born i.timerId.timer = i.number → t.sequence = i.timerId.sequence
  handedOver : ∀ queued ∈ s.loop.waiting, ∀ timer number,
    queued.functor = .addTimerInLoop timer number → s.born timer = number
  cancels : ∀ queued ∈ s.loop.waiting, ∀ i, queued.functor = .cancelInLoop i → i ∈ s.issued
  order : s.loop.waiting.Pairwise fun queued queued' => ∀ i timer,
    queued.functor = .cancelInLoop i → queued'.functor ≠ .addTimerInLoop timer i.number
  numbers_nodup : s.numbers.Nodup
  numbers_lt : ∀ k ∈ s.numbers, k < s.names.length

def Old (q q' : TimerQueue) : Prop :=
  ∀ a t', q'.heap a = some t' → ∃ t, q.heap a = some t ∧ t'.sequence = t.sequence

theorem Old.of_heap_eq {q q' : TimerQueue} (h : q'.heap = q.heap) : Old q q' := by
  intro a t ht
  rw [h] at ht
  exact ⟨t, ht, rfl⟩

theorem old_cancelInLoop {q q' : TimerQueue} {batch : List Addr} {timerId : TimerId}
    (h : q.Inv batch) (hcancel : q.cancelInLoop timerId = .ok q')
    : Old q q' := by
  by_cases hid : ActiveTimer.mk timerId.timer timerId.sequence ∈ q.activeTimers
  . rcases cancelInLoop_of_active h hid with ⟨t, ht, -, -, heq⟩
    rw [heq, Except.ok.injEq] at hcancel
    rw [← hcancel]
    intro a u hu
    by_cases ha : a = timerId.timer
    . rw [ha, setTimer_heap_self] at hu
      contradiction
    . rw [setTimer_heap_of_ne ha] at hu
      exact ⟨u, hu, rfl⟩
  . rw [cancelInLoop_inactive h hid, Except.ok.injEq] at hcancel
    rw [← hcancel]
    apply Old.of_heap_eq
    split
    . rfl
    . rfl

theorem callingExpiredTimers_cancelInLoop {q q' : TimerQueue} {batch : List Addr}
    {timerId : TimerId} (h : q.Inv batch) (hcancel : q.cancelInLoop timerId = .ok q')
    : q'.callingExpiredTimers = q.callingExpiredTimers := by
  by_cases hid : ActiveTimer.mk timerId.timer timerId.sequence ∈ q.activeTimers
  . rcases cancelInLoop_of_active h hid with ⟨t, ht, -, -, heq⟩
    rw [heq, Except.ok.injEq] at hcancel
    rw [← hcancel]
    rfl
  . rw [cancelInLoop_inactive h hid, Except.ok.injEq] at hcancel
    rw [← hcancel]
    split
    . rfl
    . rfl

namespace Inv

variable {s s' : State}

theorem start (numCreated : Int32) : Inv (.start numCreated) where
  queue := new_inv numCreated
  calling := rfl
  named := by simp [State.start, TimerQueue.new]
  creating := by simp [State.start]
  reading := by simp [State.start]
  issued := by simp [State.start]
  sequence := by simp [State.start]
  handedOver := by simp [State.start]
  cancels := by simp [State.start]
  order := by simp [State.start]
  numbers_nodup := by simp [State.start, State.numbers]
  numbers_lt := by simp [State.start, State.numbers]

theorem setQueue (h : Inv s) (hqueue : s'.queue.Inv (s'.timers.batchTimers ++ s'.pending))
    (hcalling : s'.queue.callingExpiredTimers = s'.batch.isSome) (hold : Old s.queue s'.queue)
    (hwaiting : s'.loop.waiting.Sublist s.loop.waiting) (hcreating : s'.creating = s.creating)
    (hreading : s'.reading = s.reading) (hissued : s'.issued = s.issued)
    (hnames : s'.names = s.names) (hborn : s'.born = s.born)
    : Inv s' where
  queue := hqueue
  calling := hcalling
  named := by
    intro a t' ht'
    rcases hold a t' ht' with ⟨t, ht, hseq⟩
    rw [hnames, hborn, hseq]
    exact h.named a t ht
  creating := by
    rw [hcreating, hborn]
    exact h.creating
  reading := by
    unfold State.Named
    rw [hreading, hnames]
    exact h.reading
  issued := by
    unfold State.Named
    rw [hissued, hnames]
    exact h.issued
  sequence := by
    intro i hi t' ht' hnumber
    rw [hissued] at hi
    rw [hborn] at hnumber
    rcases hold _ t' ht' with ⟨t, ht, hseq⟩
    rw [hseq]
    exact h.sequence i hi t ht hnumber
  handedOver := by
    intro queued hmem
    rw [hborn]
    exact h.handedOver queued (hwaiting.mem hmem)
  cancels := by
    intro queued hmem
    rw [hissued]
    exact h.cancels queued (hwaiting.mem hmem)
  order := h.order.sublist hwaiting
  numbers_nodup := by
    unfold State.numbers
    rw [hcreating, hreading, hissued]
    exact h.numbers_nodup
  numbers_lt := by
    unfold State.numbers
    rw [hcreating, hreading, hissued, hnames]
    exact h.numbers_lt

theorem push {loop : EventLoop.State Functor} {queued : Queued Functor} (h : Inv s)
    (hwaiting : loop.waiting = s.loop.waiting ++ [queued]) (hadds : queued.functor.adds = none)
    (hcancels : ∀ i, queued.functor = .cancelInLoop i → i ∈ s.issued)
    : Inv { s with loop } where
  queue := by
    have hpending : State.pending { s with loop } = s.pending := by
      unfold State.pending State.handedOver
      dsimp only
      rw [hwaiting, List.filterMap_append]
      simp [hadds]
    rw [hpending]
    exact h.queue
  calling := h.calling
  named := h.named
  creating := h.creating
  reading := h.reading
  issued := h.issued
  sequence := h.sequence
  handedOver := by
    intro queued' hmem timer number hfunctor
    dsimp only at hmem
    rw [hwaiting, List.mem_append, List.mem_singleton] at hmem
    rcases hmem with hmem | hmem
    . exact h.handedOver queued' hmem timer number hfunctor
    . rw [hmem] at hfunctor
      simp [hfunctor, Functor.adds] at hadds
  cancels := by
    intro queued' hmem i hfunctor
    dsimp only at hmem
    rw [hwaiting, List.mem_append, List.mem_singleton] at hmem
    rcases hmem with hmem | hmem
    . exact h.cancels queued' hmem i hfunctor
    . rw [hmem] at hfunctor
      exact hcancels i hfunctor
  order := by
    dsimp only
    rw [hwaiting, List.pairwise_append]
    refine ⟨h.order, by simp, ?_⟩
    intro queued₁ _ queued₂ hmem i timer _ hfunctor
    rw [List.mem_singleton] at hmem
    rw [hmem] at hfunctor
    simp [hfunctor, Functor.adds] at hadds
  numbers_nodup := h.numbers_nodup
  numbers_lt := h.numbers_lt

theorem numbers_handOver {call : AddCall} (hmem : call ∈ s.creating)
    (loop : EventLoop.State Functor)
    : s.numbers.Perm (State.numbers
        { s with loop, creating := s.creating.erase call, reading := call :: s.reading }) := by
  have hperm := (List.perm_cons_erase hmem).map AddCall.number
  unfold State.numbers
  dsimp only
  apply (hperm.append_right _).trans
  rw [List.map_cons, List.map_cons, List.cons_append, List.cons_append]
  exact List.perm_middle.symm

theorem handOver {loop : EventLoop.State Functor} {call : AddCall} {caller : Caller} (h : Inv s)
    (hmem : call ∈ s.creating)
    (hwaiting : loop.waiting
      = s.loop.waiting ++ [⟨caller, .addTimerInLoop call.timer call.number⟩])
    : Inv { s with loop, creating := s.creating.erase call, reading := call :: s.reading } where
  queue := by
    have hperm := (List.perm_cons_erase hmem).map AddCall.timer
    apply h.queue.perm
    apply List.Perm.append_left
    unfold State.pending State.handedOver
    dsimp only
    rw [hwaiting, List.filterMap_append]
    apply (hperm.append_right _).trans
    rw [List.map_cons, List.cons_append]
    rw [← List.append_assoc]
    exact (List.perm_append_singleton _ _).symm
  calling := h.calling
  named := h.named
  creating := by
    intro call' hmem'
    exact h.creating call' (List.mem_of_mem_erase hmem')
  reading := by
    intro call' hmem'
    rcases List.mem_cons.mp hmem' with heq | hmem'
    . rw [heq]
      have hpending : call.timer ∈ s.timers.batchTimers ++ s.pending := by
        apply List.mem_append_right
        apply List.mem_append_left
        exact List.mem_map_of_mem hmem
      rcases h.queue.batch_live _ hpending with ⟨t, ht⟩
      have hnamed := h.named _ t ht
      rw [h.creating call hmem] at hnamed
      exact ⟨t.sequence, hnamed⟩
    . exact h.reading call' hmem'
  issued := h.issued
  sequence := h.sequence
  handedOver := by
    intro queued hqueued timer number hfunctor
    dsimp only at hqueued
    rw [hwaiting, List.mem_append, List.mem_singleton] at hqueued
    rcases hqueued with hqueued | hqueued
    . exact h.handedOver queued hqueued timer number hfunctor
    . rw [hqueued] at hfunctor
      cases hfunctor
      exact h.creating call hmem
  cancels := by
    intro queued hqueued i hfunctor
    dsimp only at hqueued
    rw [hwaiting, List.mem_append, List.mem_singleton] at hqueued
    rcases hqueued with hqueued | hqueued
    . exact h.cancels queued hqueued i hfunctor
    . rw [hqueued] at hfunctor
      contradiction
  order := by
    dsimp only
    rw [hwaiting, List.pairwise_append]
    refine ⟨h.order, by simp, ?_⟩
    intro queued hqueued queued' hlast i timer hcancel hadd
    rw [List.mem_singleton] at hlast
    rw [hlast] at hadd
    rw [Functor.addTimerInLoop.injEq] at hadd
    -- a timer whose id has been returned is not handed over any more
    have hissued := h.cancels queued hqueued i hcancel
    have hdisjoint := (List.nodup_append'.mp h.numbers_nodup).2.2
    apply hdisjoint (List.mem_map_of_mem hmem)
    apply List.mem_append_right
    rw [hadd.2]
    exact List.mem_map_of_mem hissued
  numbers_nodup := (numbers_handOver hmem loop).nodup_iff.mp h.numbers_nodup
  numbers_lt := by
    intro k hk
    exact h.numbers_lt k ((numbers_handOver hmem loop).mem_iff.mpr hk)

theorem readSequence {call : AddCall} (h : Inv s) (hmem : call ∈ s.reading) (garbage : Int)
    : Inv (s.readSequence call garbage) := by
  have hnumbers : s.numbers.Perm (s.readSequence call garbage).numbers := by
    have hperm := (List.perm_cons_erase hmem).map AddCall.number
    unfold State.numbers State.readSequence
    dsimp only
    apply List.Perm.append_left
    apply (hperm.append_right _).trans
    rw [List.map_cons, List.map_cons, List.cons_append]
    exact List.perm_middle.symm
  exact {
    queue := h.queue
    calling := h.calling
    named := h.named
    creating := h.creating
    reading := by
      intro call' hmem'
      exact h.reading call' (List.mem_of_mem_erase hmem')
    issued := by
      intro i hi
      rcases List.mem_cons.mp hi with heq | hi
      . rw [heq]
        exact h.reading call hmem
      . exact h.issued i hi
    sequence := by
      intro i hi t ht hnumber
      rcases List.mem_cons.mp hi with heq | hi
      . rw [heq] at ht ⊢
        have ht : s.queue.heap call.timer = some t := ht
        simp [State.sequenceAt, ht]
      . exact h.sequence i hi t ht hnumber
    handedOver := h.handedOver
    cancels := by
      intro queued hqueued i hi
      exact List.mem_cons_of_mem _ (h.cancels queued hqueued i hi)
    order := h.order
    numbers_nodup := hnumbers.nodup_iff.mp h.numbers_nodup
    numbers_lt := by
      intro k hk
      exact h.numbers_lt k (hnumbers.mem_iff.mpr hk)
  }

section Name

variable {a : Addr} {t : Timer}

theorem mem_pending_of_waiting {queued : Queued Functor} (hmem : queued ∈ s.loop.waiting)
    {timer : Addr} {number : Nat} (hfunctor : queued.functor = .addTimerInLoop timer number)
    : timer ∈ s.pending := by
  apply List.mem_append_right
  apply List.mem_filterMap.mpr
  refine ⟨queued, hmem, ?_⟩
  rw [hfunctor]
  rfl

theorem lt_of_issued {i : Issued} (h : Inv s) (hi : i ∈ s.issued) : i.number < s.names.length := by
  apply h.numbers_lt
  apply List.mem_append_right
  apply List.mem_append_right
  apply List.mem_map_of_mem hi

end Name

end Inv

structure Names (s s' : State) (a : Addr) (t : Timer) : Prop where
  fresh : s.queue.heap a = none
  heap : s'.queue.heap = Function.update s.queue.heap a (some t)
  sequence : t.sequence = s.queue.numCreated.toInt
  names : s'.names = (s.name a).names
  born : s'.born = (s.name a).born
  loop : s'.loop = s.loop
  creating : ∀ call ∈ s'.creating, call ∈ s.creating
    ∨ call.timer = a ∧ call.number = s.names.length
  reading : s'.reading = s.reading
  issued : ∀ i, i ∈ s.issued → i ∈ s'.issued
  new : ∀ i ∈ s'.issued, i ∈ s.issued ∨ i = ⟨⟨a, t.sequence⟩, s.names.length⟩
  numbers : s'.numbers.Perm (s.names.length :: s.numbers)

namespace Names

variable {s s' : State} {a : Addr} {t : Timer}

theorem born_of_ne (hn : Names s s' a t) {b : Addr} (hb : b ≠ a) : s'.born b = s.born b := by
  rw [hn.born]
  apply Function.update_of_ne hb

theorem born_self (hn : Names s s' a t) : s'.born a = s.names.length := by
  rw [hn.born]
  apply Function.update_self

theorem heap_of_ne (hn : Names s s' a t) {b : Addr} (hb : b ≠ a)
    : s'.queue.heap b = s.queue.heap b := by
  rw [hn.heap]
  apply Function.update_of_ne hb

theorem heap_self (hn : Names s s' a t) : s'.queue.heap a = some t := by
  rw [hn.heap]
  apply Function.update_self

theorem getElem?_names (hn : Names s s' a t) {number : Nat} {timerId : TimerId}
    (h : s.names[number]? = some timerId)
    : s'.names[number]? = some timerId := by
  rw [hn.names]
  simp only [State.name]
  rw [List.getElem?_append_left (List.getElem?_eq_some_iff.mp h).1]
  exact h

theorem getElem?_names_self (hn : Names s s' a t)
    : s'.names[s'.born a]? = some ⟨a, t.sequence⟩ := by
  rw [hn.names, hn.born, hn.sequence]
  simp [State.name]

theorem named (hn : Names s s' a t) {number : Nat} {timer : Addr} (h : s.Named number timer)
    : s'.Named number timer := by
  rcases h with ⟨sequence, hname⟩
  exact ⟨sequence, hn.getElem?_names hname⟩

theorem ne_of_pending (hn : Names s s' a t) (h : Inv s) {b : Addr} (hb : b ∈ s.pending) : b ≠ a := by
  intro heq
  rcases h.queue.batch_live b (List.mem_append_right _ hb) with ⟨u, hu⟩
  rw [heq, hn.fresh] at hu
  contradiction

theorem inv_named (hn : Names s s' a t) (h : Inv s) {b : Addr} {u : Timer}
    (hu : s'.queue.heap b = some u)
    : s'.names[s'.born b]? = some ⟨b, u.sequence⟩ := by
  by_cases hb : b = a
  . rw [hb] at hu ⊢
    rw [hn.heap_self, Option.some.injEq] at hu
    rw [← hu]
    apply hn.getElem?_names_self
  . rw [hn.heap_of_ne hb] at hu
    rw [hn.born_of_ne hb]
    apply hn.getElem?_names (h.named b u hu)

theorem inv_creating (hn : Names s s' a t) (h : Inv s) {call : AddCall} (hmem : call ∈ s'.creating)
    : s'.born call.timer = call.number := by
  rcases hn.creating call hmem with hmem | ⟨htimer, hnumber⟩
  . have hpending : call.timer ∈ s.pending := by
      apply List.mem_append_left
      apply List.mem_map_of_mem hmem
    rw [hn.born_of_ne (hn.ne_of_pending h hpending)]
    apply h.creating call hmem
  . rw [htimer, hnumber]
    apply hn.born_self

theorem inv_issued (hn : Names s s' a t) (h : Inv s) {i : Issued} (hi : i ∈ s'.issued)
    : s'.Named i.number i.timerId.timer := by
  rcases hn.new i hi with hi | hi
  . apply hn.named (h.issued i hi)
  . rw [hi, ← hn.born_self]
    exact ⟨t.sequence, hn.getElem?_names_self⟩

theorem inv_sequence (hn : Names s s' a t) (h : Inv s) {i : Issued} (hi : i ∈ s'.issued)
    {u : Timer} (hu : s'.queue.heap i.timerId.timer = some u)
    (hnumber : s'.born i.timerId.timer = i.number)
    : u.sequence = i.timerId.sequence := by
  rcases hn.new i hi with hi | hi
  . by_cases htimer : i.timerId.timer = a
    . -- the new timer is not the one that the id was returned for
      have hlt := h.lt_of_issued hi
      rw [htimer, hn.born_self] at hnumber
      omega
    . rw [hn.heap_of_ne htimer] at hu
      rw [hn.born_of_ne htimer] at hnumber
      apply h.sequence i hi u hu hnumber
  . rw [hi] at hu ⊢
    rw [hn.heap_self, Option.some.injEq] at hu
    rw [hu]

theorem inv_handedOver (hn : Names s s' a t) (h : Inv s) {queued : Queued Functor}
    (hmem : queued ∈ s'.loop.waiting) {timer : Addr} {number : Nat}
    (hfunctor : queued.functor = .addTimerInLoop timer number)
    : s'.born timer = number := by
  rw [hn.loop] at hmem
  have hpending := Inv.mem_pending_of_waiting hmem hfunctor
  rw [hn.born_of_ne (hn.ne_of_pending h hpending)]
  apply h.handedOver queued hmem timer number hfunctor

theorem inv_numbers_lt (hn : Names s s' a t) (h : Inv s) {k : Nat} (hk : k ∈ s'.numbers)
    : k < s'.names.length := by
  have hlength : s'.names.length = s.names.length + 1 := by
    rw [hn.names]
    simp [State.name]
  rw [hlength]
  rcases List.mem_cons.mp (hn.numbers.mem_iff.mp hk) with heq | hk
  . omega
  . have := h.numbers_lt k hk
    omega

end Names

namespace Inv

variable {s s' : State}

section Name

variable {a : Addr} {t : Timer}

theorem name (h : Inv s) (hn : Names s s' a t)
    (hqueue : s'.queue.Inv (s'.timers.batchTimers ++ s'.pending))
    (hcalling : s'.queue.callingExpiredTimers = s'.batch.isSome)
    : Inv s' where
  queue := hqueue
  calling := hcalling
  named := fun _ _ => hn.inv_named h
  creating := fun _ => hn.inv_creating h
  reading := by
    intro call hmem
    rw [hn.reading] at hmem
    apply hn.named (h.reading call hmem)
  issued := fun _ => hn.inv_issued h
  sequence := fun _ hi _ => hn.inv_sequence h hi
  handedOver := fun _ hmem _ _ => hn.inv_handedOver h hmem
  cancels := by
    intro queued hmem i hi
    rw [hn.loop] at hmem
    apply hn.issued i (h.cancels queued hmem i hi)
  order := by
    rw [hn.loop]
    apply h.order
  numbers_nodup := by
    rw [hn.numbers.nodup_iff, List.nodup_cons]
    refine ⟨?_, h.numbers_nodup⟩
    intro hmem
    apply Nat.lt_irrefl _ (h.numbers_lt _ hmem)
  numbers_lt := fun _ => hn.inv_numbers_lt h

theorem newTimer (h : Inv s) (hfresh : s.queue.fresh a = true) (n : Nat) (when : Timestamp)
    (interval : TimerInterval)
    : Inv (s.newTimer n a when interval) := by
  have hnames : Names s (s.newTimer n a when interval) a
      (Timer.new s.queue.numCreated when interval) := by
    refine ⟨heap_of_fresh hfresh, rfl, rfl, rfl, rfl, rfl, ?_, rfl, fun _ => id, fun _ => Or.inl, ?_⟩
    . intro call hmem
      rcases List.mem_cons.mp hmem with heq | hmem
      . right
        rw [heq]
        exact ⟨rfl, rfl⟩
      . left
        exact hmem
    . apply List.Perm.refl
  apply h.name hnames _ h.calling
  apply (h.queue.newTimer hfresh when interval).perm
  apply List.perm_middle.symm

theorem addTimer {when : Timestamp} {interval : TimerInterval} {clock : Timestamp}
    {queue : TimerQueue} (h : Inv s) (hfresh : s.queue.fresh a = true)
    (hadd : (s.queue.newTimer a when interval).addTimerInLoop a clock = .ok queue)
    (hderef : queue.deref a = .ok t)
    : Inv { s.name a with queue, issued := ⟨⟨a, t.sequence⟩, s.names.length⟩ :: s.issued } := by
  have hnew := h.queue.newTimer hfresh when interval
  have hinv := inv_addTimerInLoop hnew hadd
  rcases heap_addTimerInLoop hnew hadd with ⟨hheap, hcalling, -⟩
  have ht : t = Timer.new s.queue.numCreated when interval := by
    have hlive : queue.heap a = some (Timer.new s.queue.numCreated when interval) := by
      rw [hheap]
      exact setTimer_heap_self _ _ _
    rw [deref_eq hlive, Except.ok.injEq] at hderef
    exact hderef.symm
  have hnames : Names s
      { s.name a with queue, issued := ⟨⟨a, t.sequence⟩, s.names.length⟩ :: s.issued } a t := by
    refine ⟨heap_of_fresh hfresh, ?_, ?_, rfl, rfl, rfl, fun _ => Or.inl, rfl, ?_, ?_, ?_⟩
    . rw [ht]
      apply hheap
    . rw [ht]
      rfl
    . intro i hi
      apply List.mem_cons_of_mem _ hi
    . intro i hi
      apply (List.mem_cons.mp hi).symm
    . unfold State.numbers
      dsimp only [State.name]
      rw [List.map_cons]
      apply (List.Perm.append_left _ List.perm_middle).trans
      apply List.perm_middle
  apply h.name hnames hinv (hcalling.trans h.calling)

end Name

theorem cancelInLoop {i : Issued} {queue : TimerQueue} (h : Inv s)
    (hcancel : s.queue.cancelInLoop i.timerId = .ok queue)
    : Inv { s with queue, cancelled := i.number :: s.cancelled } := by
  have hinv := inv_cancelInLoop h.queue hcancel
  have hcalling := callingExpiredTimers_cancelInLoop h.queue hcancel
  have hold := old_cancelInLoop h.queue hcancel
  exact setQueue h hinv (hcalling.trans h.calling) hold (List.Sublist.refl _) rfl rfl rfl rfl rfl

section Loop

variable {loop : EventLoop.State Functor} {queued : Queued Functor}

theorem pending_of_add {caller : Caller} {timer : Addr} {number : Nat}
    (hwaiting : s.loop.waiting = ⟨caller, .addTimerInLoop timer number⟩ :: loop.waiting)
    : s.pending.Perm (timer :: State.pending { s with loop }) := by
  unfold State.pending State.handedOver
  dsimp only
  rw [hwaiting]
  exact List.perm_middle

theorem pending_of_not_add (hwaiting : s.loop.waiting = queued :: loop.waiting)
    (hfunctor : queued.functor.adds = none)
    : State.pending { s with loop } = s.pending := by
  unfold State.pending State.handedOver
  dsimp only
  rw [hwaiting, List.filterMap_cons, hfunctor]

theorem setLoop (h : Inv s) (hwaiting : loop.waiting = s.loop.waiting) : Inv { s with loop } := by
  have hpending : State.pending { s with loop } = s.pending := by
    unfold State.pending State.handedOver
    rw [← hwaiting]
  refine setQueue h ?_ h.calling (Old.of_heap_eq rfl) ?_ rfl rfl rfl rfl rfl
  . rw [hpending]
    exact h.queue
  . rw [← hwaiting]

theorem pop (h : Inv s) (hwaiting : s.loop.waiting = queued :: loop.waiting)
    (hfunctor : queued.functor.adds = none)
    : Inv { s with loop } := by
  have hqueue : s.queue.Inv (s.timers.batchTimers ++ State.pending { s with loop }) := by
    rw [pending_of_not_add hwaiting hfunctor]
    exact h.queue
  refine setQueue h hqueue h.calling (Old.of_heap_eq rfl) ?_ rfl rfl rfl rfl rfl
  dsimp only
  rw [hwaiting]
  exact List.sublist_cons_self _ _

theorem queue_of_add {caller : Caller} {timer : Addr} {number : Nat} (h : Inv s)
    (hwaiting : s.loop.waiting = ⟨caller, .addTimerInLoop timer number⟩ :: loop.waiting)
    : s.queue.Inv (timer :: (s.timers.batchTimers ++ State.pending { s with loop })) := by
  apply h.queue.perm
  apply (List.Perm.append_left _ (pending_of_add hwaiting)).trans
  exact List.perm_middle

theorem insertQueued {caller : Caller} {timer : Addr} {number : Nat} {clock : Timestamp}
    {queue : TimerQueue} (h : Inv s)
    (hwaiting : s.loop.waiting = ⟨caller, .addTimerInLoop timer number⟩ :: loop.waiting)
    (hadd : s.queue.addTimerInLoop timer clock = .ok queue)
    : Inv { s with queue, loop } := by
  have hinv := h.queue_of_add hwaiting
  rcases heap_addTimerInLoop hinv hadd with ⟨hheap, hcalling, -⟩
  refine setQueue h (inv_addTimerInLoop hinv hadd) (hcalling.trans h.calling)
    (Old.of_heap_eq hheap) ?_ rfl rfl rfl rfl rfl
  dsimp only
  rw [hwaiting]
  exact List.sublist_cons_self _ _

end Loop

theorem call {event : EventLoop.Event Functor} {loop : EventLoop.State Functor} (h : Inv s)
    (hother : isOther event = true) (hloop : EventLoop.step s.loop event = some loop)
    : Inv { s with loop } := by
  rcases (EventLoop.Step.of_step hloop).waiting_eq with hwaiting | ⟨queued, hpush, hwaiting⟩ |
    ⟨active, heq, -⟩
  . exact h.setLoop hwaiting
  . have hfunctor : queued.functor = .other := by
      cases event with
      | queueInLoop caller functor =>
        cases hpush
        exact of_decide_eq_true hother
      | runInLoop caller functor =>
        cases hpush
        exact of_decide_eq_true hother
      | queueReturn caller => contradiction
      | quit caller => contradiction
      | quitReturn caller => contradiction
      | loop active => contradiction
    apply h.push hwaiting
    . rw [hfunctor]
      rfl
    . intro i hi
      rw [hfunctor] at hi
      contradiction
  . rw [heq] at hother
    contradiction

theorem old_timer {event : TimerQueue.Event} {timers : TimerQueue.State} (h : Inv s)
    (htimer : isTimer s event = true)
    (hstep : TimerQueue.step s.timers event = some (.ok timers))
    : timers.queue.callingExpiredTimers = timers.batch.isSome ∧ Old s.queue timers.queue := by
  cases TimerQueue.Step.of_step hstep with
  | add hfresh hadd => contradiction
  | cancel hcancel => contradiction
  | created => exact ⟨h.calling, Old.of_heap_eq rfl⟩
  | fire harmed => exact ⟨h.calling, Old.of_heap_eq rfl⟩
  | handleRead hb hbegin =>
    rcases handleReadBegin_spec h.queue _ with ⟨active, heq, -⟩
    have hbegin := heq.symm.trans hbegin
    cases hbegin
    exact ⟨rfl, Old.of_heap_eq rfl⟩
  | callback hb he hderef =>
    refine ⟨h.calling.trans ?_, Old.of_heap_eq rfl⟩
    change s.batch = _ at hb
    rw [hb]
    rfl
  | @handleReadEnd clock b queue hb hran hend =>
    have hqueue := h.queue
    simp only [State.timers, TimerQueue.State.batchTimers] at hqueue hb
    rw [hb] at hqueue
    rcases handleReadEnd_spec hqueue b.now clock with ⟨q', heq, -, hsettles⟩
    have hend := heq.symm.trans hend
    cases hend
    refine ⟨hsettles.calling, ?_⟩
    intro a t' ht'
    rcases hsettles.old a t' ht' with ⟨t, ht, hseq, -, -⟩
    exact ⟨t, ht, hseq⟩

theorem timer {event : TimerQueue.Event} {timers : TimerQueue.State} (h : Inv s)
    (htimer : isTimer s event = true)
    (hstep : TimerQueue.step s.timers event = some (.ok timers))
    : Inv (record s timers event) := by
  have hinv : timers.queue.Inv (timers.batchTimers ++ s.pending) := by
    rcases step_inv_append h.queue hstep with ⟨timers', heq, hinv⟩
    cases heq
    exact hinv
  have hcalling := h.old_timer htimer hstep
  have hset : ∀ s', s'.queue = timers.queue → s'.batch = timers.batch → s'.loop = s.loop →
      s'.creating = s.creating → s'.reading = s.reading → s'.issued = s.issued →
      s'.names = s.names → s'.born = s.born → Inv s' := by
    intro s' hqueue hbatch hloop hcreating hreading hissued hnames hborn
    refine setQueue h ?_ ?_ ?_ ?_ hcreating hreading hissued hnames hborn
    . have hpending : s'.pending = s.pending := by
        unfold State.pending State.handedOver
        rw [hcreating, hloop]
      have htimers : s'.timers = timers := by
        unfold State.timers
        rw [hqueue, hbatch]
      rw [hpending, htimers, hqueue]
      exact hinv
    . rw [hqueue, hbatch]
      exact hcalling.1
    . rw [hqueue]
      exact hcalling.2
    . rw [hloop]
  cases event with
  | add timer when interval clock => contradiction
  | cancel timerId => contradiction
  | created => exact hset _ rfl rfl rfl rfl rfl rfl rfl rfl
  | fire => exact hset _ rfl rfl rfl rfl rfl rfl rfl rfl
  | handleRead now => exact hset _ rfl rfl rfl rfl rfl rfl rfl rfl
  | callback => exact hset _ rfl rfl rfl rfl rfl rfl rfl rfl
  | handleReadEnd clock => exact hset _ rfl rfl rfl rfl rfl rfl rfl rfl

theorem step {e : Event} (h : Inv s) (hstep : Step s e s') : Inv s' := by
  cases hstep with
  | newTimer hcall hfresh => apply h.newTimer hfresh
  | runInLoop hfind hloop =>
    apply h.handOver (List.mem_of_find?_eq_some hfind)
    exact EventLoop.waiting_of_runInLoop hloop
  | readSequence hfind => apply h.readSequence (List.mem_of_find?_eq_some hfind)
  | addTimer hfresh hadd hderef => exact h.addTimer hfresh hadd hderef
  | cancelDirectly hissued hcancel => exact h.cancelInLoop hcancel
  | @cancel n index i loop hissued hloop =>
    apply h.push (EventLoop.waiting_of_runInLoop hloop) rfl
    intro i' hi
    cases hi
    exact List.mem_of_getElem? hissued
  | call hother hloop => exact h.call hother hloop
  | loop hbatch hwaiting =>
    rcases hwaiting with hwaiting | ⟨queued, hfunctor, hwaiting⟩
    . exact h.setLoop hwaiting.symm
    . apply h.pop hwaiting
      rw [hfunctor]
      rfl
  | insertQueued hbatch hwaiting hadd => exact h.insertQueued hwaiting hadd
  | cancelQueued hbatch hstart hwaiting hcancel => exact (h.pop hwaiting rfl).cancelInLoop hcancel
  | timer htimer hstep => exact h.timer htimer hstep

theorem born_record (s : State) (timers : TimerQueue.State) (event : TimerQueue.Event)
    : (record s timers event).born = s.born ∧ (record s timers event).queue = timers.queue := by
  cases event with
  | add timer when interval clock => exact ⟨rfl, rfl⟩
  | cancel timerId => exact ⟨rfl, rfl⟩
  | created => exact ⟨rfl, rfl⟩
  | fire => exact ⟨rfl, rfl⟩
  | handleRead now => exact ⟨rfl, rfl⟩
  | callback => exact ⟨rfl, rfl⟩
  | handleReadEnd clock => exact ⟨rfl, rfl⟩

theorem live_before {e : Event} (h : Inv s) (hstep : Step s e s') {k : Nat}
    (hk : k < s.names.length) {a : Addr} {t' : Timer} (ht' : s'.queue.heap a = some t')
    (hborn : s'.born a = k)
    : ∃ t, s.queue.heap a = some t ∧ t'.sequence = t.sequence ∧ s.born a = k := by
  have hold : Old s.queue s'.queue → s'.born = s.born →
      ∃ t, s.queue.heap a = some t ∧ t'.sequence = t.sequence ∧ s.born a = k := by
    intro hold hsame
    rcases hold a t' ht' with ⟨t, ht, hseq⟩
    rw [hsame] at hborn
    exact ⟨t, ht, hseq, hborn⟩
  have hname : ∀ timer t, s'.queue.heap = Function.update s.queue.heap timer t →
      s'.born = (s.name timer).born →
      ∃ t, s.queue.heap a = some t ∧ t'.sequence = t.sequence ∧ s.born a = k := by
    intro timer t hheap hsame
    rw [hsame] at hborn
    by_cases ha : a = timer
    . rw [ha] at hborn
      have hlength : (s.name timer).born timer = s.names.length := Function.update_self _ _ _
      omega
    . rw [hheap, Function.update_of_ne ha] at ht'
      have hsame : (s.name timer).born a = s.born a := Function.update_of_ne ha _ _
      exact ⟨t', ht', rfl, hsame.symm.trans hborn⟩
  cases hstep with
  | newTimer hcall hfresh => exact hname _ _ rfl rfl
  | runInLoop hfind hloop => exact hold (Old.of_heap_eq rfl) rfl
  | readSequence hfind => exact hold (Old.of_heap_eq rfl) rfl
  | @addTimer timer when interval clock queue t hfresh hadd hderef =>
    exact hname timer _ (heap_addTimerInLoop (h.queue.newTimer hfresh when interval) hadd).1 rfl
  | cancelDirectly hissued hcancel => exact hold (old_cancelInLoop h.queue hcancel) rfl
  | cancel hissued hloop => exact hold (Old.of_heap_eq rfl) rfl
  | call hother hloop => exact hold (Old.of_heap_eq rfl) rfl
  | loop hbatch hwaiting => exact hold (Old.of_heap_eq rfl) rfl
  | insertQueued hbatch hwaiting hadd =>
    exact hold (Old.of_heap_eq (heap_addTimerInLoop (h.queue_of_add hwaiting) hadd).1) rfl
  | cancelQueued hbatch hstart hwaiting hcancel => exact hold (old_cancelInLoop h.queue hcancel) rfl
  | @timer event timers htimer hstep =>
    have hrecord := born_record s timers event
    apply hold
    . rw [hrecord.2]
      exact (h.old_timer htimer hstep).2
    . exact hrecord.1

theorem runNext_ok {active : Bool} {loop : EventLoop.State Functor} (h : Inv s)
    (hloop : EventLoop.step s.loop (.loop active) = some loop) (clock : Timestamp)
    : ∃ s', s.runNext clock = .ok s' := by
  have hwaiting := EventLoop.waiting_of_loop hloop
  unfold State.runNext
  split
  . next queued hstart =>
    rw [hstart] at hwaiting
    rcases queued with ⟨caller, functor⟩
    cases functor with
    | addTimerInLoop timer number =>
      rcases addTimerInLoop_spec (h.queue_of_add hwaiting) clock with ⟨queue, heq, -⟩
      simp only [State.runFunctor]
      rw [heq]
      exact ⟨_, rfl⟩
    | cancelInLoop i =>
      rcases cancelInLoop_spec h.queue i.timerId with ⟨queue, heq, -⟩
      simp only [State.runFunctor, State.cancelInLoop]
      rw [heq]
      exact ⟨_, rfl⟩
    | other => exact ⟨s, rfl⟩
  . exact ⟨s, rfl⟩

theorem step_ok {e : Event} {r : Except Fault State} (h : Inv s)
    (hstep : Threads.step s e = some r)
    : ∃ s', r = .ok s' := by
  cases e with
  | newTimer n timer when interval =>
    simp only [Threads.step] at hstep
    split at hstep
    . cases hstep
      exact ⟨_, rfl⟩
    . simp at hstep
  | runInLoop n =>
    simp only [Threads.step, Option.bind_eq_bind, Option.bind_eq_some_iff] at hstep
    rcases hstep with ⟨call, -, s', -, hr⟩
    cases hr
    exact ⟨s', rfl⟩
  | readSequence n garbage =>
    simp only [Threads.step, Option.bind_eq_bind, Option.bind_eq_some_iff] at hstep
    rcases hstep with ⟨call, -, hstep⟩
    split at hstep
    . cases hstep
      exact ⟨_, rfl⟩
    . simp at hstep
  | addTimer timer when interval clock =>
    simp only [Threads.step] at hstep
    split at hstep
    . next hcond =>
      rw [Bool.and_eq_true] at hcond
      have hnew := h.queue.newTimer hcond.2 when interval
      rcases addTimerInLoop_spec hnew clock with ⟨queue, heq, -⟩
      have hlive : queue.heap timer = some (Timer.new s.queue.numCreated when interval) := by
        rw [(heap_addTimerInLoop hnew heq).1]
        exact setTimer_heap_self _ _ _
      rw [State.addTimer, heq, ok_bind, deref_eq hlive] at hstep
      cases hstep
      exact ⟨_, rfl⟩
    . simp at hstep
  | cancel caller index =>
    simp only [Threads.step, Option.bind_eq_bind, Option.bind_eq_some_iff] at hstep
    rcases hstep with ⟨i, -, hstep⟩
    cases caller with
    | owner =>
      simp only at hstep
      split at hstep
      . rcases cancelInLoop_spec h.queue i.timerId with ⟨queue, heq, -⟩
        rw [State.cancelInLoop, heq] at hstep
        cases hstep
        exact ⟨_, rfl⟩
      . simp at hstep
    | other n =>
      simp only at hstep
      split at hstep
      . rw [Option.bind_eq_some_iff] at hstep
        rcases hstep with ⟨loop, -, hr⟩
        cases hr
        exact ⟨_, rfl⟩
      . simp at hstep
  | call event =>
    simp only [Threads.step] at hstep
    split at hstep
    . rw [Option.bind_eq_bind, Option.bind_eq_some_iff] at hstep
      rcases hstep with ⟨loop, -, hr⟩
      cases hr
      exact ⟨_, rfl⟩
    . simp at hstep
  | loop active clock =>
    simp only [Threads.step] at hstep
    split at hstep
    . rw [Option.bind_eq_bind, Option.bind_eq_some_iff] at hstep
      rcases hstep with ⟨loop, hloop, hr⟩
      rcases h.runNext_ok hloop clock with ⟨s', hrun⟩
      rw [hrun] at hr
      cases hr
      exact ⟨_, rfl⟩
    . simp at hstep
  | timer event =>
    simp only [Threads.step] at hstep
    split at hstep
    . rw [Option.bind_eq_bind, Option.bind_eq_some_iff] at hstep
      rcases hstep with ⟨r', hstep, hr⟩
      rcases step_inv_append h.queue hstep with ⟨timers, heq, -⟩
      rw [heq] at hr
      cases hr
      exact ⟨_, rfl⟩
    . simp at hstep

end Inv

def condition (cond : State → Event → Bool) (r : Except Fault State) (e : Event) : Bool :=
  match r with
  | .ok s => cond s e
  | .error _ => true

def systemWith (cond : State → Event → Bool) : LTS (Except Fault State) Event :=
  system.restrict fun r e => condition cond r e = true

theorem reachable_inv {cond : State → Event → Bool} {P : State → Prop}
    (hstart : ∀ numCreated, P (.start numCreated))
    (hstep : ∀ s e s', Inv s → P s → cond s e = true → Step s e s' → P s')
    {r : Except Fault State} (h : (systemWith cond).Reachable r)
    : ∃ s, r = .ok s ∧ Inv s ∧ P s := by
  apply LTS.Reachable.invariant (systemWith cond) _ _ h
  . rintro r ⟨numCreated, rfl⟩
    exact ⟨_, rfl, Inv.start numCreated, hstart numCreated⟩
  . rintro r e r' ⟨s, rfl, hinv, hp⟩ hnext
    rcases (LTS.restrict_next_eq_some system).mp hnext with ⟨hcond, hnext⟩
    rcases hinv.step_ok hnext with ⟨s', rfl⟩
    have hs := Step.of_step hnext
    exact ⟨s', rfl, hinv.step hs, hstep s e s' hinv hp hcond hs⟩

end Threads

end TimerQueue
