import Mmuduo.TimerQueue.Numbers

namespace TimerQueue

namespace Threads

def Functor.inserts (functor : Functor) (number : Nat) : Bool :=
  match functor with
  | .addTimerInLoop _ number' => number' == number
  | _ => false

/--
The loop thread cancels no timer whose insertion is still queued.
-/
def cancelsInserted (s : State) : Event → Bool
  | .cancel .owner index =>
    match s.issued[index]? with
    | some i => s.loop.waiting.all fun queued => !queued.functor.inserts i.number
    | none => true
  | _ => true

structure Cancels (s : State) : Prop where
  number_lt : ∀ k ∈ s.cancelled, k < s.names.length
  before : ∀ k ∈ s.cancelledBefore, k ∈ s.cancelled
  marked : ∀ k ∈ s.cancelled, ∀ a t, s.queue.heap a = some t → s.born a = k →
    a ∈ s.timers.batchTimers ∧ ActiveTimer.mk a t.sequence ∈ s.queue.cancelingTimers
  dead : ∀ k ∈ s.cancelledBefore, ∀ a t, s.queue.heap a = some t → s.born a ≠ k
  ran : ∀ ran ∈ s.ran, ran.number ∉ ran.cancelled

theorem cancelingTimers_cancelInLoop {q q' : TimerQueue} {batch : List Addr} {timerId : TimerId}
    (h : q.Inv batch) (hcancel : q.cancelInLoop timerId = .ok q')
    : ∀ x ∈ q.cancelingTimers, x ∈ q'.cancelingTimers := by
  intro x hx
  by_cases hid : ActiveTimer.mk timerId.timer timerId.sequence ∈ q.activeTimers
  . rcases cancelInLoop_of_active h hid with ⟨t, ht, -, -, heq⟩
    rw [heq, Except.ok.injEq] at hcancel
    rw [← hcancel]
    exact hx
  . rw [cancelInLoop_inactive h hid, Except.ok.injEq] at hcancel
    rw [← hcancel]
    split
    . exact OrdSet.mem_insert_of_mem hx _
    . exact hx

theorem marks_cancelInLoop {q q' : TimerQueue} {batch : List Addr} {timerId : TimerId}
    (h : q.Inv batch) (hcalling : q.callingExpiredTimers = true)
    (hid : ActiveTimer.mk timerId.timer timerId.sequence ∉ q.activeTimers)
    (hcancel : q.cancelInLoop timerId = .ok q')
    : ActiveTimer.mk timerId.timer timerId.sequence ∈ q'.cancelingTimers := by
  rw [cancelInLoop_inactive h hid, if_pos hcalling, Except.ok.injEq] at hcancel
  rw [← hcancel]
  exact OrdSet.mem_insert_self _ _

namespace Inv

variable {s s' : State}

theorem timerId_eq {i : Issued} {a : Addr} {t : Timer} (h : Inv s) (hi : i ∈ s.issued)
    (ht : s.queue.heap a = some t) (hborn : s.born a = i.number)
    : i.timerId = ⟨a, t.sequence⟩ := by
  have hname := h.named a t ht
  rcases h.issued i hi with ⟨sequence, hissued⟩
  rw [hborn, hissued, Option.some.injEq, TimerId.mk.injEq] at hname
  have htimer : i.timerId.timer = a := hname.1
  rw [← htimer] at ht hborn ⊢
  rw [h.sequence i hi t ht hborn]

theorem notMem_pending {i : Issued} {a : Addr} (h : Inv s) (hi : i ∈ s.issued)
    (hborn : s.born a = i.number)
    (hinserted : ∀ queued ∈ s.loop.waiting, queued.functor.inserts i.number = false)
    : a ∉ s.pending := by
  intro ha
  rcases List.mem_append.mp ha with ha | ha
  . rcases List.mem_map.mp ha with ⟨call, hcall, rfl⟩
    have hnumber := h.creating call hcall
    have hdisjoint := (List.nodup_append'.mp h.numbers_nodup).2.2
    apply hdisjoint (List.mem_map_of_mem hcall)
    apply List.mem_append_right
    rw [← hnumber, hborn]
    exact List.mem_map_of_mem hi
  . rcases List.mem_filterMap.mp ha with ⟨queued, hqueued, hadds⟩
    have hnot := hinserted queued hqueued
    unfold Functor.adds at hadds
    split at hadds
    . next timer number hfunctor =>
      cases hadds
      rw [hfunctor] at hnot
      have hnumber := h.handedOver queued hqueued a number hfunctor
      rw [hborn] at hnumber
      simp [Functor.inserts, hnumber] at hnot
    . contradiction

theorem marked_of_cancelInLoop {i : Issued} {queue : TimerQueue} (h : Inv s) (hi : i ∈ s.issued)
    (hinserted : ∀ queued ∈ s.loop.waiting, queued.functor.inserts i.number = false)
    (hcancel : s.queue.cancelInLoop i.timerId = .ok queue) {a : Addr} {t' : Timer}
    (ht' : queue.heap a = some t') (hborn : s.born a = i.number)
    : a ∈ s.timers.batchTimers ∧ ActiveTimer.mk a t'.sequence ∈ queue.cancelingTimers := by
  rcases old_cancelInLoop h.queue hcancel a t' ht' with ⟨t, ht, hseq⟩
  have htimerId := h.timerId_eq hi ht hborn
  rw [htimerId] at hcancel
  have hid : ActiveTimer.mk a t.sequence ∉ s.queue.activeTimers := by
    intro hactive
    rw [cancelInLoop_active h.queue ht hactive, Except.ok.injEq] at hcancel
    rw [← hcancel, setTimer_heap_self] at ht'
    contradiction
  have hmem : a ∈ s.timers.batchTimers := by
    have hbatch := (not_congr (h.queue.owned a t ht)).mp hid
    rw [not_not] at hbatch
    exact (List.mem_append.mp hbatch).resolve_right (h.notMem_pending hi hborn hinserted)
  have hcalling : s.queue.callingExpiredTimers = true := by
    rw [h.calling]
    cases hb : s.batch with
    | none => simp [State.timers, TimerQueue.State.batchTimers, hb] at hmem
    | some b => rfl
  rw [hseq]
  exact ⟨hmem, marks_cancelInLoop h.queue hcalling hid hcancel⟩

end Inv

namespace Cancels

variable {s s' : State}

theorem start (numCreated : Int32) : Cancels (.start numCreated) := by
  constructor
  . simp [State.start]
  . simp [State.start]
  . simp [State.start]
  . simp [State.start]
  . simp [State.start]

theorem marked_keep {e : Event} (h : Cancels s) (hinv : Inv s) (hstep : Step s e s')
    (hbatch : s'.timers.batchTimers = s.timers.batchTimers)
    (hcanceling : ∀ x ∈ s.queue.cancelingTimers, x ∈ s'.queue.cancelingTimers)
    : ∀ k ∈ s.cancelled, ∀ a t, s'.queue.heap a = some t → s'.born a = k →
      a ∈ s'.timers.batchTimers ∧ ActiveTimer.mk a t.sequence ∈ s'.queue.cancelingTimers := by
  intro k hk a t' ht' hborn
  rcases hinv.live_before hstep (h.number_lt k hk) ht' hborn with ⟨t, ht, hseq, hborn⟩
  have hmarked := h.marked k hk a t ht hborn
  rw [hbatch, hseq]
  exact ⟨hmarked.1, hcanceling _ hmarked.2⟩

theorem dead_keep {e : Event} (h : Cancels s) (hinv : Inv s) (hstep : Step s e s')
    : ∀ k ∈ s.cancelledBefore, ∀ a t, s'.queue.heap a = some t → s'.born a ≠ k := by
  intro k hk a t' ht' hborn
  have hlt := h.number_lt k (h.before k hk)
  rcases hinv.live_before hstep hlt ht' hborn with ⟨t, ht, -, hborn⟩
  exact h.dead k hk a t ht hborn

theorem keep {e : Event} (h : Cancels s) (hinv : Inv s) (hstep : Step s e s')
    (hnames : s.names.length ≤ s'.names.length) (hcancelled : s'.cancelled = s.cancelled)
    (hbefore : s'.cancelledBefore = s.cancelledBefore) (hran : s'.ran = s.ran)
    (hbatch : s'.batch = s.batch)
    (hcanceling : s'.queue.cancelingTimers = s.queue.cancelingTimers)
    : Cancels s' where
  number_lt := by
    intro k hk
    rw [hcancelled] at hk
    exact Nat.lt_of_lt_of_le (h.number_lt k hk) hnames
  before := by
    rw [hbefore, hcancelled]
    exact h.before
  marked := by
    rw [hcancelled]
    apply h.marked_keep hinv hstep
    . unfold State.timers TimerQueue.State.batchTimers
      rw [hbatch]
    . intro x hx
      rw [hcanceling]
      exact hx
  dead := by
    rw [hbefore]
    exact h.dead_keep hinv hstep
  ran := by
    rw [hran]
    exact h.ran

theorem cancelInLoop {e : Event} {i : Issued} {queue : TimerQueue} {loop : EventLoop.State Functor}
    (h : Cancels s) (hinv : Inv s)
    (hstep : Step s e { s with queue, loop, cancelled := i.number :: s.cancelled })
    (hi : i ∈ s.issued)
    (hinserted : ∀ queued ∈ s.loop.waiting, queued.functor.inserts i.number = false)
    (hcancel : s.queue.cancelInLoop i.timerId = .ok queue)
    : Cancels { s with queue, loop, cancelled := i.number :: s.cancelled } where
  number_lt := by
    intro k hk
    rcases List.mem_cons.mp hk with heq | hk
    . rw [heq]
      apply hinv.lt_of_issued hi
    . exact h.number_lt k hk
  before := by
    intro k hk
    exact List.mem_cons_of_mem _ (h.before k hk)
  marked := by
    intro k hk a t ht hborn
    rcases List.mem_cons.mp hk with heq | hk
    . rw [heq] at hborn
      exact hinv.marked_of_cancelInLoop hi hinserted hcancel ht hborn
    . have hcanceling := cancelingTimers_cancelInLoop hinv.queue hcancel
      exact h.marked_keep hinv hstep rfl hcanceling k hk a t ht hborn
  dead := h.dead_keep hinv hstep
  ran := h.ran

theorem handleRead {now : Timestamp} {expired : List Entry} {queue : TimerQueue} (h : Cancels s)
    (hinv : Inv s) (hb : s.batch = none) (hbegin : s.queue.handleReadBegin now = .ok (expired, queue))
    : Cancels { s with
        queue
        batch := some { now, expired, ran := 0 }
        cancelledBefore := s.cancelled } := by
  rcases handleReadBegin_spec hinv.queue now with ⟨active, heq, -⟩
  have hdead : ∀ k ∈ s.cancelled, ∀ a t, s.queue.heap a = some t → s.born a ≠ k := by
    intro k hk a t ht hborn
    have hmem := (h.marked k hk a t ht hborn).1
    simp [State.timers, TimerQueue.State.batchTimers, hb] at hmem
  rw [heq] at hbegin
  cases hbegin
  constructor
  . exact h.number_lt
  . intro k hk
    exact hk
  . intro k hk a t ht hborn
    exact absurd hborn (hdead k hk a t ht)
  . exact hdead
  . exact h.ran

theorem callback {b : Batch} {e : Entry} {t : Timer} (h : Cancels s) (hb : s.batch = some b)
    (hderef : s.queue.deref e.timer = .ok t)
    : Cancels { s with
        batch := some { b with ran := b.ran + 1 }
        ran := s.ran ++ [⟨s.born e.timer, s.cancelledBefore⟩] } where
  number_lt := h.number_lt
  before := h.before
  marked := by
    have hmarked := h.marked
    simp only [State.timers, TimerQueue.State.batchTimers, hb] at hmarked
    exact hmarked
  dead := h.dead
  ran := by
    intro ran hmem
    rcases List.mem_append.mp hmem with hmem | hmem
    . exact h.ran ran hmem
    . rw [List.mem_singleton] at hmem
      rw [hmem]
      intro hbefore
      have ht : s.queue.heap e.timer = some t := by
        unfold TimerQueue.deref at hderef
        split at hderef
        . next heq => rw [heq, Except.ok.inj hderef]
        . contradiction
      exact h.dead _ hbefore _ t ht rfl

theorem handleReadEnd {clock : Timestamp} {b : Batch} {queue : TimerQueue} {e : Event}
    (h : Cancels s) (hinv : Inv s) (hb : s.batch = some b)
    (hend : s.queue.handleReadEnd b.expired b.now clock = .ok queue)
    (hstep : Step s e { s with queue, batch := none })
    : Cancels { s with queue, batch := none } := by
  have hqueue := hinv.queue
  simp only [State.timers, TimerQueue.State.batchTimers, hb] at hqueue
  rcases handleReadEnd_spec hqueue b.now clock with ⟨q', heq, hinv', hsettles⟩
  rw [heq, Except.ok.injEq] at hend
  rw [hend] at hinv' hsettles
  have hdead : ∀ k ∈ s.cancelled, ∀ a t, queue.heap a = some t → s.born a ≠ k := by
    intro k hk a t' ht' hborn
    rcases hsettles.old a t' ht' with ⟨t, ht, hseq, -, hactive⟩
    have hmarked := h.marked k hk a t ht hborn
    simp only [State.timers, TimerQueue.State.batchTimers, hb] at hmarked
    have hpending : a ∉ s.pending := by
      have hdisjoint := (List.nodup_append'.mp hqueue.batch_nodup).2.2
      exact fun ha => hdisjoint hmarked.1 ha
    -- a live timer that is not pending is in the indexes again, so it was not marked
    rcases hactive ((hinv'.owned a t' ht').mpr hpending) with hmem | hmem
    . exact (hqueue.owned a t ht).mp hmem (List.mem_append_left _ hmarked.1)
    . exact hmem hmarked.2
  constructor
  . exact h.number_lt
  . exact h.before
  . intro k hk a t ht hborn
    exact absurd hborn (hdead k hk a t ht)
  . exact h.dead_keep hinv hstep
  . exact h.ran

theorem step {e : Event} (h : Cancels s) (hinv : Inv s) (hcond : cancelsInserted s e = true)
    (hstep : Step s e s')
    : Cancels s' := by
  have hs := hstep
  cases hstep with
  | newTimer hcall hfresh =>
    apply h.keep hinv hs _ rfl rfl rfl rfl rfl
    simp [State.newTimer, State.name]
  | runInLoop hfind hloop => exact h.keep hinv hs (Nat.le_refl _) rfl rfl rfl rfl rfl
  | readSequence hfind => exact h.keep hinv hs (Nat.le_refl _) rfl rfl rfl rfl rfl
  | @addTimer timer when interval clock queue t hfresh hadd hderef =>
    have hnew := hinv.queue.newTimer hfresh when interval
    apply h.keep hinv hs _ rfl rfl rfl rfl (heap_addTimerInLoop hnew hadd).2.2
    simp [State.name]
  | @cancelDirectly index i queue hissued hcancel =>
    apply h.cancelInLoop hinv hs (List.mem_of_getElem? hissued) _ hcancel
    intro queued hqueued
    unfold cancelsInserted at hcond
    dsimp only at hcond
    rw [hissued] at hcond
    have hall := List.all_eq_true.mp hcond queued hqueued
    simpa using hall
  | cancel hissued hloop => exact h.keep hinv hs (Nat.le_refl _) rfl rfl rfl rfl rfl
  | call hother hloop => exact h.keep hinv hs (Nat.le_refl _) rfl rfl rfl rfl rfl
  | loop hbatch hwaiting => exact h.keep hinv hs (Nat.le_refl _) rfl rfl rfl rfl rfl
  | insertQueued hbatch hwaiting hadd =>
    have hadded := heap_addTimerInLoop (hinv.queue_of_add hwaiting) hadd
    exact h.keep hinv hs (Nat.le_refl _) rfl rfl rfl rfl hadded.2.2
  | @cancelQueued active clock loop caller i queue hbatch hstart hwaiting hcancel =>
    have horder := hinv.order
    rw [hwaiting, List.pairwise_cons] at horder
    apply h.cancelInLoop hinv hs _ _ hcancel
    . apply hinv.cancels ⟨caller, .cancelInLoop i⟩ _ i rfl
      rw [hwaiting]
      exact List.mem_cons_self
    . intro queued hqueued
      rw [hwaiting] at hqueued
      rcases List.mem_cons.mp hqueued with heq | hqueued
      . rw [heq]
        rfl
      . unfold Functor.inserts
        split
        . next timer number hfunctor =>
          have hne := horder.1 queued hqueued i timer rfl
          rw [hfunctor] at hne
          rw [beq_eq_false_iff_ne]
          intro heq
          rw [heq] at hne
          contradiction
        . rfl
  | @timer event timers htimer hstep =>
    cases TimerQueue.Step.of_step hstep with
    | add hfresh hadd => contradiction
    | cancel hcancel => contradiction
    | created => exact h.keep hinv hs (Nat.le_refl _) rfl rfl rfl rfl rfl
    | fire harmed => exact h.keep hinv hs (Nat.le_refl _) rfl rfl rfl rfl rfl
    | handleRead hb hbegin => exact h.handleRead hinv hb hbegin
    | @callback b e t hb he hderef =>
      have hnext : s.nextCallback = some e := by
        change s.batch = some b at hb
        unfold State.nextCallback
        rw [hb]
        exact he
      unfold record
      dsimp only
      rw [hnext]
      exact h.callback hb hderef
    | handleReadEnd hb hran hend => exact h.handleReadEnd hinv hb hend hs

end Cancels

end Threads

end TimerQueue
