import Mmuduo.TimerQueue.Numbers

namespace TimerQueue

namespace Threads

def State.IssuedRight (s : State) : Prop :=
  ∀ i ∈ s.issued, s.names[i.number]? = some i.timerId

section Names

variable {s : State} {a : Addr}

theorem getElem?_name {k : Nat} {timerId : TimerId} (h : s.names[k]? = some timerId)
    : (s.name a).names[k]? = some timerId := by
  simp only [State.name]
  rw [List.getElem?_append_left (List.getElem?_eq_some_iff.mp h).1]
  exact h

theorem getElem?_name_self
    : (s.name a).names[s.names.length]? = some ⟨a, s.queue.numCreated.toInt⟩ := by
  simp [State.name]

theorem sequence_of_addTimer {when : Timestamp} {interval : TimerInterval} {clock : Timestamp}
    {queue : TimerQueue} {t : Timer} (h : Inv s) (hfresh : s.queue.fresh a = true)
    (hadd : (s.queue.newTimer a when interval).addTimerInLoop a clock = .ok queue)
    (hderef : queue.deref a = .ok t)
    : t.sequence = s.queue.numCreated.toInt := by
  have hheap := (heap_addTimerInLoop (h.queue.newTimer hfresh when interval) hadd).1
  have hlive : queue.heap a = some (Timer.new s.queue.numCreated when interval) := by
    rw [hheap]
    exact setTimer_heap_self _ _ _
  rw [deref_eq hlive, Except.ok.injEq] at hderef
  rw [← hderef]
  rfl

end Names

namespace State.IssuedRight

variable {s s' : State}

theorem start (numCreated : Int32) : (State.start numCreated).IssuedRight := by
  simp [State.IssuedRight, State.start]

theorem step {e : Event} (h : s.IssuedRight) (hinv : Inv s) (hstep : Step s e s')
    (hread : ∀ n garbage call, e = .readSequence n garbage →
      s.reading.find? (·.thread == n) = some call →
      ∃ t, s.queue.heap call.timer = some t ∧ s.born call.timer = call.number)
    : s'.IssuedRight := by
  cases hstep with
  | newTimer hcall hfresh =>
    intro i hi
    exact getElem?_name (h i hi)
  | runInLoop hfind hloop => exact h
  | @readSequence n call garbage hfind =>
    intro i hi
    rcases List.mem_cons.mp hi with heq | hi
    . rcases hread n garbage call rfl hfind with ⟨t, ht, hborn⟩
      have hname := hinv.named _ t ht
      rw [hborn] at hname
      rw [heq]
      simp only [State.readSequence, State.sequenceAt]
      rw [ht]
      exact hname
    . exact h i hi
  | addTimer hfresh hadd hderef =>
    intro i hi
    rcases List.mem_cons.mp hi with heq | hi
    . rw [heq, sequence_of_addTimer hinv hfresh hadd hderef]
      exact getElem?_name_self
    . exact getElem?_name (h i hi)
  | cancelDirectly hissued hcancel => exact h
  | cancel hissued hloop => exact h
  | call hother hloop => exact h
  | loop hbatch hwaiting => exact h
  | insertQueued hbatch hwaiting hadd => exact h
  | cancelQueued hbatch hstart hwaiting hcancel => exact h
  | @timer event timers htimer hstep =>
    cases event with
    | add timer when interval clock => contradiction
    | cancel timerId => contradiction
    | created => exact h
    | fire => exact h
    | handleRead now => exact h
    | callback => exact h
    | handleReadEnd clock => exact h

end State.IssuedRight

namespace State

def unread (s : State) (timer : Addr) : Bool :=
  s.reading.any fun call => decide (call.timer = timer)

def cancelDeletes (s : State) (timerId : TimerId) : Bool :=
  decide (ActiveTimer.mk timerId.timer timerId.sequence ∈ s.queue.activeTimers)

def resetDeletes (s : State) (timer : Addr) : Bool :=
  match s.queue.heap timer with
  | some t => !t.repeats || decide (ActiveTimer.mk timer t.sequence ∈ s.queue.cancelingTimers)
  | none => false

end State

/--
Neither `cancelInLoop` nor `reset` deletes a timer that is still to be read.
-/
def sparesUnread (s : State) : Event → Bool
  | .cancel .owner index =>
    match s.issued[index]? with
    | some i => !(s.cancelDeletes i.timerId && s.unread i.timerId.timer)
    | none => true
  | .loop _ _ =>
    match s.loop.pc.starting with
    | some ⟨_, .cancelInLoop i⟩ => !(s.cancelDeletes i.timerId && s.unread i.timerId.timer)
    | _ => true
  | .timer (.handleReadEnd _) =>
    match s.batch with
    | some b => b.expired.all fun e => !(s.resetDeletes e.timer && s.unread e.timer)
    | none => true
  | _ => true

structure Reads (s : State) : Prop where
  alive : ∀ call ∈ s.reading, ∃ t, s.queue.heap call.timer = some t
    ∧ s.born call.timer = call.number
  issued : s.IssuedRight

theorem heap_cancelInLoop {q q' : TimerQueue} {batch : List Addr} {timerId : TimerId}
    (h : q.Inv batch) (hcancel : q.cancelInLoop timerId = .ok q') {a : Addr}
    (ha : ActiveTimer.mk timerId.timer timerId.sequence ∈ q.activeTimers → a ≠ timerId.timer)
    : q'.heap a = q.heap a := by
  by_cases hid : ActiveTimer.mk timerId.timer timerId.sequence ∈ q.activeTimers
  . rcases cancelInLoop_of_active h hid with ⟨t, ht, -, -, heq⟩
    rw [heq, Except.ok.injEq] at hcancel
    rw [← hcancel]
    exact setTimer_heap_of_ne (ha hid)
  . rw [cancelInLoop_inactive h hid, Except.ok.injEq] at hcancel
    rw [← hcancel]
    split
    . rfl
    . rfl

namespace Reads

variable {s s' : State}

theorem start (numCreated : Int32) : Reads (.start numCreated) where
  alive := by simp [State.start]
  issued := State.IssuedRight.start numCreated

theorem unread_of_mem {call : AddCall} (hmem : call ∈ s.reading) : s.unread call.timer = true := by
  apply List.any_eq_true.mpr
  exact ⟨call, hmem, by simp⟩

theorem alive_name {a : Addr} (h : Reads s) (hfresh : s.queue.fresh a = true) {queue : TimerQueue}
    {t : Timer} (hheap : queue.heap = Function.update s.queue.heap a (some t))
    : ∀ call ∈ s.reading, ∃ t, queue.heap call.timer = some t
      ∧ (s.name a).born call.timer = call.number := by
  intro call hmem
  rcases h.alive call hmem with ⟨u, hu, hborn⟩
  have hne : call.timer ≠ a := by
    intro heq
    rw [heq, heap_of_fresh hfresh] at hu
    contradiction
  refine ⟨u, ?_, ?_⟩
  . rw [hheap, Function.update_of_ne hne]
    exact hu
  . simp only [State.name]
    rw [Function.update_of_ne hne]
    exact hborn

theorem alive_cancelInLoop {i : Issued} {queue : TimerQueue} (h : Reads s) (hinv : Inv s)
    (hspares : (!(s.cancelDeletes i.timerId && s.unread i.timerId.timer)) = true)
    (hcancel : s.queue.cancelInLoop i.timerId = .ok queue)
    : ∀ call ∈ s.reading, ∃ t, queue.heap call.timer = some t
      ∧ s.born call.timer = call.number := by
  intro call hmem
  rcases h.alive call hmem with ⟨t, ht, hborn⟩
  refine ⟨t, ?_, hborn⟩
  rw [heap_cancelInLoop hinv.queue hcancel]
  . exact ht
  . intro hactive heq
    have hunread := unread_of_mem hmem
    rw [heq] at hunread
    simp [State.cancelDeletes, hactive, hunread] at hspares

theorem alive_handleReadEnd {clock : Timestamp} {b : Batch} {queue : TimerQueue} (h : Reads s)
    (hinv : Inv s) (hb : s.batch = some b)
    (hspares : ∀ e ∈ b.expired, (!(s.resetDeletes e.timer && s.unread e.timer)) = true)
    (hend : s.queue.handleReadEnd b.expired b.now clock = .ok queue)
    : ∀ call ∈ s.reading, ∃ t, queue.heap call.timer = some t
      ∧ s.born call.timer = call.number := by
  have hqueue := hinv.queue
  simp only [State.timers, TimerQueue.State.batchTimers, hb] at hqueue
  rcases handleReadEnd_spec hqueue b.now clock with ⟨q', heq, -, hsettles⟩
  rw [heq, Except.ok.injEq] at hend
  rw [hend] at hsettles
  intro call hmem
  rcases h.alive call hmem with ⟨t, ht, hborn⟩
  have hkept : (queue.heap call.timer).isSome := by
    apply hsettles.kept _ t ht
    intro hexpired
    rcases List.mem_map.mp hexpired with ⟨e, he, htimer⟩
    have hunread := unread_of_mem hmem
    rw [← htimer] at hunread ht ⊢
    have hspare := hspares e he
    simp only [State.resetDeletes, ht, hunread, Bool.and_true, Bool.not_or, Bool.not_not,
      Bool.and_eq_true, Bool.not_eq_true', decide_eq_false_iff_not] at hspare
    exact hspare
  rcases Option.isSome_iff_exists.mp hkept with ⟨t', ht'⟩
  exact ⟨t', ht', hborn⟩

theorem alive_handOver {call : AddCall} (h : Reads s) (hinv : Inv s) (hmem : call ∈ s.creating)
    : ∀ call' ∈ call :: s.reading, ∃ t, s.queue.heap call'.timer = some t
      ∧ s.born call'.timer = call'.number := by
  intro call' hcall'
  rcases List.mem_cons.mp hcall' with heq | hcall'
  . have hpending : call.timer ∈ s.timers.batchTimers ++ s.pending := by
      apply List.mem_append_right
      apply List.mem_append_left
      exact List.mem_map_of_mem hmem
    rcases hinv.queue.batch_live _ hpending with ⟨t, ht⟩
    rw [heq]
    exact ⟨t, ht, hinv.creating call hmem⟩
  . exact h.alive call' hcall'

theorem step {e : Event} (h : Reads s) (hinv : Inv s) (hcond : sparesUnread s e = true)
    (hstep : Step s e s')
    : Reads s' := by
  have hissued : s'.IssuedRight := by
    apply h.issued.step hinv hstep
    intro n garbage call _ hfind
    exact h.alive call (List.mem_of_find?_eq_some hfind)
  cases hstep with
  | newTimer hcall hfresh => exact ⟨h.alive_name hfresh rfl, hissued⟩
  | runInLoop hfind hloop =>
    exact ⟨h.alive_handOver hinv (List.mem_of_find?_eq_some hfind), hissued⟩
  | readSequence hfind =>
    refine ⟨?_, hissued⟩
    intro call hmem
    exact h.alive call (List.mem_of_mem_erase hmem)
  | @addTimer timer when interval clock queue t hfresh hadd hderef =>
    have hheap := (heap_addTimerInLoop (hinv.queue.newTimer hfresh when interval) hadd).1
    exact ⟨h.alive_name hfresh hheap, hissued⟩
  | cancelDirectly hindex hcancel =>
    simp only [sparesUnread, hindex] at hcond
    exact ⟨h.alive_cancelInLoop hinv hcond hcancel, hissued⟩
  | cancel hindex hloop => exact ⟨h.alive, hissued⟩
  | call hother hloop => exact ⟨h.alive, hissued⟩
  | loop hbatch hwaiting => exact ⟨h.alive, hissued⟩
  | insertQueued hbatch hwaiting hadd =>
    refine ⟨?_, hissued⟩
    dsimp only
    rw [(heap_addTimerInLoop (hinv.queue_of_add hwaiting) hadd).1]
    exact h.alive
  | cancelQueued hbatch hstart hwaiting hcancel =>
    simp only [sparesUnread, hstart] at hcond
    exact ⟨h.alive_cancelInLoop hinv hcond hcancel, hissued⟩
  | @timer event timers htimer hstep =>
    cases TimerQueue.Step.of_step hstep with
    | add hfresh hadd => contradiction
    | cancel hcancel => contradiction
    | created => exact ⟨h.alive, hissued⟩
    | fire harmed => exact ⟨h.alive, hissued⟩
    | handleRead hb hbegin =>
      rcases handleReadBegin_spec hinv.queue _ with ⟨active, heq, -⟩
      have hbegin := heq.symm.trans hbegin
      cases hbegin
      exact ⟨h.alive, hissued⟩
    | callback hb he hderef => exact ⟨h.alive, hissued⟩
    | @handleReadEnd clock b queue hb hran hend =>
      change s.batch = some b at hb
      simp only [sparesUnread, hb] at hcond
      exact ⟨h.alive_handleReadEnd hinv hb (List.all_eq_true.mp hcond) hend, hissued⟩

end Reads

theorem sequence_read_alive {r : Except Fault State} (h : (systemWith sparesUnread).Reachable r)
    : ∃ s, r = .ok s ∧
      (∀ call ∈ s.reading, ∃ t, s.queue.heap call.timer = some t
        ∧ s.names[call.number]? = some ⟨call.timer, t.sequence⟩) ∧
      ∀ i ∈ s.issued, s.names[i.number]? = some i.timerId := by
  have hstep : ∀ s e s', Inv s → Reads s → sparesUnread s e = true → Step s e s' → Reads s' :=
    fun s e s' hinv hreads hcond hstep => hreads.step hinv hcond hstep
  rcases reachable_inv Reads.start hstep h with ⟨s, rfl, hinv, hreads⟩
  refine ⟨s, rfl, ?_, hreads.issued⟩
  intro call hmem
  rcases hreads.alive call hmem with ⟨t, ht, hborn⟩
  have hname := hinv.named _ t ht
  rw [hborn] at hname
  exact ⟨t, ht, hname⟩

def readBeforeInsertion : List Event :=
  addTimerFrom 1 8 100 oneShot ++ enterLoop ++ aroundLoop 1 ++ handleReadWith 120 121 1

theorem sequence_read_alive_before_insertion
    : ∃ s, (systemWith sparesUnread).run (.ok (.start 7)) readBeforeInsertion = some (.ok s)
      ∧ ∀ i ∈ s.issued, s.names[i.number]? = some i.timerId := by
  have hrun : ((systemWith sparesUnread).run (.ok (.start 7)) readBeforeInsertion).isSome = true := by
    decide +kernel
  rcases Option.isSome_iff_exists.mp hrun with ⟨r, hr⟩
  have hreach := LTS.Reachable.of_run (systemWith sparesUnread) (.init ⟨7, rfl⟩) hr
  rcases sequence_read_alive hreach with ⟨s, rfl, _, hissued⟩
  exact ⟨s, hr, hissued⟩

def deletedBeforeRead : List Event :=
  [.newTimer 1 8 100 oneShot, .runInLoop 1, .call (.queueReturn (.other 1))] ++ enterLoop
    ++ aroundLoop 1 ++ handleReadWith 120 121 1 ++ [.readSequence 1 42]

def issuedWrong : Except Fault State → Bool
  | .ok s => s.issued.any fun i => decide (s.names[i.number]? ≠ some i.timerId)
  | .error _ => false

theorem sequence_read_after_delete
    : ∃ s, system.run (.ok (.start 7)) deletedBeforeRead = some (.ok s)
      ∧ ∃ i ∈ s.issued, s.names[i.number]? ≠ some i.timerId := by
  have hrun : (system.run (.ok (.start 7)) deletedBeforeRead).any issuedWrong = true := by
    decide +kernel
  rcases (Option.any_eq_true _ _).mp hrun with ⟨r, hr, hissued⟩
  cases r with
  | error fault => contradiction
  | ok s =>
    rcases List.any_eq_true.mp hissued with ⟨i, hmem, hwrong⟩
    exact ⟨s, hr, i, hmem, of_decide_eq_true hwrong⟩

def State.nameUsed (s : State) (timer : Addr) : Bool :=
  decide (TimerId.mk timer s.queue.numCreated.toInt ∈ s.names)

/--
No timer gets the address and the counter value of an earlier one, and every sequence is read from
the timer that it belongs to.
-/
def namesOnce (s : State) : Event → Bool
  | .newTimer _ timer _ _ => !s.nameUsed timer
  | .addTimer timer _ _ _ => !s.nameUsed timer
  | .readSequence n _ =>
    match s.reading.find? (·.thread == n) with
    | some call =>
      (s.queue.heap call.timer).isSome && decide (s.born call.timer = call.number)
    | none => true
  | _ => true

def Touched (q q' : TimerQueue) (a : Addr) (t : Timer) : Prop :=
  q'.heap a ≠ some t
    ∨ Entry.mk t.expiration a ∈ q.timers ∧ Entry.mk t.expiration a ∉ q'.timers
    ∨ ActiveTimer.mk a t.sequence ∈ q.activeTimers ∧ ActiveTimer.mk a t.sequence ∉ q'.activeTimers
    ∨ ActiveTimer.mk a t.sequence ∉ q.cancelingTimers
      ∧ ActiveTimer.mk a t.sequence ∈ q'.cancelingTimers

theorem touched_eq {q q' : TimerQueue} {batch : List Addr} {timerId : TimerId} {a : Addr}
    {t : Timer} (h : q.Inv batch) (hcancel : q.cancelInLoop timerId = .ok q')
    (ht : q.heap a = some t) (htouched : Touched q q' a t)
    : timerId = ⟨a, t.sequence⟩ := by
  by_cases hid : ActiveTimer.mk timerId.timer timerId.sequence ∈ q.activeTimers
  . rcases cancelInLoop_of_active h hid with ⟨u, hu, hseq, hact, heq⟩
    rw [heq, Except.ok.injEq] at hcancel
    have hsame : a = timerId.timer := by
      by_contra hne
      rw [← hcancel] at htouched
      rcases htouched with hheap | ⟨hmem, hnot⟩ | ⟨hmem, hnot⟩ | ⟨hnot, hmem⟩
      . rw [setTimer_heap_of_ne hne] at hheap
        exact hheap ht
      . apply hnot
        apply (OrdSet.mem_erase ((h.agree _ u hu).mpr hact)).mpr
        exact ⟨Entry.mk_ne hne _ _, hmem⟩
      . apply hnot
        apply (OrdSet.mem_erase hact).mpr
        exact ⟨ActiveTimer.mk_ne hne _ _, hmem⟩
      . exact hnot hmem
    rw [← hsame, ht, Option.some.injEq] at hu
    rw [hsame, hu, ← hseq]
  . rw [cancelInLoop_inactive h hid, Except.ok.injEq] at hcancel
    rw [← hcancel] at htouched
    split at htouched
    . rcases htouched with hheap | ⟨hmem, hnot⟩ | ⟨hmem, hnot⟩ | ⟨hnot, hmem⟩
      . exact absurd ht hheap
      . exact absurd hmem hnot
      . exact absurd hmem hnot
      . by_cases hold : ActiveTimer.mk timerId.timer timerId.sequence ∈ q.cancelingTimers
        . rw [OrdSet.insert_of_mem hold] at hmem
          exact absurd hmem hnot
        . have heq := ((OrdSet.mem_insert hold).mp hmem).resolve_right hnot
          have htimer : a = timerId.timer := congrArg (fun x => (ofLex x).1) heq
          have hseq : t.sequence = timerId.sequence := congrArg (fun x => (ofLex x).2) heq
          rw [htimer, hseq]
    . rcases htouched with hheap | ⟨hmem, hnot⟩ | ⟨hmem, hnot⟩ | ⟨hnot, hmem⟩
      . exact absurd ht hheap
      . exact absurd hmem hnot
      . exact absurd hmem hnot
      . exact absurd hmem hnot

structure NamedOnce (s : State) : Prop where
  nodup : s.names.Nodup
  issued : s.IssuedRight

namespace NamedOnce

variable {s s' : State}

theorem start (numCreated : Int32) : NamedOnce (.start numCreated) where
  nodup := List.nodup_nil
  issued := State.IssuedRight.start numCreated

theorem nodup_name {timer : Addr} (h : NamedOnce s) (hunused : (!s.nameUsed timer) = true)
    : (s.name timer).names.Nodup := by
  have hnot : TimerId.mk timer s.queue.numCreated.toInt ∉ s.names := by
    simpa [State.nameUsed] using hunused
  simp only [State.name]
  rw [List.nodup_append']
  refine ⟨h.nodup, List.nodup_singleton _, ?_⟩
  intro timerId hmem hnew
  rw [List.mem_singleton] at hnew
  rw [hnew] at hmem
  exact hnot hmem

theorem step {e : Event} (h : NamedOnce s) (hinv : Inv s) (hcond : namesOnce s e = true)
    (hstep : Step s e s')
    : NamedOnce s' := by
  have hissued : s'.IssuedRight := by
    apply h.issued.step hinv hstep
    intro n garbage call he hfind
    rw [he] at hcond
    simp only [namesOnce, hfind, Bool.and_eq_true, decide_eq_true_eq] at hcond
    rcases Option.isSome_iff_exists.mp hcond.1 with ⟨t, ht⟩
    exact ⟨t, ht, hcond.2⟩
  cases hstep with
  | newTimer hcall hfresh => exact ⟨h.nodup_name hcond, hissued⟩
  | runInLoop hfind hloop => exact ⟨h.nodup, hissued⟩
  | readSequence hfind => exact ⟨h.nodup, hissued⟩
  | addTimer hfresh hadd hderef => exact ⟨h.nodup_name hcond, hissued⟩
  | cancelDirectly hindex hcancel => exact ⟨h.nodup, hissued⟩
  | cancel hindex hloop => exact ⟨h.nodup, hissued⟩
  | call hother hloop => exact ⟨h.nodup, hissued⟩
  | loop hbatch hwaiting => exact ⟨h.nodup, hissued⟩
  | insertQueued hbatch hwaiting hadd => exact ⟨h.nodup, hissued⟩
  | cancelQueued hbatch hstart hwaiting hcancel => exact ⟨h.nodup, hissued⟩
  | @timer event timers htimer hstep =>
    cases event with
    | add timer when interval clock => contradiction
    | cancel timerId => contradiction
    | created => exact ⟨h.nodup, hissued⟩
    | fire => exact ⟨h.nodup, hissued⟩
    | handleRead now => exact ⟨h.nodup, hissued⟩
    | callback => exact ⟨h.nodup, hissued⟩
    | handleReadEnd clock => exact ⟨h.nodup, hissued⟩

end NamedOnce

theorem timerId_names_one {r : Except Fault State} (h : (systemWith namesOnce).Reachable r)
    : ∃ s, r = .ok s ∧ ∀ i ∈ s.issued, ∀ queue, s.queue.cancelInLoop i.timerId = .ok queue →
      ∀ a t, s.queue.heap a = some t → Touched s.queue queue a t → s.born a = i.number := by
  have hstep : ∀ s e s', Inv s → NamedOnce s → namesOnce s e = true → Step s e s' →
      NamedOnce s' :=
    fun s e s' hinv hnamed hcond hstep => hnamed.step hinv hcond hstep
  rcases reachable_inv NamedOnce.start hstep h with ⟨s, rfl, hinv, hnamed⟩
  refine ⟨s, rfl, ?_⟩
  intro i hi queue hcancel a t ht htouched
  have hid := touched_eq hinv.queue hcancel ht htouched
  have hissued := hnamed.issued i hi
  have hname := hinv.named a t ht
  rw [hid] at hissued
  have hlt := (List.getElem?_eq_some_iff.mp hname).1
  exact (List.getElem?_inj hlt hnamed.nodup).mp (hname.trans hissued.symm)

def addressReused : List Event :=
  [.addTimer 8 100 oneShot 10, .cancel .owner 0, .addTimer 8 200 oneShot 20]

theorem timerId_names_one_reused
    : ∃ s, (systemWith namesOnce).run (.ok (.start 0)) addressReused = some (.ok s)
      ∧ ∀ i ∈ s.issued, ∀ queue, s.queue.cancelInLoop i.timerId = .ok queue →
      ∀ a t, s.queue.heap a = some t → Touched s.queue queue a t → s.born a = i.number := by
  have hrun : ((systemWith namesOnce).run (.ok (.start 0)) addressReused).isSome = true := by
    decide +kernel
  rcases Option.isSome_iff_exists.mp hrun with ⟨r, hr⟩
  have hreach := LTS.Reachable.of_run (systemWith namesOnce) (.init ⟨0, rfl⟩) hr
  rcases timerId_names_one hreach with ⟨s, rfl, hone⟩
  exact ⟨s, hr, hone⟩

theorem run_created (s : State) (n : Nat)
    : system.run (.ok s) (List.replicate n (.timer .created))
        =
      some (.ok { s with
        queue := { s.queue with numCreated := s.queue.numCreated + Int32.ofNat n } }) := by
  induction n generalizing s with
  | zero =>
    have hzero : s.queue.numCreated + Int32.ofNat 0 = s.queue.numCreated := Int32.add_zero _
    rw [hzero]
    rfl
  | succ n ih =>
    have hnext : system.next (.ok s) (.timer .created)
        = some (.ok { s with
          queue := { s.queue with numCreated := s.queue.numCreated + 1 } }) := by
      rfl
    have hsucc : s.queue.numCreated + 1 + Int32.ofNat n
        = s.queue.numCreated + Int32.ofNat (n + 1) := by
      rw [Int32.add_assoc, Int32.ofNat_add, Int32.add_comm 1]
      rfl
    rw [List.replicate_succ, LTS.run_cons, hnext, Option.bind_some, ih]
    rw [← hsucc]

def firstCancelled : List Event :=
  [.addTimer 8 100 oneShot 10, .cancel .owner 0]

def counterWrapped : List Event :=
  firstCancelled
    ++ (List.replicate (2 ^ 32 - 1) (.timer .created) ++ [.addTimer 8 200 oneShot 20])

def afterFirst : State :=
  match system.run (.ok (.start 0)) firstCancelled with
  | some (.ok s) => s
  | _ => .start 0

def deletesOther : Except Fault State → Bool
  | .ok s => s.issued.any fun i =>
    match s.queue.cancelInLoop i.timerId with
    | .ok queue =>
      decide (s.born i.timerId.timer ≠ i.number) && (s.queue.heap i.timerId.timer).isSome
        && (queue.heap i.timerId.timer).isNone
    | .error _ => false
  | .error _ => false

theorem run_counterWrapped
    : (system.run (.ok (.start 0)) counterWrapped).any deletesOther = true := by
  have hfirst : system.run (.ok (.start 0)) firstCancelled = some (.ok afterFirst) := by
    rfl
  have hcount : afterFirst.queue.numCreated + Int32.ofNat (2 ^ 32 - 1) = 0 := by
    decide +kernel
  unfold counterWrapped
  rw [LTS.run_append, hfirst, Option.bind_some]
  rw [LTS.run_append, run_created, Option.bind_some, hcount]
  decide +kernel

theorem timerId_names_two
    : ∃ s, system.run (.ok (.start 0)) counterWrapped = some (.ok s)
      ∧ ∃ i ∈ s.issued, ∃ queue, s.queue.cancelInLoop i.timerId = .ok queue
        ∧ ∃ a t, s.queue.heap a = some t ∧ Touched s.queue queue a t ∧ s.born a ≠ i.number := by
  rcases (Option.any_eq_true _ _).mp run_counterWrapped with ⟨r, hr, hdeletes⟩
  cases r with
  | error fault => simp [deletesOther] at hdeletes
  | ok s =>
    rcases List.any_eq_true.mp hdeletes with ⟨i, hmem, hdeletes⟩
    cases hcancel : s.queue.cancelInLoop i.timerId with
    | error fault => simp [hcancel] at hdeletes
    | ok queue =>
      simp only [hcancel, Bool.and_eq_true, decide_eq_true_eq, Option.isNone_iff_eq_none] at hdeletes
      rcases Option.isSome_iff_exists.mp hdeletes.1.2 with ⟨t, ht⟩
      refine ⟨s, hr, i, hmem, queue, hcancel, _, t, ht, ?_, hdeletes.1.1⟩
      left
      rw [hdeletes.2]
      simp

end Threads

end TimerQueue
