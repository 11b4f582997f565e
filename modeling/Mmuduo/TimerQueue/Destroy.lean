import Mmuduo.TimerQueue.Numbers

namespace TimerQueue

def deleteAll (q : TimerQueue) : List Entry → Except Fault TimerQueue
  | [] => .ok q
  | e :: timers => do
    let q ← q.deleteTimer e.timer
    q.deleteAll timers

def destroy (q : TimerQueue) : Except Fault TimerQueue :=
  q.deleteAll q.timers.toList

section Destroy

variable {q : TimerQueue} {batch : List Addr}

theorem deleteAll_spec {timers : List Entry} (hlive : ∀ e ∈ timers, ∃ t, q.heap e.timer = some t)
    (hnodup : (timers.map Entry.timer).Nodup)
    : ∃ q', q.deleteAll timers = .ok q'
      ∧ ∀ a, q'.heap a = if a ∈ timers.map Entry.timer then none else q.heap a := by
  induction timers generalizing q with
  | nil => exact ⟨q, rfl, by simp⟩
  | cons e timers ih =>
    rw [List.map_cons, List.nodup_cons] at hnodup
    rcases hlive e List.mem_cons_self with ⟨t, ht⟩
    have hrest : ∀ f ∈ timers, ∃ u, (q.setTimer e.timer none).heap f.timer = some u := by
      intro f hf
      have hne : f.timer ≠ e.timer := by
        intro heq
        apply hnodup.1
        rw [← heq]
        exact List.mem_map_of_mem hf
      rw [setTimer_heap_of_ne hne]
      exact hlive f (List.mem_cons_of_mem _ hf)
    rcases ih hrest hnodup.2 with ⟨q', heq, hheap⟩
    refine ⟨q', ?_, ?_⟩
    . unfold deleteAll
      rw [deleteTimer_eq ht, ok_bind]
      exact heq
    . intro a
      rw [hheap, List.map_cons]
      by_cases ha : a = e.timer
      . rw [ha, setTimer_heap_self, if_pos List.mem_cons_self, ite_self]
      . rw [setTimer_heap_of_ne ha]
        simp only [List.mem_cons, ha, false_or]

theorem destroy_spec (h : q.Inv batch)
    : ∃ q', q.destroy = .ok q' ∧ ∀ a, (q'.heap a).isSome = true ↔ a ∈ batch := by
  have hlive : ∀ e ∈ q.timers.toList, ∃ t, q.heap e.timer = some t := by
    intro e he
    rcases h.timers_live e (OrdSet.mem_toList.mp he) with ⟨t, ht, -⟩
    exact ⟨t, ht⟩
  rcases deleteAll_spec hlive h.nodup_timers with ⟨q', heq, hheap⟩
  refine ⟨q', heq, ?_⟩
  intro a
  rw [hheap]
  split
  . next hmem =>
    rcases List.mem_map.mp hmem with ⟨e, he, rfl⟩
    have hmem := OrdSet.mem_toList.mp he
    rcases h.timers_live e hmem with ⟨t, ht, hmk⟩
    rw [hmk, h.agree _ t ht, h.owned _ t ht] at hmem
    simp [hmem]
  . next hnot =>
    constructor
    . intro hsome
      rcases Option.isSome_iff_exists.mp hsome with ⟨t, ht⟩
      by_contra hbatch
      rw [← h.owned a t ht, ← h.agree a t ht] at hbatch
      apply hnot
      have hmem := List.mem_map_of_mem (f := Entry.timer) (OrdSet.mem_toList.mpr hbatch)
      rwa [Entry.timer_mk] at hmem
    . intro hbatch
      rcases h.batch_live a hbatch with ⟨t, ht⟩
      rw [ht]
      rfl

end Destroy

namespace Threads

theorem reachable_threads_inv {r : Except Fault State} (h : system.Reachable r)
    : ∃ s, r = .ok s ∧ Inv s := by
  apply LTS.Reachable.invariant system _ _ h
  . rintro r ⟨numCreated, rfl⟩
    exact ⟨_, rfl, Inv.start numCreated⟩
  . rintro r e r' ⟨s, rfl, hinv⟩ hnext
    rcases hinv.step_ok hnext with ⟨s', rfl⟩
    exact ⟨s', rfl, hinv.step (Step.of_step hnext)⟩

/--
The destructor deletes every timer that has reached the indexes and not been deleted before, each of
them once. Exactly the timers that are still on their way to the loop thread are never deleted.
-/
theorem destroy_frees {r : Except Fault State} (h : system.Reachable r)
    : ∃ s, r = .ok s ∧ (s.batch = none → ∃ q, s.queue.destroy = .ok q
        ∧ ∀ a, (q.heap a).isSome = true ↔ a ∈ s.pending) := by
  rcases reachable_threads_inv h with ⟨s, rfl, hinv⟩
  refine ⟨s, rfl, ?_⟩
  intro hbatch
  have hqueue := hinv.queue
  simp only [State.timers, TimerQueue.State.batchTimers, hbatch, List.nil_append] at hqueue
  exact destroy_spec hqueue

def threeTimers : List Event :=
  addTimerFrom 1 8 100 oneShot ++ enterLoop ++ aroundLoop 1
    ++ [.newTimer 2 16 130 periodic, .runInLoop 2, .newTimer 3 24 140 oneShot]

theorem destroy_frees_threeTimers
    : ∃ s, system.run (.ok (.start 0)) threeTimers = some (.ok s) ∧ ∃ q, s.queue.destroy = .ok q
      ∧ ∀ a, (q.heap a).isSome = true ↔ a = 24 ∨ a = 16 := by
  have hrun : (system.run (.ok (.start 0)) threeTimers).map
      (fun r => r.toOption.map fun s => (s.batch.isNone, s.pending))
      = some (some (true, [24, 16])) := by
    decide +kernel
  rcases Option.map_eq_some_iff.mp hrun with ⟨r, hr, hmap⟩
  rcases destroy_frees (LTS.Reachable.of_run system (.init ⟨0, rfl⟩) hr) with ⟨s, rfl, hdestroy⟩
  simp only [Except.toOption, Option.map_some, Option.some.injEq, Prod.mk.injEq] at hmap
  rcases hdestroy (Option.isNone_iff_eq_none.mp hmap.1) with ⟨q, heq, hheap⟩
  rw [hmap.2] at hheap
  refine ⟨s, hr, q, heq, ?_⟩
  intro a
  rw [hheap]
  simp

end Threads

end TimerQueue
