import Mmuduo.TimerQueue.HandleRead
import Mmuduo.TimerQueue.Numbers

/-!
This module contains the times at which the callbacks of a timer run, over all interleavings of the
threads that add and cancel timers, and the functions of the event loop that ask for a timer. A
callback runs at the reading of the clock that its `handleRead` starts with.
-/

namespace TimerQueue

namespace Threads

structure Request where
  when : Timestamp
  interval : TimerInterval

namespace Request

def runAt (time : Timestamp) : Request where
  when := time
  interval := .ofNat 0 false

def runAfter (delay : Int) (now : Timestamp) : Request :=
  runAt (now.addTime delay)

def runEvery (interval : TimerInterval) (now : Timestamp) : Request where
  when := now.addTime interval.micros
  interval := interval

/--
No callback runs before its time, and a timer that does not repeat has one callback.
-/
structure Kept (r : Request) (times : List Timestamp) : Prop where
  first : ∀ now ∈ times, r.when ≤ now
  gaps : times.Pairwise fun t u => r.interval.positive = true ∧ t + r.interval.micros ≤ u

structure Next (r : Request) (times : List Timestamp) (w : Timestamp) : Prop where
  first : r.when ≤ w
  again : ∀ now ∈ times, r.interval.positive = true ∧ now + r.interval.micros ≤ w

variable {r : Request} {times : List Timestamp}

theorem kept_nil (r : Request) : r.Kept [] where
  first := by simp
  gaps := .nil

theorem next_nil (r : Request) : r.Next [] r.when where
  first := le_refl _
  again := by simp

theorem Kept.concat {w now : Timestamp} (h : r.Kept times) (hnext : r.Next times w) (hnow : w ≤ now)
    : r.Kept (times ++ [now]) := by
  constructor
  . intro t ht
    rcases List.mem_append.mp ht with ht | ht
    . exact h.first t ht
    . rw [List.mem_singleton.mp ht]
      exact le_trans hnext.first hnow
  . rw [List.pairwise_append]
    refine ⟨h.gaps, List.pairwise_singleton _ _, ?_⟩
    intro t ht u hu
    rw [List.mem_singleton.mp hu]
    rcases hnext.again t ht with ⟨hpositive, hgap⟩
    exact ⟨hpositive, le_trans hgap hnow⟩

theorem Kept.gap_le (h : r.Kept times) {i j : Nat} (hij : i ≤ j) {t u : Timestamp}
    (ht : times[i]? = some t) (hu : times[j]? = some u)
    : t + (j - i : Nat) * r.interval.micros ≤ u := by
  induction j generalizing u with
  | zero =>
    have hi : i = 0 := by omega
    rw [hi, hu] at ht
    cases ht
    simp
  | succ j ih =>
    by_cases hi : i = j + 1
    . rw [hi, hu] at ht
      cases ht
      rw [hi]
      simp
    . have hlt : j < times.length := by
        have := (List.getElem?_eq_some_iff.mp hu).1
        omega
      have hlast : times[j]? = some times[j] := List.getElem?_eq_getElem hlt
      have hbefore := ih (by omega) hlast
      have hgap := List.pairwise_iff_getElem.mp h.gaps j (j + 1) hlt
        (List.getElem?_eq_some_iff.mp hu).1 (Nat.lt_succ_self j)
      rw [(List.getElem?_eq_some_iff.mp hu).2] at hgap
      have hsub : j + 1 - i = j - i + 1 := by omega
      rw [hsub]
      push_cast
      linarith [hgap.2]

theorem Kept.not_early (h : r.Kept times) {j : Nat} {now : Timestamp} (hnow : times[j]? = some now)
    : r.when + j * r.interval.micros ≤ now := by
  have hlt : 0 < times.length := by
    have := (List.getElem?_eq_some_iff.mp hnow).1
    omega
  have hhead : times[0]? = some times[0] := List.getElem?_eq_getElem hlt
  have hfirst := h.first _ (List.mem_of_getElem? hhead)
  have hgap := h.gap_le (Nat.zero_le j) hhead hnow
  rw [Nat.sub_zero] at hgap
  exact le_trans (Int.add_le_add_right hfirst _) hgap

theorem Kept.length_le (h : r.Kept times) (hpositive : r.interval.positive = false)
    : times.length ≤ 1 := by
  by_contra hlong
  have hgap := List.pairwise_iff_getElem.mp h.gaps 0 1 (by omega) (by omega) (by omega)
  rw [hpositive] at hgap
  exact absurd hgap.1 Bool.false_ne_true

structure OnSchedule (r : Request) (times : List Timestamp) : Prop where
  not_early : ∀ (j : Nat) (now : Timestamp), times[j]? = some now →
    r.when + j * r.interval.micros ≤ now
  gap_le : ∀ (i j : Nat) (t u : Timestamp), i ≤ j → times[i]? = some t → times[j]? = some u →
    t + (j - i : Nat) * r.interval.micros ≤ u
  once : r.interval.positive = false → times.length ≤ 1

theorem OnSchedule.runAfter {delay : Int} {start : Timestamp}
    (h : (Request.runAfter delay start).OnSchedule times)
    : times.length ≤ 1 ∧ ∀ now ∈ times, start + delay ≤ now := by
  refine ⟨h.once rfl, ?_⟩
  intro now hnow
  rcases List.mem_iff_getElem?.mp hnow with ⟨j, hj⟩
  have hearly := h.not_early j now hj
  simpa [Request.runAfter, Request.runAt, Timestamp.addTime, TimerInterval.ofNat] using hearly

theorem OnSchedule.runEvery {interval : TimerInterval} {start now : Timestamp} {j : Nat}
    (h : (Request.runEvery interval start).OnSchedule times) (hnow : times[j]? = some now)
    : start + (j + 1) * interval.micros ≤ now := by
  have hearly := h.not_early j now hnow
  simp only [Request.runEvery, Timestamp.addTime] at hearly
  linarith

end Request

structure Timed where
  threads : State
  requests : List Request
  -- the readings of the clock that the callbacks of each timer have run at
  times : Nat → List Timestamp

def Event.request : Event → Option Request
  | .newTimer _ _ when interval => some ⟨when, interval⟩
  | .addTimer _ when interval _ => some ⟨when, interval⟩
  | _ => none

namespace Timed

def timesAfter (t : Timed) : Event → Nat → List Timestamp
  | .timer .callback =>
    match t.threads.batch, t.threads.nextCallback with
    | some b, some e =>
      Function.update t.times (t.threads.born e.timer)
        (t.times (t.threads.born e.timer) ++ [b.now])
    | _, _ => t.times
  | _ => t.times

def observe (t : Timed) (e : Event) (threads : State) : Timed where
  threads := threads
  requests := t.requests ++ e.request.toList
  times := t.timesAfter e

end Timed

def State.done (s : State) : List Addr :=
  match s.batch with
  | none => []
  | some b => (b.expired.take b.ran).map Entry.timer

structure Timing (t : Timed) : Prop where
  length_eq : t.requests.length = t.threads.names.length
  unused : ∀ k, t.threads.names.length ≤ k → t.times k = []
  kept : ∀ k (r : Request), t.requests[k]? = some r → r.Kept (t.times k)
  interval : ∀ a u (r : Request), t.threads.queue.heap a = some u →
    t.requests[t.threads.born a]? = some r → u.interval = r.interval
  next : ∀ a u (r : Request), t.threads.queue.heap a = some u →
    t.requests[t.threads.born a]? = some r → a ∉ t.threads.done →
    r.Next (t.times (t.threads.born a)) u.expiration
  due : ∀ b, t.threads.batch = some b → ∀ e ∈ b.expired, ∀ u,
    t.threads.queue.heap e.timer = some u → u.expiration ≤ b.now
  done : ∀ b, t.threads.batch = some b → ∀ a ∈ t.threads.done, ∀ r : Request,
    t.requests[t.threads.born a]? = some r →
    r.when ≤ b.now ∧ ∀ now ∈ t.times (t.threads.born a), now ≤ b.now

namespace Timing

variable {t t' : Timed}

theorem start (numCreated : Int32)
    : Timing { threads := .start numCreated, requests := [], times := fun _ => [] } where
  length_eq := rfl
  unused := by simp
  kept := by simp
  interval := by simp
  next := by simp
  due := by simp [State.start]
  done := by simp [State.start]

theorem done_subset {s : State} : s.done ⊆ s.timers.batchTimers := by
  unfold State.done State.timers TimerQueue.State.batchTimers
  cases s.batch with
  | none => exact List.Subset.refl _
  | some b =>
    intro a ha
    rcases List.mem_map.mp ha with ⟨e, he, rfl⟩
    exact List.mem_map_of_mem (List.mem_of_mem_take he)

theorem keep (h : Timing t) (hrequests : t'.requests = t.requests) (htimes : t'.times = t.times)
    (hnames : t'.threads.names = t.threads.names) (hborn : t'.threads.born = t.threads.born)
    (hbatch : t'.threads.batch = t.threads.batch)
    (hheap : ∀ a u, t'.threads.queue.heap a = some u → t.threads.queue.heap a = some u)
    : Timing t' := by
  have hdone : t'.threads.done = t.threads.done := by
    unfold State.done
    rw [hbatch]
  constructor
  . rw [hrequests, hnames]
    exact h.length_eq
  . rw [hnames, htimes]
    exact h.unused
  . rw [hrequests, htimes]
    exact h.kept
  . rw [hrequests, hborn]
    intro a u r hu
    exact h.interval a u r (hheap a u hu)
  . rw [hrequests, hborn, hdone, htimes]
    intro a u r hu
    exact h.next a u r (hheap a u hu)
  . rw [hbatch]
    intro b hb e he u hu
    exact h.due b hb e he u (hheap _ u hu)
  . rw [hbatch, hdone, hrequests, hborn, htimes]
    exact h.done

theorem name (h : Timing t) (hinv : Inv t.threads) {a : Addr} {request : Request} {u : Timer}
    (hfresh : t.threads.queue.fresh a = true) (hrequests : t'.requests = t.requests ++ [request])
    (htimes : t'.times = t.times)
    (hnames : t'.threads.names = (t.threads.name a).names)
    (hborn : t'.threads.born = (t.threads.name a).born)
    (hbatch : t'.threads.batch = t.threads.batch)
    (hheap : t'.threads.queue.heap = Function.update t.threads.queue.heap a (some u))
    (hwhen : u.expiration = request.when) (hinterval : u.interval = request.interval)
    : Timing t' := by
  have hdone : t'.threads.done = t.threads.done := by
    unfold State.done
    rw [hbatch]
  have hlength : t'.threads.names.length = t.threads.names.length + 1 := by
    rw [hnames]
    simp [State.name]
  have hself : t'.threads.born a = t.threads.names.length := by
    rw [hborn]
    exact Function.update_self _ _ _
  have hother : ∀ b, b ≠ a → t'.threads.born b = t.threads.born b := by
    intro b hb
    rw [hborn]
    exact Function.update_of_ne hb _ _
  have hlast : t'.requests[t.threads.names.length]? = some request := by
    rw [hrequests, ← h.length_eq]
    simp
  have hbefore : ∀ k r, k < t.threads.names.length → t'.requests[k]? = some r →
      t.requests[k]? = some r := by
    intro k r hk hr
    rw [hrequests, List.getElem?_append_left (by rw [h.length_eq]; exact hk)] at hr
    exact hr
  have hborn_lt : ∀ b v, t.threads.queue.heap b = some v →
      t.threads.born b < t.threads.names.length := by
    intro b v hv
    exact (List.getElem?_eq_some_iff.mp (hinv.named b v hv)).1
  have hbatch_ne : ∀ b ∈ t.threads.timers.batchTimers, b ≠ a := by
    intro b hb heq
    rcases hinv.queue.batch_live b (List.mem_append_left _ hb) with ⟨v, hv⟩
    rw [heq, heap_of_fresh hfresh] at hv
    cases hv
  have hold : ∀ b v, t'.threads.queue.heap b = some v → b ≠ a →
      t.threads.queue.heap b = some v := by
    intro b v hv hb
    rw [hheap, Function.update_of_ne hb] at hv
    exact hv
  constructor
  . rw [hrequests, hlength, List.length_append, h.length_eq]
    rfl
  . rw [hlength, htimes]
    intro k hk
    exact h.unused k (by omega)
  . rw [htimes]
    intro k r hr
    by_cases hk : k < t.threads.names.length
    . exact h.kept k r (hbefore k r hk hr)
    . rw [h.unused k (by omega)]
      exact Request.kept_nil r
  . intro b v r hv hr
    by_cases hb : b = a
    . rw [hb, hheap, Function.update_self] at hv
      rw [hb, hself, hlast] at hr
      cases hv
      cases hr
      exact hinterval
    . have hv := hold b v hv hb
      rw [hother b hb] at hr
      exact h.interval b v r hv (hbefore _ r (hborn_lt b v hv) hr)
  . intro b v r hv hr hnot
    rw [htimes]
    by_cases hb : b = a
    . rw [hb, hheap, Function.update_self] at hv
      rw [hb, hself, hlast] at hr
      cases hv
      cases hr
      rw [hb, hself, h.unused _ (Nat.le_refl _), hwhen]
      exact Request.next_nil request
    . have hv := hold b v hv hb
      rw [hother b hb] at hr ⊢
      rw [hdone] at hnot
      exact h.next b v r hv (hbefore _ r (hborn_lt b v hv) hr) hnot
  . rw [hbatch]
    intro b hb e he v hv
    have hmem : e.timer ∈ t.threads.timers.batchTimers := by
      simp only [State.timers, TimerQueue.State.batchTimers, hb]
      exact List.mem_map_of_mem he
    exact h.due b hb e he v (hold _ v hv (hbatch_ne _ hmem))
  . rw [hbatch, hdone, htimes]
    intro b hb c hc r hr
    have hmem := done_subset hc
    rcases hinv.queue.batch_live c (List.mem_append_left _ hmem) with ⟨v, hv⟩
    rw [hother c (hbatch_ne c hmem)] at hr ⊢
    exact h.done b hb c hc r (hbefore _ r (hborn_lt c v hv) hr)

theorem handleRead {now : Timestamp} {expired : List Entry} {queue : TimerQueue} (h : Timing t)
    (hinv : Inv t.threads) (hb : t.threads.batch = none)
    (hbegin : t.threads.queue.handleReadBegin now = .ok (expired, queue))
    (hrequests : t'.requests = t.requests) (htimes : t'.times = t.times)
    (hnames : t'.threads.names = t.threads.names) (hborn : t'.threads.born = t.threads.born)
    (hqueue : t'.threads.queue = queue)
    (hbatch : t'.threads.batch = some { now, expired, ran := 0 })
    : Timing t' := by
  rcases handleReadBegin_spec hinv.queue now with ⟨active, heq, -⟩
  rw [heq, Except.ok.injEq, Prod.mk.injEq] at hbegin
  have hheap : t'.threads.queue.heap = t.threads.queue.heap := by
    rw [hqueue, ← hbegin.2]
  have hnone : t.threads.done = [] := by
    unfold State.done
    rw [hb]
  have hdone : t'.threads.done = [] := by
    unfold State.done
    rw [hbatch]
    rfl
  constructor
  . rw [hrequests, hnames]
    exact h.length_eq
  . rw [hnames, htimes]
    exact h.unused
  . rw [hrequests, htimes]
    exact h.kept
  . rw [hheap, hrequests, hborn]
    exact h.interval
  . rw [hheap, hrequests, hborn, hdone, htimes]
    rw [← hnone]
    exact h.next
  . rw [hheap, hbatch]
    intro b hb e he u hu
    cases hb
    rw [← hbegin.1] at he
    have hmem : e ∈ t.threads.queue.timers := by
      rw [← OrdSet.mem_toList, ← OrdSet.lowerBound_append _ (.mk now uintptrMax)]
      exact List.mem_append_left _ he
    rcases hinv.queue.timers_live e hmem with ⟨v, hv, hmk⟩
    rw [hu] at hv
    cases hv
    have hwhen : e.when = u.expiration := congrArg Entry.when hmk
    rw [← hwhen]
    exact HandleRead.when_le_of_mem_lowerBound he
  . rw [hdone]
    simp

section Callback

variable {b : Batch} {e : Entry}

theorem done_callback (hb : t.threads.batch = some b) (he : b.expired[b.ran]? = some e)
    (hbatch : t'.threads.batch = some { b with ran := b.ran + 1 })
    : t'.threads.done = t.threads.done ++ [e.timer] := by
  unfold State.done
  rw [hbatch, hb]
  dsimp only
  rw [List.take_add_one, he]
  simp

theorem notMem_done (hinv : Inv t.threads) (hb : t.threads.batch = some b)
    (he : b.expired[b.ran]? = some e)
    : e.timer ∉ t.threads.done := by
  have hnodup := (List.nodup_append'.mp hinv.queue.batch_nodup).1
  simp only [State.timers, TimerQueue.State.batchTimers, hb] at hnodup
  rw [← List.take_append_drop b.ran b.expired, List.map_append, List.nodup_append'] at hnodup
  unfold State.done
  rw [hb]
  intro hmem
  apply hnodup.2.2 hmem
  apply List.mem_map_of_mem
  apply List.mem_of_getElem? (i := 0)
  rw [List.getElem?_drop, Nat.add_zero]
  exact he

theorem born_ne (hinv : Inv t.threads) {a a' : Addr} {u u' : Timer}
    (hu : t.threads.queue.heap a = some u) (hu' : t.threads.queue.heap a' = some u') (hne : a ≠ a')
    : t.threads.born a ≠ t.threads.born a' := by
  intro heq
  have hname := hinv.named a u hu
  rw [heq, hinv.named a' u' hu', Option.some.injEq, TimerId.mk.injEq] at hname
  exact hne hname.1.symm

theorem callback {u : Timer} (h : Timing t) (hinv : Inv t.threads)
    (hb : t.threads.batch = some b) (he : b.expired[b.ran]? = some e)
    (hu : t.threads.queue.heap e.timer = some u)
    (hrequests : t'.requests = t.requests)
    (htimes : t'.times = Function.update t.times (t.threads.born e.timer)
      (t.times (t.threads.born e.timer) ++ [b.now]))
    (hnames : t'.threads.names = t.threads.names) (hborn : t'.threads.born = t.threads.born)
    (hqueue : t'.threads.queue = t.threads.queue)
    (hbatch : t'.threads.batch = some { b with ran := b.ran + 1 })
    : Timing t' := by
  have hdone := done_callback hb he hbatch
  have hnot := notMem_done hinv hb he
  have hmem : e ∈ b.expired := List.mem_of_getElem? he
  have hdue := h.due b hb e hmem u hu
  have hlt : t.threads.born e.timer < t.threads.names.length :=
    (List.getElem?_eq_some_iff.mp (hinv.named _ u hu)).1
  have hother : ∀ a v, t.threads.queue.heap a = some v → a ≠ e.timer →
      t'.times (t.threads.born a) = t.times (t.threads.born a) := by
    intro a v hv ha
    rw [htimes]
    exact Function.update_of_ne (born_ne hinv hv hu ha) _ _
  constructor
  . rw [hrequests, hnames]
    exact h.length_eq
  . rw [hnames, htimes]
    intro k hk
    rw [Function.update_of_ne (by omega)]
    exact h.unused k hk
  . rw [hrequests, htimes]
    intro k r hr
    by_cases hk : k = t.threads.born e.timer
    . rw [hk] at hr
      rw [hk, Function.update_self]
      exact (h.kept _ r hr).concat (h.next _ u r hu hr hnot) hdue
    . rw [Function.update_of_ne hk]
      exact h.kept k r hr
  . rw [hqueue, hrequests, hborn]
    exact h.interval
  . rw [hqueue, hrequests, hborn, hdone]
    intro a v r hv hr hnotdone
    rw [List.mem_append, List.mem_singleton, not_or] at hnotdone
    rw [hother a v hv hnotdone.2]
    exact h.next a v r hv hr hnotdone.1
  . rw [hqueue, hbatch]
    intro b' hb'
    cases hb'
    exact h.due b hb
  . rw [hbatch, hdone, hrequests, hborn]
    intro b' hb' a ha r hr
    cases hb'
    by_cases heq : a = e.timer
    . rw [heq] at hr ⊢
      have hnext := h.next _ u r hu hr hnot
      refine ⟨le_trans hnext.first hdue, ?_⟩
      rw [htimes, Function.update_self]
      intro now hnow
      rcases List.mem_append.mp hnow with hnow | hnow
      . rcases hnext.again now hnow with ⟨hpositive, hgap⟩
        have hnonneg := r.interval.nonneg hpositive
        exact le_trans (Int.le_add_of_nonneg_right hnonneg) (le_trans hgap hdue)
      . rw [List.mem_singleton.mp hnow]
    . have ha : a ∈ t.threads.done := by
        rw [List.mem_append, List.mem_singleton] at ha
        exact ha.resolve_right heq
      rcases hinv.queue.batch_live a (List.mem_append_left _ (done_subset ha)) with ⟨v, hv⟩
      rw [hother a v hv heq]
      exact h.done b hb a ha r hr

end Callback

theorem handleReadEnd {b : Batch} {clock : Timestamp} {queue : TimerQueue} (h : Timing t)
    (hinv : Inv t.threads) (hb : t.threads.batch = some b) (hran : b.ran = b.expired.length)
    (hend : t.threads.queue.handleReadEnd b.expired b.now clock = .ok queue)
    (hrequests : t'.requests = t.requests) (htimes : t'.times = t.times)
    (hnames : t'.threads.names = t.threads.names) (hborn : t'.threads.born = t.threads.born)
    (hqueue : t'.threads.queue = queue) (hbatch : t'.threads.batch = none)
    : Timing t' := by
  have hdone : t.threads.done = b.expired.map Entry.timer := by
    unfold State.done
    rw [hb]
    dsimp only
    rw [hran, List.take_length]
  have hnone : t'.threads.done = [] := by
    unfold State.done
    rw [hbatch]
  have hqueue_inv := hinv.queue
  simp only [State.timers, TimerQueue.State.batchTimers, hb] at hqueue_inv
  -- A timer of the batch is restarted, and all other timers stay as they are.
  have hcases : ∀ a u', t'.threads.queue.heap a = some u' →
      a ∉ t.threads.done ∧ t.threads.queue.heap a = some u'
      ∨ a ∈ t.threads.done ∧ ∃ u, t.threads.queue.heap a = some u ∧ u.repeats = true
        ∧ u' = { u with expiration := b.now.addTime u.interval.micros } := by
    intro a u' hu'
    rw [hqueue, HandleRead.handleReadEnd_heap hqueue_inv hend] at hu'
    rw [hdone]
    split at hu'
    . next hmem =>
      rcases Option.bind_eq_some_iff.mp hu' with ⟨u, hu, hsettled⟩
      rcases HandleRead.settled_eq_some.mp hsettled with ⟨hrepeats, -, heq⟩
      exact Or.inr ⟨hmem, u, hu, hrepeats, heq⟩
    . next hmem => exact Or.inl ⟨hmem, hu'⟩
  constructor
  . rw [hrequests, hnames]
    exact h.length_eq
  . rw [hnames, htimes]
    exact h.unused
  . rw [hrequests, htimes]
    exact h.kept
  . rw [hrequests, hborn]
    intro a u' r hu' hr
    rcases hcases a u' hu' with ⟨-, hu⟩ | ⟨-, u, hu, -, heq⟩
    . exact h.interval a u' r hu hr
    . rw [heq]
      exact h.interval a u r hu hr
  . rw [hrequests, hborn, htimes]
    intro a u' r hu' hr _
    rcases hcases a u' hu' with ⟨hnot, hu⟩ | ⟨hmem, u, hu, hrepeats, heq⟩
    . exact h.next a u' r hu hr hnot
    . have hinterval := h.interval a u r hu hr
      have hpositive : r.interval.positive = true := by
        rw [← hinterval]
        exact hrepeats
      have hnonneg := r.interval.nonneg hpositive
      rcases h.done b hb a hmem r hr with ⟨hfirst, hlast⟩
      rw [heq, hinterval]
      constructor
      . exact le_trans hfirst (Int.le_add_of_nonneg_right hnonneg)
      . intro now hnow
        exact ⟨hpositive, Int.add_le_add_right (hlast now hnow) _⟩
  . rw [hbatch]
    simp
  . rw [hnone]
    simp

theorem heap_of_cancelInLoop {q q' : TimerQueue} {batch : List Addr} {timerId : TimerId}
    (h : q.Inv batch) (hcancel : q.cancelInLoop timerId = .ok q') {a : Addr} {u : Timer}
    (hu : q'.heap a = some u)
    : q.heap a = some u := by
  by_cases hid : ActiveTimer.mk timerId.timer timerId.sequence ∈ q.activeTimers
  . rcases cancelInLoop_of_active h hid with ⟨t, -, -, -, heq⟩
    rw [heq, Except.ok.injEq] at hcancel
    rw [← hcancel] at hu
    by_cases ha : a = timerId.timer
    . rw [ha, setTimer_heap_self] at hu
      cases hu
    . rw [setTimer_heap_of_ne ha] at hu
      exact hu
  . rw [cancelInLoop_inactive h hid, Except.ok.injEq] at hcancel
    rw [← hcancel] at hu
    split at hu
    . exact hu
    . exact hu

theorem step {e : Event} {s' : State} (h : Timing t) (hinv : Inv t.threads)
    (hstep : Step t.threads e s')
    : Timing (t.observe e s') := by
  have hsame : e.request = none → t.timesAfter e = t.times →
      s'.names = t.threads.names → s'.born = t.threads.born → s'.batch = t.threads.batch →
      (∀ a u, s'.queue.heap a = some u → t.threads.queue.heap a = some u) →
      Timing (t.observe e s') := by
    intro hrequest htimes hnames hborn hbatch hheap
    apply h.keep _ htimes hnames hborn hbatch hheap
    simp [Timed.observe, hrequest]
  cases hstep with
  | newTimer hcall hfresh => exact h.name hinv hfresh rfl rfl rfl rfl rfl rfl rfl rfl
  | runInLoop hfind hloop => exact hsame rfl rfl rfl rfl rfl fun _ _ => id
  | readSequence hfind => exact hsame rfl rfl rfl rfl rfl fun _ _ => id
  | @addTimer timer when interval clock queue u hfresh hadd hderef =>
    have hheap := (heap_addTimerInLoop (hinv.queue.newTimer hfresh when interval) hadd).1
    exact h.name hinv hfresh rfl rfl rfl rfl rfl hheap rfl rfl
  | cancelDirectly hissued hcancel =>
    exact hsame rfl rfl rfl rfl rfl fun a u => heap_of_cancelInLoop hinv.queue hcancel
  | cancel hissued hloop => exact hsame rfl rfl rfl rfl rfl fun _ _ => id
  | call hother hloop => exact hsame rfl rfl rfl rfl rfl fun _ _ => id
  | loop hbatch hwaiting => exact hsame rfl rfl rfl rfl rfl fun _ _ => id
  | insertQueued hbatch hwaiting hadd =>
    have hheap := (heap_addTimerInLoop (hinv.queue_of_add hwaiting) hadd).1
    apply hsame rfl rfl rfl rfl rfl
    intro a u hu
    dsimp only at hu
    rw [hheap] at hu
    exact hu
  | cancelQueued hbatch hstart hwaiting hcancel =>
    exact hsame rfl rfl rfl rfl rfl fun a u => heap_of_cancelInLoop hinv.queue hcancel
  | @timer event timers htimer hstep =>
    cases TimerQueue.Step.of_step hstep with
    | add hfresh hadd => contradiction
    | cancel hcancel => contradiction
    | created => exact hsame rfl rfl rfl rfl rfl fun _ _ => id
    | fire harmed => exact hsame rfl rfl rfl rfl rfl fun _ _ => id
    | handleRead hb hbegin =>
      exact h.handleRead hinv hb hbegin (List.append_nil _) rfl rfl rfl rfl rfl
    | @callback b e u hb he hderef =>
      change t.threads.batch = some b at hb
      have hnext : t.threads.nextCallback = some e := by
        unfold State.nextCallback
        rw [hb]
        exact he
      have hu : t.threads.queue.heap e.timer = some u := by
        simp only [TimerQueue.deref] at hderef
        split at hderef
        . next heq =>
          cases hderef
          exact heq
        . cases hderef
      apply h.callback hinv hb he hu (List.append_nil _)
      . simp only [Timed.observe, Timed.timesAfter, hb, hnext]
      . rfl
      . rfl
      . rfl
      . rfl
    | handleReadEnd hb hran hend =>
      exact h.handleReadEnd hinv hb hran hend (List.append_nil _) rfl rfl rfl rfl rfl

end Timing

end Threads

end TimerQueue
