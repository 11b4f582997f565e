import Mmuduo.TimerQueue.Impl
import Mathlib.Tactic.Tauto

@[simp]
theorem Entry.timer_mk (w : Timestamp) (a : Addr) : (Entry.mk w a).timer = a := by
  rfl

theorem Entry.mk_ne {a b : Addr} (h : a ≠ b) (v w : Timestamp) : Entry.mk v a ≠ Entry.mk w b := by
  intro heq
  exact h (congrArg Entry.timer heq)

def ActiveTimer.timer (x : ActiveTimer) : Addr :=
  (ofLex x).1

@[simp]
theorem ActiveTimer.timer_mk (a : Addr) (n : Int) : (ActiveTimer.mk a n).timer = a := by
  rfl

theorem ActiveTimer.mk_ne {a b : Addr} (h : a ≠ b) (m n : Int)
    : ActiveTimer.mk a m ≠ ActiveTimer.mk b n := by
  intro heq
  exact h (congrArg ActiveTimer.timer heq)

namespace TimerQueue

@[simp]
theorem setTimer_heap_self (q : TimerQueue) (a : Addr) (t : Option Timer)
    : (q.setTimer a t).heap a = t := by
  simp [setTimer]

@[simp]
theorem setTimer_timers (q : TimerQueue) (a : Addr) (t : Option Timer)
    : (q.setTimer a t).timers = q.timers := by
  rfl

@[simp]
theorem setTimer_activeTimers (q : TimerQueue) (a : Addr) (t : Option Timer)
    : (q.setTimer a t).activeTimers = q.activeTimers := by
  rfl

theorem setTimer_heap_of_ne {q : TimerQueue} {a b : Addr} {t : Option Timer} (h : b ≠ a)
    : (q.setTimer a t).heap b = q.heap b := by
  simp [setTimer, h]

def index (q : TimerQueue) (a : Addr) (t : Timer) : TimerQueue :=
  { q with
    timers := (q.timers.insert (.mk t.expiration a)).2
    activeTimers := (q.activeTimers.insert (.mk a t.sequence)).2 }

def unindex (q : TimerQueue) (a : Addr) (t : Timer) : TimerQueue :=
  { q with
    timers := (q.timers.erase (.mk t.expiration a)).2
    activeTimers := (q.activeTimers.erase (.mk a t.sequence)).2 }

structure Inv (q : TimerQueue) (batch : List Addr) : Prop where
  timers_live : ∀ e ∈ q.timers, ∃ t, q.heap e.timer = some t ∧ e = .mk t.expiration e.timer
  active_live : ∀ x ∈ q.activeTimers, ∃ t, q.heap x.timer = some t ∧ x = .mk x.timer t.sequence
  agree : ∀ a t, q.heap a = some t →
    (Entry.mk t.expiration a ∈ q.timers ↔ ActiveTimer.mk a t.sequence ∈ q.activeTimers)
  owned : ∀ a t, q.heap a = some t → (ActiveTimer.mk a t.sequence ∈ q.activeTimers ↔ a ∉ batch)
  batch_live : ∀ a ∈ batch, ∃ t, q.heap a = some t
  batch_nodup : batch.Nodup
  size_eq : q.timers.size = q.activeTimers.size
  addr_lt : ∀ a t, q.heap a = some t → a < uintptrMax

structure Unindexed (q : TimerQueue) (a : Addr) : Prop where
  timers : ∀ e ∈ q.timers, e.timer ≠ a
  active : ∀ x ∈ q.activeTimers, x.timer ≠ a

namespace Inv

variable {q : TimerQueue} {batch : List Addr} {a : Addr} {t : Timer}

theorem unindexed_of_fresh (h : q.Inv batch) (ha : q.heap a = none) : q.Unindexed a := by
  constructor
  . intro e he heq
    rcases h.timers_live e he with ⟨t, ht, -⟩
    simp [heq, ha] at ht
  . intro x hx heq
    rcases h.active_live x hx with ⟨t, ht, -⟩
    simp [heq, ha] at ht

theorem unindexed_of_batch (h : q.Inv batch) (ha : a ∈ batch) : q.Unindexed a := by
  constructor
  . intro e he heq
    rcases h.timers_live e he with ⟨t, ht, hmk⟩
    rw [heq] at ht hmk
    rw [hmk, h.agree a t ht, h.owned a t ht] at he
    exact he ha
  . intro x hx heq
    rcases h.active_live x hx with ⟨t, ht, hmk⟩
    rw [heq] at ht hmk
    rw [hmk, h.owned a t ht] at hx
    exact hx ha

theorem setTimer (h : q.Inv batch) (ha : q.Unindexed a) (hlt : a < uintptrMax) {v : Option Timer}
    {batch' : List Addr} (hnodup : batch'.Nodup)
    (hmem : ∀ b, b ∈ batch' ↔ if b = a then v.isSome = true else b ∈ batch)
    : (q.setTimer a v).Inv batch' := by
  constructor
  . intro e he
    rw [setTimer_heap_of_ne (ha.timers e he)]
    apply h.timers_live e he
  . intro x hx
    rw [setTimer_heap_of_ne (ha.active x hx)]
    apply h.active_live x hx
  . intro b t ht
    by_cases hb : b = a
    . have hn : Entry.mk t.expiration b ∉ q.timers := fun he => ha.timers _ he hb
      have hm : ActiveTimer.mk b t.sequence ∉ q.activeTimers := fun hx => ha.active _ hx hb
      simp [hn, hm]
    . rw [setTimer_heap_of_ne hb] at ht
      apply h.agree b t ht
  . intro b t ht
    rw [hmem]
    by_cases hb : b = a
    . have hm : ActiveTimer.mk a t.sequence ∉ q.activeTimers := fun hx => ha.active _ hx rfl
      rw [hb, setTimer_heap_self] at ht
      simp [hm, hb, ht]
    . rw [setTimer_heap_of_ne hb] at ht
      rw [if_neg hb]
      apply h.owned b t ht
  . intro b hb
    rw [hmem] at hb
    split at hb
    . next heq =>
      rw [heq, setTimer_heap_self]
      apply Option.isSome_iff_exists.mp hb
    . next hne =>
      rw [setTimer_heap_of_ne hne]
      apply h.batch_live b hb
  . exact hnodup
  . apply h.size_eq
  . intro b t ht
    by_cases hb : b = a
    . rw [hb]
      exact hlt
    . rw [setTimer_heap_of_ne hb] at ht
      apply h.addr_lt b t ht

theorem congr (h : q.Inv batch) {q' : TimerQueue} (hheap : q'.heap = q.heap)
    (htimers : q'.timers = q.timers) (hactive : q'.activeTimers = q.activeTimers)
    : q'.Inv batch := by
  rcases h with ⟨h₁, h₂, h₃, h₄, h₅, h₆, h₇, h₈⟩
  constructor <;> simpa only [hheap, htimers, hactive]

theorem perm (h : q.Inv batch) {batch' : List Addr} (hperm : batch.Perm batch') : q.Inv batch' := by
  rcases h with ⟨h₁, h₂, h₃, h₄, h₅, h₆, h₇, h₈⟩
  refine ⟨h₁, h₂, h₃, ?_, ?_, hperm.nodup_iff.mp h₆, h₇, h₈⟩
  . intro b t ht
    rw [h₄ b t ht, hperm.mem_iff]
  . intro b hb
    exact h₅ b (hperm.mem_iff.mpr hb)

theorem newTimer (h : q.Inv batch) (ha : q.fresh a) (w : Timestamp) (i : TimerInterval)
    : (q.newTimer a w i).Inv (a :: batch) := by
  simp only [fresh, Bool.and_eq_true, Option.isNone_iff_eq_none, decide_eq_true_eq] at ha
  rcases ha with ⟨⟨hnone, -⟩, hlt⟩
  have hbatch : a ∉ batch := by
    intro hmem
    rcases h.batch_live a hmem with ⟨t, ht⟩
    simp [hnone] at ht
  have hset : (q.setTimer a (some (Timer.new q.numCreated w i))).Inv (a :: batch) := by
    apply h.setTimer (h.unindexed_of_fresh hnone) hlt
    . exact List.nodup_cons.mpr ⟨hbatch, h.batch_nodup⟩
    . intro b
      by_cases hb : b = a
      . simp [hb]
      . simp [hb]
  exact hset.congr rfl rfl rfl

theorem restart (h : q.Inv (a :: batch)) (ht : q.heap a = some t) (now : Timestamp)
    : (q.setTimer a (some (t.restart now))).Inv (a :: batch) := by
  apply h.setTimer (h.unindexed_of_batch List.mem_cons_self) (h.addr_lt a t ht) h.batch_nodup
  intro b
  by_cases hb : b = a
  . simp [hb]
  . simp [hb]

theorem deleteTimer (h : q.Inv (a :: batch)) (ht : q.heap a = some t)
    : (q.setTimer a none).Inv batch := by
  have hnodup := List.nodup_cons.mp h.batch_nodup
  apply h.setTimer (h.unindexed_of_batch List.mem_cons_self) (h.addr_lt a t ht) hnodup.2
  intro b
  by_cases hb : b = a
  . simp [hb, hnodup.1]
  . simp [hb]

theorem index (h : q.Inv (a :: batch)) (ht : q.heap a = some t)
    : (q.index a t).Inv batch := by
  have hun := h.unindexed_of_batch List.mem_cons_self
  have hn : Entry.mk t.expiration a ∉ q.timers := fun he => hun.timers _ he rfl
  have hm : ActiveTimer.mk a t.sequence ∉ q.activeTimers := fun hx => hun.active _ hx rfl
  have hnodup := List.nodup_cons.mp h.batch_nodup
  constructor
  . intro e he
    dsimp only [TimerQueue.index] at he ⊢
    rw [OrdSet.mem_insert hn] at he
    rcases he with rfl | he
    . exact ⟨t, ht, rfl⟩
    . apply h.timers_live e he
  . intro x hx
    dsimp only [TimerQueue.index] at hx ⊢
    rw [OrdSet.mem_insert hm] at hx
    rcases hx with rfl | hx
    . exact ⟨t, ht, rfl⟩
    . apply h.active_live x hx
  . intro b u hu
    dsimp only [TimerQueue.index] at hu ⊢
    rw [OrdSet.mem_insert hn, OrdSet.mem_insert hm]
    by_cases hb : b = a
    . have : t = u := by simpa [hb, ht] using hu
      simp [hb, this]
    . rw [or_iff_right (Entry.mk_ne hb _ _)]
      rw [or_iff_right (ActiveTimer.mk_ne hb _ _)]
      apply h.agree b u hu
  . intro b u hu
    dsimp only [TimerQueue.index] at hu ⊢
    rw [OrdSet.mem_insert hm]
    by_cases hb : b = a
    . have : t = u := by simpa [hb, ht] using hu
      simp [hb, this, hnodup.1]
    . rw [or_iff_right (ActiveTimer.mk_ne hb _ _)]
      rw [h.owned b u hu]
      simp [hb]
  . intro b hb
    apply h.batch_live b (List.mem_cons_of_mem a hb)
  . exact hnodup.2
  . dsimp only [TimerQueue.index]
    rw [OrdSet.size_insert hn, OrdSet.size_insert hm, h.size_eq]
  . apply h.addr_lt

theorem unindex (h : q.Inv batch) (ht : q.heap a = some t)
    (ha : ActiveTimer.mk a t.sequence ∈ q.activeTimers)
    : (q.unindex a t).Inv (a :: batch) := by
  have he := (h.agree a t ht).mpr ha
  have hb := (h.owned a t ht).mp ha
  constructor
  . intro e hmem
    dsimp only [TimerQueue.unindex] at hmem ⊢
    rw [OrdSet.mem_erase he] at hmem
    apply h.timers_live e hmem.2
  . intro x hmem
    dsimp only [TimerQueue.unindex] at hmem ⊢
    rw [OrdSet.mem_erase ha] at hmem
    apply h.active_live x hmem.2
  . intro b u hu
    dsimp only [TimerQueue.unindex] at hu ⊢
    rw [OrdSet.mem_erase he, OrdSet.mem_erase ha]
    by_cases hb : b = a
    . have : t = u := by simpa [hb, ht] using hu
      simp [hb, this]
    . rw [and_iff_right (Entry.mk_ne hb _ _)]
      rw [and_iff_right (ActiveTimer.mk_ne hb _ _)]
      apply h.agree b u hu
  . intro b u hu
    dsimp only [TimerQueue.unindex] at hu ⊢
    rw [OrdSet.mem_erase ha]
    by_cases hb : b = a
    . have : t = u := by simpa [hb, ht] using hu
      simp [hb, this]
    . rw [and_iff_right (ActiveTimer.mk_ne hb _ _)]
      rw [h.owned b u hu]
      simp [hb]
  . intro b hmem
    rw [List.mem_cons] at hmem
    rcases hmem with rfl | hmem
    . exact ⟨t, ht⟩
    . apply h.batch_live b hmem
  . exact List.nodup_cons.mpr ⟨hb, h.batch_nodup⟩
  . dsimp only [TimerQueue.unindex]
    rw [OrdSet.size_erase he, OrdSet.size_erase ha, h.size_eq]
  . apply h.addr_lt

end Inv

section Operations

variable {q : TimerQueue} {batch : List Addr} {a : Addr}

theorem heap_of_fresh (h : q.fresh a = true) : q.heap a = none := by
  simp only [fresh, Bool.and_eq_true, Option.isNone_iff_eq_none] at h
  exact h.1.1

theorem deref_eq {t : Timer} (ht : q.heap a = some t) : q.deref a = .ok t := by
  simp [deref, ht]

theorem deleteTimer_eq {t : Timer} (ht : q.heap a = some t)
    : q.deleteTimer a = .ok (q.setTimer a none) := by
  simp [deleteTimer, ht]

@[simp]
theorem ok_bind {α β : Type} (x : α) (f : α → Except Fault β) : (Except.ok x >>= f) = f x := by
  rfl

theorem assertSizes_eq (h : q.Inv batch) : q.assertSizes = .ok () := by
  apply assert_pos h.size_eq

theorem insert_eq {t : Timer} (h : q.Inv (a :: batch)) (ht : q.heap a = some t)
    : q.insert a = .ok (q.earliestChanged t.expiration, q.index a t) := by
  have hun := h.unindexed_of_batch List.mem_cons_self
  have hn : Entry.mk t.expiration a ∉ q.timers := fun he => hun.timers _ he rfl
  have hm : ActiveTimer.mk a t.sequence ∉ q.activeTimers := fun hx => hun.active _ hx rfl
  unfold insert
  rw [assertSizes_eq h, ok_bind]
  rw [deref_eq ht, ok_bind]
  dsimp only
  rw [assert_pos (OrdSet.insert_fst hn), ok_bind]
  rw [assert_pos (OrdSet.insert_fst hm), ok_bind]
  have hassert := assertSizes_eq (h.index ht)
  unfold index at hassert ⊢
  rw [hassert]
  rfl

theorem addTimerInLoop_eq {t : Timer} (h : q.Inv (a :: batch)) (ht : q.heap a = some t)
    (clock : Timestamp)
    : q.addTimerInLoop a clock =
      .ok (if q.earliestChanged t.expiration then
        (q.index a t).resetTimerfd t.expiration clock
      else
        q.index a t) := by
  unfold addTimerInLoop
  rw [insert_eq h ht, ok_bind]
  dsimp only
  split
  . have ht' : (q.index a t).heap a = some t := ht
    rw [deref_eq ht', ok_bind]
    rfl
  . rfl

theorem addTimerInLoop_spec (h : q.Inv (a :: batch)) (clock : Timestamp)
    : ∃ q', q.addTimerInLoop a clock = .ok q' ∧ q'.Inv batch := by
  rcases h.batch_live a List.mem_cons_self with ⟨t, ht⟩
  have hinv := h.index ht
  refine ⟨_, addTimerInLoop_eq h ht clock, ?_⟩
  split
  . exact hinv.congr rfl rfl rfl
  . exact hinv

theorem heap_addTimerInLoop {q' : TimerQueue} {clock : Timestamp} (h : q.Inv (a :: batch))
    (hadd : q.addTimerInLoop a clock = .ok q')
    : q'.heap = q.heap ∧ q'.callingExpiredTimers = q.callingExpiredTimers
      ∧ q'.cancelingTimers = q.cancelingTimers := by
  rcases h.batch_live a List.mem_cons_self with ⟨t, ht⟩
  rw [addTimerInLoop_eq h ht, Except.ok.injEq] at hadd
  rw [← hadd]
  split
  . exact ⟨rfl, rfl, rfl⟩
  . exact ⟨rfl, rfl, rfl⟩

theorem inv_addTimerInLoop {q' : TimerQueue} {clock : Timestamp} (h : q.Inv (a :: batch))
    (hadd : q.addTimerInLoop a clock = .ok q')
    : q'.Inv batch := by
  rcases addTimerInLoop_spec h clock with ⟨q₁, heq, hinv⟩
  rw [heq, Except.ok.injEq] at hadd
  rw [← hadd]
  exact hinv

theorem numCreated_addTimerInLoop {q' : TimerQueue} {clock : Timestamp} (h : q.Inv (a :: batch))
    (hadd : q.addTimerInLoop a clock = .ok q')
    : q'.numCreated = q.numCreated := by
  rcases h.batch_live a List.mem_cons_self with ⟨t, ht⟩
  rw [addTimerInLoop_eq h ht, Except.ok.injEq] at hadd
  rw [← hadd]
  split
  . rfl
  . rfl

theorem cancelInLoop_active {t : Timer} (h : q.Inv batch) (ht : q.heap a = some t)
    (ha : ActiveTimer.mk a t.sequence ∈ q.activeTimers)
    : q.cancelInLoop ⟨a, t.sequence⟩ = .ok ((q.unindex a t).setTimer a none) := by
  have hdelete : ∀ timers, { q with timers }.deleteTimer a = .ok ({ q with timers }.setTimer a none) :=
    fun _ => deleteTimer_eq ht
  have hassert : ((q.unindex a t).setTimer a none).assertSizes = .ok () :=
    assertSizes_eq ((h.unindex ht ha).deleteTimer ht)
  unfold cancelInLoop
  rw [assertSizes_eq h, ok_bind]
  dsimp only
  rw [if_pos ha]
  rw [deref_eq ht, ok_bind]
  rw [assert_pos (OrdSet.erase_fst ((h.agree a t ht).mpr ha)), ok_bind]
  rw [hdelete, ok_bind, pure_bind]
  unfold unindex setTimer at hassert ⊢
  rw [hassert]
  rfl

theorem cancelInLoop_inactive {timerId : TimerId} (h : q.Inv batch)
    (hid : ActiveTimer.mk timerId.timer timerId.sequence ∉ q.activeTimers)
    : q.cancelInLoop timerId =
      .ok (if q.callingExpiredTimers then
        { q with
          cancelingTimers :=
            (q.cancelingTimers.insert (.mk timerId.timer timerId.sequence)).2 }
      else
        q) := by
  unfold cancelInLoop
  rw [assertSizes_eq h, ok_bind]
  dsimp only
  rw [if_neg hid]
  split
  . rw [pure_bind, assertSizes_eq]
    . rfl
    . exact h.congr rfl rfl rfl
  . rw [pure_bind, assertSizes_eq h]
    rfl

theorem cancelInLoop_of_active {timerId : TimerId} (h : q.Inv batch)
    (hid : ActiveTimer.mk timerId.timer timerId.sequence ∈ q.activeTimers)
    : ∃ t, q.heap timerId.timer = some t ∧ timerId.sequence = t.sequence
      ∧ ActiveTimer.mk timerId.timer t.sequence ∈ q.activeTimers
      ∧ q.cancelInLoop timerId = .ok ((q.unindex timerId.timer t).setTimer timerId.timer none) := by
  rcases h.active_live _ hid with ⟨t, ht, hmk⟩
  have hseq : timerId.sequence = t.sequence := congrArg (fun x => (ofLex x).2) hmk
  rw [ActiveTimer.timer_mk] at ht
  rw [hseq] at hid
  refine ⟨t, ht, hseq, hid, ?_⟩
  rw [← cancelInLoop_active h ht hid, ← hseq]

theorem cancelInLoop_spec (h : q.Inv batch) (timerId : TimerId)
    : ∃ q', q.cancelInLoop timerId = .ok q' ∧ q'.Inv batch := by
  by_cases hid : ActiveTimer.mk timerId.timer timerId.sequence ∈ q.activeTimers
  . rcases cancelInLoop_of_active h hid with ⟨t, ht, -, hact, heq⟩
    exact ⟨_, heq, (h.unindex ht hact).deleteTimer ht⟩
  . refine ⟨_, cancelInLoop_inactive h hid, ?_⟩
    split
    . exact h.congr rfl rfl rfl
    . exact h

theorem inv_cancelInLoop {q' : TimerQueue} {timerId : TimerId} (h : q.Inv batch)
    (hcancel : q.cancelInLoop timerId = .ok q')
    : q'.Inv batch := by
  rcases cancelInLoop_spec h timerId with ⟨q₁, heq, hinv⟩
  rw [heq, Except.ok.injEq] at hcancel
  rw [← hcancel]
  exact hinv

theorem eraseActive_spec {heap : Addr → Option Timer} {active : OrdSet ActiveTimer}
    {expired : List Entry} (hnodup : (expired.map Entry.timer).Nodup)
    (hmem : ∀ e ∈ expired, ∃ t, heap e.timer = some t ∧ ActiveTimer.mk e.timer t.sequence ∈ active)
    (hlive : ∀ x ∈ active, ∃ t, heap x.timer = some t ∧ x = .mk x.timer t.sequence)
    : ∃ active', eraseActive heap active expired = .ok active'
      ∧ (∀ x, x ∈ active' ↔ x ∈ active ∧ x.timer ∉ expired.map Entry.timer)
      ∧ active'.size + expired.length = active.size := by
  induction expired generalizing active with
  | nil =>
    refine ⟨active, rfl, ?_, rfl⟩
    simp
  | cons e expired ih =>
    rw [List.map_cons, List.nodup_cons] at hnodup
    rcases hmem e List.mem_cons_self with ⟨t, ht, hact⟩
    have hsame : ∀ x ∈ active, x = .mk e.timer t.sequence ↔ x.timer = e.timer := by
      intro x hx
      rcases hlive x hx with ⟨u, hu, hmk⟩
      constructor
      . intro heq
        rw [heq, ActiveTimer.timer_mk]
      . intro heq
        rw [heq, ht, Option.some.injEq] at hu
        rw [hmk, heq, hu]
    have hmem' : ∀ f ∈ expired, ∃ t', heap f.timer = some t'
        ∧ ActiveTimer.mk f.timer t'.sequence ∈ (active.erase (.mk e.timer t.sequence)).2 := by
      intro f hf
      rcases hmem f (List.mem_cons_of_mem e hf) with ⟨u, hu, hactf⟩
      refine ⟨u, hu, ?_⟩
      rw [OrdSet.mem_erase hact]
      refine ⟨ActiveTimer.mk_ne ?_ _ _, hactf⟩
      intro heq
      exact hnodup.1 (heq ▸ List.mem_map_of_mem hf)
    have hlive' : ∀ x ∈ (active.erase (.mk e.timer t.sequence)).2, ∃ t, heap x.timer = some t
        ∧ x = .mk x.timer t.sequence := by
      intro x hx
      rw [OrdSet.mem_erase hact] at hx
      exact hlive x hx.2
    rcases ih hnodup.2 hmem' hlive' with ⟨active', heq, hiff, hsize⟩
    refine ⟨active', ?_, ?_, ?_⟩
    . unfold eraseActive
      simp only [ht]
      rw [assert_pos (OrdSet.erase_fst hact), ok_bind]
      exact heq
    . intro x
      rw [hiff, OrdSet.mem_erase hact, List.map_cons, List.mem_cons]
      have := hsame x
      tauto
    . have := OrdSet.size_pos hact
      rw [OrdSet.size_erase hact] at hsize
      rw [List.length_cons]
      omega

theorem Inv.nodup_timers (h : q.Inv batch) : (q.timers.toList.map Entry.timer).Nodup := by
  apply List.Nodup.map_on
  . intro e he f hf heq
    rw [OrdSet.mem_toList] at he hf
    rcases h.timers_live e he with ⟨t, ht, hmk⟩
    rcases h.timers_live f hf with ⟨u, hu, hmk'⟩
    rw [heq, hu, Option.some.injEq] at ht
    rw [hmk, hmk', heq, ht]
  . apply q.timers.nodup

theorem Inv.first_lowerBound (h : q.Inv batch) (now : Timestamp) {e : Entry}
    (he : (q.timers.lowerBound (.mk now uintptrMax)).2.first = some e)
    : now < (ofLex e).1 := by
  have hmem : e ∈ q.timers := by
    rw [← OrdSet.mem_toList, ← q.timers.lowerBound_append (.mk now uintptrMax)]
    apply List.mem_append_right
    exact List.mem_of_mem_head? he
  rcases h.timers_live e hmem with ⟨t, ht, -⟩
  have hlt : (ofLex e).2 < uintptrMax := h.addr_lt _ t ht
  have hle := OrdSet.le_first_lowerBound he
  rw [Prod.Lex.le_iff] at hle
  change now < (ofLex e).1 ∨ now = (ofLex e).1 ∧ uintptrMax ≤ (ofLex e).2 at hle
  rcases hle with hle | ⟨-, hle⟩
  . exact hle
  . exact absurd hlt (Nat.not_lt.mpr hle)

theorem Inv.expire (h : q.Inv batch) {expired : List Entry} {timers : OrdSet Entry}
    (happend : expired ++ timers.toList = q.timers.toList)
    : ∃ activeTimers, eraseActive q.heap q.activeTimers expired = .ok activeTimers
      ∧ { q with timers, activeTimers }.Inv (expired.map Entry.timer ++ batch) := by
  have hmem : ∀ e, e ∈ q.timers ↔ e ∈ expired ∨ e ∈ timers := by
    intro e
    rw [← OrdSet.mem_toList, ← happend, List.mem_append, OrdSet.mem_toList]
  have hnodup := h.nodup_timers
  rw [← happend, List.map_append, List.nodup_append'] at hnodup
  rcases hnodup with ⟨hexpired, -, hdisj⟩
  have hactive : ∀ e ∈ expired, ∃ t, q.heap e.timer = some t
      ∧ ActiveTimer.mk e.timer t.sequence ∈ q.activeTimers := by
    intro e he
    have he := (hmem e).mpr (Or.inl he)
    rcases h.timers_live e he with ⟨t, ht, hmk⟩
    rw [hmk, h.agree _ t ht] at he
    exact ⟨t, ht, he⟩
  rcases eraseActive_spec hexpired hactive h.active_live with ⟨active, heq, hiff, hsize⟩
  refine ⟨active, heq, ?_⟩
  constructor
  . intro e he
    apply h.timers_live e ((hmem e).mpr (Or.inr he))
  . intro x hx
    apply h.active_live x ((hiff x).mp hx).1
  . intro a t ht
    dsimp only at ht ⊢
    rw [hiff, ← h.agree a t ht, hmem, ActiveTimer.timer_mk]
    constructor
    . intro he
      refine ⟨Or.inr he, ?_⟩
      intro ha
      exact hdisj ha (List.mem_map_of_mem he)
    . rintro ⟨he | he, ha⟩
      . exact absurd (List.mem_map_of_mem he) ha
      . exact he
  . intro a t ht
    dsimp only at ht ⊢
    rw [hiff, h.owned a t ht, ActiveTimer.timer_mk, List.mem_append, not_or]
    exact and_comm
  . intro a ha
    rw [List.mem_append] at ha
    rcases ha with ha | ha
    . rcases List.mem_map.mp ha with ⟨e, he, rfl⟩
      rcases hactive e he with ⟨t, ht, -⟩
      exact ⟨t, ht⟩
    . exact h.batch_live a ha
  . rw [List.nodup_append']
    refine ⟨hexpired, h.batch_nodup, ?_⟩
    intro a ha hbatch
    rcases List.mem_map.mp ha with ⟨e, he, rfl⟩
    rcases hactive e he with ⟨t, ht, hact⟩
    exact (h.owned _ t ht).mp hact hbatch
  . have := h.size_eq
    have := congrArg List.length happend
    rw [List.length_append] at this
    dsimp only [OrdSet.size] at *
    omega
  . apply h.addr_lt

theorem getExpired_spec (h : q.Inv batch) (now : Timestamp)
    : ∃ activeTimers, q.getExpired now
        =
      .ok ((q.timers.lowerBound (.mk now uintptrMax)).1,
        { q with timers := (q.timers.lowerBound (.mk now uintptrMax)).2, activeTimers })
      ∧ { q with timers := (q.timers.lowerBound (.mk now uintptrMax)).2, activeTimers }.Inv
        ((q.timers.lowerBound (.mk now uintptrMax)).1.map Entry.timer ++ batch) := by
  have hfirst : ∀ e ∈ (q.timers.lowerBound (.mk now uintptrMax)).2.first, now < (ofLex e).1 :=
    fun e he => h.first_lowerBound now he
  rcases h.expire (q.timers.lowerBound_append (.mk now uintptrMax)) with ⟨active, heq, hinv⟩
  refine ⟨active, ?_, hinv⟩
  unfold getExpired
  rw [assertSizes_eq h, ok_bind]
  dsimp only
  rw [assert_pos hfirst, ok_bind]
  rw [heq, ok_bind]
  rw [assertSizes_eq hinv]
  rfl

def settle (q : TimerQueue) (now : Timestamp) (a : Addr) (t : Timer) : TimerQueue :=
  if t.repeats ∧ ActiveTimer.mk a t.sequence ∉ q.cancelingTimers then
    (q.setTimer a (some (t.restart now))).index a (t.restart now)
  else
    q.setTimer a none

theorem resetOne_eq {t : Timer} (h : q.Inv (a :: batch)) (ht : q.heap a = some t) (now : Timestamp)
    : q.resetOne now a = .ok (q.settle now a t) := by
  unfold resetOne settle
  rw [deref_eq ht, ok_bind]
  split
  . rw [insert_eq (h.restart ht now) (setTimer_heap_self ..)]
    rfl
  . rw [deleteTimer_eq ht]

theorem Inv.settle {t : Timer} (h : q.Inv (a :: batch)) (ht : q.heap a = some t) (now : Timestamp)
    : (q.settle now a t).Inv batch := by
  unfold TimerQueue.settle
  split
  . exact (h.restart ht now).index (setTimer_heap_self ..)
  . exact h.deleteTimer ht

theorem resetAll_spec {R : TimerQueue → TimerQueue → Prop} {now : Timestamp} (hrefl : ∀ q, R q q)
    (htrans : ∀ q₁ q₂ q₃, R q₁ q₂ → R q₂ q₃ → R q₁ q₃) {expired : List Entry}
    (hone : ∀ q batch t, ∀ e ∈ expired, Inv q (e.timer :: batch) → q.heap e.timer = some t →
      R q (q.settle now e.timer t))
    (h : q.Inv (expired.map Entry.timer ++ batch))
    : ∃ q', q.resetAll now expired = .ok q' ∧ q'.Inv batch ∧ R q q' := by
  induction expired generalizing q with
  | nil => exact ⟨q, rfl, h, hrefl q⟩
  | cons e expired ih =>
    rw [List.map_cons, List.cons_append] at h
    rcases h.batch_live _ List.mem_cons_self with ⟨t, ht⟩
    have hrest := fun q batch t f (hf : f ∈ expired) => hone q batch t f (List.mem_cons_of_mem e hf)
    rcases ih hrest (h.settle ht now) with ⟨q₂, hall, hinv, hrest⟩
    refine ⟨q₂, ?_, hinv, htrans _ _ _ (hone q _ t e List.mem_cons_self h ht) hrest⟩
    unfold resetAll
    rw [resetOne_eq h ht, ok_bind]
    exact hall

theorem nextExpire_eq (h : q.Inv batch)
    : q.nextExpire
        =
      .ok (match q.timers.first with
        | none => Timestamp.invalid
        | some e => (ofLex e).1) := by
  unfold nextExpire
  cases he : q.timers.first with
  | none => rfl
  | some e =>
    have hmem : e ∈ q.timers := List.mem_of_mem_head? he
    rcases h.timers_live e hmem with ⟨t, ht, hmk⟩
    have hwhen : (ofLex e).1 = t.expiration := congrArg (fun x => (ofLex x).1) hmk
    dsimp only
    rw [deref_eq ht, hwhen]
    rfl

def armNext (q : TimerQueue) (clock : Timestamp) : TimerQueue :=
  match q.timers.first with
  | none => q
  | some e => if Timestamp.valid (ofLex e).1 then q.resetTimerfd (ofLex e).1 clock else q

theorem armNext_heap (q : TimerQueue) (clock : Timestamp) : (q.armNext clock).heap = q.heap := by
  unfold armNext
  split
  . rfl
  . split
    . rfl
    . rfl

theorem Inv.armNext (h : q.Inv batch) (clock : Timestamp) : (q.armNext clock).Inv batch := by
  unfold TimerQueue.armNext
  split
  . exact h
  . split
    . exact h.congr rfl rfl rfl
    . exact h

theorem reset_eq {q₁ : TimerQueue} {expired : List Entry} {now : Timestamp}
    (hall : q.resetAll now expired = .ok q₁) (hinv : q₁.Inv batch) (clock : Timestamp)
    : q.reset expired now clock = .ok (q₁.armNext clock) := by
  unfold reset armNext
  rw [hall, ok_bind]
  rw [nextExpire_eq hinv, ok_bind]
  cases q₁.timers.first with
  | none => rfl
  | some e =>
    dsimp only
    split
    . rfl
    . rfl

structure Settles (addrs : List Addr) (q q' : TimerQueue) : Prop where
  numCreated : q'.numCreated = q.numCreated
  calling : q'.callingExpiredTimers = q.callingExpiredTimers
  canceling : q'.cancelingTimers = q.cancelingTimers
  old : ∀ a t', q'.heap a = some t' → ∃ t, q.heap a = some t ∧ t'.sequence = t.sequence
    ∧ t'.repeats = t.repeats
    ∧ (ActiveTimer.mk a t'.sequence ∈ q'.activeTimers →
      ActiveTimer.mk a t.sequence ∈ q.activeTimers
        ∨ ActiveTimer.mk a t.sequence ∉ q.cancelingTimers)
  kept : ∀ a t, q.heap a = some t →
    (a ∈ addrs → t.repeats ∧ ActiveTimer.mk a t.sequence ∉ q.cancelingTimers) →
    (q'.heap a).isSome

theorem Settles.refl (addrs : List Addr) (q : TimerQueue) : Settles addrs q q where
  numCreated := rfl
  calling := rfl
  canceling := rfl
  old := fun _ t ht => ⟨t, ht, rfl, rfl, Or.inl⟩
  kept := fun _ _ ht _ => Option.isSome_iff_exists.mpr ⟨_, ht⟩

theorem Settles.trans {addrs : List Addr} {q₁ q₂ q₃ : TimerQueue} (h : Settles addrs q₁ q₂)
    (h' : Settles addrs q₂ q₃)
    : Settles addrs q₁ q₃ where
  numCreated := h'.numCreated.trans h.numCreated
  calling := h'.calling.trans h.calling
  canceling := h'.canceling.trans h.canceling
  old := by
    intro a t₃ ht₃
    rcases h'.old a t₃ ht₃ with ⟨t₂, ht₂, hseq', hrep', hact'⟩
    rcases h.old a t₂ ht₂ with ⟨t₁, ht₁, hseq, hrep, hact⟩
    refine ⟨t₁, ht₁, hseq'.trans hseq, hrep'.trans hrep, ?_⟩
    intro hmem
    rcases hact' hmem with hmem | hmem
    . exact hact hmem
    . right
      rw [h.canceling, hseq] at hmem
      exact hmem
  kept := by
    intro a t₁ ht₁ hkeep
    rcases Option.isSome_iff_exists.mp (h.kept a t₁ ht₁ hkeep) with ⟨t₂, ht₂⟩
    apply h'.kept a t₂ ht₂
    rcases h.old a t₂ ht₂ with ⟨t, ht, hseq, hrep, -⟩
    rw [ht₁, Option.some.injEq] at ht
    rw [← ht] at hseq hrep
    rw [hseq, hrep, h.canceling]
    exact hkeep

theorem settles_settle {addrs : List Addr} {t : Timer} (h : q.Inv (a :: batch))
    (ht : q.heap a = some t) (ha : a ∈ addrs) (now : Timestamp)
    : Settles addrs q (q.settle now a t) := by
  unfold settle
  split
  . next hrepeats =>
    have hseq : (t.restart now).sequence = t.sequence := by
      unfold Timer.restart
      split
      . rfl
      . rfl
    have hrep : (t.restart now).repeats = t.repeats := by
      unfold Timer.restart
      split
      . rfl
      . rfl
    have hun := (h.restart ht now).unindexed_of_batch List.mem_cons_self
    have hnew : ActiveTimer.mk a (t.restart now).sequence
        ∉ (q.setTimer a (some (t.restart now))).activeTimers :=
      fun hx => hun.active _ hx rfl
    refine ⟨rfl, rfl, rfl, ?_, ?_⟩
    . intro b t' ht'
      by_cases hb : b = a
      . rw [hb] at ht' ⊢
        have ht' : (q.setTimer a (some (t.restart now))).heap a = some t' := ht'
        rw [setTimer_heap_self, Option.some.injEq] at ht'
        rw [← ht']
        exact ⟨t, ht, hseq, hrep, fun _ => Or.inr hrepeats.2⟩
      . have ht' : (q.setTimer a (some (t.restart now))).heap b = some t' := ht'
        rw [setTimer_heap_of_ne hb] at ht'
        refine ⟨t', ht', rfl, rfl, ?_⟩
        intro hmem
        left
        rcases (OrdSet.mem_insert hnew).mp hmem with heq | hmem
        . exact absurd heq (ActiveTimer.mk_ne hb _ _)
        . exact hmem
    . intro b u hu _
      by_cases hb : b = a
      . rw [hb]
        change ((q.setTimer a (some (t.restart now))).heap a).isSome
        rw [setTimer_heap_self]
        rfl
      . change ((q.setTimer a (some (t.restart now))).heap b).isSome
        rw [setTimer_heap_of_ne hb, hu]
        rfl
  . next hrepeats =>
    refine ⟨rfl, rfl, rfl, ?_, ?_⟩
    . intro b t' ht'
      by_cases hb : b = a
      . rw [hb, setTimer_heap_self] at ht'
        contradiction
      . rw [setTimer_heap_of_ne hb] at ht'
        exact ⟨t', ht', rfl, rfl, Or.inl⟩
    . intro b u hu hkeep
      by_cases hb : b = a
      . rw [hb] at hu hkeep
        rw [ht, Option.some.injEq] at hu
        rw [← hu] at hkeep
        exact absurd (hkeep ha) hrepeats
      . rw [setTimer_heap_of_ne hb, hu]
        rfl

theorem Settles.armNext {addrs : List Addr} {q' : TimerQueue} (h : Settles addrs q q')
    (clock : Timestamp)
    : Settles addrs q (q'.armNext clock) := by
  unfold TimerQueue.armNext
  split
  . exact h
  . split
    . exact ⟨h.numCreated, h.calling, h.canceling, h.old, h.kept⟩
    . exact h

theorem handleReadBegin_spec (h : q.Inv batch) (now : Timestamp)
    : ∃ activeTimers, q.handleReadBegin now
        =
      .ok ((q.timers.lowerBound (.mk now uintptrMax)).1,
        { q with
          timerfd := q.timerfd.read
          timers := (q.timers.lowerBound (.mk now uintptrMax)).2
          activeTimers
          callingExpiredTimers := true
          cancelingTimers := .empty })
      ∧ { q with timers := (q.timers.lowerBound (.mk now uintptrMax)).2, activeTimers }.Inv
        ((q.timers.lowerBound (.mk now uintptrMax)).1.map Entry.timer ++ batch) := by
  have hread : { q with timerfd := q.timerfd.read }.Inv batch := h.congr rfl rfl rfl
  rcases getExpired_spec hread now with ⟨active, heq, hinv⟩
  refine ⟨active, ?_, hinv.congr rfl rfl rfl⟩
  unfold handleReadBegin
  dsimp only
  rw [heq]
  rfl

theorem handleReadEnd_eq {expired : List Entry} (h : q.Inv (expired.map Entry.timer ++ batch))
    (now clock : Timestamp)
    : ∃ q₁, { q with callingExpiredTimers := false }.resetAll now expired = .ok q₁ ∧ q₁.Inv batch
      ∧ Settles (expired.map Entry.timer) { q with callingExpiredTimers := false } q₁
      ∧ q.handleReadEnd expired now clock = .ok (q₁.armNext clock) := by
  have hcalling : { q with callingExpiredTimers := false }.Inv (expired.map Entry.timer ++ batch) :=
    h.congr rfl rfl rfl
  rcases resetAll_spec (Settles.refl (expired.map Entry.timer)) (fun _ _ _ => Settles.trans)
    (fun q batch t e he hinv ht => settles_settle hinv ht (List.mem_map_of_mem he) now) hcalling
    with ⟨q₁, hall, hinv, hsettles⟩
  exact ⟨q₁, hall, hinv, hsettles, reset_eq hall hinv clock⟩

theorem handleReadEnd_spec {expired : List Entry} (h : q.Inv (expired.map Entry.timer ++ batch))
    (now clock : Timestamp)
    : ∃ q', q.handleReadEnd expired now clock = .ok q' ∧ q'.Inv batch
      ∧ Settles (expired.map Entry.timer) { q with callingExpiredTimers := false } q' := by
  rcases handleReadEnd_eq h now clock with ⟨q₁, -, hinv, hsettles, heq⟩
  exact ⟨q₁.armNext clock, heq, hinv.armNext clock, hsettles.armNext clock⟩

end Operations

def State.batchTimers (s : State) : List Addr :=
  match s.batch with
  | none => []
  | some b => b.expired.map Entry.timer

def State.Inv (s : State) : Prop :=
  s.queue.Inv s.batchTimers

theorem new_inv (numCreated : Int32) : (new numCreated).Inv [] := by
  constructor
  . intro e he
    exact absurd he (OrdSet.notMem_empty e)
  . intro x hx
    exact absurd hx (OrdSet.notMem_empty x)
  . simp [new]
  . simp [new]
  . simp
  . simp
  . rfl
  . simp [new]

theorem step_inv_append {s : State} {e : Event} {r : Except Fault State} {rest : List Addr}
    (h : s.queue.Inv (s.batchTimers ++ rest)) (hstep : step s e = some r)
    : ∃ s', r = .ok s' ∧ s'.queue.Inv (s'.batchTimers ++ rest) := by
  cases e with
  | add timer when interval clock =>
    simp only [step] at hstep
    split at hstep
    . next hfresh =>
      rcases addTimerInLoop_spec (h.newTimer hfresh when interval) clock with ⟨q', heq, hinv⟩
      rw [heq] at hstep
      cases hstep
      exact ⟨_, rfl, hinv⟩
    . simp at hstep
  | cancel timerId =>
    simp only [step] at hstep
    rcases cancelInLoop_spec h timerId with ⟨q', heq, hinv⟩
    rw [heq] at hstep
    cases hstep
    exact ⟨_, rfl, hinv⟩
  | created =>
    cases hstep
    exact ⟨_, rfl, h.congr rfl rfl rfl⟩
  | fire =>
    simp only [step] at hstep
    split at hstep
    . cases hstep
      exact ⟨_, rfl, h.congr rfl rfl rfl⟩
    . simp at hstep
  | handleRead now =>
    simp only [step] at hstep
    split at hstep
    . next hb =>
      simp only [State.batchTimers, hb, List.nil_append] at h
      rcases handleReadBegin_spec h now with ⟨active, heq, hinv⟩
      rw [heq] at hstep
      cases hstep
      exact ⟨_, rfl, hinv.congr rfl rfl rfl⟩
    . simp at hstep
  | callback =>
    simp only [step] at hstep
    split at hstep
    . simp at hstep
    . next b hb =>
      split at hstep
      . simp at hstep
      . next e he =>
        have hmem : e.timer ∈ s.batchTimers ++ rest := by
          simp only [State.batchTimers, hb]
          apply List.mem_append_left
          apply List.mem_map_of_mem (List.mem_of_getElem? he)
        rcases h.batch_live _ hmem with ⟨t, ht⟩
        rw [deref_eq ht] at hstep
        cases hstep
        refine ⟨_, rfl, ?_⟩
        simpa only [State.batchTimers, hb] using h
  | handleReadEnd clock =>
    simp only [step] at hstep
    split at hstep
    . simp at hstep
    . next b hb =>
      split at hstep
      . simp only [State.batchTimers, hb] at h
        rcases handleReadEnd_spec h b.now clock with ⟨q', heq, hinv, -⟩
        rw [heq] at hstep
        cases hstep
        exact ⟨_, rfl, hinv⟩
      . simp at hstep

theorem step_inv {s : State} {e : Event} {r : Except Fault State} (h : s.Inv)
    (hstep : step s e = some r)
    : ∃ s', r = .ok s' ∧ s'.Inv := by
  have happend : s.queue.Inv (s.batchTimers ++ []) := by
    rw [List.append_nil]
    exact h
  rcases step_inv_append happend hstep with ⟨s', heq, hinv⟩
  rw [List.append_nil] at hinv
  exact ⟨s', heq, hinv⟩

inductive Step (s : State) : Event → State → Prop where
  | add {timer : Addr} {when : Timestamp} {interval : TimerInterval} {clock : Timestamp}
    {queue : TimerQueue} (hfresh : s.queue.fresh timer = true)
    (hadd : (s.queue.newTimer timer when interval).addTimerInLoop timer clock = .ok queue)
    : Step s (.add timer when interval clock) { s with queue }
  | cancel {timerId : TimerId} {queue : TimerQueue}
    (hcancel : s.queue.cancelInLoop timerId = .ok queue)
    : Step s (.cancel timerId) { s with queue }
  | created
    : Step s .created { s with queue := { s.queue with numCreated := s.queue.numCreated + 1 } }
  | fire {expiration : Timestamp} {value : Timespec}
    (harmed : s.queue.timerfd = .armed expiration value)
    : Step s .fire { s with queue := { s.queue with timerfd := .fired expiration } }
  | handleRead {now : Timestamp} {expired : List Entry} {queue : TimerQueue} (hb : s.batch = none)
    (hbegin : s.queue.handleReadBegin now = .ok (expired, queue))
    : Step s (.handleRead now) { queue, batch := some { now, expired, ran := 0 } }
  | callback {b : Batch} {e : Entry} {t : Timer} (hb : s.batch = some b)
    (he : b.expired[b.ran]? = some e) (hderef : s.queue.deref e.timer = .ok t)
    : Step s .callback { s with batch := some { b with ran := b.ran + 1 } }
  | handleReadEnd {clock : Timestamp} {b : Batch} {queue : TimerQueue} (hb : s.batch = some b)
    (hran : b.ran = b.expired.length)
    (hend : s.queue.handleReadEnd b.expired b.now clock = .ok queue)
    : Step s (.handleReadEnd clock) { queue, batch := none }

theorem bind_eq_ok {α β : Type} {x : Except Fault α} {f : α → Except Fault β} {y : β}
    : x >>= f = .ok y ↔ ∃ a, x = .ok a ∧ f a = .ok y := by
  cases x with
  | ok a => simp
  | error fault => simp [Bind.bind, Except.bind]

theorem Step.of_step {s s' : State} {e : Event} (h : step s e = some (.ok s')) : Step s e s' := by
  cases e with
  | add timer when interval clock =>
    simp only [step] at h
    split at h
    . next hfresh =>
      rw [Option.some.injEq, bind_eq_ok] at h
      rcases h with ⟨queue, hadd, hs⟩
      cases hs
      exact .add hfresh hadd
    . simp at h
  | cancel timerId =>
    simp only [step] at h
    rw [Option.some.injEq, bind_eq_ok] at h
    rcases h with ⟨queue, hcancel, hs⟩
    cases hs
    exact .cancel hcancel
  | created =>
    cases h
    exact .created
  | fire =>
    simp only [step] at h
    split at h
    . next harmed =>
      cases h
      exact .fire harmed
    . simp at h
  | handleRead now =>
    simp only [step] at h
    split at h
    . next hb =>
      rw [Option.some.injEq, bind_eq_ok] at h
      rcases h with ⟨⟨expired, queue⟩, hbegin, hs⟩
      cases hs
      exact .handleRead hb hbegin
    . simp at h
  | callback =>
    simp only [step] at h
    split at h
    . simp at h
    . next b hb =>
      split at h
      . simp at h
      . next e he =>
        rw [Option.some.injEq, bind_eq_ok] at h
        rcases h with ⟨t, hderef, hs⟩
        cases hs
        exact .callback hb he hderef
  | handleReadEnd clock =>
    simp only [step] at h
    split at h
    . simp at h
    . next b hb =>
      split at h
      . next hran =>
        rw [Option.some.injEq, bind_eq_ok] at h
        rcases h with ⟨queue, hend, hs⟩
        cases hs
        exact .handleReadEnd hb hran hend
      . simp at h

theorem reachable_state_inv {r : Except Fault State} (h : system.Reachable r)
    : ∃ s, r = .ok s ∧ s.Inv := by
  apply LTS.Reachable.invariant system _ _ h
  . rintro s ⟨numCreated, rfl⟩
    exact ⟨_, rfl, new_inv numCreated⟩
  . rintro r e r' ⟨s, rfl, hs⟩ hnext
    exact step_inv hs hnext

structure Consistent (s : State) : Prop where
  timers_entry : ∀ e ∈ s.queue.timers, ∃ t, s.queue.heap e.timer = some t
    ∧ e = .mk t.expiration e.timer
  active_entry : ∀ x ∈ s.queue.activeTimers, ∃ t, s.queue.heap x.timer = some t
    ∧ x = .mk x.timer t.sequence
  agree : ∀ a t, s.queue.heap a = some t →
    (Entry.mk t.expiration a ∈ s.queue.timers
      ↔ ActiveTimer.mk a t.sequence ∈ s.queue.activeTimers)
  owned_once : ∀ a t, s.queue.heap a = some t →
    (ActiveTimer.mk a t.sequence ∈ s.queue.activeTimers ↔ a ∉ s.batchTimers)
  batch_live : ∀ a ∈ s.batchTimers, ∃ t, s.queue.heap a = some t
  batch_nodup : s.batchTimers.Nodup

/--
No run reaches a fault, so no assertion fails and no timer is deleted twice or used after its
deletion, and in every state the two indexes agree and own every live timer outside the batch.
-/
theorem reachable_consistent {r : Except Fault State} (h : system.Reachable r)
    : ∃ s, r = .ok s ∧ Consistent s := by
  rcases reachable_state_inv h with ⟨s, rfl, hinv⟩
  refine ⟨s, rfl, ?_⟩
  exact ⟨hinv.timers_live, hinv.active_live, hinv.agree, hinv.owned, hinv.batch_live,
    hinv.batch_nodup⟩

def rearm : List Event :=
  [.add 8 100 ⟨50, true, by decide⟩ 10, .fire, .handleRead 120, .callback,
    .add 16 130 ⟨0, false, by decide⟩ 121, .cancel ⟨8, 0⟩, .handleReadEnd 122,
    .add 8 90 ⟨0, false, by decide⟩ 123, .cancel ⟨8, 0⟩]

theorem reachable_consistent_rearm
    : ∃ r, system.run (.ok { queue := new 0, batch := none }) rearm = some r
      ∧ ∃ s, r = .ok s ∧ Consistent s := by
  have hrun : (system.run (.ok { queue := new 0, batch := none }) rearm).isSome = true := by
    decide +kernel
  rcases Option.isSome_iff_exists.mp hrun with ⟨r, hr⟩
  exact ⟨r, hr, reachable_consistent (LTS.Reachable.of_run system (.init ⟨0, rfl⟩) hr)⟩

end TimerQueue
