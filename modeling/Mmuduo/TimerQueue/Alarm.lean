import Mmuduo.TimerQueue.Invariant
import Mathlib.Tactic.Linarith

namespace Timerfd

def alarm : Timerfd → Option Timestamp
  | .disarmed => none
  | .armed expiration _ => some expiration
  | .fired expiration => some expiration

end Timerfd

def Entry.when (e : Entry) : Timestamp :=
  (ofLex e).1

theorem Entry.when_le {e f : Entry} (h : e ≤ f) : e.when ≤ f.when := by
  rw [Prod.Lex.le_iff] at h
  rcases h with h | ⟨h, -⟩
  . exact le_of_lt h
  . exact le_of_eq h

namespace TimerQueue

theorem howMuchTimeFromNow_spec (when now : Timestamp)
    : (howMuchTimeFromNow when now).sec * 1000000000 + (howMuchTimeFromNow when now).nsec
        =
      max 100 (when - now) * 1000
      ∧ 0 ≤ (howMuchTimeFromNow when now).sec
      ∧ 0 ≤ (howMuchTimeFromNow when now).nsec
      ∧ (howMuchTimeFromNow when now).nsec < 1000000000 := by
  have hmax : ∀ us : Int, (if us < 100 then 100 else us) = max 100 us := by
    intro us
    split
    . omega
    . omega
  have hpos : ∀ us : Int, 100 ≤ max 100 us := by
    intro us
    omega
  unfold howMuchTimeFromNow
  dsimp only
  rw [hmax]
  have hus := hpos (when - now)
  generalize max 100 (when - now) = us at hus ⊢
  have hnonneg : 0 ≤ us := by linarith
  rw [Int.tdiv_eq_ediv_of_nonneg hnonneg, Int.tmod_eq_emod_of_nonneg hnonneg]
  unfold Timestamp.kMicroSecondsPerSecond
  change Int at us
  omega

theorem settime_howMuchTimeFromNow (expiration now : Timestamp)
    : Timerfd.settime expiration (howMuchTimeFromNow expiration now)
        =
      .armed expiration (howMuchTimeFromNow expiration now) := by
  have hspec := howMuchTimeFromNow_spec expiration now
  unfold Timerfd.settime
  rw [if_neg]
  intro hzero
  rw [hzero.1, hzero.2] at hspec
  omega

section Covered

variable {q q' : TimerQueue} {batch : List Addr} {a : Addr} {late : Entry → Prop}

def Covered (q : TimerQueue) : Prop :=
  ∃ expiration, q.timerfd.alarm = some expiration ∧ ∀ e ∈ q.timers, expiration ≤ e.when

def CoveredUpTo (late : Entry → Prop) (q : TimerQueue) : Prop :=
  q.Covered ∨ ∀ e ∈ q.timers, late e

theorem covered_resetTimerfd {expiration : Timestamp} (h : ∀ e ∈ q.timers, expiration ≤ e.when)
    (clock : Timestamp)
    : (q.resetTimerfd expiration clock).Covered := by
  refine ⟨expiration, ?_, h⟩
  unfold resetTimerfd
  rw [settime_howMuchTimeFromNow]
  rfl

theorem CoveredUpTo.mono (h : q.CoveredUpTo late) (hfd : q'.timerfd.alarm = q.timerfd.alarm)
    (htimers : ∀ e ∈ q'.timers, e ∈ q.timers)
    : q'.CoveredUpTo late := by
  rcases h with ⟨expiration, halarm, hle⟩ | hlate
  . left
    rw [← hfd] at halarm
    exact ⟨expiration, halarm, fun e he => hle e (htimers e he)⟩
  . right
    exact fun e he => hlate e (htimers e he)

theorem le_when_of_earliestChanged {when : Timestamp} (h : q.earliestChanged when = true)
    : ∀ e ∈ q.timers, when ≤ e.when := by
  intro e he
  unfold earliestChanged at h
  split at h
  . next hnone => exact absurd he (OrdSet.notMem_of_first_none hnone e)
  . next f hfirst =>
    have hlt : when < f.when := of_decide_eq_true h
    exact le_of_lt (lt_of_lt_of_le hlt (Entry.when_le (OrdSet.first_le hfirst he)))

theorem exists_when_le_of_not_earliestChanged {when : Timestamp}
    (h : q.earliestChanged when = false)
    : ∃ e ∈ q.timers, e.when ≤ when := by
  unfold earliestChanged at h
  split at h
  . simp at h
  . next f hfirst =>
    have hnlt : ¬when < f.when := of_decide_eq_false h
    exact ⟨f, OrdSet.mem_of_first hfirst, not_lt.mp hnlt⟩

theorem mem_index {t : Timer} (h : q.Inv (a :: batch)) {e : Entry}
    : e ∈ (q.index a t).timers ↔ e = .mk t.expiration a ∨ e ∈ q.timers := by
  have hun := h.unindexed_of_batch List.mem_cons_self
  have hn : Entry.mk t.expiration a ∉ q.timers := fun he => hun.timers _ he rfl
  exact OrdSet.mem_insert hn

theorem CoveredUpTo.addTimerInLoop {clock : Timestamp} (hcov : q.CoveredUpTo late)
    (hlate : ∀ e f : Entry, late e → e.when ≤ f.when → late f) (h : q.Inv (a :: batch))
    (hadd : q.addTimerInLoop a clock = .ok q')
    : q'.CoveredUpTo late := by
  rcases h.batch_live a List.mem_cons_self with ⟨t, ht⟩
  rw [addTimerInLoop_eq h ht, Except.ok.injEq] at hadd
  split at hadd
  . next hearliest =>
    rw [← hadd]
    left
    apply covered_resetTimerfd
    intro e he
    rcases (mem_index h).mp he with heq | hmem
    . rw [heq]
      rfl
    . exact le_when_of_earliestChanged hearliest e hmem
  . next hearliest =>
    rw [Bool.not_eq_true] at hearliest
    rcases exists_when_le_of_not_earliestChanged hearliest with ⟨f, hf, hle⟩
    rw [← hadd]
    rcases hcov with ⟨expiration, halarm, hcov⟩ | hcov
    . left
      refine ⟨expiration, halarm, ?_⟩
      intro e he
      rcases (mem_index h).mp he with heq | hmem
      . rw [heq]
        exact le_trans (hcov f hf) hle
      . exact hcov e hmem
    . right
      intro e he
      rcases (mem_index h).mp he with heq | hmem
      . rw [heq]
        exact hlate f _ (hcov f hf) hle
      . exact hcov e hmem

theorem CoveredUpTo.cancelInLoop {timerId : TimerId} (hcov : q.CoveredUpTo late) (h : q.Inv batch)
    (hcancel : q.cancelInLoop timerId = .ok q')
    : q'.CoveredUpTo late := by
  by_cases hid : ActiveTimer.mk timerId.timer timerId.sequence ∈ q.activeTimers
  . rcases cancelInLoop_of_active h hid with ⟨t, ht, hseq, hact, heq⟩
    rw [heq, Except.ok.injEq] at hcancel
    rw [← hcancel]
    refine CoveredUpTo.mono hcov rfl ?_
    intro e he
    exact ((OrdSet.mem_erase ((h.agree _ t ht).mpr hact)).mp he).2
  . rw [cancelInLoop_inactive h hid, Except.ok.injEq] at hcancel
    rw [← hcancel]
    split
    . exact hcov.mono rfl fun _ he => he
    . exact hcov

theorem Inv.lt_when_of_mem_lowerBound (h : q.Inv batch) (now : Timestamp) {e : Entry}
    (he : e ∈ (q.timers.lowerBound (.mk now uintptrMax)).2)
    : now < e.when := by
  cases hfirst : (q.timers.lowerBound (.mk now uintptrMax)).2.first with
  | none => exact absurd he (OrdSet.notMem_of_first_none hfirst e)
  | some f =>
    have hlt : now < f.when := h.first_lowerBound now hfirst
    exact lt_of_lt_of_le hlt (Entry.when_le (OrdSet.first_le hfirst he))

structure Restarted (now : Timestamp) (q q' : TimerQueue) : Prop where
  timerfd : q'.timerfd = q.timerfd
  timers : ∀ e ∈ q'.timers, e ∈ q.timers ∨ now ≤ e.when

theorem restarted_settle {t : Timer} (h : q.Inv (a :: batch)) (ht : q.heap a = some t)
    (now : Timestamp)
    : Restarted now q (q.settle now a t) := by
  unfold settle
  split
  . next hrepeats =>
    refine ⟨rfl, ?_⟩
    intro e he
    rcases (mem_index (h.restart ht now)).mp he with heq | hmem
    . right
      rw [heq]
      have hnonneg := t.interval.nonneg hrepeats.1
      unfold Timer.restart
      rw [if_pos hrepeats.1]
      exact le_add_of_nonneg_right hnonneg
    . left
      exact hmem
  . exact ⟨rfl, fun e he => Or.inl he⟩

theorem Restarted.covered {now : Timestamp} (h : Restarted now q q') (hnow : 0 < now)
    (hcov : q.CoveredUpTo fun e => 0 < e.when)
    : q'.CoveredUpTo fun e => 0 < e.when := by
  by_cases hpos : ∀ e ∈ q'.timers, 0 < e.when
  . right
    exact hpos
  . simp only [not_forall, not_lt] at hpos
    rcases hpos with ⟨f, hf, hle⟩
    have hold : f ∈ q.timers := by
      rcases h.timers f hf with hmem | hge
      . exact hmem
      . exact absurd (lt_of_lt_of_le hnow hge) (not_lt.mpr hle)
    rcases hcov with ⟨expiration, halarm, hcov⟩ | hcov
    . left
      rw [← h.timerfd] at halarm
      refine ⟨expiration, halarm, ?_⟩
      intro e he
      rcases h.timers e he with hmem | hge
      . exact hcov e hmem
      . calc
          expiration ≤ f.when := hcov f hold
          _ ≤ 0 := hle
          _ ≤ now := le_of_lt hnow
          _ ≤ e.when := hge
    . exact absurd (hcov f hold) (not_lt.mpr hle)

theorem covered_armNext (hcov : q.CoveredUpTo fun e => 0 < e.when) (clock : Timestamp)
    : (q.armNext clock).CoveredUpTo fun _ => False := by
  unfold armNext
  split
  . next hnone =>
    right
    exact fun e he => OrdSet.notMem_of_first_none hnone e he
  . next f hfirst =>
    split
    . left
      apply covered_resetTimerfd
      intro e he
      exact Entry.when_le (OrdSet.first_le hfirst he)
    . next hvalid =>
      -- a timer that is not valid was not allowed to wait, so the alarm is in time already
      left
      rcases hcov with hcov | hcov
      . exact hcov
      . have hpos := hcov f (OrdSet.mem_of_first hfirst)
        exact absurd (decide_eq_true hpos) hvalid

theorem covered_reset {expired : List Entry} {now clock : Timestamp}
    (hcov : q.CoveredUpTo fun e => 0 < e.when) (hnow : 0 < now)
    (h : q.Inv (expired.map Entry.timer ++ batch)) (hreset : q.reset expired now clock = .ok q')
    : q'.CoveredUpTo fun _ => False := by
  have hrefl : ∀ q, Restarted now q q := fun q => ⟨rfl, fun _ he => Or.inl he⟩
  have htrans : ∀ q₁ q₂ q₃, Restarted now q₁ q₂ → Restarted now q₂ q₃ → Restarted now q₁ q₃ := by
    intro q₁ q₂ q₃ h₁₂ h₂₃
    refine ⟨h₂₃.timerfd.trans h₁₂.timerfd, ?_⟩
    intro e he
    exact (h₂₃.timers e he).elim (h₁₂.timers e) Or.inr
  have hone : ∀ q batch t, ∀ e ∈ expired, Inv q (e.timer :: batch) → q.heap e.timer = some t →
      Restarted now q (q.settle now e.timer t) :=
    fun q batch t e _ hinv ht => restarted_settle hinv ht now
  rcases resetAll_spec hrefl htrans hone h with ⟨q₁, hall, hinv, hrestarted⟩
  rw [reset_eq hall hinv, Except.ok.injEq] at hreset
  rw [← hreset]
  exact covered_armNext (hrestarted.covered hnow hcov) clock

end Covered

structure State.Alarm (s : State) : Prop where
  inv : s.Inv
  now_pos : ∀ b, s.batch = some b → 0 < b.now
  covered : s.queue.CoveredUpTo fun e => s.batch ≠ none ∧ 0 < e.when

def Event.clockPositive : Event → Bool
  | .add _ _ _ clock => decide (0 < clock)
  | .handleRead now => decide (0 < now)
  | .handleReadEnd clock => decide (0 < clock)
  | _ => true

theorem State.Alarm.step {s s' : State} {e : Event} (h : s.Alarm) (hclock : e.clockPositive = true)
    (hinv : s'.Inv) (hstep : Step s e s')
    : s'.Alarm := by
  have hs := h.inv
  unfold State.Inv at hs
  cases hstep with
  | @add timer when interval clock queue hfresh hadd =>
    have hnew := hs.newTimer hfresh when interval
    have hcov : (s.queue.newTimer timer when interval).CoveredUpTo
        fun e => s.batch ≠ none ∧ 0 < e.when :=
      h.covered.mono rfl fun _ he => he
    refine ⟨hinv, h.now_pos, hcov.addTimerInLoop ?_ hnew hadd⟩
    intro e f he hle
    exact ⟨he.1, lt_of_lt_of_le he.2 hle⟩
  | cancel hcancel => exact ⟨hinv, h.now_pos, h.covered.cancelInLoop hs hcancel⟩
  | created => exact ⟨hinv, h.now_pos, h.covered.mono rfl fun _ he => he⟩
  | fire harmed =>
    refine ⟨hinv, h.now_pos, CoveredUpTo.mono h.covered ?_ fun _ he => he⟩
    rw [harmed]
    rfl
  | handleRead hb hbegin =>
    have hnow := of_decide_eq_true hclock
    rcases handleReadBegin_spec hs _ with ⟨active, heq, -⟩
    rw [heq] at hbegin
    cases hbegin
    refine ⟨hinv, ?_, ?_⟩
    . intro b hbatch
      rw [Option.some.injEq] at hbatch
      rw [← hbatch]
      exact hnow
    . right
      intro e he
      refine ⟨by simp, ?_⟩
      exact lt_trans hnow (hs.lt_when_of_mem_lowerBound _ he)
  | @callback b e t hb he hderef =>
    refine ⟨hinv, ?_, ?_⟩
    . intro b' hbatch
      rw [Option.some.injEq] at hbatch
      rw [← hbatch]
      exact h.now_pos b hb
    . apply h.covered.imp_right
      intro hlate e he
      exact ⟨by simp, (hlate e he).2⟩
  | @handleReadEnd clock b queue hb hran hend =>
    simp only [State.batchTimers, hb] at hs
    have hcalling : { s.queue with callingExpiredTimers := false }.Inv
        (b.expired.map Entry.timer ++ []) := by
      rw [List.append_nil]
      exact hs.congr rfl rfl rfl
    have hcov : { s.queue with callingExpiredTimers := false }.CoveredUpTo fun e => 0 < e.when := by
      apply h.covered.imp_right
      intro hlate e he
      exact (hlate e he).2
    have hend := covered_reset hcov (h.now_pos _ hb) hcalling hend
    refine ⟨hinv, by simp, ?_⟩
    apply hend.imp_right
    intro hnone e he
    exact (hnone e he).elim

def positiveClockSystem : LTS (Except Fault State) Event :=
  system.restrict fun _ e => e.clockPositive = true

theorem reachable_alarm {r : Except Fault State} (h : positiveClockSystem.Reachable r)
    : ∃ s, r = .ok s ∧ s.Alarm := by
  apply LTS.Reachable.invariant positiveClockSystem _ _ h
  . rintro s ⟨numCreated, rfl⟩
    refine ⟨_, rfl, new_inv numCreated, by simp, ?_⟩
    right
    intro e he
    exact absurd he (OrdSet.notMem_empty e)
  . rintro r e r' ⟨s, rfl, hs⟩ hnext
    rcases (LTS.restrict_next_eq_some system).mp hnext with ⟨hclock, hstep⟩
    rcases step_inv hs.inv hstep with ⟨s', rfl, hinv⟩
    exact ⟨s', rfl, hs.step hclock hinv (.of_step hstep)⟩

theorem alarm_before_earliest {r : Except Fault State} (h : positiveClockSystem.Reachable r)
    : (∃ s, r = .ok s ∧ (s.batch = none → (∃ e, e ∈ s.queue.timers) →
        ∃ expiration, s.queue.timerfd.alarm = some expiration
          ∧ ∀ e ∈ s.queue.timers, expiration ≤ e.when)) ∧
      ∀ (q : TimerQueue) expiration now, ∃ value,
        (q.resetTimerfd expiration now).timerfd = .armed expiration value
        ∧ value.sec * 1000000000 + value.nsec = max 100 (expiration - now) * 1000
        ∧ 0 ≤ value.sec ∧ 0 ≤ value.nsec ∧ value.nsec < 1000000000
        ∧ ¬(value.sec = 0 ∧ value.nsec = 0) := by
  rcases reachable_alarm h with ⟨s, rfl, halarm⟩
  refine ⟨⟨s, rfl, ?_⟩, ?_⟩
  . rintro hb ⟨e, he⟩
    rcases halarm.covered with hcov | hcov
    . exact hcov
    . exact absurd hb (hcov e he).1
  . intro q expiration now
    rcases howMuchTimeFromNow_spec expiration now with ⟨hvalue, hsec, hnsec, hlt⟩
    refine ⟨howMuchTimeFromNow expiration now, settime_howMuchTimeFromNow expiration now, hvalue,
      hsec, hnsec, hlt, ?_⟩
    rintro ⟨hsec, hnsec⟩
    rw [hsec, hnsec] at hvalue
    omega

def addDue : List Event :=
  [.add 8 100 (.ofNat 50 true) 10, .fire, .handleRead 120, .callback,
    .add 16 (-7) (.ofNat 0 false) 121, .handleReadEnd 122]

def quietWithTimers : Except Fault State → Bool
  | .ok s => s.batch.isNone && s.queue.timers.first.isSome
  | .error _ => false

theorem alarm_before_earliest_addDue
    : ∃ s, positiveClockSystem.run (.ok { queue := new 0, batch := none }) addDue = some (.ok s)
      ∧ ∃ expiration, s.queue.timerfd.alarm = some expiration
        ∧ ∀ e ∈ s.queue.timers, expiration ≤ e.when := by
  have hrun : (positiveClockSystem.run (.ok { queue := new 0, batch := none }) addDue).any
      quietWithTimers = true := by
    decide +kernel
  rcases (Option.any_eq_true _ _).mp hrun with ⟨r, hr, hquiet⟩
  have hreach := LTS.Reachable.of_run positiveClockSystem (.init ⟨0, rfl⟩) hr
  rcases (alarm_before_earliest hreach).1 with ⟨s, rfl, halarm⟩
  simp only [quietWithTimers, Bool.and_eq_true, Option.isNone_iff_eq_none] at hquiet
  rcases Option.isSome_iff_exists.mp hquiet.2 with ⟨e, he⟩
  exact ⟨s, hr, halarm hquiet.1 ⟨e, OrdSet.mem_of_first he⟩⟩

end TimerQueue
