import Mmuduo.TimerQueue.Alarm

namespace TimerQueue

def Event.inBatch : Event → Bool
  | .handleRead _ => false
  | .handleReadEnd _ => false
  | _ => true

def Event.creates : Event → Bool
  | .add _ _ _ _ => true
  | .created => true
  | _ => false

namespace HandleRead

/--
A timer from before the batch is named by its address, and one that a callback adds by the position
of the event that adds it.
-/
inductive Name where
  | old (timer : Addr)
  | added (position : Nat)
  deriving DecidableEq, Repr

structure Trace where
  state : State
  -- the number of events since the batch has begun
  length : Nat
  names : Addr → Name
  ran : List Name
  deleted : List Name

namespace Trace

def start (q : TimerQueue) : Trace where
  state := { queue := q, batch := none }
  length := 0
  names := .old
  ran := []
  deleted := []

def runBy (tr : Trace) : Event → List Name
  | .callback =>
    match tr.state.batch with
    | none => []
    | some b => (b.expired[b.ran]?.map fun e => tr.names e.timer).toList
  | _ => []

def candidates (tr : Trace) : Event → List Addr
  | .cancel timerId => [timerId.timer]
  | .handleReadEnd _ => tr.state.batchTimers
  | _ => []

def deletedBy (tr : Trace) (e : Event) (q' : TimerQueue) : List Name :=
  ((tr.candidates e).filter fun a => (tr.state.queue.heap a).isSome && (q'.heap a).isNone).map
    tr.names

def observe (tr : Trace) (e : Event) (s' : State) : Trace where
  state := s'
  length :=
    match e with
    | .handleRead _ => 0
    | _ => tr.length + 1
  names :=
    match e with
    | .add timer _ _ _ => Function.update tr.names timer (.added tr.length)
    | _ => tr.names
  ran := tr.ran ++ tr.runBy e
  deleted := tr.deleted ++ tr.deletedBy e s'.queue

end Trace

def traces : LTS (Except Fault Trace) Event where
  Init r := ∃ q, r = .ok (.start q)
  next r e :=
    match r with
    | .error _ => none
    | .ok tr => (step tr.state e).map fun r => r.map (tr.observe e)

/-!
What a batch has to do, in terms of the queue `q` before it, its clock reading `now` and the events
`es` of its callbacks.
-/

section Spec

variable (q : TimerQueue) (now : Timestamp) (es : List Event)

def Added (j : Nat) (a : Addr) (t : Timer) : Prop :=
  (∃ when interval clock, es[j]? = some (.add a when interval clock)
    ∧ t
      =
      Timer.new (q.numCreated + Int32.ofNat ((es.take j).countP Event.creates)) when interval)
  ∧ ∀ k, j < k → es[k]? ≠ some (.cancel ⟨a, t.sequence⟩)

def Remains : Name → Addr → Timer → Prop
  | .old b, a, t' =>
    a = b ∧ ∃ t, q.heap a = some t ∧ Event.cancel ⟨a, t.sequence⟩ ∉ es
      ∧ (now < t.expiration ∧ t' = t
        ∨ t.expiration ≤ now ∧ t.repeats = true
          ∧ t' = { t with expiration := now.addTime t.interval.micros })
  | .added j, a, t => Added q es j a t

def Known : Name → Prop
  | .old a => ∃ t, q.heap a = some t
  | .added j => ∃ a when interval clock, es[j]? = some (.add a when interval clock)

structure OneBatch (tr : Trace) : Prop where
  batch : tr.state.batch = none
  ran : tr.ran
      =
    (q.timers.toList.filter fun e => decide (e.when ≤ now)).map fun e => .old e.timer
  heap : ∀ a t, tr.state.queue.heap a = some t ↔ ∃ name, Remains q now es name a t
  timers : ∀ e, e ∈ tr.state.queue.timers
    ↔ ∃ name a t, Remains q now es name a t ∧ e = .mk t.expiration a
  activeTimers : ∀ x, x ∈ tr.state.queue.activeTimers
    ↔ ∃ name a t, Remains q now es name a t ∧ x = .mk a t.sequence
  kept : ∀ name, (∃ a t, Remains q now es name a t) → name ∉ tr.deleted
  deleted_once : ∀ name, Known q es name → (¬∃ a t, Remains q now es name a t) →
    tr.deleted.count name = 1

def Lives : Name → Addr → Timer → Prop
  | .old b, a, t =>
    a = b ∧ q.heap a = some t ∧ (t.expiration ≤ now ∨ Event.cancel ⟨a, t.sequence⟩ ∉ es)
  | .added j, a, t => Added q es j a t

def Alive (name : Name) : Prop :=
  ∃ a t, Lives q now es name a t

end Spec

section Concat

variable {q : TimerQueue} {now : Timestamp} {es : List Event} {e : Event} {a : Addr} {t : Timer}

theorem getElem?_concat_of_gt {k : Nat} (hk : es.length < k) : (es ++ [e])[k]? = none := by
  apply List.getElem?_eq_none
  rw [List.length_append, List.length_singleton]
  omega

theorem not_later_concat {j : Nat} {e' : Event} (hj : j < es.length)
    : (∀ k, j < k → (es ++ [e])[k]? ≠ some e') ↔ (∀ k, j < k → es[k]? ≠ some e') ∧ e ≠ e' := by
  constructor
  . intro h
    constructor
    . intro k hk heq
      have hlt := (List.getElem?_eq_some_iff.mp heq).1
      apply h k hk
      rw [List.getElem?_append_left hlt]
      exact heq
    . intro heq
      apply h es.length hj
      rw [List.getElem?_concat_length, heq]
  . rintro ⟨h, hne⟩ k hk heq
    rcases Nat.lt_trichotomy k es.length with hlt | hlen | hgt
    . rw [List.getElem?_append_left hlt] at heq
      exact h k hk heq
    . rw [hlen, List.getElem?_concat_length, Option.some.injEq] at heq
      exact hne heq
    . rw [getElem?_concat_of_gt hgt] at heq
      cases heq

theorem added_concat {j : Nat}
    : Added q (es ++ [e]) j a t
      ↔
      Added q es j a t ∧ e ≠ .cancel ⟨a, t.sequence⟩
        ∨ j = es.length ∧ ∃ when interval clock, e = .add a when interval clock
          ∧ t
            =
            Timer.new (q.numCreated + Int32.ofNat (es.countP Event.creates)) when interval := by
  unfold Added
  rcases Nat.lt_trichotomy j es.length with hj | hj | hj
  . have hget : (es ++ [e])[j]? = es[j]? := List.getElem?_append_left hj
    have htake : (es ++ [e]).take j = es.take j :=
      List.take_append_of_le_length (Nat.le_of_lt hj)
    rw [hget, htake, not_later_concat hj, ← and_assoc]
    rw [or_iff_left (fun h => absurd h.1 (Nat.ne_of_lt hj))]
  . have hnone : es[es.length]? = none := List.getElem?_eq_none (Nat.le_refl _)
    have hlater : ∀ k, es.length < k → (es ++ [e])[k]? ≠ some (.cancel ⟨a, t.sequence⟩) := by
      intro k hk
      rw [getElem?_concat_of_gt hk]
      exact nofun
    rw [hj, and_iff_left hlater, List.getElem?_concat_length, List.take_left, hnone]
    simp
  . have hnone : es[j]? = none := List.getElem?_eq_none (Nat.le_of_lt hj)
    rw [hnone, getElem?_concat_of_gt hj]
    simp
    omega

def Spared (now : Timestamp) (t : Timer) : Name → Prop
  | .old _ => t.expiration ≤ now
  | .added _ => False

theorem lives_concat {name : Name}
    : Lives q now (es ++ [e]) name a t
      ↔
      Lives q now es name a t ∧ (Spared now t name ∨ e ≠ .cancel ⟨a, t.sequence⟩)
        ∨ name = .added es.length ∧ ∃ when interval clock, e = .add a when interval clock
          ∧ t
            =
            Timer.new (q.numCreated + Int32.ofNat (es.countP Event.creates)) when interval := by
  cases name with
  | old b =>
    simp only [Lives, Spared, List.mem_append, List.mem_singleton, not_or, reduceCtorEq,
      false_and, or_false]
    rw [ne_comm (a := e)]
    tauto
  | added j =>
    simp only [Lives, Spared, false_or, Name.added.injEq]
    exact added_concat

theorem lives_add {when clock : Timestamp} {interval : TimerInterval} {name : Name} {b : Addr}
    : Lives q now (es ++ [.add a when interval clock]) name b t
      ↔
      Lives q now es name b t
        ∨ name = .added es.length ∧ b = a
          ∧ t
            =
            Timer.new (q.numCreated + Int32.ofNat (es.countP Event.creates)) when interval := by
  rw [lives_concat]
  constructor
  . rintro (⟨hold, -⟩ | ⟨hname, w, i, c, heq, ht⟩)
    . exact Or.inl hold
    . cases heq
      exact Or.inr ⟨hname, rfl, ht⟩
  . rintro (hold | ⟨hname, rfl, ht⟩)
    . exact Or.inl ⟨hold, Or.inr nofun⟩
    . exact Or.inr ⟨hname, when, interval, clock, rfl, ht⟩

theorem alive_add {when clock : Timestamp} {interval : TimerInterval} {name : Name}
    : Alive q now (es ++ [.add a when interval clock]) name
      ↔
      Alive q now es name ∨ name = .added es.length := by
  constructor
  . rintro ⟨b, t, hlive⟩
    rcases lives_add.mp hlive with hold | ⟨hname, -⟩
    . exact Or.inl ⟨b, t, hold⟩
    . exact Or.inr hname
  . rintro (⟨b, t, hold⟩ | hname)
    . exact ⟨b, t, lives_add.mpr (Or.inl hold)⟩
    . exact ⟨a, _, lives_add.mpr (Or.inr ⟨hname, rfl, rfl⟩)⟩

theorem known_concat {name : Name}
    : Known q (es ++ [e]) name
      ↔
      Known q es name
        ∨ name = .added es.length ∧ ∃ a when interval clock, e = .add a when interval clock := by
  cases name with
  | old b => simp [Known]
  | added j =>
    simp only [Known, Name.added.injEq]
    rcases Nat.lt_trichotomy j es.length with hj | hj | hj
    . rw [List.getElem?_append_left hj]
      rw [or_iff_left (fun h => absurd h.1 (Nat.ne_of_lt hj))]
    . have hnone : es[es.length]? = none := List.getElem?_eq_none (Nat.le_refl _)
      rw [hj, List.getElem?_concat_length, hnone]
      simp
    . have hnone : es[j]? = none := List.getElem?_eq_none (Nat.le_of_lt hj)
      rw [hnone, getElem?_concat_of_gt hj]
      simp
      omega

theorem not_known_length : ¬Known q es (.added es.length) := by
  rintro ⟨b, when, interval, clock, hget⟩
  rw [List.getElem?_eq_none (Nat.le_refl _)] at hget
  cases hget

theorem lives_unique {name : Name} {b : Addr} {u : Timer} (h : Lives q now es name a t)
    (h' : Lives q now es name b u)
    : a = b ∧ t = u := by
  cases name with
  | old c =>
    have hab : a = b := h.1.trans h'.1.symm
    have ht := h.2.1
    rw [hab, h'.2.1, Option.some.injEq] at ht
    exact ⟨hab, ht.symm⟩
  | added j =>
    rcases h.1 with ⟨w, i, c, hget, rfl⟩
    rcases h'.1 with ⟨w', i', c', hget', rfl⟩
    rw [hget, Option.some.injEq, Event.add.injEq] at hget'
    rcases hget' with ⟨rfl, rfl, rfl, -⟩
    exact ⟨rfl, rfl⟩

theorem Lives.known {name : Name} (h : Lives q now es name a t) : Known q es name := by
  cases name with
  | old b =>
    rcases h with ⟨rfl, ht, -⟩
    exact ⟨t, ht⟩
  | added j =>
    rcases h.1 with ⟨when, interval, clock, hget, -⟩
    exact ⟨a, when, interval, clock, hget⟩

end Concat

section Expired

variable {q : TimerQueue} {now : Timestamp}

theorem when_le_of_mem_lowerBound {e : Entry}
    (he : e ∈ (q.timers.lowerBound (.mk now uintptrMax)).1)
    : e.when ≤ now := by
  exact Entry.when_le (le_of_lt (OrdSet.lt_of_mem_lowerBound he))

theorem lowerBound_eq_filter (h : q.Inv [])
    : (q.timers.lowerBound (.mk now uintptrMax)).1
        =
      q.timers.toList.filter fun e => decide (e.when ≤ now) := by
  have hexpired : (q.timers.lowerBound (.mk now uintptrMax)).1.filter
      (fun e => decide (e.when ≤ now))
      = (q.timers.lowerBound (.mk now uintptrMax)).1 := by
    rw [List.filter_eq_self]
    intro e he
    rw [decide_eq_true_eq]
    exact when_le_of_mem_lowerBound he
  have hrest : (q.timers.lowerBound (.mk now uintptrMax)).2.toList.filter
      (fun e => decide (e.when ≤ now)) = [] := by
    rw [List.filter_eq_nil_iff]
    intro e he
    rw [decide_eq_true_eq]
    exact Int.not_le.mpr (h.lt_when_of_mem_lowerBound now he)
  rw [← q.timers.lowerBound_append (.mk now uintptrMax), List.filter_append, hexpired, hrest,
    List.append_nil]

theorem mem_expired (h : q.Inv []) {a : Addr}
    : a ∈ (q.timers.lowerBound (.mk now uintptrMax)).1.map Entry.timer
      ↔
      ∃ t, q.heap a = some t ∧ t.expiration ≤ now := by
  rw [lowerBound_eq_filter h, List.mem_map]
  constructor
  . rintro ⟨e, he, rfl⟩
    rw [List.mem_filter, decide_eq_true_eq] at he
    rcases h.timers_live e he.1 with ⟨t, ht, hmk⟩
    have hwhen : e.when = t.expiration := congrArg Entry.when hmk
    rw [hwhen] at he
    exact ⟨t, ht, he.2⟩
  . rintro ⟨t, ht, hle⟩
    refine ⟨.mk t.expiration a, ?_, rfl⟩
    rw [List.mem_filter, decide_eq_true_eq]
    refine ⟨?_, hle⟩
    rw [OrdSet.mem_toList, h.agree a t ht, h.owned a t ht]
    exact List.not_mem_nil

end Expired

section Settle

variable {q q' : TimerQueue} {batch : List Addr} {now : Timestamp}

def settled (cancelingTimers : OrdSet ActiveTimer) (now : Timestamp) (a : Addr) (t : Timer)
    : Option Timer :=
  if t.repeats ∧ ActiveTimer.mk a t.sequence ∉ cancelingTimers then
    some (t.restart now)
  else
    none

theorem settled_eq_some {cancelingTimers : OrdSet ActiveTimer} {a : Addr} {t t' : Timer}
    : settled cancelingTimers now a t = some t'
      ↔
      t.repeats = true ∧ ActiveTimer.mk a t.sequence ∉ cancelingTimers
        ∧ t' = { t with expiration := now.addTime t.interval.micros } := by
  unfold settled
  split
  . next hrepeats =>
    unfold Timer.restart
    rw [if_pos hrepeats.1, Option.some.injEq, eq_comm]
    simp [hrepeats]
  . next hrepeats =>
    constructor
    . intro hnone
      cases hnone
    . rintro ⟨hrep, hcanceling, -⟩
      exact absurd ⟨hrep, hcanceling⟩ hrepeats

theorem settle_heap (q : TimerQueue) (now : Timestamp) (a : Addr) (t : Timer)
    : (q.settle now a t).heap = Function.update q.heap a (settled q.cancelingTimers now a t) := by
  unfold settle settled
  split
  . rfl
  . rfl

theorem settle_cancelingTimers (q : TimerQueue) (now : Timestamp) (a : Addr) (t : Timer)
    : (q.settle now a t).cancelingTimers = q.cancelingTimers := by
  unfold settle
  split
  . rfl
  . rfl

theorem resetAll_heap {expired : List Entry} (h : q.Inv (expired.map Entry.timer ++ batch))
    (hall : q.resetAll now expired = .ok q') (a : Addr)
    : q'.heap a
        =
      if a ∈ expired.map Entry.timer then
        (q.heap a).bind (settled q.cancelingTimers now a)
      else
        q.heap a := by
  induction expired generalizing q with
  | nil =>
    cases hall
    rfl
  | cons e expired ih =>
    rw [List.map_cons, List.cons_append] at h
    rcases h.batch_live _ List.mem_cons_self with ⟨t, ht⟩
    unfold resetAll at hall
    rw [resetOne_eq h ht, ok_bind] at hall
    rw [ih (h.settle ht now) hall, settle_heap, settle_cancelingTimers]
    by_cases ha : a = e.timer
    . -- the rest of the batch does not contain the address again
      have hnot : e.timer ∉ expired.map Entry.timer := by
        intro hmem
        exact (List.nodup_cons.mp h.batch_nodup).1 (List.mem_append_left batch hmem)
      rw [ha, if_neg hnot, Function.update_self, List.map_cons, if_pos List.mem_cons_self, ht]
      rfl
    . rw [Function.update_of_ne ha]
      simp only [List.map_cons, List.mem_cons, ha, false_or]

theorem handleReadEnd_heap {expired : List Entry} {clock : Timestamp}
    (h : q.Inv (expired.map Entry.timer ++ batch))
    (hend : q.handleReadEnd expired now clock = .ok q') (a : Addr)
    : q'.heap a
        =
      if a ∈ expired.map Entry.timer then
        (q.heap a).bind (settled q.cancelingTimers now a)
      else
        q.heap a := by
  have hcalling : { q with callingExpiredTimers := false }.Inv (expired.map Entry.timer ++ batch) :=
    h.congr rfl rfl rfl
  rcases handleReadEnd_eq h now clock with ⟨q₁, hall, -, -, heq⟩
  rw [heq, Except.ok.injEq] at hend
  rw [← hend, armNext_heap]
  exact resetAll_heap hcalling hall a

theorem mem_timers_iff (h : q.Inv []) {e : Entry}
    : e ∈ q.timers ↔ ∃ a t, q.heap a = some t ∧ e = .mk t.expiration a := by
  constructor
  . intro he
    rcases h.timers_live e he with ⟨t, ht, hmk⟩
    exact ⟨e.timer, t, ht, hmk⟩
  . rintro ⟨a, t, ht, rfl⟩
    rw [h.agree a t ht, h.owned a t ht]
    exact List.not_mem_nil

theorem mem_activeTimers_iff (h : q.Inv []) {x : ActiveTimer}
    : x ∈ q.activeTimers ↔ ∃ a t, q.heap a = some t ∧ x = .mk a t.sequence := by
  constructor
  . intro hx
    rcases h.active_live x hx with ⟨t, ht, hmk⟩
    exact ⟨x.timer, t, ht, hmk⟩
  . rintro ⟨a, t, ht, rfl⟩
    rw [h.owned a t ht]
    exact List.not_mem_nil

end Settle

/--
The heap holds the live timers under their names, and all other known timers are deleted.
-/
structure Ledger (q : TimerQueue) (now : Timestamp) (es : List Event) (heap : Addr → Option Timer)
    (names : Addr → Name) (deleted : List Name) : Prop where
  heap : ∀ a t, heap a = some t ↔ ∃ name, Lives q now es name a t
  names : ∀ name a t, Lives q now es name a t → names a = name
  kept : ∀ name, (Known q es name → Alive q now es name) → name ∉ deleted
  deleted_once : ∀ name, Known q es name → ¬Alive q now es name → deleted.count name = 1

namespace Ledger

variable {q : TimerQueue} {now : Timestamp} {es : List Event} {heap : Addr → Option Timer}
  {names : Addr → Name} {deleted : List Name}

theorem start (q : TimerQueue) (now : Timestamp) : Ledger q now [] q.heap .old [] := by
  have hlives : ∀ name a t, Lives q now [] name a t ↔ q.heap a = some t ∧ name = .old a := by
    intro name a t
    cases name with
    | old b =>
      simp only [Lives, List.not_mem_nil, not_false_eq_true, or_true, and_true, Name.old.injEq]
      rw [and_comm, eq_comm (a := a)]
    | added j => simp [Lives, Added]
  constructor
  . intro a t
    simp [hlives]
  . intro name a t h
    exact ((hlives name a t).mp h).2.symm
  . intro name _
    exact List.not_mem_nil
  . intro name hknown hdead
    cases name with
    | old a =>
      rcases hknown with ⟨t, ht⟩
      exact absurd ⟨a, t, (hlives _ a t).mpr ⟨ht, rfl⟩⟩ hdead
    | added j => simp [Known] at hknown

theorem keep (h : Ledger q now es heap names deleted) {e : Event}
    (hadd : ∀ a when interval clock, e ≠ .add a when interval clock)
    (hlives : ∀ name a t, Lives q now es name a t → Spared now t name ∨ e ≠ .cancel ⟨a, t.sequence⟩)
    : Ledger q now (es ++ [e]) heap names deleted := by
  have hlives' : ∀ name a t, Lives q now (es ++ [e]) name a t ↔ Lives q now es name a t := by
    intro name a t
    rw [lives_concat]
    constructor
    . rintro (⟨hold, -⟩ | ⟨-, when, interval, clock, heq, -⟩)
      . exact hold
      . exact absurd heq (hadd _ _ _ _)
    . intro hold
      exact Or.inl ⟨hold, hlives name a t hold⟩
  have hknown : ∀ name, Known q (es ++ [e]) name ↔ Known q es name := by
    intro name
    rw [known_concat]
    constructor
    . rintro (hold | ⟨-, a, when, interval, clock, heq⟩)
      . exact hold
      . exact absurd heq (hadd _ _ _ _)
    . exact Or.inl
  have halive : ∀ name, Alive q now (es ++ [e]) name ↔ Alive q now es name := by
    intro name
    simp only [Alive, hlives']
  constructor
  . intro a t
    simp only [hlives']
    exact h.heap a t
  . intro name a t hold
    exact h.names name a t ((hlives' name a t).mp hold)
  . intro name
    rw [hknown, halive]
    exact h.kept name
  . intro name
    rw [hknown, halive]
    exact h.deleted_once name

theorem add (h : Ledger q now es heap names deleted) {a : Addr} {when clock : Timestamp}
    {interval : TimerInterval} (hfresh : heap a = none)
    : Ledger q now (es ++ [.add a when interval clock])
        (Function.update heap a (some
          (Timer.new (q.numCreated + Int32.ofNat (es.countP Event.creates)) when interval)))
        (Function.update names a (.added es.length)) deleted := by
  have hne : ∀ name b t, Lives q now es name b t → b ≠ a := by
    intro name b t hold heq
    have ht := (h.heap b t).mpr ⟨name, hold⟩
    rw [heq, hfresh] at ht
    cases ht
  constructor
  . intro b t
    simp only [lives_add]
    by_cases hb : b = a
    . rw [hb, Function.update_self, Option.some.injEq]
      constructor
      . intro ht
        exact ⟨_, Or.inr ⟨rfl, rfl, ht.symm⟩⟩
      . rintro ⟨name, hold | ⟨-, -, ht⟩⟩
        . exact absurd rfl (hne name a t hold)
        . exact ht.symm
    . rw [Function.update_of_ne hb, h.heap b t]
      apply exists_congr
      intro name
      rw [or_iff_left (fun hnew => hb hnew.2.1)]
  . intro name b t hlive
    rcases lives_add.mp hlive with hold | ⟨hname, hb, -⟩
    . rw [Function.update_of_ne (hne name b t hold)]
      exact h.names name b t hold
    . rw [hb, Function.update_self, hname]
  . intro name hkept
    apply h.kept name
    intro hknown
    rcases alive_add.mp (hkept (known_concat.mpr (Or.inl hknown))) with hold | hname
    . exact hold
    . rw [hname] at hknown
      exact absurd hknown not_known_length
  . intro name hknown hdead
    rw [alive_add, not_or] at hdead
    rcases known_concat.mp hknown with hold | ⟨hname, -⟩
    . exact h.deleted_once name hold hdead.1
    . exact absurd hname hdead.2

theorem lives_cancel (h : Ledger q now es heap names deleted) {a : Addr} {t : Timer}
    (ht : heap a = some t) (hspared : ∀ name, Lives q now es name a t → ¬Spared now t name)
    {name : Name} {b : Addr} {u : Timer}
    : Lives q now (es ++ [.cancel ⟨a, t.sequence⟩]) name b u
      ↔
      Lives q now es name b u ∧ b ≠ a := by
  rw [lives_concat]
  constructor
  . rintro (⟨hold, hkeep⟩ | ⟨-, w, i, c, heq, -⟩)
    . refine ⟨hold, ?_⟩
      rintro rfl
      have hu := (h.heap b u).mpr ⟨name, hold⟩
      rw [ht, Option.some.injEq] at hu
      subst hu
      rcases hkeep with hkeep | hne
      . exact hspared name hold hkeep
      . exact hne rfl
    . cases heq
  . rintro ⟨hold, hb⟩
    refine Or.inl ⟨hold, Or.inr ?_⟩
    intro heq
    rw [Event.cancel.injEq, TimerId.mk.injEq] at heq
    exact hb heq.1.symm

theorem alive_cancel (h : Ledger q now es heap names deleted) {a : Addr} {t : Timer}
    (ht : heap a = some t) (hspared : ∀ name, Lives q now es name a t → ¬Spared now t name)
    {name : Name}
    : Alive q now (es ++ [.cancel ⟨a, t.sequence⟩]) name
      ↔
      Alive q now es name ∧ name ≠ names a := by
  rcases (h.heap a t).mp ht with ⟨name₀, hold₀⟩
  have hname₀ := h.names name₀ a t hold₀
  constructor
  . rintro ⟨b, u, hlive⟩
    rcases (h.lives_cancel ht hspared).mp hlive with ⟨hold, hb⟩
    refine ⟨⟨b, u, hold⟩, ?_⟩
    intro hname
    rw [hname, hname₀] at hold
    exact hb (lives_unique hold hold₀).1
  . rintro ⟨⟨b, u, hold⟩, hname⟩
    refine ⟨b, u, (h.lives_cancel ht hspared).mpr ⟨hold, ?_⟩⟩
    rintro rfl
    exact hname (h.names name b u hold).symm

theorem cancel (h : Ledger q now es heap names deleted) {a : Addr} {t : Timer} (ht : heap a = some t)
    (hspared : ∀ name, Lives q now es name a t → ¬Spared now t name)
    : Ledger q now (es ++ [.cancel ⟨a, t.sequence⟩]) (Function.update heap a none) names
        (deleted ++ [names a]) := by
  rcases (h.heap a t).mp ht with ⟨name₀, hold₀⟩
  have hname₀ := h.names name₀ a t hold₀
  have hknown : ∀ name, Known q (es ++ [.cancel ⟨a, t.sequence⟩]) name ↔ Known q es name := by
    intro name
    rw [known_concat]
    simp
  constructor
  . intro b u
    simp only [h.lives_cancel ht hspared]
    by_cases hb : b = a
    . rw [hb, Function.update_self]
      simp
    . rw [Function.update_of_ne hb, h.heap b u]
      simp [hb]
  . intro name b u hlive
    exact h.names name b u ((h.lives_cancel ht hspared).mp hlive).1
  . intro name hkept
    rw [hknown, h.alive_cancel ht hspared] at hkept
    rw [List.mem_append, List.mem_singleton, not_or]
    constructor
    . exact h.kept name fun hk => (hkept hk).1
    . intro hname
      have hk : Known q es name := by
        rw [hname, hname₀]
        exact hold₀.known
      exact (hkept hk).2 hname
  . intro name hk hdead
    rw [hknown] at hk
    rw [h.alive_cancel ht hspared, not_and_not_right] at hdead
    rw [List.count_append]
    by_cases hname : name = names a
    . have hnone : name ∉ deleted := by
        apply h.kept name
        intro _
        rw [hname, hname₀]
        exact ⟨a, t, hold₀⟩
      rw [List.count_eq_zero.mpr hnone, hname, List.count_singleton_self]
    . rw [h.deleted_once name hk (fun hold => hname (hdead hold))]
      rw [List.count_eq_zero.mpr]
      rw [List.mem_singleton]
      exact hname

end Ledger

structure During (q : TimerQueue) (now : Timestamp) (expired : List Entry) (es : List Event)
    (tr : Trace) : Prop where
  batch : ∃ ran, tr.state.batch = some { now, expired, ran } ∧ ran ≤ expired.length
    ∧ tr.ran = (expired.take ran).map fun e => .old e.timer
  length : tr.length = es.length
  inv : tr.state.queue.Inv (expired.map Entry.timer)
  calling : tr.state.queue.callingExpiredTimers = true
  numCreated : tr.state.queue.numCreated
    = q.numCreated + Int32.ofNat (es.countP Event.creates)
  canceling : ∀ a n, a ∈ expired.map Entry.timer →
    (ActiveTimer.mk a n ∈ tr.state.queue.cancelingTimers ↔ Event.cancel ⟨a, n⟩ ∈ es)
  expired : ∀ a, a ∈ expired.map Entry.timer ↔ ∃ t, q.heap a = some t ∧ t.expiration ≤ now
  ledger : Ledger q now es tr.state.queue.heap tr.names tr.deleted

namespace During

variable {q : TimerQueue} {now : Timestamp} {expired : List Entry} {es : List Event}
  {tr : Trace} {name : Name} {a : Addr} {t : Timer}

theorem batchTimers (h : During q now expired es tr)
    : tr.state.batchTimers = expired.map Entry.timer := by
  rcases h.batch with ⟨ran, hbatch, -, -⟩
  simp only [State.batchTimers, hbatch]

theorem state_inv (h : During q now expired es tr) : tr.state.Inv := by
  unfold State.Inv
  rw [h.batchTimers]
  exact h.inv

theorem inv_append (h : During q now expired es tr)
    : tr.state.queue.Inv (expired.map Entry.timer ++ []) := by
  rw [List.append_nil]
  exact h.inv

theorem lives_old (h : During q now expired es tr) (ha : a ∈ expired.map Entry.timer)
    : ∃ t, q.heap a = some t ∧ t.expiration ≤ now ∧ Lives q now es (.old a) a t := by
  rcases (h.expired a).mp ha with ⟨t, ht, hle⟩
  exact ⟨t, ht, hle, rfl, ht, Or.inl hle⟩

theorem names_old (h : During q now expired es tr) (ha : a ∈ expired.map Entry.timer)
    : tr.names a = .old a := by
  rcases h.lives_old ha with ⟨t, -, -, hlives⟩
  exact h.ledger.names _ a t hlives

theorem spared_iff (h : During q now expired es tr) (hlives : Lives q now es name a t)
    : Spared now t name ↔ a ∈ expired.map Entry.timer := by
  constructor
  . intro hspared
    cases name with
    | old b => exact (h.expired a).mpr ⟨t, hlives.2.1, hspared⟩
    | added j => cases hspared
  . intro ha
    rcases h.lives_old ha with ⟨u, hu, hle, hold⟩
    have hname : name = .old a := by
      rw [← h.ledger.names name a t hlives, h.names_old ha]
    rw [hname] at hlives ⊢
    have ht : q.heap a = some t := hlives.2.1
    rw [hu, Option.some.injEq] at ht
    rw [← ht]
    exact hle

theorem active_of_lives (h : During q now expired es tr) (hlives : Lives q now es name a t)
    (ha : a ∉ expired.map Entry.timer)
    : ActiveTimer.mk a t.sequence ∈ tr.state.queue.activeTimers := by
  have ht := (h.ledger.heap a t).mpr ⟨name, hlives⟩
  exact (h.inv.owned a t ht).mpr ha

theorem begin (h : q.Inv []) {r : Except Fault Trace}
    (hnext : traces.next (.ok (.start q)) (.handleRead now) = some r)
    : ∃ tr, r = .ok tr
      ∧ During q now (q.timers.lowerBound (.mk now uintptrMax)).1 [] tr := by
  rcases handleReadBegin_spec h now with ⟨active, heq, hinv⟩
  simp only [traces, step, Trace.start, heq, Option.map_some, Option.some.injEq] at hnext
  rw [List.append_nil] at hinv
  refine ⟨_, hnext.symm, ?_⟩
  -- no callback has run, and nothing is cancelled yet
  constructor
  . exact ⟨0, rfl, Nat.zero_le _, rfl⟩
  . rfl
  . exact hinv.congr rfl rfl rfl
  . rfl
  . simp [Trace.observe]
  . intro a n ha
    simp [Trace.observe]
  . intro a
    exact mem_expired h
  . exact .start q now

theorem set (h : During q now expired es tr) {e : Event} {queue : TimerQueue}
    (hrun : tr.runBy e = []) (hlength : (tr.observe e { tr.state with queue }).length = tr.length + 1)
    (hinv : queue.Inv (expired.map Entry.timer))
    (hcalling : queue.callingExpiredTimers = tr.state.queue.callingExpiredTimers)
    (hcreates : queue.numCreated
      = tr.state.queue.numCreated + Int32.ofNat ([e].countP Event.creates))
    (hcanceling : ∀ a n, a ∈ expired.map Entry.timer →
      (ActiveTimer.mk a n ∈ queue.cancelingTimers
        ↔ ActiveTimer.mk a n ∈ tr.state.queue.cancelingTimers ∨ e = .cancel ⟨a, n⟩))
    (hledger : Ledger q now (es ++ [e]) queue.heap (tr.observe e { tr.state with queue }).names
      (tr.observe e { tr.state with queue }).deleted)
    : During q now expired (es ++ [e]) (tr.observe e { tr.state with queue }) := by
  constructor
  . rcases h.batch with ⟨ran, hbatch, hle, hran⟩
    refine ⟨ran, hbatch, hle, ?_⟩
    change tr.ran ++ tr.runBy e = _
    rw [hrun, List.append_nil]
    exact hran
  . rw [hlength, h.length, List.length_append, List.length_singleton]
  . exact hinv
  . exact hcalling.trans h.calling
  . change queue.numCreated = _
    rw [hcreates, h.numCreated, List.countP_append, Int32.ofNat_add, Int32.add_assoc]
  . intro a n ha
    change ActiveTimer.mk a n ∈ queue.cancelingTimers ↔ _
    rw [hcanceling a n ha, h.canceling a n ha, List.mem_append, List.mem_singleton, eq_comm (a := e)]
  . exact h.expired
  . exact hledger

theorem ledger_keep (h : During q now expired es tr) {e : Event}
    (hadd : ∀ a when interval clock, e ≠ .add a when interval clock)
    (hcancel : ∀ timerId, e ≠ .cancel timerId)
    : Ledger q now (es ++ [e]) tr.state.queue.heap tr.names (tr.deleted ++ []) := by
  rw [List.append_nil]
  apply h.ledger.keep hadd
  intro name a t _
  exact Or.inr (hcancel _)

theorem add (h : During q now expired es tr) {when clock : Timestamp} {interval : TimerInterval}
    {queue : TimerQueue} (hfresh : tr.state.queue.fresh a = true)
    (hadd : (tr.state.queue.newTimer a when interval).addTimerInLoop a clock = .ok queue)
    : During q now expired (es ++ [.add a when interval clock])
        (tr.observe (.add a when interval clock) { tr.state with queue }) := by
  have hnew := h.inv.newTimer hfresh when interval
  rcases heap_addTimerInLoop hnew hadd with ⟨hheap, hcalling, hcanceling⟩
  have hcreates : queue.numCreated = tr.state.queue.numCreated
      + Int32.ofNat ([Event.add a when interval clock].countP Event.creates) :=
    numCreated_addTimerInLoop hnew hadd
  refine h.set rfl rfl (inv_addTimerInLoop hnew hadd) hcalling hcreates ?_ ?_
  . intro b n hb
    rw [hcanceling]
    change ActiveTimer.mk b n ∈ tr.state.queue.cancelingTimers ↔ _
    simp
  . have hledger : Ledger q now (es ++ [.add a when interval clock]) _ _ tr.deleted :=
      h.ledger.add (heap_of_fresh hfresh)
    rw [← h.numCreated, ← h.length] at hledger
    rw [hheap]
    change Ledger q now _ _ _ (tr.deleted ++ [])
    rw [List.append_nil]
    exact hledger

theorem cancel_active (h : During q now expired es tr) {timerId : TimerId} {queue : TimerQueue}
    (hid : ActiveTimer.mk timerId.timer timerId.sequence ∈ tr.state.queue.activeTimers)
    (hcancel : tr.state.queue.cancelInLoop timerId = .ok queue)
    : During q now expired (es ++ [.cancel timerId])
        (tr.observe (.cancel timerId) { tr.state with queue }) := by
  have hinv := inv_cancelInLoop h.inv hcancel
  rcases cancelInLoop_of_active h.inv hid with ⟨t, ht, hseq, hactive, heq⟩
  have hout := (h.inv.owned _ t ht).mp hactive
  rw [heq, Except.ok.injEq] at hcancel
  subst hcancel
  refine h.set rfl rfl hinv rfl (Int32.add_zero _).symm ?_ ?_
  . intro a n ha
    have hne : timerId.timer ≠ a := by
      rintro rfl
      exact hout ha
    have hevent : Event.cancel timerId ≠ .cancel ⟨a, n⟩ := by
      intro hevent
      rw [Event.cancel.injEq] at hevent
      exact hne (congrArg TimerId.timer hevent)
    rw [or_iff_left hevent]
    rfl
  . have hspared : ∀ name, Lives q now es name timerId.timer t → ¬Spared now t name :=
      fun name hlives hspared => hout ((h.spared_iff hlives).mp hspared)
    have hdeleted : tr.deletedBy (.cancel timerId)
        ((tr.state.queue.unindex timerId.timer t).setTimer timerId.timer none)
        = [tr.names timerId.timer] := by
      simp [Trace.deletedBy, Trace.candidates, ht]
    have hledger := h.ledger.cancel ht hspared
    rw [← hseq] at hledger
    change Ledger q now _ _ _ (tr.deleted ++ tr.deletedBy _ _)
    rw [hdeleted]
    exact hledger

theorem cancel_inactive (h : During q now expired es tr) {timerId : TimerId} {queue : TimerQueue}
    (hid : ActiveTimer.mk timerId.timer timerId.sequence ∉ tr.state.queue.activeTimers)
    (hcancel : tr.state.queue.cancelInLoop timerId = .ok queue)
    : During q now expired (es ++ [.cancel timerId])
        (tr.observe (.cancel timerId) { tr.state with queue }) := by
  have hinv := inv_cancelInLoop h.inv hcancel
  have heq := cancelInLoop_inactive h.inv hid
  rw [if_pos h.calling, hcancel, Except.ok.injEq] at heq
  subst heq
  refine h.set rfl rfl hinv rfl (Int32.add_zero _).symm ?_ ?_
  . intro a n _
    have hiff : ActiveTimer.mk a n = .mk timerId.timer timerId.sequence
        ↔ Event.cancel timerId = .cancel ⟨a, n⟩ := by
      rw [Event.cancel.injEq]
      constructor
      . intro hmk
        have hpair := Prod.mk.inj (toLex.injective hmk)
        rw [hpair.1, hpair.2]
      . intro htimerId
        rw [htimerId]
    rw [OrdSet.mem_insert_iff, hiff]
    exact or_comm
  . have hkept : tr.deletedBy (.cancel timerId) { tr.state.queue with
        cancelingTimers := (tr.state.queue.cancelingTimers.insert
          (.mk timerId.timer timerId.sequence)).2 } = [] := by
      simp [Trace.deletedBy, Trace.candidates, Option.isSome_iff_ne_none]
    change Ledger q now _ _ _ (tr.deleted ++ tr.deletedBy _ _)
    rw [hkept, List.append_nil]
    refine h.ledger.keep nofun ?_
    intro name a t hlives
    by_cases ha : a ∈ expired.map Entry.timer
    . left
      exact (h.spared_iff hlives).mpr ha
    . right
      intro htimerId
      rw [Event.cancel.injEq] at htimerId
      rw [htimerId] at hid
      exact hid (h.active_of_lives hlives ha)

theorem callback (h : During q now expired es tr) {b : Batch} {e : Entry}
    (hb : tr.state.batch = some b) (he : b.expired[b.ran]? = some e)
    : During q now expired (es ++ [.callback])
        (tr.observe .callback { tr.state with batch := some { b with ran := b.ran + 1 } }) := by
  rcases h.batch with ⟨ran, hbatch, -, hran⟩
  rw [hb, Option.some.injEq] at hbatch
  subst hbatch
  dsimp only at he
  constructor
  . refine ⟨ran + 1, rfl, (List.getElem?_eq_some_iff.mp he).1, ?_⟩
    have hname := h.names_old (List.mem_map_of_mem (List.mem_of_getElem? he))
    have hrunBy : tr.runBy .callback = [.old e.timer] := by
      simp only [Trace.runBy, hb, he, Option.map_some, Option.toList_some, hname]
    change tr.ran ++ tr.runBy .callback = _
    rw [hran, hrunBy, List.take_add_one, he, List.map_append]
    rfl
  . change tr.length + 1 = _
    rw [h.length, List.length_append, List.length_singleton]
  . exact h.inv
  . exact h.calling
  . change tr.state.queue.numCreated = _
    rw [h.numCreated, List.countP_append, Int32.ofNat_add]
    exact congrArg _ (Int32.add_zero _).symm
  . intro a n ha
    change ActiveTimer.mk a n ∈ tr.state.queue.cancelingTimers ↔ _
    rw [h.canceling a n ha]
    simp
  . exact h.expired
  . exact h.ledger_keep nofun nofun

theorem step (h : During q now expired es tr) {e : Event} (hbatch : e.inBatch = true)
    {r : Except Fault Trace} (hnext : traces.next (.ok tr) e = some r)
    : ∃ tr', r = .ok tr' ∧ During q now expired (es ++ [e]) tr' := by
  simp only [traces, Option.map_eq_some_iff] at hnext
  rcases hnext with ⟨r', hstep, heq⟩
  rcases step_inv h.state_inv hstep with ⟨s', rfl, -⟩
  refine ⟨_, heq.symm, ?_⟩
  cases Step.of_step hstep with
  | add hfresh hadd => exact h.add hfresh hadd
  | @cancel timerId queue hcancel =>
    by_cases hid : ActiveTimer.mk timerId.timer timerId.sequence ∈ tr.state.queue.activeTimers
    . exact h.cancel_active hid hcancel
    . exact h.cancel_inactive hid hcancel
  | created =>
    refine h.set rfl rfl (h.inv.congr rfl rfl rfl) rfl rfl ?_ (h.ledger_keep nofun nofun)
    intro a n _
    simp
  | fire harmed =>
    refine h.set rfl rfl (h.inv.congr rfl rfl rfl) rfl (Int32.add_zero _).symm ?_
      (h.ledger_keep nofun nofun)
    intro a n _
    simp
  | callback hb he hderef => exact h.callback hb he
  | handleRead hb hbegin => cases hbatch
  | handleReadEnd hb hran hend => cases hbatch

theorem run (h : During q now expired es tr) {es' : List Event}
    (hbody : ∀ e ∈ es', e.inBatch = true) {r : Except Fault Trace}
    (hrun : traces.run (.ok tr) es' = some r)
    : ∃ tr', r = .ok tr' ∧ During q now expired (es ++ es') tr' := by
  induction es' generalizing es tr with
  | nil =>
    cases hrun
    rw [List.append_nil]
    exact ⟨tr, rfl, h⟩
  | cons e es' ih =>
    rw [LTS.run_cons, Option.bind_eq_some_iff] at hrun
    rcases hrun with ⟨r₁, hnext, hrun⟩
    rcases h.step (hbody e List.mem_cons_self) hnext with ⟨tr₁, rfl, h₁⟩
    rw [List.append_cons]
    exact ih h₁ (fun e he => hbody e (List.mem_cons_of_mem _ he)) hrun

theorem progress (h : During q now expired es tr)
    : (∃ tr', traces.next (.ok tr) .callback = some (.ok tr'))
      ∨ ∀ clock, ∃ tr', traces.next (.ok tr) (.handleReadEnd clock) = some (.ok tr') := by
  rcases h.batch with ⟨ran, hbatch, hle, -⟩
  rcases Nat.lt_or_eq_of_le hle with hlt | heq
  . left
    have he := List.getElem?_eq_getElem hlt
    rcases h.inv.batch_live _ (List.mem_map_of_mem (List.mem_of_getElem? he)) with ⟨t, ht⟩
    simp only [traces, TimerQueue.step, hbatch, he]
    rw [deref_eq ht]
    exact ⟨_, rfl⟩
  . right
    intro clock
    rcases handleReadEnd_spec h.inv_append now clock with ⟨queue, hend, -, -⟩
    simp only [traces, TimerQueue.step, hbatch, heq, if_pos, hend]
    exact ⟨_, rfl⟩

section Finish

variable {queue : TimerQueue} {t' : Timer}

theorem remains_of_batch (h : During q now expired es tr) (ha : a ∈ expired.map Entry.timer)
    (ht : tr.state.queue.heap a = some t)
    : Remains q now es name a t'
      ↔
      name = .old a ∧ settled tr.state.queue.cancelingTimers now a t = some t' := by
  rcases h.lives_old ha with ⟨u, hu, hle, hlives⟩
  have hheap := (h.ledger.heap a u).mpr ⟨_, hlives⟩
  rw [ht, Option.some.injEq] at hheap
  subst hheap
  rw [settled_eq_some, h.canceling a t.sequence ha]
  cases name with
  | old b =>
    simp only [Remains, hu, Option.some.injEq, Name.old.injEq]
    constructor
    . rintro ⟨rfl, u, rfl, hcancel, ⟨hlt, -⟩ | ⟨-, hrepeats, heq⟩⟩
      . exact absurd hle (Int.not_le.mpr hlt)
      . exact ⟨rfl, hrepeats, hcancel, heq⟩
    . rintro ⟨rfl, hrepeats, hcancel, heq⟩
      exact ⟨rfl, t, rfl, hcancel, Or.inr ⟨hle, hrepeats, heq⟩⟩
  | added j =>
    simp only [reduceCtorEq, false_and, iff_false]
    intro hadded
    have hname := h.ledger.names (.added j) a t' hadded
    rw [h.names_old ha] at hname
    cases hname

theorem remains_of_not_batch (h : During q now expired es tr) (ha : a ∉ expired.map Entry.timer)
    : Remains q now es name a t ↔ Lives q now es name a t := by
  cases name with
  | old b =>
    have hlate : ∀ u, q.heap a = some u → now < u.expiration := by
      intro u hu
      apply Int.not_le.mp
      intro hle
      exact ha ((h.expired a).mpr ⟨u, hu, hle⟩)
    constructor
    . rintro ⟨rfl, u, hu, hcancel, ⟨-, rfl⟩ | ⟨hle, -⟩⟩
      . exact ⟨rfl, hu, Or.inr hcancel⟩
      . exact absurd hle (Int.not_le.mpr (hlate u hu))
    . rintro ⟨rfl, ht, hle | hcancel⟩
      . exact absurd hle (Int.not_le.mpr (hlate t ht))
      . exact ⟨rfl, t, ht, hcancel, Or.inl ⟨hlate t ht, rfl⟩⟩
  | added j => rfl

theorem alive_of_remains (h : Remains q now es name a t) : Alive q now es name := by
  cases name with
  | old b =>
    rcases h with ⟨rfl, u, hu, hcancel, -⟩
    exact ⟨a, u, rfl, hu, Or.inr hcancel⟩
  | added j => exact ⟨a, t, h⟩

theorem heap_finish (h : During q now expired es tr)
    (hheap : ∀ a, queue.heap a
      = if a ∈ expired.map Entry.timer then
          (tr.state.queue.heap a).bind (settled tr.state.queue.cancelingTimers now a)
        else
          tr.state.queue.heap a)
    (a : Addr) (t : Timer)
    : queue.heap a = some t ↔ ∃ name, Remains q now es name a t := by
  rw [hheap a]
  split
  . next ha =>
    rcases h.inv.batch_live a ha with ⟨u, hu⟩
    simp only [h.remains_of_batch ha hu, hu, Option.bind_some, exists_eq_left]
  . next ha =>
    simp only [h.remains_of_not_batch ha]
    exact h.ledger.heap a t

theorem deletedBy_finish (h : During q now expired es tr) (clock : Timestamp) (queue : TimerQueue)
    : tr.deletedBy (.handleReadEnd clock) queue
        =
      ((expired.map Entry.timer).filter fun a => (queue.heap a).isNone).map .old := by
  have hfilter : ∀ a ∈ expired.map Entry.timer,
      ((tr.state.queue.heap a).isSome && (queue.heap a).isNone) = (queue.heap a).isNone := by
    intro a ha
    rcases h.inv.batch_live a ha with ⟨t, ht⟩
    rw [ht, Option.isSome_some, Bool.true_and]
  unfold Trace.deletedBy Trace.candidates
  dsimp only
  rw [h.batchTimers, List.filter_congr hfilter]
  apply List.map_congr_left
  intro a ha
  exact h.names_old (List.mem_of_mem_filter ha)

theorem mem_deletedBy_finish (h : During q now expired es tr) {clock : Timestamp}
    : name ∈ tr.deletedBy (.handleReadEnd clock) queue
      ↔
      ∃ a ∈ expired.map Entry.timer, name = .old a ∧ queue.heap a = none := by
  rw [h.deletedBy_finish clock queue]
  simp only [List.mem_map (f := Name.old), List.mem_filter, Option.isNone_iff_eq_none]
  constructor
  . rintro ⟨a, ⟨ha, hnone⟩, rfl⟩
    exact ⟨a, ha, rfl, hnone⟩
  . rintro ⟨a, ha, rfl, hnone⟩
    exact ⟨a, ⟨ha, hnone⟩, rfl⟩

theorem nodup_deletedBy_finish (h : During q now expired es tr) (clock : Timestamp)
    (queue : TimerQueue)
    : (tr.deletedBy (.handleReadEnd clock) queue).Nodup := by
  rw [h.deletedBy_finish clock queue]
  apply List.Nodup.map
  . intro a b hab
    exact Name.old.inj hab
  . exact h.inv.batch_nodup.filter _

theorem kept_finish (h : During q now expired es tr) {clock : Timestamp}
    (hremains : Remains q now es name a t)
    (hheap : ∀ a t, queue.heap a = some t ↔ ∃ name, Remains q now es name a t)
    : name ∉ tr.deleted ++ tr.deletedBy (.handleReadEnd clock) queue := by
  rw [List.mem_append, not_or]
  constructor
  . exact h.ledger.kept name fun _ => alive_of_remains hremains
  . rw [h.mem_deletedBy_finish]
    rintro ⟨b, -, rfl, hnone⟩
    have ht := (hheap a t).mpr ⟨_, hremains⟩
    rcases hremains with ⟨rfl, -⟩
    rw [hnone] at ht
    cases ht

theorem deleted_once_finish (h : During q now expired es tr) (clock : Timestamp)
    (hknown : Known q es name) (hdead : ¬∃ a t, Remains q now es name a t)
    (hheap : ∀ a t, queue.heap a = some t ↔ ∃ name, Remains q now es name a t)
    : (tr.deleted ++ tr.deletedBy (.handleReadEnd clock) queue).count name = 1 := by
  rw [List.count_append]
  by_cases halive : Alive q now es name
  . -- it has been alive until the end of the batch, so it is an expired timer that is not restarted
    rcases halive with ⟨a, t, hlives⟩
    have ha : a ∈ expired.map Entry.timer := by
      by_contra ha
      exact hdead ⟨a, t, (h.remains_of_not_batch ha).mpr hlives⟩
    have hname : name = .old a := by
      rw [← h.ledger.names name a t hlives, h.names_old ha]
    have hnone : queue.heap a = none := by
      rw [Option.eq_none_iff_forall_ne_some]
      intro t' ht'
      rcases (hheap a t').mp ht' with ⟨name', hremains⟩
      have hname' := ((h.remains_of_batch ha ((h.ledger.heap a t).mpr ⟨name, hlives⟩)).mp hremains).1
      rw [hname', ← hname] at hremains
      exact hdead ⟨a, t', hremains⟩
    have hbefore : tr.deleted.count name = 0 :=
      List.count_eq_zero.mpr (h.ledger.kept name fun _ => ⟨a, t, hlives⟩)
    have hfreed : (tr.deletedBy (.handleReadEnd clock) queue).count name = 1 := by
      apply List.count_eq_one_of_mem (h.nodup_deletedBy_finish clock queue)
      exact h.mem_deletedBy_finish.mpr ⟨a, ha, hname, hnone⟩
    rw [hbefore, hfreed]
  . have hbefore := h.ledger.deleted_once name hknown halive
    have hfreed : (tr.deletedBy (.handleReadEnd clock) queue).count name = 0 := by
      rw [List.count_eq_zero, h.mem_deletedBy_finish]
      rintro ⟨a, ha, rfl, -⟩
      rcases h.lives_old ha with ⟨t, -, -, hlives⟩
      exact halive ⟨a, t, hlives⟩
    rw [hbefore, hfreed]

end Finish

theorem finish (h : During q now expired es tr) (hq : q.Inv [])
    (hexpired : expired = (q.timers.lowerBound (.mk now uintptrMax)).1) {clock : Timestamp}
    {r : Except Fault Trace} (hnext : traces.next (.ok tr) (.handleReadEnd clock) = some r)
    : ∃ tr', r = .ok tr' ∧ OneBatch q now es tr' := by
  simp only [traces, Option.map_eq_some_iff] at hnext
  rcases hnext with ⟨r', hstep, heq⟩
  rcases step_inv h.state_inv hstep with ⟨s', rfl, hinv⟩
  refine ⟨_, heq.symm, ?_⟩
  cases Step.of_step hstep with
  | @handleReadEnd _ b queue hb hran hend =>
    rcases h.batch with ⟨ran, hbatch, -, hran'⟩
    rw [hb, Option.some.injEq] at hbatch
    subst hbatch
    dsimp only at hran hend
    have hqueue : queue.Inv [] := hinv
    have hheap := h.heap_finish (handleReadEnd_heap h.inv_append hend)
    constructor
    . rfl
    . change tr.ran ++ [] = _
      rw [List.append_nil, hran', hran, List.take_length, hexpired, lowerBound_eq_filter hq]
    . exact hheap
    . intro e
      change e ∈ queue.timers ↔ _
      rw [mem_timers_iff hqueue]
      simp only [hheap]
      tauto
    . intro x
      change x ∈ queue.activeTimers ↔ _
      rw [mem_activeTimers_iff hqueue]
      simp only [hheap]
      tauto
    . rintro name ⟨a, t, hremains⟩
      exact h.kept_finish hremains hheap
    . intro name hknown hdead
      exact h.deleted_once_finish clock hknown hdead hheap

end During

theorem inv_of_reachable {s : State} (h : system.Reachable (.ok s)) (hb : s.batch = none)
    : s.queue.Inv [] := by
  rcases reachable_state_inv h with ⟨s', heq, hinv⟩
  cases heq
  simp only [State.Inv, State.batchTimers, hb] at hinv
  exact hinv

theorem handleRead_one_batch {q : TimerQueue} (hq : q.Inv []) (now : Timestamp) {es : List Event}
    (hbody : ∀ e ∈ es, e.inBatch = true) {r : Except Fault Trace}
    (hrun : traces.run (.ok (.start q)) (.handleRead now :: es) = some r)
    : ∃ tr, r = .ok tr
      ∧ ((∃ tr', traces.next (.ok tr) .callback = some (.ok tr'))
        ∨ ∀ clock, ∃ tr', traces.next (.ok tr) (.handleReadEnd clock) = some (.ok tr'))
      ∧ ∀ clock r', traces.next (.ok tr) (.handleReadEnd clock) = some r' →
        ∃ tr', r' = .ok tr' ∧ OneBatch q now es tr' := by
  rw [LTS.run_cons, Option.bind_eq_some_iff] at hrun
  rcases hrun with ⟨r₁, hnext, hrun⟩
  rcases During.begin hq hnext with ⟨tr₁, rfl, h₁⟩
  rcases h₁.run hbody hrun with ⟨tr, rfl, h⟩
  refine ⟨tr, rfl, h.progress, ?_⟩
  intro clock r' hend
  exact h.finish hq rfl hend

def beforeBatch : List Event :=
  [.add 8 100 (.ofNat 50 true) 10, .add 16 110 (.ofNat 0 false) 11, .add 24 200 (.ofNat 0 false) 12,
    .add 32 115 (.ofNat 50 true) 13, .fire]

def ofCallbacks : List Event :=
  [.callback, .cancel ⟨8, 0⟩, .add 48 90 (.ofNat 0 false) 121, .cancel ⟨48, 4⟩,
    .add 48 300 (.ofNat 50 true) 121, .cancel ⟨24, 2⟩, .add 24 90 (.ofNat 0 false) 122,
    .cancel ⟨16, 1⟩, .callback, .callback]

def endsBatch : Except Fault State → Bool
  | .ok s =>
    s.batch.isNone
      && ((traces.run (.ok (.start s.queue)) (.handleRead 120 :: ofCallbacks)).bind
        fun r => traces.next r (.handleReadEnd 123)).isSome
  | .error _ => false

theorem handleRead_one_batch_ofCallbacks
    : ∃ s tr, system.Reachable (.ok s) ∧ s.batch = none
      ∧ traces.run (.ok (.start s.queue)) (.handleRead 120 :: ofCallbacks ++ [.handleReadEnd 123])
        = some (.ok tr)
      ∧ OneBatch s.queue 120 ofCallbacks tr := by
  have hrun : (system.run (.ok { queue := new 0, batch := none }) beforeBatch).any endsBatch
      = true := by
    decide +kernel
  rcases (Option.any_eq_true _ _).mp hrun with ⟨r, hr, hends⟩
  have hreach := LTS.Reachable.of_run system (.init ⟨0, rfl⟩) hr
  cases r with
  | error fault => cases hends
  | ok s =>
    simp only [endsBatch, Bool.and_eq_true, Option.isNone_iff_eq_none, Option.isSome_iff_exists,
      Option.bind_eq_some_iff] at hends
    rcases hends with ⟨hb, r', r, hbatch, hend⟩
    have hbody : ∀ e ∈ ofCallbacks, e.inBatch = true := by decide
    rcases handleRead_one_batch (inv_of_reachable hreach hb) 120 hbody hbatch with ⟨tr, rfl, -, hone⟩
    rcases hone 123 r' hend with ⟨tr', rfl, honeBatch⟩
    refine ⟨s, tr', hreach, hb, ?_, honeBatch⟩
    rw [LTS.run_append, hbatch, Option.bind_some, LTS.run_cons, hend]
    rfl

end HandleRead

end TimerQueue
