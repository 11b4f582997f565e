import Mathlib.Data.Set.Card
import Mmuduo.EpollPoller.Agreement
import Mmuduo.Lib.Transition

section EpollWait

variable {ι : Type}

/--
`EPOLLERR` and `EPOLLHUP` are reported whatever the mask is.
-/
def EpollEvent.reported (event : EpollEvent ι) (bits : UInt32) : EpollEvent ι :=
  { event with events := bits &&& (event.events ||| EPOLLERR ||| EPOLLHUP) }

def readyEvent (epollSet : Nat → Option (EpollEvent ι)) (file : Nat × UInt32)
    : Option (EpollEvent ι) := do
  let event ← epollSet file.1
  if (event.reported file.2).events = 0 then none else some (event.reported file.2)

def readyEvents (epollSet : Nat → Option (EpollEvent ι)) (ready : List (Nat × UInt32))
    : List (EpollEvent ι) :=
  ready.filterMap (readyEvent epollSet)

def epollWait (epollSet : Nat → Option (EpollEvent ι)) (maxevents : Nat)
    (ready : List (Nat × UInt32)) : List (EpollEvent ι) :=
  (readyEvents epollSet ready).take maxevents

end EpollWait

namespace EpollPoller

variable {ι : Type} [DecidableEq ι]

def KInitEventListSize : Nat := 16

structure Polling (ι : Type) where
  poller : EpollPoller ι
  -- An entry that no call of `epoll_wait` has written holds no channel.
  reventList : List (Option (EpollEvent ι))
  revents : ι → UInt32
  -- the polls that have left a ready channel out
  missed : Nat

namespace Polling

def new (fds : ι → Nat) : Polling ι where
  poller := .new fds
  reventList := List.replicate KInitEventListSize none
  revents := fun _ => 0
  missed := 0

def setRevents (p : Polling ι) (event : EpollEvent ι) : Polling ι :=
  { p with revents := Function.update p.revents event.ptr event.events }

def fillActiveChannel (r : Polling ι × List ι) (i : Nat) : Option (Polling ι × List ι) :=
  match r.1.reventList[i]? with
  | some (some event) => some (r.1.setRevents event, r.2 ++ [event.ptr])
  | _ => none

def fillActiveChannels (p : Polling ι) (eventNums : Nat) (activeChannels : List ι)
    : Option (Polling ι × List ι) :=
  (List.range eventNums).foldlM fillActiveChannel (p, activeChannels)

def resize (p : Polling ι) (eventNums : Nat) : Polling ι :=
  if eventNums = p.reventList.length then
    { p with reventList := p.reventList ++ List.replicate p.reventList.length none }
  else
    p

def misses (p : Polling ι) (ready : List (Nat × UInt32)) : Bool :=
  decide (p.reventList.length < (readyEvents p.poller.epollSet ready).length)

def write (p : Polling ι) (events : List (EpollEvent ι)) : Polling ι :=
  { p with reventList := events.map some ++ p.reventList.drop events.length }

def poll (p : Polling ι) (ready : List (Nat × UInt32)) (activeChannels : List ι)
    : Option (Polling ι × List ι) :=
  let events := epollWait p.poller.epollSet p.reventList.length ready
  let p := { p with missed := if p.misses ready then p.missed + 1 else p.missed }
  let p := p.write events
  if 0 < events.length then
    (p.fillActiveChannels events.length activeChannels).map fun r => (r.1.resize events.length, r.2)
  else
    some (p, activeChannels)

inductive Event (ι : Type) where
  | call (c : ι) (op : ChannelCall)
  | poll (ready : List (Nat × UInt32))

/--
The kernel has a file at most once in its ready list.
-/
def step (p : Polling ι) : Event ι → Option (Polling ι)
  | .call c op => do
    let poller ← p.poller.call c op
    return { p with poller }
  | .poll ready =>
    if (ready.map Prod.fst).Nodup then
      (p.poll ready []).map Prod.fst
    else
      none

def system (fds : ι → Nat) : LTS (Polling ι) (Event ι) where
  Init p := p = .new fds
  next := step

end Polling

section Ready

variable {fds : ι → Nat} {p : EpollPoller ι} {ready : List (Nat × UInt32)}

omit [DecidableEq ι] in
theorem readyEvent_eq_some_iff (h : Agree fds p) {file : Nat × UInt32} {event : EpollEvent ι}
    : readyEvent p.epollSet file = some event
      ↔
      fds event.ptr = file.1
        ∧ (p.channels event.ptr).index = .kAdded
        ∧ event.events = file.2 &&& ((p.channels event.ptr).events ||| EPOLLERR ||| EPOLLHUP)
        ∧ event.events ≠ 0 := by
  unfold readyEvent
  rw [Option.bind_eq_bind, Option.bind_eq_some_iff]
  constructor
  . rintro ⟨watched, hwatched, hreported⟩
    rcases (h.epollSet_eq_some_iff _ _).mp hwatched with ⟨c, hfd, hindex, rfl⟩
    split at hreported
    . simp at hreported
    . next hne =>
      cases hreported
      exact ⟨hfd, hindex, rfl, hne⟩
  . rintro ⟨hfd, hindex, hevents, hne⟩
    refine ⟨_, (h.epollSet_eq_some_iff _ _).mpr ⟨event.ptr, hfd, hindex, rfl⟩, ?_⟩
    unfold EpollEvent.reported
    dsimp only
    rw [← hevents, if_neg hne]

omit [DecidableEq ι] in
theorem mem_readyEvents_iff (h : Agree fds p) {event : EpollEvent ι}
    : event ∈ readyEvents p.epollSet ready
      ↔
      ∃ bits, (fds event.ptr, bits) ∈ ready
        ∧ (p.channels event.ptr).index = .kAdded
        ∧ event.events = bits &&& ((p.channels event.ptr).events ||| EPOLLERR ||| EPOLLHUP)
        ∧ event.events ≠ 0 := by
  unfold readyEvents
  rw [List.mem_filterMap]
  constructor
  . rintro ⟨⟨fd, bits⟩, hmem, hevent⟩
    rcases (readyEvent_eq_some_iff h).mp hevent with ⟨rfl, hrest⟩
    exact ⟨bits, hmem, hrest⟩
  . rintro ⟨bits, hmem, hrest⟩
    exact ⟨_, hmem, (readyEvent_eq_some_iff h).mpr ⟨rfl, hrest⟩⟩

omit [DecidableEq ι] in
theorem nodup_readyEvents (h : Agree fds p) (hready : (ready.map Prod.fst).Nodup)
    : ((readyEvents p.epollSet ready).map EpollEvent.ptr).Nodup := by
  unfold readyEvents List.Nodup at *
  rw [List.pairwise_map] at hready ⊢
  rw [List.pairwise_filterMap]
  apply hready.imp
  intro file file' hne event hevent event' hevent' heq
  apply hne
  rw [← ((readyEvent_eq_some_iff h).mp hevent).1, ← ((readyEvent_eq_some_iff h).mp hevent').1, heq]

def watched (p : EpollPoller ι) : Set Nat :=
  { fd | (p.epollSet fd).isSome }

omit [DecidableEq ι] in
theorem length_readyEvents_le (h : Agree fds p) (hfds : Function.Injective fds)
    (hfinite : p.watched.Finite) (hready : (ready.map Prod.fst).Nodup)
    : (readyEvents p.epollSet ready).length ≤ p.watched.ncard := by
  have hnodup := (nodup_readyEvents h hready).map hfds
  have hsub : ↑((readyEvents p.epollSet ready).map EpollEvent.ptr |>.map fds).toFinset
      ⊆ p.watched := by
    intro fd hfd
    simp only [List.coe_toFinset, Set.mem_ofPred_eq, List.mem_map] at hfd
    rcases hfd with ⟨c, ⟨event, hevent, rfl⟩, rfl⟩
    rcases (mem_readyEvents_iff h).mp hevent with ⟨_, _, hindex, _⟩
    exact (h.isSome_epollSet event.ptr).mpr hindex
  have hle := Set.ncard_le_ncard hsub hfinite
  rw [Set.ncard_coe_finset, List.toFinset_card_of_nodup hnodup] at hle
  simpa using hle

theorem finite_call (h : Agree fds p) (hfinite : p.watched.Finite) (c : ι) (op : ChannelCall)
    : (p.register c (nextChannel (p.channels c) op)).watched.Finite := by
  apply (hfinite.insert (fds c)).subset
  intro fd hfd
  by_cases heq : fd = fds c
  . exact Or.inl heq
  . right
    have hne : fd ≠ (nextChannel (p.channels c) op).fd := by
      rw [nextChannel_fd, h.fd c]
      exact heq
    simpa [watched, register, hne] using hfd

end Ready

namespace Polling

variable {fds : ι → Nat} {p : Polling ι} {ready : List (Nat × UInt32)}

def reports (p : Polling ι) (ready : List (Nat × UInt32)) : List (EpollEvent ι) :=
  epollWait p.poller.epollSet p.reventList.length ready

def fill (p : Polling ι) (events : List (EpollEvent ι)) : Polling ι :=
  events.foldl setRevents p

def polled (p : Polling ι) (ready : List (Nat × UInt32)) : Polling ι :=
  let events := p.reports ready
  let p := { p with missed := if p.misses ready then p.missed + 1 else p.missed }
  ((p.write events).fill events).resize events.length

def fillRevents (revents : ι → UInt32) (events : List (EpollEvent ι)) : ι → UInt32 :=
  events.foldl (fun revents event => Function.update revents event.ptr event.events) revents

theorem fill_eq (events : List (EpollEvent ι))
    : p.fill events = { p with revents := fillRevents p.revents events } := by
  induction events generalizing p with
  | nil => rfl
  | cons event events ih => exact ih

theorem fill_concat (events : List (EpollEvent ι)) (event : EpollEvent ι)
    : p.fill (events ++ [event]) = (p.fill events).setRevents event := by
  unfold fill
  rw [List.foldl_append]
  rfl

theorem fillRevents_of_not_mem {revents : ι → UInt32} {events : List (EpollEvent ι)} {c : ι}
    (hc : c ∉ events.map EpollEvent.ptr)
    : fillRevents revents events c = revents c := by
  induction events generalizing revents with
  | nil => rfl
  | cons event events ih =>
    rw [List.map_cons, List.mem_cons, not_or] at hc
    have htail : fillRevents (Function.update revents event.ptr event.events) events c
        = Function.update revents event.ptr event.events c :=
      ih hc.2
    rw [Function.update_of_ne hc.1] at htail
    exact htail

theorem fillRevents_of_mem {revents : ι → UInt32} {events : List (EpollEvent ι)}
    {event : EpollEvent ι} (hnodup : (events.map EpollEvent.ptr).Nodup) (hmem : event ∈ events)
    : fillRevents revents events event.ptr = event.events := by
  induction events generalizing revents with
  | nil => simp at hmem
  | cons first events ih =>
    rw [List.map_cons, List.nodup_cons] at hnodup
    rcases List.mem_cons.mp hmem with rfl | hmem
    . have htail : fillRevents (Function.update revents event.ptr event.events) events event.ptr
          = Function.update revents event.ptr event.events event.ptr :=
        fillRevents_of_not_mem hnodup.1
      rw [Function.update_self] at htail
      exact htail
    . exact ih hnodup.2 hmem

theorem fillActiveChannels_eq {events : List (EpollEvent ι)} {tail : List (Option (EpollEvent ι))}
    (hlist : p.reventList = events.map some ++ tail) (activeChannels : List ι)
    : p.fillActiveChannels events.length activeChannels
      =
      some (p.fill events, activeChannels ++ events.map EpollEvent.ptr) := by
  have hprefix : ∀ n ≤ events.length,
      p.fillActiveChannels n activeChannels
        = some (p.fill (events.take n), activeChannels ++ (events.take n).map EpollEvent.ptr) := by
    intro n hn
    induction n with
    | zero => simp [fillActiveChannels, fill]
    | succ n ih =>
      have hlt : n < events.length := hn
      have hget : p.reventList[n]? = some (some events[n]) := by
        rw [hlist, List.getElem?_append_left (by simpa using hlt)]
        simp [hlt]
      have htake : events.take (n + 1) = events.take n ++ [events[n]] := by
        rw [List.take_add_one, List.getElem?_eq_getElem hlt]
        rfl
      have hfold : p.fillActiveChannels (n + 1) activeChannels
          = (p.fillActiveChannels n activeChannels).bind fun r => fillActiveChannel r n := by
        unfold fillActiveChannels
        rw [List.range_succ, List.foldlM_append]
        simp
      rw [hfold, ih (Nat.le_of_lt hlt), Option.bind_some, htake, fill_concat, fill_eq,
        List.map_append, ← List.append_assoc]
      simp [fillActiveChannel, hget]
  have hall := hprefix events.length (Nat.le_refl _)
  rw [List.take_length] at hall
  exact hall

omit [DecidableEq ι] in
theorem resize_zero : p.resize 0 = p := by
  unfold resize
  split
  . next hempty => rw [← hempty, List.replicate_zero, List.append_nil]
  . rfl

theorem poll_eq (activeChannels : List ι)
    : p.poll ready activeChannels
      =
      some (p.polled ready, activeChannels ++ (p.reports ready).map EpollEvent.ptr) := by
  unfold poll polled
  dsimp only
  split
  . rw [fillActiveChannels_eq rfl]
    rfl
  . next hzero =>
    have hnil : p.reports ready = [] := by
      apply List.eq_nil_of_length_eq_zero
      unfold reports
      omega
    have hnone : epollWait p.poller.epollSet p.reventList.length ready = [] := hnil
    rw [hnil, hnone]
    simp [fill, resize_zero]

omit [DecidableEq ι] in
theorem mem_readyEvents {event : EpollEvent ι} (hmem : event ∈ p.reports ready)
    : event ∈ readyEvents p.poller.epollSet ready :=
  List.mem_of_mem_take hmem

omit [DecidableEq ι] in
theorem nodup_reports (h : Agree fds p.poller) (hready : (ready.map Prod.fst).Nodup)
    : ((p.reports ready).map EpollEvent.ptr).Nodup := by
  unfold reports epollWait
  rw [List.map_take]
  apply (nodup_readyEvents h hready).sublist (List.take_sublist _ _)

omit [DecidableEq ι] in
theorem length_reports_le : (p.reports ready).length ≤ p.reventList.length := by
  unfold reports epollWait
  rw [List.length_take]
  apply Nat.min_le_left

omit [DecidableEq ι] in
theorem length_write : (p.write (p.reports ready)).reventList.length = p.reventList.length := by
  have hle : (p.reports ready).length ≤ p.reventList.length := length_reports_le
  simp only [write, List.length_append, List.length_map, List.length_drop]
  omega

omit [DecidableEq ι] in
theorem resize_eq (eventNums : Nat) : ∃ reventList, p.resize eventNums = { p with reventList } := by
  unfold resize
  split
  . exact ⟨_, rfl⟩
  . exact ⟨p.reventList, rfl⟩

theorem polled_eq (p : Polling ι) (ready : List (Nat × UInt32))
    : ∃ reventList,
      p.polled ready
        =
        { poller := p.poller
          reventList
          revents := fillRevents p.revents (p.reports ready)
          missed := if p.misses ready then p.missed + 1 else p.missed } := by
  unfold polled
  dsimp only
  rw [fill_eq]
  rcases resize_eq _ with ⟨reventList, heq⟩
  exact ⟨reventList, heq⟩

@[simp]
theorem poller_polled : (p.polled ready).poller = p.poller := by
  rcases p.polled_eq ready with ⟨_, heq⟩
  rw [heq]

theorem missed_polled
    : (p.polled ready).missed = if p.misses ready then p.missed + 1 else p.missed := by
  rcases p.polled_eq ready with ⟨_, heq⟩
  rw [heq]

theorem revents_polled : (p.polled ready).revents = fillRevents p.revents (p.reports ready) := by
  rcases p.polled_eq ready with ⟨_, heq⟩
  rw [heq]

omit [DecidableEq ι] in
theorem length_resize {n : Nat} (hlength : p.reventList.length = n) (eventNums : Nat)
    : (p.resize eventNums).reventList.length = if eventNums = n then 2 * n else n := by
  unfold resize
  rw [hlength]
  split
  . rw [List.length_append, List.length_replicate, hlength, Nat.two_mul]
  . exact hlength

theorem length_polled
    : (p.polled ready).reventList.length
      =
      if (p.reports ready).length = p.reventList.length then
        2 * p.reventList.length
      else
        p.reventList.length := by
  unfold polled
  dsimp only
  rw [fill_eq]
  apply length_resize
  exact p.length_write

omit [DecidableEq ι] in
theorem length_reports_of_misses (h : p.misses ready = true)
    : (p.reports ready).length = p.reventList.length := by
  unfold misses at h
  rw [decide_eq_true_eq] at h
  unfold reports epollWait
  rw [List.length_take]
  apply Nat.min_eq_left (Nat.le_of_lt h)

omit [DecidableEq ι] in
theorem misses_of_not_mem {event : EpollEvent ι}
    (hevent : event ∈ readyEvents p.poller.epollSet ready) (hmissed : event ∉ p.reports ready)
    : p.misses ready = true := by
  unfold misses
  rw [decide_eq_true_eq]
  by_contra hnot
  apply hmissed
  unfold reports epollWait
  rw [List.take_of_length_le (Nat.le_of_not_lt hnot)]
  exact hevent

theorem poll_misses {p' : Polling ι} {activeChannels : List ι} {event : EpollEvent ι}
    (hpoll : p.poll ready [] = some (p', activeChannels))
    (hevent : event ∈ readyEvents p.poller.epollSet ready) (hmissed : event.ptr ∉ activeChannels)
    : activeChannels.length = p.reventList.length
      ∧ p'.reventList.length = 2 * p.reventList.length := by
  rw [poll_eq, List.nil_append] at hpoll
  cases hpoll
  have hnot : event ∉ p.reports ready := fun hmem => hmissed (List.mem_map_of_mem hmem)
  have hfull := length_reports_of_misses (misses_of_not_mem hevent hnot)
  rw [List.length_map, length_polled, if_pos hfull]
  exact ⟨hfull, rfl⟩

structure Inv (fds : ι → Nat) (p : Polling ι) : Prop where
  agree : Agree fds p.poller
  finite : p.poller.watched.Finite
  size : ∃ k, p.reventList.length = KInitEventListSize * 2 ^ k ∧ p.missed ≤ k

namespace Inv

omit [DecidableEq ι] in
theorem new (fds : ι → Nat) : Inv fds (.new fds) where
  agree := agree_new fds
  finite := by
    have hempty : (EpollPoller.new fds).watched = ∅ := by
      ext fd
      simp [watched, EpollPoller.new]
    simp only [Polling.new, hempty, Set.finite_empty]
  size := ⟨0, rfl, Nat.le_refl 0⟩

theorem call (h : Inv fds p) (hfds : Function.Injective fds) (c : ι) (op : ChannelCall)
    : Inv fds
      { p with poller := p.poller.register c (nextChannel (p.poller.channels c) op) } where
  agree := h.agree.call hfds c op
  finite := finite_call h.agree h.finite c op
  size := h.size

theorem poll (h : Inv fds p) : Inv fds (p.polled ready) where
  agree := by
    rw [poller_polled]
    exact h.agree
  finite := by
    rw [poller_polled]
    exact h.finite
  size := by
    rcases h.size with ⟨k, hlength, hmissed⟩
    rw [length_polled, missed_polled]
    by_cases hfull : (p.reports ready).length = p.reventList.length
    . refine ⟨k + 1, ?_, ?_⟩
      . rw [if_pos hfull, hlength, Nat.pow_succ, Nat.mul_left_comm, Nat.mul_comm 2]
      . split <;> omega
    . have hnot : ¬p.misses ready = true := mt length_reports_of_misses hfull
      refine ⟨k, ?_, ?_⟩
      . rw [if_neg hfull, hlength]
      . rw [if_neg hnot]
        exact hmissed

theorem length_polled_le (h : Inv fds p) (hfds : Function.Injective fds)
    (hready : (ready.map Prod.fst).Nodup)
    : (p.polled ready).reventList.length
      ≤ max p.reventList.length (2 * p.poller.watched.ncard) := by
  rw [length_polled]
  split
  . next hfull =>
    have hle := length_readyEvents_le h.agree hfds h.finite hready
    have htake : (p.reports ready).length ≤ (readyEvents p.poller.epollSet ready).length := by
      unfold reports epollWait
      rw [List.length_take]
      apply Nat.min_le_right
    omega
  . apply Nat.le_max_left

theorem step {p' : Polling ι} {e : Event ι} (h : Inv fds p) (hfds : Function.Injective fds)
    (hstep : step p e = some p')
    : Inv fds p'
      ∧ p'.reventList.length ≤ max p.reventList.length (2 * p'.poller.watched.ncard) := by
  cases e with
  | call c op =>
    simp only [Polling.step, h.agree.call_eq] at hstep
    cases hstep
    exact ⟨h.call hfds c op, Nat.le_max_left _ _⟩
  | poll ready =>
    simp only [Polling.step] at hstep
    split at hstep
    . next hready =>
      rw [poll_eq, Option.map_some] at hstep
      cases hstep
      refine ⟨h.poll, ?_⟩
      rw [poller_polled]
      apply h.length_polled_le hfds hready
    . simp at hstep

end Inv

/--
A poll misses a ready channel at most logarithmically often, however long the run is: such a poll has
filled its list and doubles it, and the list never has more than twice as many entries as channels were
watched at a time.
-/
theorem missed_le (hfds : Function.Injective fds) {es : List (Event ι)}
    (hrun : (system fds).run (.new fds) es = some p)
    : KInitEventListSize * 2 ^ p.missed ≤ p.reventList.length
      ∧ p.reventList.length
        ≤ max KInitEventListSize
          (2 * (system fds).peak (fun p => p.poller.watched.ncard) (.new fds) es)
      ∧ ∀ ready p' activeChannels, p.poll ready [] = some (p', activeChannels) →
        ∀ event ∈ readyEvents p.poller.epollSet ready, event.ptr ∉ activeChannels →
          activeChannels.length = p.reventList.length
            ∧ p'.reventList.length = 2 * p.reventList.length := by
  have hstep : ∀ p e p', Inv fds p → (system fds).next p e = some p' →
      Inv fds p'
        ∧ p'.reventList.length ≤ max p.reventList.length (2 * p'.poller.watched.ncard) :=
    fun p e p' h hnext => h.step hfds hnext
  have hinv : Inv fds p := by
    apply LTS.Reachable.invariant (system fds) ?_ ?_ (.of_run _ (.init rfl) hrun)
    . rintro p rfl
      exact Inv.new fds
    . intro p e p' h hnext
      exact (hstep p e p' h hnext).1
  refine ⟨?_, ?_, ?_⟩
  . rcases hinv.size with ⟨k, hlength, hmissed⟩
    rw [hlength]
    apply Nat.mul_le_mul_left
    apply Nat.pow_le_pow_right Nat.two_pos hmissed
  . have hmono : ∀ x y : Nat, x ≤ y → 2 * x ≤ 2 * y := fun _ _ hle => Nat.mul_le_mul_left 2 hle
    exact LTS.run_le_peak (system fds) hmono hstep (Inv.new fds) hrun
  . intro ready p' activeChannels hpoll event hevent hmissed
    exact poll_misses hpoll hevent hmissed

def overfull : List (Event Nat) :=
  (List.range 17).map (fun c => .call c .enableReading)
    ++ [.poll ((List.range 17).map fun c => (c, EPOLLIN))]

theorem missed_le_overfull
    : ∃ p, (system fun c : Nat => c).run (.new fun c => c) overfull = some p ∧ p.missed = 1
      ∧ 32 ≤ p.reventList.length := by
  have hrun : (system fun c : Nat => c).run (.new fun c => c) overfull = some _ := rfl
  refine ⟨_, hrun, rfl, ?_⟩
  exact (missed_le (fun _ _ h => h) hrun).1

end Polling

end EpollPoller
