import Mmuduo.EpollPoller.Impl

namespace EpollPoller

variable {ι : Type} [DecidableEq ι]

def mapEntry (ch : PolledChannel) (c : ι) : Option ι :=
  if ch.index = .kNew then none else some c

def epollEntry (ch : PolledChannel) (c : ι) : Option (EpollEvent ι) :=
  if ch.index = .kAdded then some ⟨ch.events, c⟩ else none

structure Agree (fds : ι → Nat) (p : EpollPoller ι) : Prop where
  fd : ∀ c, (p.channels c).fd = fds c
  channelMap : ∀ c, p.channelMap (fds c) = mapEntry (p.channels c) c
  epollSet : ∀ c, p.epollSet (fds c) = epollEntry (p.channels c) c
  owned : ∀ fd, (∀ c, fds c ≠ fd) → p.epollSet fd = none
  ctlErrors : p.ctlErrors = []

def register (p : EpollPoller ι) (c : ι) (ch : PolledChannel) : EpollPoller ι :=
  { p with
    channels := Function.update p.channels c ch
    channelMap := Function.update p.channelMap ch.fd (mapEntry ch c)
    epollSet := Function.update p.epollSet ch.fd (epollEntry ch c) }

def nextIndex (ch : PolledChannel) : Index :=
  if ch.index = .kAdded ∧ ch.isNoneEvent then .kDeleted else .kAdded

def nextMask (ch : Channel) (op : ChannelCall) : Channel :=
  match op with
  | .enableReading => ch.enableReading
  | .disableReading => ch.disableReading
  | .enableWriting => ch.enableWriting
  | .disableWriting => ch.disableWriting
  | .disableAll => ch.disableAll
  | .remove => ch

def nextChannel (ch : PolledChannel) (op : ChannelCall) : PolledChannel :=
  let channel := nextMask ch.toChannel op
  { toChannel := channel
    index := if op = .remove then .kNew else nextIndex { ch with toChannel := channel } }

theorem nextChannel_fd (ch : PolledChannel) (op : ChannelCall) : (nextChannel ch op).fd = ch.fd := by
  cases op with
  | _ => rfl

omit [DecidableEq ι] in
theorem agree_new (fds : ι → Nat) : Agree fds (new fds) where
  fd := fun _ => rfl
  channelMap := fun _ => rfl
  epollSet := fun _ => rfl
  owned := fun _ _ => rfl
  ctlErrors := rfl

theorem updateChannel_eq (p : EpollPoller ι) (c : ι)
    (hmap : p.channelMap (p.channels c).fd = mapEntry (p.channels c) c)
    (hset : (p.epollSet (p.channels c).fd).isSome ↔ (p.channels c).index = .kAdded)
    : p.updateChannel c
      =
      some (p.register c { p.channels c with index := nextIndex (p.channels c) }) := by
  unfold updateChannel
  cases hindex : (p.channels c).index with
  | kNew =>
    have hnone : p.epollSet (p.channels c).fd = none := by
      simpa [hindex] using hset
    simp [update, setIndex, epollCtl, register, nextIndex, mapEntry, epollEntry, hindex, hnone]
  | kDeleted =>
    have hnone : p.epollSet (p.channels c).fd = none := by
      simpa [hindex] using hset
    have hself : Function.update p.channelMap (p.channels c).fd (some c) = p.channelMap := by
      apply Function.update_eq_self_iff.mpr
      rw [hmap]
      simp [mapEntry, hindex]
    simp [update, setIndex, epollCtl, register, nextIndex, mapEntry, epollEntry, hindex, hnone,
      hself]
  | kAdded =>
    rw [hindex] at hset
    simp only [iff_true] at hset
    rcases Option.isSome_iff_exists.mp hset with ⟨event, hevent⟩
    have hself : Function.update p.channelMap (p.channels c).fd (some c) = p.channelMap := by
      apply Function.update_eq_self_iff.mpr
      rw [hmap]
      simp [mapEntry, hindex]
    cases hempty : (p.channels c).isNoneEvent with
    | true =>
      simp [update, setIndex, epollCtl, register, nextIndex, mapEntry, epollEntry, hindex, hevent,
        hself, hempty]
    | false =>
      have hsame : ({ p.channels c with index := .kAdded } : PolledChannel) = p.channels c := by
        rw [← hindex]
      simp [update, epollCtl, register, nextIndex, mapEntry, epollEntry, hindex, hevent, hself,
        hempty, hsame]

theorem removeChannel_eq (p : EpollPoller ι) (c : ι)
    (hset : (p.epollSet (p.channels c).fd).isSome ↔ (p.channels c).index = .kAdded)
    : p.removeChannel c = some (p.register c { p.channels c with index := .kNew }) := by
  unfold removeChannel
  by_cases hindex : (p.channels c).index = .kAdded
  . rcases Option.isSome_iff_exists.mp (hset.mpr hindex) with ⟨event, hevent⟩
    simp [update, setIndex, epollCtl, register, mapEntry, epollEntry, hindex, hevent]
  . have hnone : p.epollSet (p.channels c).fd = none := by
      simpa [hindex] using hset
    have hself : Function.update p.epollSet (p.channels c).fd none = p.epollSet := by
      apply Function.update_eq_self_iff.mpr
      rw [hnone]
    simp [setIndex, register, mapEntry, epollEntry, hindex, hself]

namespace Agree

variable {fds : ι → Nat} {p : EpollPoller ι}

omit [DecidableEq ι] in
theorem isSome_epollSet (h : Agree fds p) (c : ι)
    : (p.epollSet (fds c)).isSome ↔ (p.channels c).index = .kAdded := by
  rw [h.epollSet c]
  unfold epollEntry
  split <;> simp [*]

theorem register (h : Agree fds p) (hfds : Function.Injective fds) (c : ι) {ch : PolledChannel}
    (hfd : ch.fd = fds c)
    : Agree fds (p.register c ch) where
  fd := by
    intro c'
    by_cases heq : c' = c
    . simp [EpollPoller.register, heq, hfd]
    . simp [EpollPoller.register, heq, h.fd c']
  channelMap := by
    intro c'
    by_cases heq : c' = c
    . simp [EpollPoller.register, heq, hfd]
    . have hne : fds c' ≠ ch.fd := by
        rw [hfd]
        exact hfds.ne heq
      simp [EpollPoller.register, heq, hne, h.channelMap c']
  epollSet := by
    intro c'
    by_cases heq : c' = c
    . simp [EpollPoller.register, heq, hfd]
    . have hne : fds c' ≠ ch.fd := by
        rw [hfd]
        exact hfds.ne heq
      simp [EpollPoller.register, heq, hne, h.epollSet c']
  owned := by
    intro fd hfree
    have hne : fd ≠ ch.fd := by
      rw [hfd]
      exact (hfree c).symm
    simp [EpollPoller.register, hne, h.owned fd hfree]
  ctlErrors := h.ctlErrors

theorem setChannel_updateChannel (h : Agree fds p) (c : ι) {channel : Channel}
    (hfd : channel.fd = fds c)
    : (p.setChannel c channel).updateChannel c
      =
      some (p.register c
        { toChannel := channel, index := nextIndex { p.channels c with toChannel := channel } }) := by
  have hchannel : (p.setChannel c channel).channels c = { p.channels c with toChannel := channel } := by
    simp [setChannel]
  rw [updateChannel_eq]
  . simp [EpollPoller.register, setChannel]
  . rw [hchannel]
    exact (congrArg p.channelMap hfd).trans (h.channelMap c)
  . rw [hchannel]
    dsimp only
    rw [hfd]
    exact h.isSome_epollSet c

theorem call_eq (h : Agree fds p) (c : ι) (op : ChannelCall)
    : p.call c op = some (p.register c (nextChannel (p.channels c) op)) := by
  have hfd := h.fd c
  have hupdate : ∀ channel : Channel, channel.fd = fds c →
      (p.setChannel c channel).updateChannel c
        = some (p.register c
          { toChannel := channel, index := nextIndex { p.channels c with toChannel := channel } }) :=
    fun _ hchannel => h.setChannel_updateChannel c hchannel
  unfold EpollPoller.call nextChannel
  cases op with
  | enableReading => exact hupdate _ hfd
  | disableReading => exact hupdate _ hfd
  | enableWriting => exact hupdate _ hfd
  | disableWriting => exact hupdate _ hfd
  | disableAll => exact hupdate _ hfd
  | remove =>
    apply removeChannel_eq p c
    rw [hfd]
    exact h.isSome_epollSet c

theorem call (h : Agree fds p) (hfds : Function.Injective fds) (c : ι) (op : ChannelCall)
    : Agree fds (p.register c (nextChannel (p.channels c) op)) := by
  apply h.register hfds c
  rw [nextChannel_fd, h.fd c]

theorem calls (h : Agree fds p) (hfds : Function.Injective fds) (cs : List (ι × ChannelCall))
    : ∃ p', p.calls cs = some p' ∧ Agree fds p' := by
  induction cs generalizing p with
  | nil => exact ⟨p, rfl, h⟩
  | cons call cs ih =>
    rcases ih (h.call hfds call.1 call.2) with ⟨p', hcalls, hagree⟩
    refine ⟨p', ?_, hagree⟩
    simp [EpollPoller.calls, h.call_eq, hcalls]

omit [DecidableEq ι] in
theorem epollSet_eq_some_iff (h : Agree fds p) (fd : Nat) (event : EpollEvent ι)
    : p.epollSet fd = some event
      ↔
      ∃ c, fds c = fd ∧ (p.channels c).index = .kAdded ∧ event = ⟨(p.channels c).events, c⟩ := by
  constructor
  . intro hevent
    by_cases hfree : ∀ c, fds c ≠ fd
    . rw [h.owned fd hfree] at hevent
      contradiction
    . rcases not_forall_not.mp hfree with ⟨c, hc⟩
      rw [← hc, h.epollSet c] at hevent
      unfold epollEntry at hevent
      split at hevent
      . next hindex => exact ⟨c, hc, hindex, (Option.some.inj hevent).symm⟩
      . contradiction
  . rintro ⟨c, hc, hindex, hevent⟩
    rw [← hc, h.epollSet c]
    simp [epollEntry, hindex, hevent]

theorem hasChannel_iff (h : Agree fds p) (c : ι)
    : p.hasChannel c = true
      ↔
      (p.channels c).index = .kAdded ∨ (p.channels c).index = .kDeleted := by
  unfold hasChannel
  rw [h.fd c, h.channelMap c]
  unfold mapEntry
  cases (p.channels c).index <;> simp

end Agree

theorem calls_agree (fds : ι → Nat) (hfds : Function.Injective fds) (cs : List (ι × ChannelCall))
    : ∃ p, (new fds).calls cs = some p ∧
      (∀ fd event, p.epollSet fd = some event
        ↔ ∃ c, fds c = fd ∧ (p.channels c).index = .kAdded ∧ event = ⟨(p.channels c).events, c⟩) ∧
      (∀ c, p.hasChannel c = true
        ↔ (p.channels c).index = .kAdded ∨ (p.channels c).index = .kDeleted) ∧
      p.ctlErrors = [] ∧
      ∀ c op, ∃ p', p.call c op = some p' ∧
        (∀ fd, fd ≠ fds c → p'.epollSet fd = p.epollSet fd ∧ p'.channelMap fd = p.channelMap fd) ∧
        ∀ c', c' ≠ c → p'.channels c' = p.channels c' := by
  rcases (agree_new fds).calls hfds cs with ⟨p, hcalls, h⟩
  refine ⟨p, hcalls, h.epollSet_eq_some_iff, h.hasChannel_iff, h.ctlErrors, ?_⟩
  intro c op
  have hfd : (nextChannel (p.channels c) op).fd = fds c := by
    rw [nextChannel_fd, h.fd c]
  refine ⟨_, h.call_eq c op, ?_, ?_⟩
  . intro fd hne
    rw [← hfd] at hne
    simp [register, hne]
  . intro c' hne
    simp [register, hne]

theorem calls_agree_reenabled
    : Function.Injective (fun c : Nat => c + 5) ∧
      ∃ p, (new fun c : Nat => c + 5).calls
          [(0, .enableReading), (1, .enableWriting), (0, .disableAll), (0, .remove),
            (0, .enableReading)]
        = some p ∧ p.ctlErrors = [] := by
  have hinj : Function.Injective (fun c : Nat => c + 5) := by
    intro c c' h
    exact Nat.add_right_cancel h
  refine ⟨hinj, ?_⟩
  rcases calls_agree (fun c : Nat => c + 5) hinj _ with ⟨p, hcalls, _, _, herrors, _⟩
  exact ⟨p, hcalls, herrors⟩

end EpollPoller
