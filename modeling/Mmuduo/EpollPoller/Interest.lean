import Mmuduo.EpollPoller.Agreement
import Mmuduo.Lib.Transition

namespace EpollPoller

variable {ι : Type} [DecidableEq ι]

def system (fds : ι → Nat) : LTS (EpollPoller ι) (ι × ChannelCall) where
  Init p := Agree fds p
  next p e := p.call e.1 e.2

def Unwatches (p : EpollPoller ι) (e : ι × ChannelCall) : Prop :=
  ∀ p', p.call e.1 e.2 = some p' → (p'.channels e.1).isNoneEvent = true
    → p'.epollSet (p'.channels e.1).fd = none

def GivesUpAdded (p : EpollPoller ι) (e : ι × ChannelCall) : Prop :=
  (nextMask (p.channels e.1).toChannel e.2).isNoneEvent = true
    → e.2 = .remove ∨ (p.channels e.1).index = .kAdded

instance (p : EpollPoller ι) (e : ι × ChannelCall) : Decidable (p.GivesUpAdded e) :=
  inferInstanceAs (Decidable (_ → _))

theorem nextChannel_index_ne_iff {ch : PolledChannel} {op : ChannelCall}
    (hempty : (nextMask ch.toChannel op).isNoneEvent = true)
    : (nextChannel ch op).index ≠ .kAdded ↔ op = .remove ∨ ch.index = .kAdded := by
  unfold nextChannel nextIndex
  dsimp only
  by_cases hop : op = .remove
  . simp [hop]
  . by_cases hindex : ch.index = .kAdded
    . simp [hop, hindex, hempty]
    . simp [hop, hindex]

theorem Agree.unwatches_iff {fds : ι → Nat} {p : EpollPoller ι} (h : Agree fds p)
    (e : ι × ChannelCall)
    : p.Unwatches e ↔ p.GivesUpAdded e := by
  unfold Unwatches GivesUpAdded
  rw [h.call_eq]
  have hchannel : (p.register e.1 (nextChannel (p.channels e.1) e.2)).channels e.1
      = nextChannel (p.channels e.1) e.2 := by
    simp [EpollPoller.register]
  have hset : (p.register e.1 (nextChannel (p.channels e.1) e.2)).epollSet
        (nextChannel (p.channels e.1) e.2).fd
      = epollEntry (nextChannel (p.channels e.1) e.2) e.1 := by
    simp [EpollPoller.register]
  simp only [Option.some.injEq, forall_eq', hchannel, hset]
  apply imp_congr_right
  intro hempty
  rw [← nextChannel_index_ne_iff hempty]
  unfold epollEntry
  split
  . next hadded => simp [hadded]
  . next hadded => simp [hadded]

theorem Agree.run_eq_some {fds : ι → Nat} (hfds : Function.Injective fds) {p : EpollPoller ι}
    (h : Agree fds p) (es : List (ι × ChannelCall))
    : ∃ p', (system fds).run p es = some p' := by
  induction es generalizing p with
  | nil => exact ⟨p, rfl⟩
  | cons e es ih =>
    rcases ih (h.call hfds e.1 e.2) with ⟨p', hrun⟩
    refine ⟨p', ?_⟩
    rw [LTS.run_cons]
    simp only [system, h.call_eq]
    exact hrun

theorem Agree.next {fds : ι → Nat} (hfds : Function.Injective fds) {p p' : EpollPoller ι}
    {e : ι × ChannelCall} (h : Agree fds p) (hnext : (system fds).next p e = some p')
    : Agree fds p' := by
  simp only [system, h.call_eq, Option.some.injEq] at hnext
  rw [← hnext]
  exact h.call hfds e.1 e.2

theorem calls_unwatch_iff (fds : ι → Nat) (hfds : Function.Injective fds) (p : EpollPoller ι)
    (hinit : (system fds).Init p) (es : List (ι × ChannelCall))
    : (system fds).Along Unwatches p es ↔ (system fds).Along GivesUpAdded p es := by
  rcases Agree.run_eq_some hfds hinit es with ⟨p', hrun⟩
  apply LTS.along_congr (system fds) _ _ hinit hrun
  . intro p e p' h hnext
    exact h.next hfds hnext
  . intro p e p' h hnext
    exact h.unwatches_iff e

def oneFd : Unit → Nat := fun _ => 7

theorem calls_unwatch_iff_closed
    : Function.Injective oneFd
      ∧ (system oneFd).Along Unwatches (new oneFd)
        [((), .enableReading), ((), .enableWriting), ((), .disableAll), ((), .remove)] := by
  have hinj : Function.Injective oneFd := fun _ _ _ => rfl
  refine ⟨hinj, ?_⟩
  apply (calls_unwatch_iff oneFd hinj (new oneFd) (agree_new oneFd) _).mpr
  decide

theorem disabled_watched
    : ∃ p, (system oneFd).run (new oneFd)
          [((), .enableReading), ((), .disableAll), ((), .disableAll)]
        = some p
      ∧ (p.channels ()).isNoneEvent = true
      ∧ (p.epollSet 7).isSome
      ∧ ¬∀ (fds : Unit → Nat), Function.Injective fds → ∀ p, (system fds).Init p →
        ∀ es, (system fds).Along Unwatches p es := by
  refine ⟨_, rfl, by decide, by decide, ?_⟩
  intro h
  have halong := h oneFd (fun _ _ _ => rfl) (new oneFd) (agree_new oneFd)
    [((), .enableReading), ((), .disableAll), ((), .disableAll)]
  have hnone := ((halong.2 _ rfl).2 _ rfl).1 _ rfl rfl
  revert hnone
  simp [new, setIndex, setChannel, oneFd]

end EpollPoller
