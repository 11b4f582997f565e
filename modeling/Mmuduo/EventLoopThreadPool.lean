import Mathlib.Data.Int.CardIntervalMod
import Mmuduo.TcpServer.Impl

structure EventLoopThreadPool where
  numThread : Int32
  started : Bool
  next : Nat
  eventloops : List LoopId
  deriving DecidableEq, Repr

namespace EventLoopThreadPool

def new (numThread : Int32) : EventLoopThreadPool where
  numThread := numThread
  started := false
  next := 0
  eventloops := []

/--
`m_eventloops[m_next]` is undefined behind the end of the vector.
-/
def getNextLoop (pool : EventLoopThreadPool) : Option (LoopId × EventLoopThreadPool) :=
  if pool.eventloops.isEmpty then
    some (0, pool)
  else do
    let loop ← pool.eventloops[pool.next]?
    let next := if pool.next + 1 ≥ pool.eventloops.length then 0 else pool.next + 1
    return (loop, { pool with next })

def InOrder (pool : EventLoopThreadPool) : Prop :=
  pool.eventloops = (List.range pool.eventloops.length).map (· + 1)

def nextAt (n k : Nat) : Nat :=
  if n = 0 then 0 else k % n

def turn (n k : Nat) : LoopId :=
  if n = 0 then 0 else k % n + 1

theorem succ_mod {k n : Nat} (hn : 0 < n)
    : (k + 1) % n = if k % n + 1 ≥ n then 0 else k % n + 1 := by
  have hlt := Nat.mod_lt k hn
  rw [← Nat.mod_add_mod]
  split
  . have heq : k % n + 1 = n := by omega
    rw [heq, Nat.mod_self]
  . apply Nat.mod_eq_of_lt
    omega

theorem getNextLoop_spec {pool : EventLoopThreadPool} (h : pool.InOrder) {k : Nat}
    (hnext : pool.next = nextAt pool.eventloops.length k)
    : pool.getNextLoop
      =
      some (turn pool.eventloops.length k,
        { pool with next := nextAt pool.eventloops.length (k + 1) }) := by
  unfold getNextLoop turn
  unfold nextAt at hnext ⊢
  by_cases hempty : pool.eventloops = []
  . simp only [hempty, List.length_nil, ↓reduceIte] at hnext
    simp only [hempty, List.isEmpty_nil, List.length_nil, ↓reduceIte]
    rw [← hempty, ← hnext]
  . have hpos : 0 < pool.eventloops.length := List.length_pos_of_ne_nil hempty
    rw [if_neg (Nat.ne_of_gt hpos)] at hnext
    have hlt : pool.next < pool.eventloops.length := by
      rw [hnext]
      apply Nat.mod_lt _ hpos
    have hloop : pool.eventloops[pool.next]? = some (pool.next + 1) := by
      rw [h, List.getElem?_map, List.getElem?_range hlt]
      rfl
    rw [hloop, succ_mod hpos, ← hnext]
    simp [hempty]

theorem getNextLoop_server {pool : EventLoopThreadPool} {server : TcpServer}
    (hloops : pool.eventloops = (List.range server.numThread).map (· + 1))
    (hnext : pool.next = server.next) (hlt : server.numThread = 0 ∨ server.next < server.numThread)
    : pool.getNextLoop
      =
      some (server.getNextLoop.1, { pool with next := server.getNextLoop.2.next }) := by
  have hlength : pool.eventloops.length = server.numThread := by
    rw [hloops, List.length_map, List.length_range]
  unfold getNextLoop TcpServer.getNextLoop
  rcases hlt with hzero | hlt
  . have hempty : pool.eventloops = [] := List.length_eq_zero_iff.mp (hlength.trans hzero)
    simp only [hempty, List.isEmpty_nil, hzero, ↓reduceIte]
    rw [← hempty, ← hnext]
  . have hpos : server.numThread ≠ 0 := by omega
    have hcons : pool.eventloops ≠ [] := by
      intro hempty
      rw [hempty] at hlength
      exact hpos hlength.symm
    have hloop : pool.eventloops[pool.next]? = some (server.next + 1) := by
      rw [hloops, hnext, List.getElem?_map, List.getElem?_range hlt]
      rfl
    rw [hloop, hlength, hnext, if_neg hpos]
    simp [hcons]

section Balance

variable {n : Nat}

theorem count_turn {i : Nat} (hi : i < n) (k : Nat)
    : ((List.range k).map (turn n)).count (i + 1) = k / n + if i < k % n then 1 else 0 := by
  have hn : 0 < n := by omega
  have hcount : ((List.range k).map (turn n)).count (i + 1) = Nat.count (· ≡ i [MOD n]) k := by
    rw [List.count_eq_countP, List.countP_map, Nat.count]
    apply List.countP_congr
    intro x hx
    simp [turn, Nat.ModEq, Nat.mod_eq_of_lt hi, Nat.ne_of_gt hn]
  rw [hcount, Nat.count_modEq_card k hn, Nat.mod_eq_of_lt hi]

theorem count_turn_le {i j : Nat} (hi : i < n) (hj : j < n) (k : Nat)
    : ((List.range k).map (turn n)).count (i + 1)
        ≤
      ((List.range k).map (turn n)).count (j + 1) + 1 := by
  rw [count_turn hi, count_turn hj]
  split
  . split
    . omega
    . omega
  . split
    . omega
    . omega

end Balance

end EventLoopThreadPool
