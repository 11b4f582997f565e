import Mathlib.Data.Nat.Size
import Mathlib.Order.Bounds.Defs
import Mmuduo.Kfifo.Lemmas

namespace Kfifo

theorem bitCount_eq (size : UInt32) (i : Nat) : bitCount size i = i + size.toNat.size := by
  induction size, i using bitCount.induct with
  | case1 i =>
    unfold bitCount
    rw [dif_pos rfl, UInt32.toNat_zero, Nat.size_zero]
    rfl
  | case2 size i h _ ih =>
    have hne : size.toNat ≠ 0 := by
      rw [Ne, ← UInt32.toNat_zero, UInt32.toNat_inj]
      exact h
    have hhalf : (size >>> 1).toNat = size.toNat / 2 := by
      rw [UInt32.toNat_shiftRight, Nat.shiftRight_eq_div_pow]
      rfl
    have hbit := Nat.bit_bodd_div2 size.toNat
    have hsize : size.toNat.size = (size.toNat / 2).size + 1 := by
      rw [← Nat.div2_val, ← Nat.succ_eq_add_one, ← Nat.size_bit (by rw [hbit]; exact hne), hbit]
    unfold bitCount
    rw [dif_neg h, ih, hhalf, hsize]
    omega

def shiftAmount (size : UInt32) : Nat :=
  bitCount (if size < 2 then 2 else size) 0

theorem shiftAmount_eq {size : UInt32} (h : 2 ≤ size.toNat) : shiftAmount size = size.toNat.size := by
  have hge : ¬size < 2 := by
    rw [UInt32.lt_iff_toNat_lt]
    exact Nat.not_lt.mpr h
  unfold shiftAmount
  rw [if_neg hge, bitCount_eq, Nat.zero_add]

theorem shiftAmount_lt_iff {size : UInt32} (h : 2 ≤ size.toNat)
    : shiftAmount size < 32 ↔ size.toNat < 2 ^ 31 := by
  rw [shiftAmount_eq h, ← Nat.size_le]
  omega

theorem isLeast_pow_size {n : Nat} (h : ¬n.isPowerOfTwo)
    : IsLeast { c : Nat | c.isPowerOfTwo ∧ n ≤ c } (2 ^ n.size) := by
  constructor
  . exact ⟨⟨n.size, rfl⟩, Nat.le_of_lt (Nat.lt_size_self n)⟩
  . rintro c ⟨⟨j, rfl⟩, hle⟩
    have hlt : n < 2 ^ j := by
      apply Nat.lt_of_le_of_ne hle
      intro heq
      exact h ⟨j, heq⟩
    exact Nat.pow_le_pow_right (by decide) (Nat.size_le.mpr hlt)

theorem two_le_of_not_pow {size : UInt32} (hpos : 1 ≤ size) (h : ¬isPowerOfTwo size = true)
    : 2 ≤ size.toNat := by
  rw [UInt32.le_iff_toNat_le, UInt32.toNat_one] at hpos
  have hne : size.toNat ≠ 1 := by
    intro heq
    rw [isPowerOfTwo_iff, heq] at h
    exact h Nat.isPowerOfTwo_one
  omega

theorem roundUp_of_not_pow {size : UInt32} (h : ¬isPowerOfTwo size = true)
    : roundUp size
        =
      if shiftAmount size < 32 then some (1 <<< UInt32.ofNat (shiftAmount size)) else none := by
  unfold roundUp
  rw [if_neg h]
  rfl

theorem shiftAmount_lt_of_le {size : UInt32} (hpos : 1 ≤ size) (hle : size.toNat ≤ 2 ^ 31)
    (h : ¬isPowerOfTwo size = true)
    : shiftAmount size < 32 := by
  rw [shiftAmount_lt_iff (two_le_of_not_pow hpos h)]
  apply Nat.lt_of_le_of_ne hle
  intro heq
  rw [isPowerOfTwo_iff] at h
  exact h ⟨31, heq⟩

theorem le_of_shiftAmount_lt {size : UInt32} (hpos : 1 ≤ size)
    (h : ¬isPowerOfTwo size = true → shiftAmount size < 32)
    : size.toNat ≤ 2 ^ 31 := by
  by_cases hpow : isPowerOfTwo size = true
  . rw [isPowerOfTwo_iff] at hpow
    rcases hpow with ⟨j, hj⟩
    rw [hj]
    exact Nat.pow_le_pow_right (by decide) (le_of_toNat_eq_pow hj)
  . have hshift := h hpow
    rw [shiftAmount_lt_iff (two_le_of_not_pow hpos hpow)] at hshift
    exact Nat.le_of_lt hshift

theorem exists_roundUp {size : UInt32} (hpos : 1 ≤ size) (hle : size.toNat ≤ 2 ^ 31)
    : ∃ c, roundUp size = some c := by
  by_cases hpow : isPowerOfTwo size = true
  . unfold roundUp
    rw [if_pos hpow]
    exact ⟨size, rfl⟩
  . rw [roundUp_of_not_pow hpow, if_pos (shiftAmount_lt_of_le hpos hle hpow)]
    exact ⟨_, rfl⟩

theorem isLeast_roundUp {size c : UInt32} (hpos : 1 ≤ size) (h : roundUp size = some c)
    : IsLeast { n : Nat | n.isPowerOfTwo ∧ size.toNat ≤ n } c.toNat := by
  by_cases hpow : isPowerOfTwo size = true
  . unfold roundUp at h
    rw [if_pos hpow, Option.some.injEq] at h
    rw [← h]
    refine ⟨⟨(isPowerOfTwo_iff size).mp hpow, Nat.le_refl _⟩, ?_⟩
    intro n hn
    exact hn.2
  . rw [roundUp_of_not_pow hpow] at h
    split at h
    . next hlt =>
      rw [Option.some.injEq] at h
      rw [← h, toNat_one_shiftLeft hlt, shiftAmount_eq (two_le_of_not_pow hpos hpow)]
      rw [isPowerOfTwo_iff] at hpow
      exact isLeast_pow_size hpow
    . contradiction

structure Masks (capacity : UInt32) : Prop where
  mod : ∀ x : UInt32, x &&& (capacity - 1) = x % capacity
  advance : ∀ x n : UInt32, ((x + n) &&& (capacity - 1)).toNat
    = ((x &&& (capacity - 1)).toNat + n.toNat) % capacity.toNat

theorem Alloc.masks {k : Kfifo} {mem : List UInt8} (h : k.Alloc mem) : Masks k.bufferSize := by
  have hmask : ∀ x : UInt32, (x &&& (k.bufferSize - 1)).toNat = x.toNat % k.bufferSize.toNat :=
    h.toNat_index
  constructor
  . intro x
    rw [← UInt32.toNat_inj, hmask, UInt32.toNat_mod]
  . intro x n
    -- the capacity divides 2^32, so a wrap of the counter does not show
    rw [hmask, hmask, UInt32.toNat_add, Nat.mod_mod_of_dvd _ h.size_dvd, Nat.mod_add_mod]

structure RoundsUp (size : UInt32) : Prop where
  -- the loop only runs for a size that is no power of two
  shift : isPowerOfTwo size = false → shiftAmount size < 32
  capacity : ∀ k : Kfifo, ∃ k', k.initBuffer size = some (true, k')
    ∧ IsLeast { n : Nat | n.isPowerOfTwo ∧ size.toNat ≤ n } k'.bufferSize.toNat
    ∧ Masks k'.bufferSize

theorem initBuffer_of_roundUp (k : Kfifo) {size c : UInt32} (h : roundUp size = some c)
    : ∃ k', k.initBuffer size = some (true, k') ∧ k'.Inv ∧ k'.bufferSize = c := by
  have hinit : ∃ k', k.initBuffer size = some (true, k') := by
    unfold initBuffer
    rw [h]
    exact ⟨_, rfl⟩
  rcases hinit with ⟨k', hinit⟩
  rcases initBuffer_eq_some hinit with ⟨hinv, -, hround, -⟩
  rw [h, Option.some.injEq] at hround
  exact ⟨k', hinit, hinv, hround.symm⟩

theorem initBuffer_roundsUp_iff (size : UInt32) (hpos : 1 ≤ size)
    : RoundsUp size ↔ size.toNat ≤ 2 ^ 31 := by
  constructor
  . intro h
    exact le_of_shiftAmount_lt hpos fun hpow => h.shift (Bool.eq_false_iff.mpr hpow)
  . intro hle
    rcases exists_roundUp hpos hle with ⟨c, hround⟩
    constructor
    . intro hpow
      exact shiftAmount_lt_of_le hpos hle (Bool.eq_false_iff.mp hpow)
    . intro k
      rcases initBuffer_of_roundUp k hround with ⟨k', hinit, hinv, rfl⟩
      rcases hinv.alloc with ⟨mem, halloc⟩
      exact ⟨k', hinit, isLeast_roundUp hpos hround, halloc.masks⟩

theorem initBuffer_roundsUp_iff_4097 : RoundsUp 4097 := by
  exact (initBuffer_roundsUp_iff 4097 (by decide)).mpr (by decide)

theorem shiftAmount_above : shiftAmount 2147483649 = 32 := by
  rw [shiftAmount_eq (by decide)]
  apply Nat.le_antisymm
  . apply Nat.size_le.mpr
    decide
  . apply Nat.lt_size.mpr
    decide

theorem initBuffer_shifts_out
    : shiftAmount 2147483649 = 32
      ∧ new.initBuffer 2147483649 = none
      ∧ ¬∀ size : UInt32, 1 ≤ size → RoundsUp size := by
  refine ⟨shiftAmount_above, ?_, ?_⟩
  . unfold initBuffer
    rw [roundUp_of_not_pow (by decide), shiftAmount_above]
    rfl
  . intro h
    have hshift := (h 2147483649 (by decide)).shift (by decide)
    rw [shiftAmount_above] at hshift
    exact absurd hshift (Nat.lt_irrefl 32)

end Kfifo
