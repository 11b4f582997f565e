import Mathlib.Algebra.Group.Nat.Defs
import Mmuduo.Kfifo.Impl

namespace Kfifo

def unread (k : Kfifo) : Nat :=
  k.getReadableLen.toNat

def content (k : Kfifo) : List UInt8 :=
  match k.buffer with
  | none => []
  | some mem => Ring.window mem k.read.toNat k.unread

structure Alloc (k : Kfifo) (mem : List UInt8) : Prop where
  buffer_eq : k.buffer = some mem
  length_eq : mem.length = k.bufferSize.toNat
  pow : ∃ j, j ≤ 31 ∧ k.bufferSize.toNat = 2 ^ j

structure Inv (k : Kfifo) : Prop where
  alloc : ∃ mem, k.Alloc mem
  le : k.unread ≤ k.bufferSize.toNat

@[simp]
theorem toNat_minU32 (a b : UInt32) : (minU32 a b).toNat = min a.toNat b.toNat := by
  unfold minU32
  split
  . next h =>
    rw [UInt32.lt_iff_toNat_lt] at h
    omega
  . next h =>
    rw [UInt32.lt_iff_toNat_lt] at h
    omega

theorem toNat_sub_minU32 (a b : UInt32) : (a - minU32 a b).toNat = a.toNat - min a.toNat b.toNat := by
  rw [UInt32.toNat_sub_of_le]
  . rw [toNat_minU32]
  . rw [UInt32.le_iff_toNat_le, toNat_minU32]
    omega

theorem unread_eq (k : Kfifo) : k.unread = (2 ^ 32 - k.read.toNat + k.write.toNat) % 2 ^ 32 := by
  unfold unread getReadableLen
  rw [UInt32.toNat_sub]

theorem toNat_write_eq (k : Kfifo) : k.write.toNat = (k.read.toNat + k.unread) % 2 ^ 32 := by
  have hw := k.write.toNat_lt
  have hr := k.read.toNat_lt
  rw [unread_eq]
  omega

namespace Alloc

variable {k : Kfifo} {mem : List UInt8}

theorem size_pos (h : k.Alloc mem) : 0 < k.bufferSize.toNat := by
  rcases h.pow with ⟨j, _, hj⟩
  rw [hj]
  apply Nat.two_pow_pos j

theorem size_le (h : k.Alloc mem) : k.bufferSize.toNat ≤ 2 ^ 31 := by
  rcases h.pow with ⟨j, hj31, hj⟩
  rw [hj]
  apply Nat.pow_le_pow_right (by decide) hj31

theorem size_dvd (h : k.Alloc mem) : k.bufferSize.toNat ∣ 2 ^ 32 := by
  rcases h.pow with ⟨j, hj31, hj⟩
  rw [hj]
  apply Nat.pow_dvd_pow 2 (by omega)

theorem toNat_mask (h : k.Alloc mem) : (k.bufferSize - 1).toNat = k.bufferSize.toNat - 1 := by
  have hpos := h.size_pos
  rw [UInt32.toNat_sub_of_le]
  . rfl
  . rw [UInt32.le_iff_toNat_le, UInt32.toNat_one]
    exact hpos

theorem toNat_index (h : k.Alloc mem) (counter : UInt32)
    : (k.index counter).toNat = counter.toNat % k.bufferSize.toNat := by
  rcases h.pow with ⟨j, _, hj⟩
  unfold index
  rw [UInt32.toNat_and, h.toNat_mask, hj]
  rw [Nat.and_two_pow_sub_one_eq_mod]

theorem index_lt (h : k.Alloc mem) (counter : UInt32)
    : (k.index counter).toNat < mem.length := by
  rw [h.toNat_index, h.length_eq]
  apply Nat.mod_lt _ h.size_pos

theorem toNat_size_sub_index (h : k.Alloc mem) (counter : UInt32)
    : (k.bufferSize - k.index counter).toNat = mem.length - (k.index counter).toNat := by
  have := h.index_lt counter
  rw [h.length_eq] at this
  rw [UInt32.toNat_sub_of_le]
  . rw [h.length_eq]
  . rw [UInt32.le_iff_toNat_le]
    omega

theorem toNat_index_write (h : k.Alloc mem)
    : (k.index k.write).toNat = (k.read.toNat + k.unread) % mem.length := by
  rw [h.toNat_index, k.toNat_write_eq]
  rw [Nat.mod_mod_of_dvd _ h.size_dvd]
  rw [h.length_eq]

theorem content_eq (h : k.Alloc mem) : k.content = Ring.window mem k.read.toNat k.unread := by
  unfold content
  rw [h.buffer_eq]

theorem length_content_le (h : k.Alloc mem) : k.content.length ≤ k.bufferSize.toNat := by
  rw [h.content_eq, ← h.length_eq, ← List.length_rotate mem k.read.toNat]
  apply List.length_take_le'

theorem inv (h : k.Alloc mem) (hle : k.unread ≤ k.bufferSize.toNat) : k.Inv :=
  ⟨⟨mem, h⟩, hle⟩

end Alloc

theorem Inv.length_content {k : Kfifo} (h : k.Inv) : k.content.length = k.unread := by
  rcases h with ⟨⟨mem, halloc⟩, hle⟩
  rw [halloc.content_eq]
  rw [Ring.length_window]
  rw [halloc.length_eq]
  exact hle

theorem Inv.toNat_getRemainLen {k : Kfifo} (h : k.Inv)
    : k.getRemainLen.toNat = k.bufferSize.toNat - k.unread := by
  have hle := h.le
  unfold unread getReadableLen at *
  unfold getRemainLen
  rw [UInt32.toNat_sub_of_le]
  rw [UInt32.le_iff_toNat_le]
  exact hle

def extend (k : Kfifo) (mem : List UInt8) (xs : List UInt8) : Kfifo :=
  { k with
    buffer := some (Ring.store mem (k.index k.write).toNat xs)
    write := k.write + UInt32.ofNat xs.length }

section Extend

variable {k : Kfifo} {mem xs : List UInt8}

theorem extend_alloc (h : k.Alloc mem) (hxs : xs.length ≤ mem.length)
    : (k.extend mem xs).Alloc (Ring.store mem (k.index k.write).toNat xs) where
  buffer_eq := rfl
  length_eq := by
    rw [Ring.length_store (h.index_lt _) hxs]
    apply h.length_eq
  pow := h.pow

theorem unread_extend (h : k.Alloc mem) (hxs : k.unread + xs.length ≤ mem.length)
    : (k.extend mem xs).unread = k.unread + xs.length := by
  have hsize := h.size_le
  have hlen := h.length_eq
  rw [unread_eq]
  have hwrite : (k.extend mem xs).write.toNat = (k.write.toNat + xs.length) % 2 ^ 32 := by
    simp only [extend, UInt32.toNat_add, UInt32.toNat_ofNat']
    omega
  have hread : (k.extend mem xs).read = k.read := rfl
  have hk := k.unread_eq
  have hr := k.read.toNat_lt
  rw [hwrite, hread]
  omega

theorem extend_inv (h : k.Alloc mem) (hxs : k.unread + xs.length ≤ mem.length)
    : (k.extend mem xs).Inv := by
  apply (extend_alloc h (by omega)).inv
  rw [unread_extend h hxs]
  rw [h.length_eq] at hxs
  exact hxs

theorem content_extend (h : k.Alloc mem) (hxs : k.unread + xs.length ≤ mem.length)
    : (k.extend mem xs).content = k.content ++ xs := by
  rw [(extend_alloc h (by omega)).content_eq]
  rw [unread_extend h hxs]
  rw [h.content_eq]
  rw [h.toNat_index_write]
  apply Ring.window_store
  . rw [h.length_eq]
    apply h.size_pos
  . exact hxs

end Extend

def consume (k : Kfifo) (n : Nat) : Kfifo :=
  { k with read := k.read + UInt32.ofNat n }

section Consume

variable {k : Kfifo} {n : Nat}

theorem consume_alloc {mem : List UInt8} (h : k.Alloc mem) : (k.consume n).Alloc mem :=
  ⟨h.buffer_eq, h.length_eq, h.pow⟩

theorem unread_consume (hn : n ≤ k.unread) : (k.consume n).unread = k.unread - n := by
  have hk := k.unread_eq
  have hr := k.read.toNat_lt
  have hw := k.write.toNat_lt
  rw [unread_eq]
  simp only [consume, UInt32.toNat_add, UInt32.toNat_ofNat']
  omega

theorem consume_inv (h : k.Inv) (hn : n ≤ k.unread) : (k.consume n).Inv := by
  rcases h with ⟨⟨mem, halloc⟩, hle⟩
  apply (consume_alloc halloc).inv
  rw [unread_consume hn]
  have : (k.consume n).bufferSize = k.bufferSize := rfl
  rw [this]
  omega

theorem content_consume (h : k.Inv) (hn : n ≤ k.unread)
    : (k.consume n).content = k.content.drop n := by
  rcases h with ⟨⟨mem, halloc⟩, hle⟩
  rw [(consume_alloc halloc).content_eq]
  rw [halloc.content_eq]
  rw [Ring.drop_window hn (by rw [halloc.length_eq]; exact hle)]
  rw [unread_consume hn]
  have hread : (k.consume n).read.toNat % mem.length = (k.read.toNat + n) % mem.length := by
    simp only [consume, UInt32.toNat_add, UInt32.toNat_ofNat']
    rw [Nat.add_mod_mod]
    rw [halloc.length_eq, Nat.mod_mod_of_dvd _ halloc.size_dvd]
  rw [← Ring.window_mod, hread, Ring.window_mod]

end Consume

section Operations

variable {k : Kfifo}

theorem writeBuffer_null (k : Kfifo) (inSize : UInt32)
    : k.writeBuffer none inSize = some (-1, k) := by
  unfold writeBuffer
  split
  . contradiction
  . rfl

theorem writeBuffer_zero (k : Kfifo) (inBuf : Option (List UInt8))
    : k.writeBuffer inBuf 0 = some (-1, k) := by
  unfold writeBuffer
  split
  . simp
  . rfl

theorem writeBuffer_eq_extend (h : k.Inv) {mem : List UInt8} (halloc : k.Alloc mem)
    {src : List UInt8} {inSize : UInt32} (hsize : inSize ≠ 0) (hsrc : inSize.toNat ≤ src.length)
    : k.writeBuffer (some src) inSize
        =
      some (minU32 inSize k.getRemainLen,
        k.extend mem (src.take (min inSize.toNat k.getRemainLen.toNat))) := by
  have hremain := h.toNat_getRemainLen
  have hidx := halloc.index_lt k.write
  have hlen := halloc.length_eq
  rw [← toNat_minU32]
  unfold writeBuffer
  rw [halloc.buffer_eq]
  simp only [hsize, ↓reduceIte]
  have hn : (minU32 inSize k.getRemainLen).toNat = min inSize.toNat k.getRemainLen.toNat :=
    toNat_minU32 _ _
  generalize minU32 inSize k.getRemainLen = count at hn ⊢
  rw [toNat_minU32, toNat_sub_minU32]
  rw [halloc.toNat_size_sub_index]
  generalize hm : min count.toNat (mem.length - (k.index k.write).toNat) = m
  have hfst : ((src.drop 0).take m).length = m := by
    rw [List.drop_zero, List.length_take]
    omega
  have hstore : Mem.overwrite (Mem.overwrite mem (k.index k.write).toNat ((src.drop 0).take m)) 0
        ((src.drop m).take (count.toNat - m))
      = Ring.store mem (k.index k.write).toNat (src.take count.toNat) := by
    unfold Ring.store
    dsimp
    rw [List.length_take]
    rw [Nat.min_eq_left (show count.toNat ≤ src.length by omega), hm]
    rw [List.take_take, Nat.min_eq_left (show m ≤ count.toNat by omega)]
    rw [List.drop_take]
    rfl
  have hcount : UInt32.ofNat (src.take count.toNat).length = count := by
    rw [List.length_take, Nat.min_eq_left (by omega)]
    apply UInt32.ofNat_toNat
  rw [Mem.copy_eq_some (by omega) (by omega)]
  dsimp only [bind, Option.bind]
  rw [Mem.copy_eq_some (by omega)]
  . unfold extend
    rw [hcount, hstore]
    rfl
  . rw [Mem.length_overwrite]
    . omega
    . omega

theorem writeBuffer_spec (h : k.Inv) {src : List UInt8} {inSize : UInt32}
    (hsrc : inSize.toNat ≤ src.length)
    : ∃ n k', k.writeBuffer (some src) inSize = some (n, k')
        ∧ k'.Inv
        ∧ k'.content = k.content ++ src.take (min inSize.toNat (k.bufferSize.toNat - k.unread))
        ∧ k'.bufferSize = k.bufferSize
        ∧ k'.read = k.read := by
  by_cases hzero : inSize = 0
  . subst hzero
    refine ⟨_, k, writeBuffer_zero k _, h, ?_, rfl, rfl⟩
    simp
  . rcases h.alloc with ⟨mem, halloc⟩
    have hremain := h.toNat_getRemainLen
    have hlen := halloc.length_eq
    have hfit : k.unread + (src.take (min inSize.toNat k.getRemainLen.toNat)).length
        ≤ mem.length := by
      have := h.le
      rw [List.length_take]
      omega
    refine ⟨_, _, writeBuffer_eq_extend h halloc hzero hsrc, extend_inv halloc hfit, ?_, rfl, rfl⟩
    rw [content_extend halloc hfit, hremain]

theorem readBuffer_null (k : Kfifo) (outSize : UInt32)
    : k.readBuffer none outSize = some (-1, none, k) := by
  unfold readBuffer
  split
  . contradiction
  . rfl

theorem readBuffer_zero (k : Kfifo) (outBuf : Option (List UInt8))
    : k.readBuffer outBuf 0 = some (-1, outBuf, k) := by
  unfold readBuffer
  split
  . simp
  . rfl

theorem readBuffer_eq_consume (h : k.Inv) {dst : List UInt8} {outSize : UInt32}
    (hsize : outSize ≠ 0) (hdst : outSize.toNat ≤ dst.length)
    : k.readBuffer (some dst) outSize
        =
      some (minU32 outSize k.getReadableLen,
        some (k.content.take (min outSize.toNat k.unread)
          ++ dst.drop (min outSize.toNat k.unread)),
        k.consume (min outSize.toNat k.unread)) := by
  rcases h with ⟨⟨mem, halloc⟩, hle⟩
  have hidx := halloc.index_lt k.read
  have hlen := halloc.length_eq
  have hn : (minU32 outSize k.getReadableLen).toNat = min outSize.toNat k.unread :=
    toNat_minU32 _ _
  rw [← hn]
  unfold readBuffer
  rw [halloc.buffer_eq]
  simp only [hsize, ↓reduceIte]
  generalize minU32 outSize k.getReadableLen = count at hn ⊢
  rw [toNat_minU32, toNat_sub_minU32]
  rw [halloc.toNat_size_sub_index]
  generalize hm : min count.toNat (mem.length - (k.index k.read).toNat) = m
  have hwindow : k.content.take count.toNat
      = (mem.drop (k.index k.read).toNat).take m ++ (mem.drop 0).take (count.toNat - m) := by
    rw [halloc.content_eq, Ring.take_window (by omega)]
    rw [← Ring.window_mod, hlen, ← halloc.toNat_index]
    rw [Ring.window_eq_append hidx (by omega), hm]
    rfl
  have hfst : ((mem.drop (k.index k.read).toNat).take m).length = m := by
    rw [List.length_take, List.length_drop]
    omega
  have hsnd : ((mem.drop 0).take (count.toNat - m)).length = count.toNat - m := by
    rw [List.length_take, List.length_drop]
    omega
  have hout : Mem.overwrite (Mem.overwrite dst 0 ((mem.drop (k.index k.read).toNat).take m)) m
        ((mem.drop 0).take (count.toNat - m))
      = k.content.take count.toNat ++ dst.drop count.toNat := by
    rw [hwindow]
    generalize (mem.drop (k.index k.read).toNat).take m = fst at hfst
    generalize (mem.drop 0).take (count.toNat - m) = snd at hsnd
    unfold Mem.overwrite
    rw [hsnd, hfst, List.take_zero, List.nil_append]
    rw [List.take_left' hfst]
    rw [List.drop_append, hfst]
    rw [List.drop_of_length_le (by omega), List.nil_append, List.drop_drop]
    rw [List.append_assoc]
    congr 4
    omega
  rw [Mem.copy_eq_some (by omega) (by omega)]
  dsimp only [bind, Option.bind]
  rw [Mem.copy_eq_some (by omega)]
  . unfold consume
    rw [hout, UInt32.ofNat_toNat, halloc.buffer_eq]
    rfl
  . rw [Mem.length_overwrite]
    . omega
    . omega

theorem isPowerOfTwo_iff (x : UInt32) : isPowerOfTwo x = true ↔ x.toNat.isPowerOfTwo := by
  unfold isPowerOfTwo
  rw [← Nat.ne_zero_and_sub_one_eq_zero_iff_isPowerOfTwo]
  rw [Bool.and_eq_true, bne_iff_ne, beq_iff_eq]
  rw [Ne, Ne, ← UInt32.toNat_inj, UInt32.toNat_zero]
  constructor
  . rintro ⟨hne, hand⟩
    refine ⟨hne, ?_⟩
    rw [← UInt32.toNat_inj, UInt32.toNat_and, UInt32.toNat_sub_of_le] at hand
    . exact hand
    . rw [UInt32.le_iff_toNat_le, UInt32.toNat_one]
      omega
  . rintro ⟨hne, hand⟩
    refine ⟨hne, ?_⟩
    rw [← UInt32.toNat_inj, UInt32.toNat_and, UInt32.toNat_sub_of_le]
    . exact hand
    . rw [UInt32.le_iff_toNat_le, UInt32.toNat_one]
      omega

theorem le_of_toNat_eq_pow {x : UInt32} {j : Nat} (h : x.toNat = 2 ^ j) : j ≤ 31 := by
  have hlt := x.toNat_lt
  rw [h] at hlt
  have := (Nat.pow_lt_pow_iff_right (by decide)).mp hlt
  omega

theorem toNat_one_shiftLeft {i : Nat} (h : i < 32)
    : ((1 : UInt32) <<< UInt32.ofNat i).toNat = 2 ^ i := by
  rw [UInt32.toNat_shiftLeft, UInt32.toNat_one, UInt32.toNat_ofNat']
  rw [Nat.mod_eq_of_lt (show i < 2 ^ 32 by omega), Nat.mod_eq_of_lt h, Nat.one_shiftLeft]
  rw [Nat.mod_eq_of_lt]
  apply Nat.pow_lt_pow_right (by decide) h

theorem roundUp_pow {size c : UInt32} (h : roundUp size = some c)
    : ∃ j, j ≤ 31 ∧ c.toNat = 2 ^ j := by
  unfold roundUp at h
  split at h
  . next hpow =>
    rw [isPowerOfTwo_iff] at hpow
    rcases hpow with ⟨j, hj⟩
    rw [Option.some.injEq] at h
    rw [h] at hj
    exact ⟨j, le_of_toNat_eq_pow hj, hj⟩
  . dsimp at h
    generalize bitCount (if size < 2 then 2 else size) 0 = i at h
    split at h
    . next hlt =>
      rw [Option.some.injEq] at h
      refine ⟨i, by omega, ?_⟩
      rw [← h]
      exact toNat_one_shiftLeft hlt
    . contradiction

theorem Alloc.inv_of_cleared {mem : List UInt8} {c : UInt32} (h : (Kfifo.mk (some mem) c 0 0).Alloc mem)
    : (Kfifo.mk (some mem) c 0 0).Inv ∧ (Kfifo.mk (some mem) c 0 0).content = [] := by
  have hunread : (Kfifo.mk (some mem) c 0 0).unread = 0 := by
    rw [unread_eq]
    simp
  constructor
  . apply h.inv
    rw [hunread]
    apply Nat.zero_le
  . rw [h.content_eq, hunread]
    apply Ring.window_zero

theorem initBuffer_eq_some {k k' : Kfifo} {size : UInt32} {b : Bool}
    (h : k.initBuffer size = some (b, k'))
    : k'.Inv ∧ k'.content = [] ∧ roundUp size = some k'.bufferSize ∧ k'.read = 0 := by
  unfold initBuffer at h
  rw [Option.map_eq_some_iff] at h
  rcases h with ⟨c, hround, hk⟩
  rw [Prod.mk.injEq] at hk
  rw [← hk.2]
  have halloc : (Kfifo.mk (some (List.replicate c.toNat 0)) c 0 0).Alloc (List.replicate c.toNat 0) :=
    ⟨rfl, List.length_replicate, roundUp_pow hround⟩
  exact ⟨halloc.inv_of_cleared.1, halloc.inv_of_cleared.2, hround, rfl⟩

theorem resetBuffer_eq_some (h : k.Inv)
    : ∃ k', k.resetBuffer = some k' ∧ k'.Inv ∧ k'.content = [] ∧ k'.bufferSize = k.bufferSize := by
  rcases h with ⟨⟨mem, halloc⟩, hle⟩
  have hmem : 0 + (List.replicate k.bufferSize.toNat (0 : UInt8)).length ≤ mem.length := by
    rw [List.length_replicate, halloc.length_eq]
    omega
  unfold resetBuffer
  rw [halloc.buffer_eq]
  dsimp
  rw [Mem.write_eq_some hmem]
  generalize hmem' : Mem.overwrite mem 0 (List.replicate k.bufferSize.toNat 0) = mem'
  have halloc' : (Kfifo.mk (some mem') k.bufferSize 0 0).Alloc mem' := by
    refine ⟨rfl, ?_, halloc.pow⟩
    rw [← hmem', Mem.length_overwrite hmem]
    apply halloc.length_eq
  exact ⟨_, rfl, halloc'.inv_of_cleared.1, halloc'.inv_of_cleared.2, rfl⟩

end Operations

end Kfifo
