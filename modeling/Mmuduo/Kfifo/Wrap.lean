import Mmuduo.Kfifo.Fd

namespace Kfifo

section ReadFd

variable {k : Kfifo} {bytes : List UInt8}

theorem length_content_readFd_le (h : k.Inv) (hbytes : ¬bytes.length ≤ k.writableByte)
    {r : Except Errno Nat × Kfifo} (hread : k.readFd (.ok bytes) = some r)
    : r.2.content.length ≤ k.unread + (bytes.length - k.writableByte) := by
  rcases h.alloc with ⟨mem, halloc⟩
  have hinv : (k.fillTail mem bytes).Inv := fillTail_inv h halloc
  have hsrc : (UInt32.ofNat (bytes.length - k.writableByte)).toNat
      ≤ (bytes.drop k.writableByte
        ++ List.replicate (extrabufSize - (bytes.drop k.writableByte).length) 0).length := by
    rw [UInt32.toNat_ofNat', List.length_append, List.length_drop]
    have := Nat.mod_le (bytes.length - k.writableByte) (2 ^ 32)
    omega
  rw [readFd_eq_writeBuffer halloc hbytes] at hread
  rcases writeBuffer_spec hinv hsrc with ⟨n, k', hwrite, -, hcontent, -⟩
  rw [hwrite, Option.map_some, Option.some.injEq] at hread
  rw [← hread]
  dsimp only
  rw [hcontent, List.length_append, List.length_take, hinv.length_content]
  have hunread : (k.fillTail mem bytes).unread = k.unread := rfl
  have := Nat.mod_le (bytes.length - k.writableByte) (2 ^ 32)
  rw [hunread, UInt32.toNat_ofNat']
  omega

theorem readFd_appends_iff (k : Kfifo) (h : k.Inv) (bytes : List UInt8)
    (hfits : bytes.length ≤ k.getRemainLen.toNat)
    : (∃ k', k.readFd (.ok bytes) = some (.ok bytes.length, k') ∧ k'.content = k.content ++ bytes)
      ↔
      bytes.length ≤ k.writableByte := by
  rcases h.alloc with ⟨mem, halloc⟩
  constructor
  . rintro ⟨k', hread, hcontent⟩
    by_contra hbytes
    have hle := length_content_readFd_le h hbytes hread
    have hpos : 0 < k.writableByte := by
      have := halloc.index_lt k.write
      have := halloc.writableByte_eq
      omega
    dsimp only at hle
    rw [hcontent, List.length_append, h.length_content] at hle
    omega
  . intro hbytes
    have hfit : k.unread + bytes.length ≤ mem.length := by
      have := h.toNat_getRemainLen
      have := h.le
      have := halloc.length_eq
      omega
    exact ⟨_, readFd_eq_extend halloc hbytes, content_extend halloc hfit⟩

end ReadFd

def atEnd : Kfifo := { buffer := some [1, 2, 3, 0], bufferSize := 4, write := 3, read := 3 }

theorem atEnd_inv : atEnd.Inv := by
  refine ⟨⟨[1, 2, 3, 0], rfl, rfl, 2, by decide, rfl⟩, ?_⟩
  decide

theorem readFd_appends_iff_tail
    : [(7 : UInt8)].length ≤ atEnd.getRemainLen.toNat
      ∧ ∃ k', atEnd.readFd (.ok [7]) = some (.ok 1, k') ∧ k'.content = atEnd.content ++ [7] := by
  refine ⟨by decide, ?_⟩
  apply (readFd_appends_iff atEnd atEnd_inv [7] (by decide)).mpr
  decide

theorem readFd_loses_tail
    : atEnd.Legal (.readFd (.ok [7, 8])) = true
      ∧ ¬∀ (k : Kfifo), k.Inv → ∀ bytes, 0 < bytes.length → bytes.length ≤ k.getRemainLen.toNat →
        ∃ k', k.readFd (.ok bytes) = some (.ok bytes.length, k')
          ∧ k'.content = k.content ++ bytes := by
  refine ⟨by decide, ?_⟩
  intro h
  rcases h atEnd atEnd_inv [7, 8] (by decide) (by decide) with ⟨k', hread, hcontent⟩
  have hle := length_content_readFd_le atEnd_inv (by decide) hread
  dsimp only at hle
  rw [hcontent] at hle
  revert hle
  decide

section WriteFd

variable {k : Kfifo}

def isMemory : Op → Bool
  | .writeBuffer _ _ => true
  | .readBuffer _ _ => true
  | _ => false

/--
The range that `writeFd` passes to `::write` is inside of the array and starts the unread bytes.
-/
def OffersUnread (k : Kfifo) : Prop :=
  ∃ bytes, (k.buffer.bind fun mem => Mem.read mem k.writeFdRange.1 k.writeFdRange.2) = some bytes
    ∧ bytes <+: k.content ∧ (k.content ≠ [] → bytes ≠ [])

def SamePass (k : Kfifo) : Prop :=
  k.write = k.read ∨ k.read / k.bufferSize = (k.write - 1) / k.bufferSize

instance (k : Kfifo) : Decidable k.SamePass :=
  inferInstanceAs (Decidable (_ ∨ _))

theorem offersUnread_iff_le (h : k.Inv)
    : k.OffersUnread ↔ (k.index k.read).toNat + k.unread ≤ k.bufferSize.toNat := by
  rcases h.alloc with ⟨mem, halloc⟩
  have hlen := halloc.length_eq
  have hle := h.le
  have hidx := halloc.index_lt k.read
  have hread : (k.buffer.bind fun mem => Mem.read mem k.writeFdRange.1 k.writeFdRange.2)
      = Mem.read mem (k.index k.read).toNat k.unread := by
    rw [halloc.buffer_eq]
    rfl
  unfold OffersUnread
  rw [hread]
  constructor
  . rintro ⟨bytes, hbytes, -⟩
    unfold Mem.read at hbytes
    split at hbytes
    . omega
    . cases hbytes
  . intro hend
    have hcontent : k.content = (mem.drop (k.index k.read).toNat).take k.unread := by
      have hmin : min k.unread (mem.length - (k.index k.read).toNat) = k.unread := by
        omega
      rw [halloc.content_eq, ← Ring.window_mod, hlen, ← halloc.toNat_index]
      rw [Ring.window_eq_append hidx (by omega), hmin]
      simp
    refine ⟨k.content, ?_, List.prefix_rfl, id⟩
    rw [Mem.read_eq_some (by omega), hcontent]

theorem samePass_iff_le (h : k.Inv)
    : k.SamePass ↔ (k.index k.read).toNat + k.unread ≤ k.bufferSize.toNat := by
  rcases h.alloc with ⟨mem, halloc⟩
  have hsize := halloc.size_pos
  have hsize' := halloc.size_le
  have hunread := k.unread_eq
  have hread := k.read.toNat_lt
  have hwrite := k.write.toNat_lt
  by_cases hempty : k.write = k.read
  . have hidx := halloc.index_lt k.read
    have hlen := halloc.length_eq
    have hzero : k.unread = 0 := by
      rw [hempty] at hunread
      omega
    apply iff_of_true (Or.inl hempty)
    omega
  . have hne : k.write.toNat ≠ k.read.toNat := fun heq => hempty (UInt32.toNat_inj.mp heq)
    have hlast : (k.write - 1).toNat = (k.read.toNat + k.unread - 1) % 2 ^ 32 := by
      rw [UInt32.toNat_sub, UInt32.toNat_one]
      omega
    unfold SamePass
    rw [or_iff_right hempty, ← UInt32.toNat_inj, UInt32.toNat_div, UInt32.toNat_div, hlast]
    rw [halloc.toNat_index, eq_comm]
    apply Ring.pass_eq_iff hsize halloc.size_dvd (by omega) hread (by omega) h.le

theorem fits_of_isMemory {op : Op} (h : isMemory op = true) : k.Fits op = true := by
  cases op with
  | writeBuffer inBuf inSize => rfl
  | readBuffer outBuf outSize => rfl
  | readFd received => cases h
  | writeFd accepted => cases h
  | resetBuffer => cases h

theorem writeFd_offers_iff (k : Kfifo)
    (h : (system.restrict fun _ op => isMemory op = true).Reachable k)
    : k.OffersUnread ↔ k.SamePass := by
  have hinv := reachable_inv (h.restrict_mono _ fun _ _ => fits_of_isMemory)
  rw [offersUnread_iff_le hinv, samePass_iff_le hinv]

end WriteFd

def three : Kfifo := { buffer := some [1, 2, 3, 0], bufferSize := 4, write := 3, read := 0 }

def wrapped : Kfifo := { buffer := some [5, 6, 3, 4], bufferSize := 4, write := 6, read := 2 }

theorem three_reachable : (system.restrict fun _ op => isMemory op = true).Reachable three := by
  have hrun : (system.restrict fun _ op => isMemory op = true).run
      (Kfifo.mk (some [0, 0, 0, 0]) 4 0 0) [.writeBuffer (some [1, 2, 3]) 3] = some three := by
    decide
  exact .of_run _ (.init init_four) hrun

theorem wrapped_reachable : (system.restrict fun _ op => isMemory op = true).Reachable wrapped := by
  have hrun : (system.restrict fun _ op => isMemory op = true).run three
      [.readBuffer (some [0, 0]) 2, .writeBuffer (some [4, 5, 6]) 3] = some wrapped := by
    decide
  exact .of_run _ three_reachable hrun

theorem writeFd_offers_iff_three : three.OffersUnread := by
  apply (writeFd_offers_iff three three_reachable).mpr
  decide

theorem writeFd_leaves_array
    : wrapped.writeFdRange = (2, 4)
      ∧ ¬∀ k, (system.restrict fun _ op => isMemory op = true).Reachable k → k.OffersUnread := by
  refine ⟨by decide, ?_⟩
  intro h
  rcases h wrapped wrapped_reachable with ⟨bytes, hbytes, -⟩
  cases hbytes

end Kfifo
