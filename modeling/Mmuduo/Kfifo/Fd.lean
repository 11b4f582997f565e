import Mmuduo.Kfifo.Lemmas
import Mmuduo.Lib.Transition

namespace Kfifo

inductive Op where
  | writeBuffer (inBuf : Option (List UInt8)) (inSize : UInt32)
  | readBuffer (outBuf : Option (List UInt8)) (outSize : UInt32)
  | readFd (received : ReadResult)
  | writeFd (accepted : WriteResult)
  | resetBuffer

/--
What callers and kernel promise: pointers are null or valid for the given size, a system call moves
at most the bytes that it was offered.
-/
def Legal (k : Kfifo) : Op → Bool
  | .writeBuffer inBuf inSize => inBuf.all fun src => inSize.toNat ≤ src.length
  | .readBuffer outBuf outSize => outBuf.all fun dst => outSize.toNat ≤ dst.length
  | .readFd (.ok bytes) => bytes.length ≤ k.iovLen
  | .readFd (.error _) => true
  | .writeFd (.ok n) => n ≤ k.writeFdRange.2
  | .writeFd (.error _) => true
  | .resetBuffer => true

def apply (k : Kfifo) : Op → Option Kfifo
  | .writeBuffer inBuf inSize => (k.writeBuffer inBuf inSize).map (·.2)
  | .readBuffer outBuf outSize => (k.readBuffer outBuf outSize).map (·.2.2)
  | .readFd received => (k.readFd received).map (·.2)
  | .writeFd _ => some k
  | .resetBuffer => k.resetBuffer

def system : LTS Kfifo Op where
  Init k := ∃ k₀ size, initBuffer k₀ size = some (true, k)
  next k op := if k.Legal op then k.apply op else none

/--
The bytes that `readFd` lets the kernel store into the array fit behind the unread ones.
-/
def Fits (k : Kfifo) : Op → Bool
  | .readFd (.ok bytes) => min bytes.length k.writableByte ≤ k.getRemainLen.toNat
  | _ => true

def KeepsUnread (op : Op) (k k' : Kfifo) : Prop :=
  match op with
  | .writeBuffer .. => k.content <+: k'.content
  | .readBuffer .. => k'.content <:+ k.content
  | .readFd _ => k.content <+: k'.content
  | .writeFd _ => k'.content = k.content
  | .resetBuffer => k'.content = []

theorem system_next_eq_some {k k' : Kfifo} {op : Op}
    : system.next k op = some k' ↔ k.Legal op ∧ k.apply op = some k' := by
  simp only [system]
  split
  . next h => simp [h]
  . next h => simp [h]

section WriteBuffer

variable {k : Kfifo}

theorem legal_writeBuffer_some {src : List UInt8} {inSize : UInt32}
    : k.Legal (.writeBuffer (some src) inSize) ↔ inSize.toNat ≤ src.length := by
  simp [Legal]

theorem writeBuffer_keeps (h : k.Inv) {inBuf : Option (List UInt8)} {inSize : UInt32}
    (hlegal : k.Legal (.writeBuffer inBuf inSize))
    : ∃ n k', k.writeBuffer inBuf inSize = some (n, k') ∧ k'.Inv ∧ k.content <+: k'.content := by
  cases inBuf with
  | none => exact ⟨_, k, writeBuffer_null k inSize, h, List.prefix_rfl⟩
  | some src =>
    rw [legal_writeBuffer_some] at hlegal
    rcases writeBuffer_spec h hlegal with ⟨n, k', hwrite, hinv, hcontent, _⟩
    refine ⟨n, k', hwrite, hinv, ?_⟩
    rw [hcontent]
    apply List.prefix_append

end WriteBuffer

section ReadFd

variable {k : Kfifo} {bytes : List UInt8}

theorem Alloc.writableByte_eq {mem : List UInt8} (h : k.Alloc mem)
    : k.writableByte = mem.length - (k.index k.write).toNat :=
  h.toNat_size_sub_index k.write

theorem readFd_eq_extend {mem : List UInt8} (halloc : k.Alloc mem)
    (hbytes : bytes.length ≤ k.writableByte)
    : k.readFd (.ok bytes) = some (.ok bytes.length, k.extend mem bytes) := by
  have hidx := halloc.index_lt k.write
  have htail := halloc.writableByte_eq
  unfold readFd
  dsimp only [bind, Option.bind]
  rw [halloc.buffer_eq]
  dsimp only
  rw [if_pos hbytes]
  rw [Mem.write_eq_some (by omega)]
  unfold extend
  rw [Ring.store_of_le (by omega)]
  rfl

def fillTail (k : Kfifo) (mem bytes : List UInt8) : Kfifo :=
  { k with buffer := some (Ring.store mem (k.index k.write).toNat (bytes.take k.writableByte)) }

theorem fillTail_alloc {mem : List UInt8} (halloc : k.Alloc mem)
    : (k.fillTail mem bytes).Alloc
        (Ring.store mem (k.index k.write).toNat (bytes.take k.writableByte)) := by
  have htail := halloc.writableByte_eq
  refine ⟨rfl, ?_, halloc.pow⟩
  rw [Ring.length_store (halloc.index_lt _)]
  . apply halloc.length_eq
  . rw [List.length_take]
    omega

theorem fillTail_inv (h : k.Inv) {mem : List UInt8} (halloc : k.Alloc mem)
    : (k.fillTail mem bytes).Inv :=
  (fillTail_alloc halloc).inv h.le

theorem content_fillTail (h : k.Inv) {mem : List UInt8} (halloc : k.Alloc mem)
    (hfits : k.writableByte ≤ k.getRemainLen.toNat)
    : (k.fillTail mem bytes).content = k.content := by
  have hremain := h.toNat_getRemainLen
  have hle := h.le
  have hlen := halloc.length_eq
  have hpos := halloc.size_pos
  rw [(fillTail_alloc halloc).content_eq, halloc.content_eq]
  have hstore : Ring.window
      (Ring.store mem ((k.read.toNat + k.unread) % mem.length) (bytes.take k.writableByte))
      k.read.toNat (k.unread + (bytes.take k.writableByte).length)
        = Ring.window mem k.read.toNat k.unread ++ bytes.take k.writableByte := by
    apply Ring.window_store
    . omega
    . rw [List.length_take]
      omega
  have htake := congrArg (List.take k.unread) hstore
  rw [Ring.take_window (by omega)] at htake
  rw [List.take_left' (Ring.length_window (by omega))] at htake
  rw [← halloc.toNat_index_write] at htake
  exact htake

theorem readFd_eq_writeBuffer {mem : List UInt8} (halloc : k.Alloc mem)
    (hbytes : ¬ bytes.length ≤ k.writableByte)
    : k.readFd (.ok bytes)
        =
      ((k.fillTail mem bytes).writeBuffer
        (some (bytes.drop k.writableByte
          ++ List.replicate (extrabufSize - (bytes.drop k.writableByte).length) 0))
        (UInt32.ofNat (bytes.length - k.writableByte))).map fun res =>
          (.ok bytes.length, res.2) := by
  have hidx := halloc.index_lt k.write
  have htail := halloc.writableByte_eq
  have htake : (bytes.take k.writableByte).length = k.writableByte := by
    rw [List.length_take]
    omega
  unfold readFd
  dsimp only [bind, Option.bind]
  rw [halloc.buffer_eq]
  dsimp only
  rw [if_neg hbytes]
  rw [Mem.write_eq_some (by omega)]
  unfold fillTail
  rw [Ring.store_of_le (by omega)]
  dsimp only
  generalize writeBuffer _ _ _ = res
  cases res with
  | none => rfl
  | some res => rfl

theorem readFd_keeps (h : k.Inv) (hfits : k.Fits (.readFd (.ok bytes)))
    : ∃ n k', k.readFd (.ok bytes) = some (n, k') ∧ k'.Inv ∧ k.content <+: k'.content := by
  rcases h.alloc with ⟨mem, halloc⟩
  have hremain := h.toNat_getRemainLen
  have hlen := halloc.length_eq
  have hle := h.le
  simp only [Fits, decide_eq_true_eq] at hfits
  by_cases hbytes : bytes.length ≤ k.writableByte
  . have hfit : k.unread + bytes.length ≤ mem.length := by omega
    refine ⟨_, _, readFd_eq_extend halloc hbytes, extend_inv halloc hfit, ?_⟩
    rw [content_extend halloc hfit]
    apply List.prefix_append
  . rw [readFd_eq_writeBuffer halloc hbytes]
    have hextra : (k.fillTail mem bytes).Legal (.writeBuffer
        (some (bytes.drop k.writableByte
          ++ List.replicate (extrabufSize - (bytes.drop k.writableByte).length) 0))
        (UInt32.ofNat (bytes.length - k.writableByte))) := by
      rw [legal_writeBuffer_some, UInt32.toNat_ofNat', List.length_append, List.length_drop]
      have := Nat.mod_le (bytes.length - k.writableByte) (2 ^ 32)
      omega
    rcases writeBuffer_keeps (fillTail_inv h halloc) hextra with ⟨n, k', hwrite, hinv, hpre⟩
    rw [hwrite]
    refine ⟨_, k', rfl, hinv, ?_⟩
    rw [content_fillTail h halloc (by omega)] at hpre
    exact hpre

end ReadFd

theorem readBuffer_keeps {k : Kfifo} (h : k.Inv) {outBuf : Option (List UInt8)} {outSize : UInt32}
    (hlegal : k.Legal (.readBuffer outBuf outSize))
    : ∃ n out k', k.readBuffer outBuf outSize = some (n, out, k') ∧ k'.Inv
        ∧ k'.content <:+ k.content := by
  cases outBuf with
  | none => exact ⟨_, _, k, readBuffer_null k outSize, h, List.suffix_rfl⟩
  | some dst =>
    simp only [Legal, Option.all_some, decide_eq_true_eq] at hlegal
    by_cases hzero : outSize = 0
    . subst hzero
      exact ⟨_, _, k, readBuffer_zero k _, h, List.suffix_rfl⟩
    . refine ⟨_, _, _, readBuffer_eq_consume h hzero hlegal, ?_, ?_⟩
      . apply consume_inv h (Nat.min_le_right _ _)
      . rw [content_consume h (Nat.min_le_right _ _)]
        apply List.drop_suffix

theorem apply_keeps {k : Kfifo} (h : k.Inv) {op : Op} (hlegal : k.Legal op) (hfits : k.Fits op)
    : ∃ k', k.apply op = some k' ∧ k'.Inv ∧ KeepsUnread op k k' := by
  cases op with
  | writeBuffer inBuf inSize =>
    rcases writeBuffer_keeps h hlegal with ⟨n, k', hwrite, hinv, hkeeps⟩
    exact ⟨k', by simp only [apply, hwrite, Option.map_some], hinv, hkeeps⟩
  | readBuffer outBuf outSize =>
    rcases readBuffer_keeps h hlegal with ⟨n, out, k', hread, hinv, hkeeps⟩
    exact ⟨k', by simp only [apply, hread, Option.map_some], hinv, hkeeps⟩
  | readFd received =>
    cases received with
    | error errno => exact ⟨k, rfl, h, List.prefix_rfl⟩
    | ok bytes =>
      rcases readFd_keeps h hfits with ⟨n, k', hread, hinv, hkeeps⟩
      exact ⟨k', by simp only [apply, hread, Option.map_some], hinv, hkeeps⟩
  | writeFd accepted => exact ⟨k, rfl, h, rfl⟩
  | resetBuffer =>
    rcases resetBuffer_eq_some h with ⟨k', hreset, hinv, hcontent, _⟩
    exact ⟨k', hreset, hinv, hcontent⟩

theorem step_keeps {k k' : Kfifo} {op : Op} (h : k.Inv)
    (hnext : (system.restrict fun k op => k.Fits op).next k op = some k')
    : k'.Inv ∧ KeepsUnread op k k' := by
  rw [LTS.restrict_next_eq_some, system_next_eq_some] at hnext
  rcases hnext with ⟨hfits, hlegal, happly⟩
  rcases apply_keeps h hlegal hfits with ⟨k₁, happly', hinv, hkeeps⟩
  rw [happly, Option.some.injEq] at happly'
  rw [happly']
  exact ⟨hinv, hkeeps⟩

theorem reachable_inv {k : Kfifo} (h : (system.restrict fun k op => k.Fits op).Reachable k)
    : k.Inv := by
  apply LTS.Reachable.invariant _ _ _ h
  . rintro k ⟨k₀, size, hinit⟩
    exact (initBuffer_eq_some hinit).1
  . intro k op k' hinv hnext
    exact (step_keeps hinv hnext).1

theorem reachable_fits_safe (k : Kfifo) (h : (system.restrict fun k op => k.Fits op).Reachable k)
    : (k.write - k.read).toNat ≤ k.bufferSize.toNat
      ∧ k.getRemainLen.toNat = k.bufferSize.toNat - (k.write - k.read).toNat
      ∧ (∀ src inSize, inSize.toNat ≤ src.length → (k.writeBuffer (some src) inSize).isSome)
      ∧ (∀ op k', (system.restrict fun k op => k.Fits op).next k op = some k'
          → KeepsUnread op k k') := by
  have hinv := reachable_inv h
  refine ⟨hinv.le, hinv.toNat_getRemainLen, ?_, ?_⟩
  . intro src inSize hsrc
    rcases writeBuffer_keeps hinv (legal_writeBuffer_some.mpr hsrc) with ⟨n, k', hwrite, _⟩
    rw [hwrite]
    rfl
  . intro op k' hnext
    exact (step_keeps hinv hnext).2

theorem init_four : system.Init (Kfifo.mk (some [0, 0, 0, 0]) 4 0 0) :=
  ⟨new, 4, by decide⟩

theorem reachable_fits_safe_two
    : (Kfifo.mk (some [1, 2, 3, 4]) 4 4 1).getRemainLen.toNat = 4 - ((4 : UInt32) - 1).toNat := by
  have hrun : (system.restrict fun k op => k.Fits op).run (Kfifo.mk (some [0, 0, 0, 0]) 4 0 0)
      [.writeBuffer (some [1, 2]) 2, .readBuffer (some [0]) 1, .readFd (.ok [3, 4])]
      = some (Kfifo.mk (some [1, 2, 3, 4]) 4 4 1) := by
    decide
  exact (reachable_fits_safe _ (.of_run _ (.init init_four) hrun)).2.1

theorem readFd_overruns
    : ¬ ∀ k, system.Reachable k → (k.write - k.read).toNat ≤ k.bufferSize.toNat := by
  intro h
  have hrun : system.run (Kfifo.mk (some [0, 0, 0, 0]) 4 0 0)
      [.writeBuffer (some [1, 2, 3]) 3, .readFd (.ok [4]), .readFd (.ok [5, 6, 7, 8])]
      = some (Kfifo.mk (some [5, 6, 7, 8]) 4 8 0) := by
    decide
  have hle := h _ (.of_run _ (.init init_four) hrun)
  revert hle
  decide

end Kfifo
