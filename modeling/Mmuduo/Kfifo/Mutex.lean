import Mmuduo.Kfifo.Fd
import Mmuduo.Lib.Mutex

/-!
This module contains the public operations of `Kfifo` with their locks. With a recursive mutex they are
the functions of `Kfifo.Impl`; with the plain `std::mutex` of the class an operation that calls another
one inside of its scope lock never returns.
-/

namespace Kfifo.Mutex

open Locking

section Operations

variable (kind : MutexKind)

def initBuffer (size : UInt32) : Locking Kfifo Bool := do
  -- `size` is rounded up before the lock is taken
  let size ← lift fun k => (roundUp size).map fun size => (size, k)
  lockGuard kind <| lift fun _ =>
    some (true,
      { buffer := some (List.replicate size.toNat 0), bufferSize := size, write := 0, read := 0 })

def freeBuffer : Locking Kfifo Unit :=
  lockGuard kind (lift fun k => some ((), k.freeBuffer))

def resetBuffer : Locking Kfifo Unit :=
  lockGuard kind (lift fun k => k.resetBuffer.map fun k => ((), k))

def isEmpty : Locking Kfifo Bool :=
  lockGuard kind (view Kfifo.isEmpty)

def isFull : Locking Kfifo Bool :=
  lockGuard kind (view Kfifo.isFull)

def getReadableLen : Locking Kfifo UInt32 :=
  lockGuard kind (view Kfifo.getReadableLen)

def getRemainLen : Locking Kfifo UInt32 :=
  lockGuard kind (view Kfifo.getRemainLen)

def getBufferSize : Locking Kfifo UInt32 :=
  lockGuard kind (view Kfifo.getBufferSize)

/--
`Min(a, b)` is a macro: the smaller one of its arguments is evaluated twice.
-/
def macroMin (a b : Locking Kfifo UInt32) : Locking Kfifo UInt32 := do
  let x ← a
  let y ← b
  if x < y then a else b

def writeBuffer (inBuf : Option (List UInt8)) (inSize : UInt32) : Locking Kfifo UInt32 :=
  lockGuard kind do
    let k ← view id
    match k.buffer, inBuf with
    | some _, some src =>
      if inSize = 0 then
        return -1
      else
        let inSize ← macroMin (pure inSize) (getRemainLen kind)
        let len := minU32 inSize (k.bufferSize - k.index k.write)
        lift fun k => do
          let mem ← k.buffer
          let mem ← Mem.copy mem (k.index k.write).toNat src 0 len.toNat
          let mem ← Mem.copy mem 0 src len.toNat (inSize - len).toNat
          return (inSize, { k with buffer := some mem, write := k.write + inSize })
    | _, _ => return -1

def readBuffer (outBuf : Option (List UInt8)) (outSize : UInt32)
    : Locking Kfifo (UInt32 × Option (List UInt8)) :=
  lockGuard kind do
    let k ← view id
    match k.buffer, outBuf with
    | some _, some dst =>
      if outSize = 0 then
        return (-1, outBuf)
      else
        let outSize ← macroMin (pure outSize) (getReadableLen kind)
        let len := minU32 outSize (k.bufferSize - k.index k.read)
        lift fun k => do
          let mem ← k.buffer
          let dst ← Mem.copy dst 0 mem (k.index k.read).toNat len.toNat
          let dst ← Mem.copy dst len.toNat mem 0 (outSize - len).toNat
          return ((outSize, some dst), { k with read := k.read + outSize })
    | _, _ => return (-1, outBuf)

def fillTail (bytes : List UInt8) (k : Kfifo) : Option Kfifo :=
  match k.buffer with
  | some mem =>
    (Mem.write mem (k.index k.write).toNat (bytes.take k.writableByte)).map fun mem =>
      { k with buffer := some mem }
  | none => if k.writableByte = 0 then some k else none

def readFd (received : ReadResult) : Locking Kfifo (Except Errno Nat) := do
  let writableByte ← view Kfifo.writableByte
  match received with
  | .error errno => return .error errno
  | .ok bytes =>
    lift fun k => (fillTail bytes k).map fun k => ((), k)
    if bytes.length ≤ writableByte then
      lift fun k =>
        some (.ok bytes.length, { k with write := k.write + UInt32.ofNat bytes.length })
    else
      let rest := bytes.drop writableByte
      let extrabuf := rest ++ List.replicate (extrabufSize - rest.length) 0
      let _ ← writeBuffer kind (some extrabuf) (UInt32.ofNat (bytes.length - writableByte))
      return .ok bytes.length

def writeFd (accepted : WriteResult) : Locking Kfifo (Except Errno (List UInt8)) := do
  let off ← view fun k => (k.index k.read).toNat
  let _len ← getReadableLen kind
  match accepted with
  | .error errno => return .error errno
  | .ok n => lift fun k => (Mem.read (k.buffer.getD []) off n).map fun sent => (.ok sent, k)

end Operations

inductive Operation where
  | initBuffer (size : UInt32)
  | freeBuffer
  | resetBuffer
  | isEmpty
  | isFull
  | getReadableLen
  | getRemainLen
  | getBufferSize
  | writeBuffer (inBuf : Option (List UInt8)) (inSize : UInt32)
  | readBuffer (outBuf : Option (List UInt8)) (outSize : UInt32)
  | readFd (received : ReadResult)
  | writeFd (accepted : WriteResult)

def perform (kind : MutexKind) : Operation → Locking Kfifo Unit
  | .initBuffer size => (fun _ => ()) <$> initBuffer kind size
  | .freeBuffer => freeBuffer kind
  | .resetBuffer => resetBuffer kind
  | .isEmpty => (fun _ => ()) <$> isEmpty kind
  | .isFull => (fun _ => ()) <$> isFull kind
  | .getReadableLen => (fun _ => ()) <$> getReadableLen kind
  | .getRemainLen => (fun _ => ()) <$> getRemainLen kind
  | .getBufferSize => (fun _ => ()) <$> getBufferSize kind
  | .writeBuffer inBuf inSize => (fun _ => ()) <$> writeBuffer kind inBuf inSize
  | .readBuffer outBuf outSize => (fun _ => ()) <$> readBuffer kind outBuf outSize
  | .readFd received => (fun _ => ()) <$> readFd kind received
  | .writeFd accepted => (fun _ => ()) <$> writeFd kind accepted

section Recursive

theorem initBuffer_recursive (size : UInt32)
    : initBuffer .recursive size = lift fun k => k.initBuffer size := by
  unfold initBuffer
  simp only [lockGuard_recursive_lift, lift_bind]
  congr 1
  funext k
  unfold Kfifo.initBuffer
  cases roundUp size with
  | none => rfl
  | some size => rfl

@[simp]
theorem getReadableLen_recursive : getReadableLen .recursive = view Kfifo.getReadableLen :=
  lockGuard_recursive_lift _

@[simp]
theorem getRemainLen_recursive : getRemainLen .recursive = view Kfifo.getRemainLen :=
  lockGuard_recursive_lift _

theorem macroMin_view (a : UInt32) (b : Kfifo → UInt32)
    : macroMin (pure a) (view b) = view fun k => minU32 a (b k) := by
  funext s
  unfold macroMin minU32
  rw [pure_bind, view_bind]
  by_cases h : a < b s.data
  . rw [if_pos h]
    simp only [view, lift, if_pos h]
    rfl
  . rw [if_neg h]
    simp only [view, lift, if_neg h]

theorem writeBuffer_recursive (inBuf : Option (List UInt8)) (inSize : UInt32)
    : writeBuffer .recursive inBuf inSize = lift fun k => k.writeBuffer inBuf inSize := by
  rw [← lockGuard_recursive_lift]
  unfold writeBuffer Kfifo.writeBuffer
  congr 1
  funext s
  rw [getRemainLen_recursive, macroMin_view, view_bind]
  dsimp only [id]
  cases hbuffer : s.data.buffer with
  | none => simp only [lift, hbuffer]; rfl
  | some mem =>
    cases inBuf with
    | none => simp only [lift, hbuffer]; rfl
    | some src =>
      dsimp only
      split
      . simp only [lift, hbuffer]
        rfl
      . rw [view_bind]
        apply lift_congr
        rw [hbuffer]
        rfl

theorem readBuffer_recursive (outBuf : Option (List UInt8)) (outSize : UInt32)
    : readBuffer .recursive outBuf outSize
        =
      lift fun k => (k.readBuffer outBuf outSize).map fun r => ((r.1, r.2.1), r.2.2) := by
  rw [← lockGuard_recursive_lift]
  unfold readBuffer Kfifo.readBuffer
  congr 1
  funext s
  rw [getReadableLen_recursive, macroMin_view, view_bind]
  dsimp only [id]
  cases hbuffer : s.data.buffer with
  | none => simp only [lift, hbuffer]; rfl
  | some mem =>
    cases outBuf with
    | none => simp only [lift, hbuffer]; rfl
    | some dst =>
      dsimp only
      split
      . simp only [lift, hbuffer]
        rfl
      . rw [view_bind]
        apply lift_congr
        rw [hbuffer]
        simp only [Option.bind_eq_bind, Option.map_bind, Function.comp_def]
        rfl

theorem readFd_recursive (received : ReadResult) {k : Kfifo} (h : k.buffer ≠ none) (depth : Nat)
    : readFd .recursive received ⟨k, depth⟩ = lift (fun k => k.readFd received) ⟨k, depth⟩ := by
  unfold readFd Kfifo.readFd
  rw [view_bind]
  cases received with
  | error errno => rfl
  | ok bytes =>
    rcases Option.ne_none_iff_exists'.mp h with ⟨mem, hbuffer⟩
    dsimp only
    by_cases hbytes : bytes.length ≤ k.writableByte
    . simp only [if_pos hbytes, lift_bind]
      apply lift_congr
      dsimp only
      simp only [fillTail, hbuffer, if_pos hbytes, List.take_of_length_le hbytes,
        Option.bind_eq_bind, Option.bind_some]
      cases Mem.write mem (k.index k.write).toNat bytes with
      | none => rfl
      | some mem => rfl
    . simp only [if_neg hbytes, writeBuffer_recursive, pure_eq_lift, lift_bind]
      apply lift_congr
      dsimp only
      simp only [fillTail, hbuffer, if_neg hbytes, Option.bind_eq_bind, Option.bind_some]
      cases Mem.write mem (k.index k.write).toNat (bytes.take k.writableByte) with
      | none => rfl
      | some mem => rfl

theorem writeFd_recursive (accepted : WriteResult) {k : Kfifo} (h : k.buffer ≠ none) (depth : Nat)
    : writeFd .recursive accepted ⟨k, depth⟩
        =
      lift (fun k => (k.writeFd accepted).map fun sent => (sent, k)) ⟨k, depth⟩ := by
  unfold writeFd Kfifo.writeFd
  rw [getReadableLen_recursive, view_bind, view_bind]
  cases accepted with
  | error errno => rfl
  | ok n =>
    rcases Option.ne_none_iff_exists'.mp h with ⟨mem, hbuffer⟩
    apply lift_congr
    dsimp only
    rw [hbuffer]
    simp only [Option.getD_some, writeFdRange, Option.bind_eq_bind, Option.bind_some]
    cases Mem.read mem (k.index k.read).toNat n with
    | none => rfl
    | some sent => rfl

end Recursive

section Plain

variable {k : Kfifo}

theorem macroMin_held (a : UInt32) (body : Locking Kfifo UInt32) (depth : Nat)
    : macroMin (pure a) (lockGuard .plain body) ⟨k, depth + 1⟩ = .error .selfLock := by
  have hbody : lockGuard .plain body ⟨k, depth + 1⟩ = .error .selfLock :=
    lockGuard_held body (Nat.succ_ne_zero depth)
  unfold macroMin
  rw [pure_bind, bind_error _ hbody]

theorem writeBuffer_selfLock {mem src : List UInt8} {inSize : UInt32} (hbuffer : k.buffer = some mem)
    (hsize : inSize ≠ 0)
    : writeBuffer .plain (some src) inSize ⟨k, 0⟩ = .error .selfLock := by
  unfold writeBuffer
  rw [lockGuard_eq _ (.inr rfl), view_bind]
  dsimp only [id]
  rw [hbuffer]
  dsimp only
  rw [if_neg hsize]
  unfold getRemainLen
  rw [bind_error _ (macroMin_held inSize _ 0)]
  rfl

theorem readBuffer_selfLock {mem dst : List UInt8} {outSize : UInt32} (hbuffer : k.buffer = some mem)
    (hsize : outSize ≠ 0)
    : readBuffer .plain (some dst) outSize ⟨k, 0⟩ = .error .selfLock := by
  unfold readBuffer
  rw [lockGuard_eq _ (.inr rfl), view_bind]
  dsimp only [id]
  rw [hbuffer]
  dsimp only
  rw [if_neg hsize]
  unfold getReadableLen
  rw [bind_error _ (macroMin_held outSize _ 0)]
  rfl

theorem writeBuffer_plain {inBuf : Option (List UInt8)} {inSize : UInt32}
    (h : k.buffer = none ∨ inBuf = none ∨ inSize = 0)
    : writeBuffer .plain inBuf inSize ⟨k, 0⟩ = writeBuffer .recursive inBuf inSize ⟨k, 0⟩ := by
  unfold writeBuffer
  rw [lockGuard_eq _ (.inr rfl), lockGuard_eq _ (.inl rfl), view_bind, view_bind]
  dsimp only [id]
  rcases h with hbuffer | hinBuf | hsize
  . rw [hbuffer]
  . rw [hinBuf]
    cases k.buffer with
    | none => rfl
    | some mem => rfl
  . simp only [if_pos hsize]

theorem readBuffer_plain {outBuf : Option (List UInt8)} {outSize : UInt32}
    (h : k.buffer = none ∨ outBuf = none ∨ outSize = 0)
    : readBuffer .plain outBuf outSize ⟨k, 0⟩ = readBuffer .recursive outBuf outSize ⟨k, 0⟩ := by
  unfold readBuffer
  rw [lockGuard_eq _ (.inr rfl), lockGuard_eq _ (.inl rfl), view_bind, view_bind]
  dsimp only [id]
  rcases h with hbuffer | houtBuf | hsize
  . rw [hbuffer]
  . rw [houtBuf]
    cases k.buffer with
    | none => rfl
    | some mem => rfl
  . simp only [if_pos hsize]

/--
What the kernel can return: `readv` and `::write` move at most the bytes that they are offered.
-/
def Possible (k : Kfifo) : Operation → Prop
  | .readFd (.ok bytes) => bytes.length ≤ k.iovLen
  | .writeFd (.ok n) => n ≤ k.writeFdRange.2
  | _ => True

/--
What holds of a `Kfifo` between two calls: it has no array, or one of `bufferSize` bytes.
-/
def Valid (k : Kfifo) : Prop :=
  ∀ mem, k.buffer = some mem → k.Alloc mem

/--
The call returns before it would call a locking operation inside of its own scope lock.
-/
def EndsEarly (k : Kfifo) : Operation → Prop
  | .writeBuffer inBuf inSize => k.buffer = none ∨ inBuf = none ∨ inSize = 0
  | .readBuffer outBuf outSize => k.buffer = none ∨ outBuf = none ∨ outSize = 0
  | .readFd (.ok bytes) => k.buffer = none ∨ bytes.length ≤ k.writableByte
  | _ => True

theorem fillTail_alloc {mem : List UInt8} (h : k.Alloc mem) (bytes : List UInt8)
    : ∃ mem', fillTail bytes k = some { k with buffer := some mem' } := by
  have hidx := h.index_lt k.write
  have htail := h.writableByte_eq
  unfold fillTail
  rw [h.buffer_eq]
  dsimp only
  rw [Mem.write_eq_some (by rw [List.length_take]; omega)]
  exact ⟨_, rfl⟩

theorem readFd_selfLock {mem bytes : List UInt8} (h : k.Alloc mem)
    (hpossible : bytes.length ≤ k.iovLen) (hbytes : ¬bytes.length ≤ k.writableByte)
    : readFd .plain (.ok bytes) ⟨k, 0⟩ = .error .selfLock := by
  rcases fillTail_alloc h bytes with ⟨mem', hfill⟩
  have hsize : UInt32.ofNat (bytes.length - k.writableByte) ≠ 0 := by
    intro hzero
    have htoNat := congrArg UInt32.toNat hzero
    rw [UInt32.toNat_ofNat', UInt32.toNat_zero] at htoNat
    unfold iovLen extrabufSize at hpossible
    split at hpossible
    . omega
    . omega
  unfold readFd
  rw [view_bind]
  dsimp only
  simp only [if_neg hbytes, bind, StateT.bind, Except.bind, lift, hfill, Option.map_some]
  rw [writeBuffer_selfLock rfl hsize]

theorem readFd_plain {bytes : List UInt8} (h : k.buffer = none ∨ bytes.length ≤ k.writableByte)
    : readFd .plain (.ok bytes) ⟨k, 0⟩ = readFd .recursive (.ok bytes) ⟨k, 0⟩ := by
  unfold readFd
  rw [view_bind, view_bind]
  dsimp only
  by_cases hbytes : bytes.length ≤ k.writableByte
  . simp only [if_pos hbytes]
  . have hbuffer := h.resolve_right hbytes
    simp only [if_neg hbytes]
    apply lift_bind_congr
    intro a k' hfill
    have hk : k'.buffer = none := by
      simp only [fillTail, hbuffer] at hfill
      split at hfill
      . cases hfill
        exact hbuffer
      . cases hfill
    simp only [bind, StateT.bind, Except.bind, writeBuffer_plain (.inl hk)]

theorem perform_plain {op : Operation} (h : EndsEarly k op)
    : perform .plain op ⟨k, 0⟩ = perform .recursive op ⟨k, 0⟩ := by
  have hscope : ∀ {α : Type} (f : Kfifo → Option (α × Kfifo)),
      lockGuard .plain (lift f) ⟨k, 0⟩ = lockGuard .recursive (lift f) ⟨k, 0⟩ := by
    intro α f
    rw [lockGuard_lift f (.inr rfl), lockGuard_recursive_lift]
  cases op with
  | initBuffer size =>
    apply map_apply_congr
    apply lift_bind_congr
    intro a data _
    rw [lockGuard_lift _ (.inr rfl), lockGuard_recursive_lift]
  | freeBuffer => exact hscope _
  | resetBuffer => exact hscope _
  | isEmpty => exact map_apply_congr _ (hscope _)
  | isFull => exact map_apply_congr _ (hscope _)
  | getReadableLen => exact map_apply_congr _ (hscope _)
  | getRemainLen => exact map_apply_congr _ (hscope _)
  | getBufferSize => exact map_apply_congr _ (hscope _)
  | writeBuffer inBuf inSize => exact map_apply_congr _ (writeBuffer_plain h)
  | readBuffer outBuf outSize => exact map_apply_congr _ (readBuffer_plain h)
  | readFd received =>
    apply map_apply_congr
    cases received with
    | error errno => rfl
    | ok bytes => exact readFd_plain h
  | writeFd accepted =>
    apply map_apply_congr
    unfold writeFd
    rw [view_bind, view_bind]
    exact bind_apply_congr _ (hscope _)

theorem perform_selfLock {op : Operation} (hvalid : Valid k) (hpossible : Possible k op)
    (h : ¬EndsEarly k op)
    : perform .plain op ⟨k, 0⟩ = .error .selfLock := by
  cases op with
  | writeBuffer inBuf inSize =>
    simp only [EndsEarly, not_or] at h
    rcases h with ⟨hbuffer, hinBuf, hsize⟩
    rcases Option.ne_none_iff_exists'.mp hbuffer with ⟨mem, hmem⟩
    rcases Option.ne_none_iff_exists'.mp hinBuf with ⟨src, hsrc⟩
    rw [hsrc]
    exact map_error _ (writeBuffer_selfLock hmem hsize)
  | readBuffer outBuf outSize =>
    simp only [EndsEarly, not_or] at h
    rcases h with ⟨hbuffer, houtBuf, hsize⟩
    rcases Option.ne_none_iff_exists'.mp hbuffer with ⟨mem, hmem⟩
    rcases Option.ne_none_iff_exists'.mp houtBuf with ⟨dst, hdst⟩
    rw [hdst]
    exact map_error _ (readBuffer_selfLock hmem hsize)
  | readFd received =>
    cases received with
    | error errno => exact absurd trivial h
    | ok bytes =>
      simp only [EndsEarly, not_or] at h
      rcases Option.ne_none_iff_exists'.mp h.1 with ⟨mem, hmem⟩
      exact map_error _ (readFd_selfLock (hvalid mem hmem) hpossible h.2)
  | _ => exact absurd trivial h

theorem lockSafe_perform (op : Operation) (s : Guarded Kfifo)
    : LockSafe (perform .recursive op) s := by
  have hscope : ∀ {α : Type} (f : Kfifo → Option (α × Kfifo)),
      LockSafe (lockGuard .recursive (lift f)) s := by
    intro α f
    rw [lockGuard_recursive_lift]
    apply lockSafe_lift
  cases op with
  | initBuffer size =>
    apply LockSafe.map
    rw [initBuffer_recursive]
    apply lockSafe_lift
  | freeBuffer => exact hscope _
  | resetBuffer => exact hscope _
  | isEmpty => exact (hscope _).map _
  | isFull => exact (hscope _).map _
  | getReadableLen => exact (hscope _).map _
  | getRemainLen => exact (hscope _).map _
  | getBufferSize => exact (hscope _).map _
  | writeBuffer inBuf inSize =>
    apply LockSafe.map
    rw [writeBuffer_recursive]
    apply lockSafe_lift
  | readBuffer outBuf outSize =>
    apply LockSafe.map
    rw [readBuffer_recursive]
    apply lockSafe_lift
  | readFd received =>
    apply LockSafe.map
    apply (lockSafe_lift _ s).bind
    intro writableByte s₁ _
    cases received with
    | error errno => apply lockSafe_pure
    | ok bytes =>
      apply (lockSafe_lift _ s₁).bind
      intro _ s₂ _
      split
      . apply lockSafe_lift
      . simp only [writeBuffer_recursive, pure_eq_lift, lift_bind]
        apply lockSafe_lift
  | writeFd accepted =>
    apply LockSafe.map
    apply (lockSafe_lift _ s).bind
    intro off s₁ _
    apply LockSafe.bind
    . rw [getReadableLen_recursive]
      apply lockSafe_lift
    . intro len s₂ _
      cases accepted with
      | error errno => apply lockSafe_pure
      | ok n => apply lockSafe_lift

theorem lockSafe_iff_endsEarly {op : Operation} (hvalid : Valid k) (hpossible : Possible k op)
    : LockSafe (perform .plain op) ⟨k, 0⟩ ↔ EndsEarly k op := by
  constructor
  . intro h
    by_contra hearly
    exact h.1 (perform_selfLock hvalid hpossible hearly)
  . intro hearly
    unfold LockSafe
    rw [perform_plain hearly]
    exact lockSafe_perform op ⟨k, 0⟩

theorem no_selfLock_iff (k : Kfifo) (hvalid : Valid k) (op : Operation) (hpossible : Possible k op)
    : LockSafe (perform .plain op) ⟨k, 0⟩ ↔ EndsEarly k op :=
  lockSafe_iff_endsEarly hvalid hpossible

end Plain

section Valid

variable {k : Kfifo}

theorem Valid.setMem (h : Valid k) {mem mem' : List UInt8} (hbuffer : k.buffer = some mem)
    (hlen : mem'.length = mem.length) (write read : UInt32)
    : Valid { k with buffer := some mem', write := write, read := read } := by
  have halloc := h mem hbuffer
  intro mem₁ hmem₁
  cases hmem₁
  exact ⟨rfl, hlen.trans halloc.length_eq, halloc.pow⟩

theorem Valid.setCounters (h : Valid k) (write read : UInt32)
    : Valid { k with write := write, read := read } := by
  intro mem hbuffer
  have halloc := h mem hbuffer
  exact ⟨hbuffer, halloc.length_eq, halloc.pow⟩

theorem Valid.fillTail (h : Valid k) {bytes : List UInt8} {k' : Kfifo}
    (hfill : fillTail bytes k = some k')
    : Valid k' := by
  unfold Mutex.fillTail at hfill
  split at hfill
  . next mem hbuffer =>
    rw [Option.map_eq_some_iff] at hfill
    rcases hfill with ⟨mem', hwrite, hk⟩
    cases hk
    exact h.setMem hbuffer (Mem.length_of_write hwrite) k.write k.read
  . split at hfill
    . cases hfill
      exact h
    . cases hfill

theorem Valid.resetBuffer (h : Valid k) {k' : Kfifo} (hreset : k.resetBuffer = some k')
    : Valid k' := by
  unfold Kfifo.resetBuffer at hreset
  split at hreset
  . cases hreset
    exact h.setCounters 0 0
  . next mem hbuffer =>
    rw [Option.map_eq_some_iff] at hreset
    rcases hreset with ⟨mem', hwrite, hk⟩
    cases hk
    exact h.setMem hbuffer (Mem.length_of_write hwrite) 0 0

theorem keeps_view_scope {α : Type} (kind : MutexKind) (f : Kfifo → α)
    : Keeps Valid (lockGuard kind (view f)) :=
  (keeps_view f).lockGuard kind

theorem keeps_macroMin (a : UInt32) {b : Locking Kfifo UInt32} (hb : Keeps Valid b)
    : Keeps Valid (macroMin (pure a) b) := by
  refine (keeps_pure a).bind fun x => ?_
  refine hb.bind fun y => ?_
  split
  . apply keeps_pure
  . exact hb

theorem writeBuffer_keeps_valid (kind : MutexKind) (inBuf : Option (List UInt8)) (inSize : UInt32)
    : Keeps Valid (writeBuffer kind inBuf inSize) := by
  refine Keeps.lockGuard ?_ kind
  refine (keeps_view id).bind fun k => ?_
  split
  . split
    . apply keeps_pure
    . refine (keeps_macroMin inSize (keeps_view_scope kind _)).bind fun n => ?_
      apply keeps_lift
      intro k a k' hk hstore
      simp only [Option.bind_eq_bind, Option.bind_eq_some_iff] at hstore
      rcases hstore with ⟨mem, hbuffer, mem₁, hcopy₁, mem₂, hcopy₂, heq⟩
      cases heq
      apply hk.setMem hbuffer
      rw [Mem.length_of_copy hcopy₂, Mem.length_of_copy hcopy₁]
  . apply keeps_pure

theorem readBuffer_keeps_valid (kind : MutexKind) (outBuf : Option (List UInt8)) (outSize : UInt32)
    : Keeps Valid (readBuffer kind outBuf outSize) := by
  refine Keeps.lockGuard ?_ kind
  refine (keeps_view id).bind fun k => ?_
  split
  . split
    . apply keeps_pure
    . refine (keeps_macroMin outSize (keeps_view_scope kind _)).bind fun n => ?_
      apply keeps_lift
      intro k a k' hk hcopy
      simp only [Option.bind_eq_bind, Option.bind_eq_some_iff] at hcopy
      rcases hcopy with ⟨mem, hbuffer, dst₁, hcopy₁, dst₂, hcopy₂, heq⟩
      cases heq
      apply hk.setCounters
  . apply keeps_pure

theorem readFd_keeps_valid (kind : MutexKind) (received : ReadResult)
    : Keeps Valid (readFd kind received) := by
  refine (keeps_view _).bind fun writableByte => ?_
  cases received with
  | error errno => apply keeps_pure
  | ok bytes =>
    refine Keeps.bind ?_ fun _ => ?_
    . apply keeps_lift
      intro k a k' hk hfill
      simp only [Option.map_eq_some_iff] at hfill
      rcases hfill with ⟨k₁, hfill, heq⟩
      cases heq
      exact hk.fillTail hfill
    . split
      . apply keeps_lift
        intro k a k' hk heq
        cases heq
        apply hk.setCounters
      . refine (writeBuffer_keeps_valid kind _ _).bind fun n => ?_
        apply keeps_pure

theorem initBuffer_keeps_valid (kind : MutexKind) (size : UInt32)
    : Keeps Valid (initBuffer kind size) := by
  unfold initBuffer
  cases hround : roundUp size with
  | none => exact nofun
  | some c =>
    refine Keeps.lockGuard (keeps_lift ?_) kind
    intro k a k' hk heq
    cases heq
    intro mem hmem
    cases hmem
    exact ⟨rfl, List.length_replicate, roundUp_pow hround⟩

theorem perform_keeps_valid (kind : MutexKind) (op : Operation)
    : Keeps Valid (perform kind op) := by
  cases op with
  | initBuffer size => exact (initBuffer_keeps_valid kind size).map _
  | freeBuffer =>
    refine Keeps.lockGuard ?_ kind
    apply keeps_lift
    intro k a k' hk heq
    cases heq
    exact nofun
  | resetBuffer =>
    refine Keeps.lockGuard ?_ kind
    apply keeps_lift
    intro k a k' hk hreset
    simp only [Option.map_eq_some_iff] at hreset
    rcases hreset with ⟨k₁, hreset, heq⟩
    cases heq
    exact hk.resetBuffer hreset
  | isEmpty => exact (keeps_view_scope kind _).map _
  | isFull => exact (keeps_view_scope kind _).map _
  | getReadableLen => exact (keeps_view_scope kind _).map _
  | getRemainLen => exact (keeps_view_scope kind _).map _
  | getBufferSize => exact (keeps_view_scope kind _).map _
  | writeBuffer inBuf inSize => exact (writeBuffer_keeps_valid kind inBuf inSize).map _
  | readBuffer outBuf outSize => exact (readBuffer_keeps_valid kind outBuf outSize).map _
  | readFd received => exact (readFd_keeps_valid kind received).map _
  | writeFd accepted =>
    refine Keeps.map ?_ _
    refine (keeps_view _).bind fun off => ?_
    refine (keeps_view_scope kind _).bind fun len => ?_
    cases accepted with
    | error errno => apply keeps_pure
    | ok n =>
      apply keeps_lift
      intro k a k' hk hread
      simp only [Option.map_eq_some_iff] at hread
      rcases hread with ⟨sent, -, heq⟩
      cases heq
      exact hk

def system (kind : MutexKind) : LTS Kfifo Operation where
  Init k := k = new
  next k op := (perform kind op ⟨k, 0⟩).toOption.map fun r => r.2.data

theorem reachable_valid (kind : MutexKind) (h : (system kind).Reachable k) : Valid k := by
  apply LTS.Reachable.invariant _ _ _ h
  . rintro k rfl
    exact nofun
  . intro k op k' hk hnext
    simp only [system, Option.map_eq_some_iff] at hnext
    rcases hnext with ⟨r, hrun, rfl⟩
    apply perform_keeps_valid kind op ⟨k, 0⟩ r.1 r.2 hk
    cases hperform : perform kind op ⟨k, 0⟩ with
    | error fault =>
      rw [hperform] at hrun
      cases hrun
    | ok r' =>
      rw [hperform] at hrun
      cases hrun
      rfl

theorem reachable_lockSafe_iff (kind : MutexKind) (h : (system kind).Reachable k) {op : Operation}
    (hpossible : Possible k op)
    : LockSafe (perform .plain op) ⟨k, 0⟩ ↔ EndsEarly k op :=
  lockSafe_iff_endsEarly (reachable_valid kind h) hpossible

end Valid

def four : Kfifo := { buffer := some [0, 0, 0, 0], bufferSize := 4, write := 0, read := 0 }

theorem four_valid : Valid four := by
  intro mem hmem
  cases hmem
  exact ⟨rfl, rfl, 2, by decide, rfl⟩

theorem no_selfLock_iff_tail : LockSafe (perform .plain (.readFd (.ok [7]))) ⟨four, 0⟩ := by
  apply (no_selfLock_iff four four_valid (.readFd (.ok [7])) _).mpr
  . exact .inr (by decide)
  . show 1 ≤ four.iovLen
    decide

theorem writeBuffer_hangs
    : perform .plain (.writeBuffer (some [7]) 1) ⟨four, 0⟩ = .error .selfLock
      ∧ ¬∀ k, Valid k → ∀ op, Possible k op → LockSafe (perform .plain op) ⟨k, 0⟩ := by
  have hself : perform .plain (.writeBuffer (some [7]) 1) ⟨four, 0⟩ = .error .selfLock := by
    rfl
  refine ⟨hself, ?_⟩
  intro h
  exact (h four four_valid (.writeBuffer (some [7]) 1) trivial).1 hself

end Kfifo.Mutex
