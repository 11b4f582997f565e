import Mmuduo.Lib.Posix
import Mmuduo.Lib.Ring

/-!
This module contains the ring buffer `Kfifo`. Its two counters run freely modulo 2^32 and are only
masked when the buffer is accessed. The operations have no result (`none`) where the C++ code would
leave a memory region or shift by the width of the type. The mutex is taken as re-entrant.
-/

structure Kfifo where
  buffer : Option (List UInt8)
  bufferSize : UInt32
  write : UInt32
  read : UInt32
  deriving DecidableEq, Repr

namespace Kfifo

def new : Kfifo := { buffer := none, bufferSize := 0, write := 0, read := 0 }

def isPowerOfTwo (x : UInt32) : Bool :=
  x != 0 && (x &&& (x - 1)) == 0

def minU32 (a b : UInt32) : UInt32 :=
  if a < b then a else b

theorem toNat_shiftRight_one_lt {size : UInt32} (h : ¬ size = 0)
    : (size >>> 1).toNat < size.toNat := by
  have : size.toNat ≠ 0 := by
    intro hzero
    apply h
    apply UInt32.toNat_inj.mp
    simpa using hzero
  simp only [UInt32.toNat_shiftRight, Nat.shiftRight_eq_div_pow]
  have : (1 : UInt32).toNat % 32 = 1 := by decide
  rw [this]
  omega

def bitCount (size : UInt32) (i : Nat) : Nat :=
  if h : size = 0 then
    i
  else
    have := toNat_shiftRight_one_lt h
    bitCount (size >>> 1) (i + 1)
termination_by size.toNat

def roundUp (size : UInt32) : Option UInt32 :=
  if isPowerOfTwo size then
    some size
  else
    let size := if size < 2 then 2 else size
    let i := bitCount size 0
    -- `1U << 32` is undefined
    if i < 32 then
      some (1 <<< UInt32.ofNat i)
    else
      none

def defaultSize : UInt32 := 4096

def initBuffer (_k : Kfifo) (size : UInt32) : Option (Bool × Kfifo) :=
  (roundUp size).map fun size =>
    (true, { buffer := some (List.replicate size.toNat 0), bufferSize := size, write := 0, read := 0 })

def freeBuffer (_k : Kfifo) : Kfifo :=
  { buffer := none, bufferSize := 0, write := 0, read := 0 }

def resetBuffer (k : Kfifo) : Option Kfifo :=
  match k.buffer with
  | none => some { k with write := 0, read := 0 }
  | some mem =>
    (Mem.write mem 0 (List.replicate k.bufferSize.toNat 0)).map fun mem =>
      { k with buffer := some mem, write := 0, read := 0 }

def isEmpty (k : Kfifo) : Bool :=
  k.write == k.read

def isFull (k : Kfifo) : Bool :=
  k.bufferSize == k.write - k.read

def getReadableLen (k : Kfifo) : UInt32 :=
  k.write - k.read

def getRemainLen (k : Kfifo) : UInt32 :=
  k.bufferSize - (k.write - k.read)

def getBufferSize (k : Kfifo) : UInt32 :=
  k.bufferSize

def index (k : Kfifo) (counter : UInt32) : UInt32 :=
  counter &&& (k.bufferSize - 1)

/--
A null pointer is `none`, any other pointer is given by the bytes that the caller owns behind it.
-/
def writeBuffer (k : Kfifo) (inBuf : Option (List UInt8)) (inSize : UInt32)
    : Option (UInt32 × Kfifo) :=
  match k.buffer, inBuf with
  | some mem, some src =>
    if inSize = 0 then
      some (-1, k)
    else do
      let inSize := minU32 inSize k.getRemainLen
      let len := minU32 inSize (k.bufferSize - k.index k.write)
      let mem ← Mem.copy mem (k.index k.write).toNat src 0 len.toNat
      let mem ← Mem.copy mem 0 src len.toNat (inSize - len).toNat
      return (inSize, { k with buffer := some mem, write := k.write + inSize })
  | _, _ => some (-1, k)

def readBuffer (k : Kfifo) (outBuf : Option (List UInt8)) (outSize : UInt32)
    : Option (UInt32 × Option (List UInt8) × Kfifo) :=
  match k.buffer, outBuf with
  | some mem, some dst =>
    if outSize = 0 then
      some (-1, outBuf, k)
    else do
      let outSize := minU32 outSize k.getReadableLen
      let len := minU32 outSize (k.bufferSize - k.index k.read)
      let dst ← Mem.copy dst 0 mem (k.index k.read).toNat len.toNat
      let dst ← Mem.copy dst len.toNat mem 0 (outSize - len).toNat
      return (outSize, some dst, { k with read := k.read + outSize })
  | _, _ => some (-1, outBuf, k)

def extrabufSize : Nat := 65536

def writableByte (k : Kfifo) : Nat :=
  (k.bufferSize - k.index k.write).toNat

def iovLen (k : Kfifo) : Nat :=
  if k.writableByte < extrabufSize then
    k.writableByte + extrabufSize
  else
    k.writableByte

def readFd (k : Kfifo) (received : ReadResult) : Option (Except Errno Nat × Kfifo) :=
  match received with
  | .error errno => some (.error errno, k)
  | .ok bytes => do
    let mem ← k.buffer
    if bytes.length ≤ k.writableByte then
      let mem ← Mem.write mem (k.index k.write).toNat bytes
      return (.ok bytes.length,
        { k with buffer := some mem, write := k.write + UInt32.ofNat bytes.length })
    else
      let mem ← Mem.write mem (k.index k.write).toNat (bytes.take k.writableByte)
      let rest := bytes.drop k.writableByte
      let extrabuf := rest ++ List.replicate (extrabufSize - rest.length) 0
      let res ← writeBuffer { k with buffer := some mem } (some extrabuf)
        (UInt32.ofNat (bytes.length - k.writableByte))
      return (.ok bytes.length, res.2)

def writeFdRange (k : Kfifo) : Nat × Nat :=
  ((k.index k.read).toNat, k.getReadableLen.toNat)

/--
The bytes that the kernel takes out of the range; neither counter moves.
-/
def writeFd (k : Kfifo) (accepted : WriteResult) : Option (Except Errno (List UInt8)) :=
  match accepted with
  | .error errno => some (.error errno)
  | .ok n => do
    let mem ← k.buffer
    let sent ← Mem.read mem k.writeFdRange.1 n
    return .ok sent

end Kfifo
