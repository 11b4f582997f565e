import Mmuduo.Lib.Posix
import Mmuduo.Lib.Ring

/-!
This module contains the growing byte buffer. Its sizes are natural numbers, so no addition of two of
them wraps; an access outside of the vector has no result.
-/

structure Buffer where
  buffer : List UInt8
  readerIndex : Nat
  writerIndex : Nat
  deriving DecidableEq, Repr

namespace Buffer

def kCheapPrepend : Nat := 8

def new (initialSize : Nat) : Buffer where
  buffer := List.replicate (kCheapPrepend + initialSize) 0
  readerIndex := kCheapPrepend
  writerIndex := kCheapPrepend

def readableBytes (b : Buffer) : Nat :=
  b.writerIndex - b.readerIndex

def writableBytes (b : Buffer) : Nat :=
  b.buffer.length - b.writerIndex

def prependableBytes (b : Buffer) : Nat :=
  b.readerIndex

def retrieveAll (b : Buffer) : Buffer :=
  { b with readerIndex := kCheapPrepend, writerIndex := kCheapPrepend }

def retrieve (b : Buffer) (len : Nat) : Buffer :=
  if len < b.readableBytes then
    { b with readerIndex := b.readerIndex + len }
  else
    b.retrieveAll

def retrieveAsString (b : Buffer) (len : Nat) : Option (List UInt8 × Buffer) := do
  let result ← Mem.read b.buffer b.readerIndex len
  return (result, b.retrieve len)

def retrieveAllAsString (b : Buffer) : Option (List UInt8 × Buffer) :=
  b.retrieveAsString b.readableBytes

def resize (buffer : List UInt8) (count : Nat) : List UInt8 :=
  buffer.take count ++ List.replicate (count - buffer.length) 0

def mustGrow (b : Buffer) (len : Nat) : Bool :=
  b.writableBytes + b.prependableBytes < len + kCheapPrepend

def makeSpace (b : Buffer) (len : Nat) : Option Buffer :=
  if b.mustGrow len then
    some { b with buffer := resize b.buffer (b.writerIndex + len) }
  else do
    let readableByte := b.readableBytes
    let buffer ← Mem.copyWithin b.buffer b.readerIndex readableByte kCheapPrepend
    return {
      buffer
      readerIndex := kCheapPrepend
      writerIndex := kCheapPrepend + readableByte
    }

def ensureWriteableBytes (b : Buffer) (len : Nat) : Option Buffer :=
  if b.writableBytes < len then
    b.makeSpace len
  else
    some b

def append (b : Buffer) (data : List UInt8) : Option Buffer := do
  let b ← b.ensureWriteableBytes data.length
  let buffer ← Mem.write b.buffer b.writerIndex data
  return { b with buffer, writerIndex := b.writerIndex + data.length }

def extrabufSize : Nat := 65536

def iovLen (b : Buffer) : Nat :=
  if b.writableBytes < extrabufSize then
    b.writableBytes + extrabufSize
  else
    b.writableBytes

def readFd (b : Buffer) (received : ReadResult) : Option (Except Errno Nat × Buffer) :=
  match received with
  | .error errno => some (.error errno, b)
  | .ok bytes => do
    let writableByte := b.writableBytes
    -- the kernel fills `vec[0]` first
    let buffer ← Mem.write b.buffer b.writerIndex (bytes.take writableByte)
    if bytes.length ≤ writableByte then
      return (.ok bytes.length, { b with buffer, writerIndex := b.writerIndex + bytes.length })
    else
      let extrabuf ← Mem.write (List.replicate extrabufSize 0) 0 (bytes.drop writableByte)
      let data ← Mem.read extrabuf 0 (bytes.length - writableByte)
      let b ← append { b with buffer, writerIndex := buffer.length } data
      return (.ok bytes.length, b)

/--
The bytes that the kernel takes; they stay in the buffer.
-/
def writeFd (b : Buffer) (accepted : WriteResult) : Option (Except Errno (List UInt8)) :=
  match accepted with
  | .error errno => some (.error errno)
  | .ok n => do
    let sent ← Mem.read b.buffer b.readerIndex n
    return .ok sent

inductive Op where
  | append (data : List UInt8)
  | retrieve (len : Nat)
  | retrieveAll
  | retrieveAsString (len : Nat)
  | retrieveAllAsString
  | ensureWriteableBytes (len : Nat)
  | readFd (received : ReadResult)
  | writeFd (accepted : WriteResult)

inductive Reply where
  | void
  | string (result : List UInt8)
  | read (count : Except Errno Nat)
  | wrote (sent : Except Errno (List UInt8))
  deriving DecidableEq

/--
What caller and kernel promise: no more bytes are taken as a string than there are, a system call
moves at most the bytes that it was offered.
-/
def Legal (b : Buffer) : Op → Bool
  | .retrieveAsString len => len ≤ b.readableBytes
  | .readFd (.ok bytes) => bytes.length ≤ b.iovLen
  | .writeFd (.ok n) => n ≤ b.readableBytes
  | _ => true

def call (b : Buffer) : Op → Option (Reply × Buffer)
  | .append data => (b.append data).map fun b => (.void, b)
  | .retrieve len => some (.void, b.retrieve len)
  | .retrieveAll => some (.void, b.retrieveAll)
  | .retrieveAsString len => (b.retrieveAsString len).map fun res => (.string res.1, res.2)
  | .retrieveAllAsString => b.retrieveAllAsString.map fun res => (.string res.1, res.2)
  | .ensureWriteableBytes len => (b.ensureWriteableBytes len).map fun b => (.void, b)
  | .readFd received => (b.readFd received).map fun res => (.read res.1, res.2)
  | .writeFd accepted => (b.writeFd accepted).map fun sent => (.wrote sent, b)

def calls (b : Buffer) : List Op → Option (List Reply × Buffer)
  | [] => some ([], b)
  | op :: ops => do
    let res ← b.call op
    let rest ← res.2.calls ops
    return (res.1 :: rest.1, rest.2)

end Buffer
