import Mmuduo.Channel
import Mmuduo.Kfifo.Impl

/-!
This module contains the handlers of a `TcpConnection` that run on its loop. A handler returns the
new connection and what it did towards the outside, in order. The result of a system call is an
argument of the handler that makes it. Sizes of type `size_t` are natural numbers: a payload is an
object in memory, so no sum of a length and a backlog wraps.
-/

inductive StateE where
  | kDisconnected
  | kConnecting
  | kConnected
  | kDisconnecting
  deriving DecidableEq, Repr

structure TcpConnection where
  state : StateE
  channel : Channel
  inputBuffer : Kfifo
  outputBuffer : Kfifo
  highWaterMark : Nat
  hasWriteCompleteCallback : Bool
  hasHighWaterMarkCallback : Bool
  deriving DecidableEq, Repr

namespace TcpConnection

inductive Action where
  -- a call of `::write` on the socket, with the bytes that the kernel accepted
  | write (accepted : List UInt8)
  | shutdownWrite
  | queueWriteComplete
  | queueHighWaterMark (size : Nat)
  | connectionCallback (connected : Bool)
  | messageCallback
  | closeCallback
  deriving DecidableEq, Repr

def defaultHighWaterMark : Nat := 64 * 1024 * 1024

def new (sockfd : Nat) : Option TcpConnection := do
  let inputBuffer ← Kfifo.new.initBuffer Kfifo.defaultSize
  let outputBuffer ← Kfifo.new.initBuffer Kfifo.defaultSize
  return {
    state := .kConnecting
    channel := Channel.new sockfd
    inputBuffer := inputBuffer.2
    outputBuffer := outputBuffer.2
    highWaterMark := defaultHighWaterMark
    hasWriteCompleteCallback := false
    hasHighWaterMarkCallback := false
  }

def connected (c : TcpConnection) : Bool :=
  c.state == .kConnected

def setWriteCompleteCallback (c : TcpConnection) (cb : Bool) : TcpConnection :=
  { c with hasWriteCompleteCallback := cb }

def setHighWaterMarkCallback (c : TcpConnection) (cb : Bool) (highWaterMark : Nat)
    : TcpConnection :=
  { c with hasHighWaterMarkCallback := cb, highWaterMark }

def writeComplete (c : TcpConnection) : List Action :=
  if c.hasWriteCompleteCallback then [.queueWriteComplete] else []

def highWater (c : TcpConnection) (remaining : Nat) : List Action :=
  let oldLen := c.outputBuffer.getReadableLen.toNat
  if c.highWaterMark ≤ oldLen + remaining && oldLen < c.highWaterMark
      && c.hasHighWaterMarkCallback then
    [.queueHighWaterMark (oldLen + remaining)]
  else
    []

/--
The local variables of `sendInLoop` after its attempt to write directly.
-/
structure Direct where
  nwrote : Nat
  remaining : Nat
  faultError : Bool
  actions : List Action

def writeDirect (c : TcpConnection) (data : List UInt8) (res : WriteResult) : Direct :=
  match res with
  | .ok n =>
    let remaining := data.length - n
    let complete := if remaining = 0 then c.writeComplete else []
    { nwrote := n, remaining, faultError := false, actions := .write (data.take n) :: complete }
  | .error errno =>
    let faultError := errno = .EPIPE || errno = .ECONNRESET
    { nwrote := 0, remaining := data.length, faultError, actions := [.write []] }

def Direct.skipped (len : Nat) : Direct where
  nwrote := 0
  remaining := len
  faultError := false
  actions := []

def writesDirectly (c : TcpConnection) : Bool :=
  !c.channel.isWriting && c.outputBuffer.getReadableLen == 0

def firstWrite (c : TcpConnection) (data : List UInt8) (res : WriteResult) : Direct :=
  if c.writesDirectly then
    c.writeDirect data res
  else
    .skipped data.length

def Direct.hasRest (direct : Direct) : Bool :=
  !direct.faultError && 0 < direct.remaining

def storeRest (c : TcpConnection) (rest : List UInt8) (remaining : Nat)
    : Option (TcpConnection × List Action) := do
  -- the length is converted from `size_t` to `uint32_t`
  let stored ← c.outputBuffer.writeBuffer (some rest) (UInt32.ofNat remaining)
  let channel := if c.channel.isWriting then c.channel else c.channel.enableWriting
  return ({ c with outputBuffer := stored.2, channel }, c.highWater remaining)

def sendInLoop (c : TcpConnection) (data : List UInt8) (res : WriteResult)
    : Option (TcpConnection × List Action) :=
  if c.state = .kDisconnected then
    some (c, [])
  else
    let direct := c.firstWrite data res
    if direct.hasRest then do
      let stored ← c.storeRest (data.drop direct.nwrote) direct.remaining
      return (stored.1, direct.actions ++ stored.2)
    else
      some (c, direct.actions)

def shutdownInLoop (c : TcpConnection) : List Action :=
  if !c.channel.isWriting then
    [.shutdownWrite]
  else
    []

def connectEstablished (c : TcpConnection) : TcpConnection × List Action :=
  let c := { c with state := .kConnected, channel := c.channel.enableReading }
  (c, [.connectionCallback c.connected])

/--
The removal of the channel from the poller is left to the owner of the channel.
-/
def connectDestroyed (c : TcpConnection) : TcpConnection × List Action :=
  if c.state = .kConnected then
    let c := { c with state := .kDisconnected, channel := c.channel.disableAll }
    (c, [.connectionCallback c.connected])
  else
    (c, [])

def handleClose (c : TcpConnection) : TcpConnection × List Action :=
  let c := { c with state := .kDisconnected, channel := c.channel.disableAll }
  (c, [.connectionCallback c.connected, .closeCallback])

def handleRead (c : TcpConnection) (received : ReadResult)
    : Option (TcpConnection × List Action) := do
  let res ← c.inputBuffer.readFd received
  let c := { c with inputBuffer := res.2 }
  match res.1 with
  | .ok n =>
    if 0 < n then
      return (c, [.messageCallback])
    else
      return c.handleClose
  -- `handleError` only logs
  | .error _ => return (c, [])

def handleWrite (c : TcpConnection) (res : WriteResult)
    : Option (TcpConnection × List Action) :=
  if c.channel.isWriting then do
    let sent ← c.outputBuffer.writeFd res
    match sent with
    | .ok bytes =>
      -- the call that would retrieve the sent bytes is commented out in the source
      if 0 < bytes.length && c.outputBuffer.getReadableLen == 0 then
        let c := { c with channel := c.channel.disableWriting }
        let shut := if c.state = .kDisconnecting then c.shutdownInLoop else []
        return (c, .write bytes :: (c.writeComplete ++ shut))
      else
        return (c, [.write bytes])
    | .error _ => return (c, [.write []])
  else
    some (c, [])

def accepted (actions : List Action) : List UInt8 :=
  actions.flatMap fun
    | .write bytes => bytes
    | _ => []

end TcpConnection
