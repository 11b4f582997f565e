import Mmuduo.EventLoop.Impl
import Mmuduo.InetAddress
import Mmuduo.TcpConnection.Impl

/-!
This module contains the TCP server: the table of its connections, the base loop that accepts them
and removes them from the table, and the loops that run their handlers. Loop `0` is the base loop
and the loops from `1` on are the ones of the thread pool. The code of the server is cut where it
hands a functor to another loop. A connection is named by the number of connections accepted before
it. Only the server, the functors of the queues, the running code and the user refer to it.
-/

abbrev ConnId := Nat

abbrev LoopId := Nat

structure TcpServer where
  name : String
  listenAddr : InetAddress
  hasWriteCompleteCallback : Bool
  -- `m_numThread` and `m_next` of the thread pool
  numThread : Nat
  next : Nat
  nextConnId : Int32
  connections : String → Option ConnId

namespace TcpServer

def new (name : String) (listenAddr : InetAddress) (hasWriteCompleteCallback : Bool)
    (numThread : Nat) : TcpServer where
  name := name
  listenAddr := listenAddr
  hasWriteCompleteCallback := hasWriteCompleteCallback
  numThread := numThread
  next := 0
  nextConnId := 1
  connections := fun _ => none

def getNextLoop (server : TcpServer) : LoopId × TcpServer :=
  if server.numThread = 0 then
    (0, server)
  else
    let next := if server.next + 1 ≥ server.numThread then 0 else server.next + 1
    (server.next + 1, { server with next })

def connName (server : TcpServer) : String :=
  server.name
    ++ snprintf 64 ("-" ++ server.listenAddr.toIpPort ++ "#" ++ server.nextConnId.toInt.repr)

def insert (server : TcpServer) (name : String) (c : ConnId) : TcpServer :=
  { server with connections := Function.update server.connections name (some c) }

def erase (server : TcpServer) (name : String) : TcpServer :=
  { server with connections := Function.update server.connections name none }

structure Conn where
  loop : LoopId
  name : String
  deriving DecidableEq, Repr

def newConn (server : TcpServer) (c : ConnId) : Conn × TcpServer :=
  let next := server.getNextLoop
  let connName := next.2.connName
  ({ loop := next.1, name := connName },
    { next.2 with nextConnId := next.2.nextConnId + 1 }.insert connName c)

/--
The functors of the server are bound to a connection and hold a reference to it.
-/
inductive Functor where
  | connectEstablished (c : ConnId)
  | removeConnectionInLoop (c : ConnId)
  | connectDestroyed (c : ConnId)
  | other
  deriving DecidableEq, Repr

def Functor.conn : Functor → Option ConnId
  | .connectEstablished c => some c
  | .removeConnectionInLoop c => some c
  | .connectDestroyed c => some c
  | .other => none

/--
What a loop thread is in the middle of, with a reference to the connection.
-/
inductive Task where
  | none
  -- `newConnection`, before it runs `connectEstablished`
  | establishing (c : ConnId)
  | callback (c : ConnId)
  -- `handleClose`, before its close callback
  | closing (c : ConnId)
  -- `removeConnectionInLoop`, before and after the erasure
  | removing (c : ConnId)
  | destroying (c : ConnId)
  -- `connectDestroyed`, before it removes the channel
  | removingChannel (c : ConnId)
  -- `queueInLoop` of the given loop, after its critical section
  | waking (loop : LoopId)
  deriving DecidableEq, Repr

def Task.conn : Task → Option ConnId
  | .none => Option.none
  | .establishing c => some c
  | .callback c => some c
  | .closing c => some c
  | .removing c => some c
  | .destroying c => some c
  | .removingChannel c => some c
  | .waking _ => Option.none

def Task.userCode : Task → Bool
  | .none => true
  | .callback _ => true
  | .closing _ => true
  | .removingChannel _ => true
  | _ => false

inductive Entry where
  | established (loop : LoopId) (c : ConnId)
  | handler (loop : LoopId) (c : ConnId)
  | closed (loop : LoopId) (c : ConnId)
  | removed (loop : LoopId) (c : ConnId)
  | destroyed (loop : LoopId) (c : ConnId)
  deriving DecidableEq, Repr

structure State where
  server : TcpServer
  accepted : Nat
  conns : ConnId → Option Conn
  tcps : ConnId → Option TcpConnection
  -- the channels that are known to the poller of their loop
  registered : ConnId → Bool
  loops : LoopId → EventLoop.State Functor
  tasks : LoopId → Task
  -- the references that `Channel::handleEvent` takes
  guards : LoopId → Option ConnId
  users : List ConnId
  log : List Entry

inductive Handler where
  | read (received : ReadResult)
  | write (res : WriteResult)
  | close
  | error

def Handler.run (tcp : TcpConnection) : Handler → Option (TcpConnection × List TcpConnection.Action)
  | .read received => tcp.handleRead received
  | .write res => tcp.handleWrite res
  | .close => some tcp.handleClose
  | .error => some (tcp, [])

inductive Event where
  | accept (sockfd : Nat)
  | task (i : LoopId)
  | loop (i : LoopId) (wakeUpActive : Bool)
  | handleEvent (i : LoopId) (c : ConnId)
  | handle (i : LoopId) (handler : Handler)
  | handleEventReturn (i : LoopId)
  | call (i : LoopId) (event : EventLoop.Event Functor)
  | keep (i : LoopId)
  | drop (c : ConnId)

namespace State

def start (server : TcpServer) : State where
  server := server
  accepted := 0
  conns := fun _ => none
  tcps := fun _ => none
  registered := fun _ => false
  loops := fun _ => .new
  tasks := fun _ => .none
  guards := fun _ => none
  users := []
  log := []

def setTask (s : State) (i : LoopId) (task : Task) : State :=
  { s with tasks := Function.update s.tasks i task }

def setGuard (s : State) (i : LoopId) (guarded : Option ConnId) : State :=
  { s with guards := Function.update s.guards i guarded }

def setLoop (s : State) (i : LoopId) (loop : EventLoop.State Functor) : State :=
  { s with loops := Function.update s.loops i loop }

def setTcp (s : State) (c : ConnId) (tcp : TcpConnection) : State :=
  { s with tcps := Function.update s.tcps c (some tcp) }

def record (s : State) (entry : Entry) : State :=
  { s with log := s.log ++ [entry] }

def addConnection (s : State) (tcp : TcpConnection) : State :=
  { s with
    server := (s.server.newConn s.accepted).2
    accepted := s.accepted + 1
    conns := Function.update s.conns s.accepted (some (s.server.newConn s.accepted).1)
    tcps := Function.update s.tcps s.accepted (some tcp)
    tasks := Function.update s.tasks 0 (.establishing s.accepted) }

def newConnection (s : State) (sockfd : Nat) : Option State := do
  let tcp ← TcpConnection.new sockfd
  return s.addConnection (tcp.setWriteCompleteCallback s.server.hasWriteCompleteCallback)

def connectEstablished (s : State) (i : LoopId) (c : ConnId) : State :=
  { s with
    tcps := Function.update s.tcps c ((s.tcps c).map fun tcp => tcp.connectEstablished.1)
    registered := Function.update s.registered c true
    tasks := Function.update s.tasks i (.callback c)
    log := s.log ++ [.established i c] }

def connectDestroyed (s : State) (i : LoopId) (c : ConnId) : State :=
  { s with
    tcps := Function.update s.tcps c ((s.tcps c).map fun tcp => tcp.connectDestroyed.1)
    tasks := Function.update s.tasks i (.removingChannel c)
    log := s.log ++ [.destroyed i c] }

def removeChannel (s : State) (i : LoopId) (c : ConnId) : State :=
  { s with
    registered := Function.update s.registered c false
    tasks := Function.update s.tasks i .none }

def startClosing (s : State) (i : LoopId) (c : ConnId) : State :=
  { s with
    tasks := Function.update s.tasks i (.closing c)
    log := s.log ++ [.closed i c] }

def eraseConnection (s : State) (i : LoopId) (c : ConnId) (conn : Conn) : State :=
  { s with
    server := s.server.erase conn.name
    tasks := Function.update s.tasks i (.destroying c)
    log := s.log ++ [.removed i c] }

def caller (thread loop : LoopId) : Caller :=
  if thread = loop then .owner else .other thread

def queueInLoop (s : State) (thread loop : LoopId) (functor : Functor) : Option State := do
  let target ← EventLoop.step (s.loops loop) (.queueInLoop (caller thread loop) functor)
  return (s.setLoop loop target).setTask thread (.waking loop)

def runTask (s : State) (i : LoopId) : Option State :=
  match s.tasks i with
  | .none => none
  | .establishing c => do
    let conn ← s.conns c
    if conn.loop = i then
      return s.connectEstablished i c
    else
      s.queueInLoop i conn.loop (.connectEstablished c)
  | .callback _ => some (s.setTask i .none)
  | .closing c =>
    if i = 0 then
      some (s.setTask i (.removing c))
    else
      s.queueInLoop i 0 (.removeConnectionInLoop c)
  | .removing c => do
    let conn ← s.conns c
    return s.eraseConnection i c conn
  | .destroying c => do
    let conn ← s.conns c
    s.queueInLoop i conn.loop (.connectDestroyed c)
  | .removingChannel c => some (s.removeChannel i c)
  | .waking loop => do
    let target ← EventLoop.step (s.loops loop) (.queueReturn (caller i loop))
    return (s.setLoop loop target).setTask i .none

def startFunctor (s : State) (i : LoopId) : Functor → State
  | .connectEstablished c => s.connectEstablished i c
  | .removeConnectionInLoop c => s.setTask i (.removing c)
  | .connectDestroyed c => s.connectDestroyed i c
  | .other => s

def loopNext (s : State) (i : LoopId) (wakeUpActive : Bool) : Option State := do
  let loop ← EventLoop.step (s.loops i) (.loop wakeUpActive)
  match (s.loops i).pc.starting with
  | some queued => return (s.setLoop i loop).startFunctor i queued.functor
  | none => return s.setLoop i loop

def handling (s : State) (i : LoopId) : Bool :=
  match (s.loops i).pc with
  | .handling _ => true
  | _ => false

def idle (s : State) (i : LoopId) : Bool :=
  decide (i ≤ s.server.numThread) && decide (s.tasks i = .none) && (s.guards i).isNone

def handle (s : State) (i : LoopId) (c : ConnId) (handler : Handler) : Option State := do
  let tcp ← s.tcps c
  let res ← handler.run tcp
  if .closeCallback ∈ res.2 then
    return (s.setTcp c res.1).startClosing i c
  else
    return s.setTcp c res.1

def userCall (s : State) (i : LoopId) : EventLoop.Event Functor → Bool
  | .queueInLoop caller functor => decide (functor = .other) && free caller
  | .runInLoop caller functor => decide (functor = .other) && free caller
  | .queueReturn caller => free caller
  | _ => false
where
  free : Caller → Bool
  | .owner => (s.tasks i).userCode
  | .other n => (s.tasks n).userCode

def userConn (s : State) (i : LoopId) : Option ConnId :=
  match s.tasks i with
  | .callback c => some c
  | .removingChannel c => some c
  | _ => s.guards i

end State

def step (s : State) : Event → Option State
  | .accept sockfd =>
    if s.idle 0 && s.handling 0 then
      s.newConnection sockfd
    else
      none
  | .task i => s.runTask i
  | .loop i wakeUpActive =>
    if s.idle i then
      s.loopNext i wakeUpActive
    else
      none
  | .handleEvent i c =>
    if s.idle i && s.handling i && s.registered c && ((s.conns c).map (·.loop) == some i) then
      some ((s.setGuard i (some c)).record (.handler i c))
    else
      none
  | .handle i handler =>
    match s.guards i, s.tasks i with
    | some c, .none => s.handle i c handler
    | _, _ => none
  | .handleEventReturn i =>
    match s.tasks i with
    | .none => some (s.setGuard i none)
    | _ => none
  | .call i event =>
    if s.userCall i event then do
      let loop ← EventLoop.step (s.loops i) event
      return s.setLoop i loop
    else
      none
  | .keep i =>
    match s.userConn i with
    | some c => some { s with users := c :: s.users }
    | none => none
  | .drop c => some { s with users := s.users.erase c }

def system (server : TcpServer) : LTS State Event where
  Init s := s = .start server
  next := step

end TcpServer
