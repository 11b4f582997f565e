import Mmuduo.EventLoop.Fifo
import Mmuduo.Lib.Ring
import Mmuduo.TcpConnection.Lemmas

/-!
This module contains `send` from threads other than the loop thread. The queued functor holds the
address and the size of the string that the caller has passed, and it reads the memory there when it
is executed. The strings live in memory blocks that their owners change and free at any time.
-/

namespace TcpConnection

namespace CrossThread

/--
The arguments of a queued `sendInLoop`, and what the string was when `send` was called.
-/
structure SendCall where
  data : Nat
  len : Nat
  content : List UInt8
  deriving DecidableEq, Repr

inductive Functor where
  | sendInLoop (call : SendCall)
  | other
  deriving DecidableEq, Repr

inductive Phase where
  | idle
  | started (call : SendCall)
  | storing (call : SendCall) (direct : Direct)

def Phase.call : Phase → Option SendCall
  | .idle => none
  | .started call => some call
  | .storing call _ => some call

structure Passed where
  call : SendCall
  offset : Nat
  payload : Option (List UInt8)
  deriving DecidableEq, Repr

structure State where
  conn : TcpConnection
  loop : EventLoop.State Functor
  mem : Nat → Option (List UInt8)
  phase : Phase
  passed : List Passed

inductive Event where
  | newString (a : Nat) (bytes : List UInt8)
  | changeString (a : Nat) (bytes : List UInt8)
  | freeString (a : Nat)
  | send (n : Nat) (a : Nat)
  | call (event : EventLoop.Event Functor)
  | loop (wakeUpActive : Bool)
  | write (res : WriteResult)
  | store
  | handleWrite (res : WriteResult)
  | handleClose

namespace State

def start (conn : TcpConnection) : State where
  conn := conn
  loop := .new
  mem := fun _ => none
  phase := .idle
  passed := []

def read (s : State) (call : SendCall) (offset : Nat) : Option (List UInt8) :=
  (s.mem call.data).bind fun block => Mem.read block offset (call.len - offset)

def send (s : State) (n : Nat) (a : Nat) : Option State :=
  match s.mem a with
  | some bytes =>
    if s.conn.state = .kConnected then do
      let call : SendCall := { data := a, len := bytes.length, content := bytes }
      let loop ← EventLoop.step s.loop (.runInLoop (.other n) (.sendInLoop call))
      return { s with loop }
    else
      some s
  | none => none

def startFunctor (s : State) : Functor → Phase
  | .sendInLoop call => if s.conn.state = .kDisconnected then .idle else .started call
  | .other => .idle

def loopPhase (s : State) : Phase :=
  match s.loop.pc.starting with
  | some queued => s.startFunctor queued.functor
  | none => .idle

def afterWrite (s : State) (call : SendCall) (direct : Direct) : State :=
  { s with phase := if direct.hasRest then .storing call direct else .idle }

def pass (s : State) (call : SendCall) (offset : Nat) : State :=
  { s with passed := s.passed ++ [⟨call, offset, s.read call offset⟩] }

def write (s : State) (call : SendCall) (res : WriteResult) : State :=
  if s.conn.writesDirectly then
    match s.read call 0 with
    | none => { s.pass call 0 with phase := .idle }
    | some data => (s.pass call 0).afterWrite call (s.conn.writeDirect data res)
  else
    s.afterWrite call (.skipped call.len)

def store (s : State) (call : SendCall) (direct : Direct) : Option State :=
  match s.read call direct.nwrote with
  | none => some { s.pass call direct.nwrote with phase := .idle }
  | some rest => do
    let stored ← s.conn.storeRest rest direct.remaining
    return { s.pass call direct.nwrote with phase := .idle, conn := stored.1 }

end State

def isOther : EventLoop.Event Functor → Bool
  | .queueInLoop _ functor => decide (functor = .other)
  | .runInLoop _ functor => decide (functor = .other)
  | .loop _ => false
  | _ => true

def step (s : State) : Event → Option State
  | .newString a bytes =>
    match s.mem a with
    | none => some { s with mem := Function.update s.mem a (some bytes) }
    | some _ => none
  | .changeString a bytes =>
    match s.mem a with
    | none => none
    | some _ => some { s with mem := Function.update s.mem a (some bytes) }
  | .freeString a =>
    match s.mem a with
    | none => none
    | some _ => some { s with mem := Function.update s.mem a none }
  | .send n a => s.send n a
  | .call event =>
    if isOther event then do
      let loop ← EventLoop.step s.loop event
      return { s with loop }
    else
      none
  | .loop wakeUpActive =>
    match s.phase with
    | .idle => do
      let loop ← EventLoop.step s.loop (.loop wakeUpActive)
      return { s with loop, phase := s.loopPhase }
    | _ => none
  | .write res =>
    match s.phase with
    | .started call =>
      if res.toOption.getD 0 ≤ call.len then
        some (s.write call res)
      else
        none
    | _ => none
  | .store =>
    match s.phase with
    | .storing call direct => s.store call direct
    | _ => none
  | .handleWrite res =>
    match s.loop.pc with
    | .handling _ => do
      let handled ← s.conn.handleWrite res
      return { s with conn := handled.1 }
    | _ => none
  | .handleClose =>
    match s.loop.pc with
    | .handling _ => some { s with conn := s.conn.handleClose.1 }
    | _ => none

def system : LTS State Event where
  Init s := ∃ sockfd conn, TcpConnection.new sockfd = some conn
    ∧ s = .start conn.connectEstablished.1
  next := step

def Functor.refersTo (functor : Functor) (a : Nat) : Bool :=
  match functor with
  | .sendInLoop call => decide (call.data = a)
  | .other => false

def State.refersTo (s : State) (a : Nat) : Bool :=
  s.loop.waiting.any (·.functor.refersTo a)
    || s.phase.call.any fun call => decide (call.data = a)

/--
A string outlives the sends that it was passed to, unchanged.
-/
def outlives (s : State) : Event → Bool
  | .changeString a _ => !s.refersTo a
  | .freeString a => !s.refersTo a
  | _ => true

def outlivingSystem : LTS State Event :=
  system.restrict fun s e => outlives s e = true

def SendCall.Alive (mem : Nat → Option (List UInt8)) (call : SendCall) : Prop :=
  mem call.data = some call.content ∧ call.len = call.content.length

structure Inv (s : State) : Prop where
  queued : ∀ queued ∈ s.loop.waiting, ∀ call,
    queued.functor = .sendInLoop call → call.Alive s.mem
  phase : ∀ call, s.phase.call = some call → call.Alive s.mem
  storing : ∀ call direct, s.phase = .storing call direct → direct.nwrote ≤ call.len
  passed : ∀ p ∈ s.passed, p.payload = some (p.call.content.drop p.offset)

theorem SendCall.Alive.update {mem : Nat → Option (List UInt8)} {call : SendCall} {a : Nat}
    (h : call.Alive mem) (hne : call.data ≠ a) (block : Option (List UInt8))
    : call.Alive (Function.update mem a block) := by
  refine ⟨?_, h.2⟩
  rw [Function.update_of_ne hne]
  exact h.1

theorem SendCall.Alive.read {s : State} {call : SendCall} (h : call.Alive s.mem) {offset : Nat}
    (hoffset : offset ≤ call.len)
    : s.read call offset = some (call.content.drop offset) := by
  rcases h with ⟨hmem, hlen⟩
  rw [hlen] at hoffset
  unfold State.read
  rw [hmem, Option.bind_some, Mem.read_eq_some]
  . rw [List.take_of_length_le]
    rw [List.length_drop, hlen]
  . omega

theorem nwrote_le {c : TcpConnection} {data : List UInt8} {res : WriteResult} {len : Nat}
    (hres : res.toOption.getD 0 ≤ len)
    : (c.writeDirect data res).nwrote ≤ len := by
  unfold writeDirect
  cases res with
  | ok n => exact hres
  | error errno => apply Nat.zero_le

theorem State.write_eq {s : State} {call : SendCall} {res : WriteResult}
    (halive : call.Alive s.mem)
    : (s.write call res).mem = s.mem ∧ (s.write call res).conn = s.conn
      ∧ (s.write call res).phase
        =
        if (s.conn.firstWrite call.content res).hasRest then
          .storing call (s.conn.firstWrite call.content res)
        else
          .idle := by
  unfold State.write firstWrite
  split
  . rw [halive.read (Nat.zero_le _), List.drop_zero]
    exact ⟨rfl, rfl, rfl⟩
  . rw [halive.2]
    exact ⟨rfl, rfl, rfl⟩

theorem write_store_eq_sendInLoop {s : State} {call : SendCall} {res : WriteResult}
    (halive : call.Alive s.mem) (hstate : s.conn.state ≠ .kDisconnected)
    (hres : res.toOption.getD 0 ≤ call.len)
    : (s.conn.sendInLoop call.content res).map (·.1)
      =
      match (s.write call res).phase with
      | .storing call direct => ((s.write call res).store call direct).map (·.conn)
      | _ => some (s.write call res).conn := by
  rcases @State.write_eq s call res halive with ⟨hmem, hconn, hphase⟩
  have hle : (s.conn.firstWrite call.content res).nwrote ≤ call.len := by
    unfold firstWrite
    split
    . apply nwrote_le hres
    . apply Nat.zero_le
  unfold sendInLoop
  rw [if_neg hstate, hphase]
  dsimp only
  split
  . dsimp only
    unfold State.store
    have halive' : call.Alive (s.write call res).mem := by
      rw [hmem]
      exact halive
    rw [halive'.read hle, hconn]
    dsimp only
    cases s.conn.storeRest (call.content.drop (s.conn.firstWrite call.content res).nwrote)
      (s.conn.firstWrite call.content res).remaining with
    | none => rfl
    | some stored => rfl
  . rw [hconn]
    rfl

namespace Inv

variable {s s' : State}

theorem start (conn : TcpConnection) : Inv (.start conn) := by
  constructor
  . intro queued hmem
    cases hmem
  . simp [State.start, Phase.call]
  . simp [State.start]
  . simp [State.start]

theorem setMem {a : Nat} {block : Option (List UInt8)} (h : Inv s)
    (hqueued : ∀ queued ∈ s.loop.waiting, ∀ call,
      queued.functor = .sendInLoop call → call.data ≠ a)
    (hphase : ∀ call, s.phase.call = some call → call.data ≠ a)
    : Inv { s with mem := Function.update s.mem a block } := by
  constructor
  . intro queued hmem call hcall
    exact (h.queued queued hmem call hcall).update (hqueued queued hmem call hcall) block
  . intro call hcall
    exact (h.phase call hcall).update (hphase call hcall) block
  . apply h.storing
  . apply h.passed

theorem setMem_of_unused {a : Nat} {block : Option (List UInt8)} (h : Inv s)
    (hunused : s.refersTo a = false)
    : Inv { s with mem := Function.update s.mem a block } := by
  simp only [State.refersTo, Bool.or_eq_false_iff, List.any_eq_false, Option.any_eq_false] at hunused
  rcases hunused with ⟨hqueued, hphase⟩
  apply h.setMem
  . intro queued hmem call hcall
    have := hqueued queued hmem
    simpa [Functor.refersTo, hcall] using this
  . intro call hcall
    have := hphase call hcall
    simpa using this

theorem setMem_of_fresh {a : Nat} {block : Option (List UInt8)} (h : Inv s) (ha : s.mem a = none)
    : Inv { s with mem := Function.update s.mem a block } := by
  have hne : ∀ call : SendCall, call.Alive s.mem → call.data ≠ a := by
    rintro call ⟨hmem, -⟩ heq
    simp [heq, ha] at hmem
  apply h.setMem
  . intro queued hmem call hcall
    exact hne call (h.queued queued hmem call hcall)
  . intro call hcall
    exact hne call (h.phase call hcall)

theorem setLoop {loop : EventLoop.State Functor} {event : EventLoop.Event Functor} (h : Inv s)
    (hloop : EventLoop.step s.loop event = some loop)
    (hpushed : ∀ queued, event.pushes = some queued → ∀ call,
      queued.functor = .sendInLoop call → call.Alive s.mem)
    : Inv { s with loop } := by
  refine ⟨?_, h.phase, h.storing, h.passed⟩
  intro queued hmem call hcall
  cases (EventLoop.Step.of_step hloop).mem_waiting hmem with
  | inl hold => apply h.queued queued hold call hcall
  | inr hnew => exact hpushed queued hnew call hcall

theorem send {n a : Nat} (h : Inv s) (hstep : s.send n a = some s') : Inv s' := by
  unfold State.send at hstep
  split at hstep
  . next bytes hbytes =>
    split at hstep
    . rcases Option.bind_eq_some_iff.mp hstep with ⟨loop, hloop, heq⟩
      cases heq
      apply h.setLoop hloop
      intro queued hpush call hcall
      cases hpush
      cases hcall
      exact ⟨hbytes, rfl⟩
    . cases hstep
      exact h
  . simp at hstep

theorem call {event : EventLoop.Event Functor} {loop : EventLoop.State Functor} (h : Inv s)
    (hother : isOther event = true) (hloop : EventLoop.step s.loop event = some loop)
    : Inv { s with loop } := by
  apply h.setLoop hloop
  intro queued hpush call hcall
  cases event with
  | queueInLoop caller functor =>
    cases hpush
    simp [isOther, show functor = _ from hcall] at hother
  | runInLoop caller functor =>
    cases hpush
    simp [isOther, show functor = _ from hcall] at hother
  | _ => simp [EventLoop.Event.pushes] at hpush

theorem setPhase {phase : Phase} (h : Inv s)
    (hphase : ∀ call, phase.call = some call → call.Alive s.mem)
    (hstoring : ∀ call direct, phase = .storing call direct → direct.nwrote ≤ call.len)
    : Inv { s with phase } := by
  exact ⟨h.queued, hphase, hstoring, h.passed⟩

theorem idle (h : Inv s) : Inv { s with phase := .idle } := by
  apply h.setPhase
  . simp [Phase.call]
  . simp

theorem loopPhase (h : Inv s) : Inv { s with phase := s.loopPhase } := by
  unfold State.loopPhase
  split
  . next queued hstart =>
    unfold State.startFunctor
    split
    . next call hcall =>
      split
      . apply h.idle
      . apply h.setPhase
        . intro call' heq
          cases heq
          apply h.queued queued (EventLoop.mem_waiting_of_starting hstart) call hcall
        . simp
    . apply h.idle
  . apply h.idle

theorem pass {call : SendCall} {offset : Nat} (h : Inv s) (halive : call.Alive s.mem)
    (hoffset : offset ≤ call.len)
    : Inv (s.pass call offset) := by
  refine ⟨h.queued, h.phase, h.storing, ?_⟩
  intro p hp
  simp only [State.pass, List.mem_append, List.mem_singleton] at hp
  rcases hp with hp | rfl
  . apply h.passed p hp
  . apply halive.read hoffset

theorem afterWrite {call : SendCall} {direct : Direct} (h : Inv s) (halive : call.Alive s.mem)
    (hle : direct.nwrote ≤ call.len)
    : Inv (s.afterWrite call direct) := by
  unfold State.afterWrite
  split
  . apply h.setPhase
    . intro call' heq
      cases heq
      exact halive
    . intro call' direct' heq
      cases heq
      exact hle
  . apply h.idle

theorem write {call : SendCall} {res : WriteResult} (h : Inv s) (halive : call.Alive s.mem)
    (hres : res.toOption.getD 0 ≤ call.len)
    : Inv (s.write call res) := by
  have hpass := h.pass halive (Nat.zero_le call.len)
  unfold State.write
  split
  . split
    . apply hpass.idle
    . apply hpass.afterWrite halive (nwrote_le hres)
  . apply h.afterWrite halive (Nat.zero_le call.len)

theorem store {call : SendCall} {direct : Direct} (h : Inv s) (halive : call.Alive s.mem)
    (hle : direct.nwrote ≤ call.len) (hstep : s.store call direct = some s')
    : Inv s' := by
  have hpass := (h.pass halive hle).idle
  unfold State.store at hstep
  split at hstep
  . cases hstep
    exact hpass
  . rcases Option.bind_eq_some_iff.mp hstep with ⟨stored, -, heq⟩
    cases heq
    exact ⟨hpass.queued, hpass.phase, hpass.storing, hpass.passed⟩

theorem setConn (h : Inv s) (conn : TcpConnection) : Inv { s with conn } := by
  exact ⟨h.queued, h.phase, h.storing, h.passed⟩

theorem step {e : Event} (h : Inv s) (houtlives : outlives s e = true) (hstep : step s e = some s')
    : Inv s' := by
  cases e with
  | newString a bytes =>
    simp only [CrossThread.step] at hstep
    split at hstep
    . next ha =>
      cases hstep
      apply h.setMem_of_fresh ha
    . simp at hstep
  | changeString a bytes =>
    simp only [CrossThread.step] at hstep
    simp only [outlives, Bool.not_eq_true'] at houtlives
    split at hstep
    . simp at hstep
    . cases hstep
      apply h.setMem_of_unused houtlives
  | freeString a =>
    simp only [CrossThread.step] at hstep
    simp only [outlives, Bool.not_eq_true'] at houtlives
    split at hstep
    . simp at hstep
    . cases hstep
      apply h.setMem_of_unused houtlives
  | send n a => apply h.send hstep
  | call event =>
    simp only [CrossThread.step] at hstep
    split at hstep
    . next hother =>
      rcases Option.bind_eq_some_iff.mp hstep with ⟨loop, hloop, heq⟩
      cases heq
      apply h.call hother hloop
    . simp at hstep
  | loop wakeUpActive =>
    simp only [CrossThread.step] at hstep
    split at hstep
    . rcases Option.bind_eq_some_iff.mp hstep with ⟨loop, hloop, heq⟩
      cases heq
      apply h.loopPhase.setLoop hloop
      simp [EventLoop.Event.pushes]
    . simp at hstep
  | write res =>
    simp only [CrossThread.step] at hstep
    split at hstep
    . next call hphase =>
      split at hstep
      . next hres =>
        cases hstep
        apply h.write (h.phase call (by rw [hphase]; rfl)) hres
      . simp at hstep
    . simp at hstep
  | store =>
    simp only [CrossThread.step] at hstep
    split at hstep
    . next call direct hphase =>
      apply h.store (h.phase call (by rw [hphase]; rfl)) (h.storing call direct hphase) hstep
    . simp at hstep
  | handleWrite res =>
    simp only [CrossThread.step] at hstep
    split at hstep
    . rcases Option.bind_eq_some_iff.mp hstep with ⟨handled, -, heq⟩
      cases heq
      apply h.setConn
    . simp at hstep
  | handleClose =>
    simp only [CrossThread.step] at hstep
    split at hstep
    . cases hstep
      apply h.setConn
    . simp at hstep

end Inv

theorem passed_is_content {s : State} (h : outlivingSystem.Reachable s)
    : ∀ p ∈ s.passed, p.payload = some (p.call.content.drop p.offset) := by
  have hinv : Inv s := by
    apply LTS.Reachable.invariant outlivingSystem _ _ h
    . rintro s ⟨sockfd, conn, -, rfl⟩
      apply Inv.start
    . intro s e s' hs hnext
      rw [outlivingSystem, LTS.restrict_next_eq_some] at hnext
      apply hs.step hnext.1 hnext.2
  apply hinv.passed

theorem fresh_init : system.Init (.start fresh.connectEstablished.1) :=
  ⟨6, fresh, new_fresh, rfl⟩

def sendAndRun (meanwhile : List Event) : List Event :=
  [.newString 8 [97, 98], .send 1 8, .call (.queueReturn (.other 1))] ++ meanwhile
    ++ [.loop false, .loop false, .loop false, .loop true, .loop false, .loop false, .loop false,
      .loop false, .write (.ok 1), .store]

theorem passed_is_content_kept
    : ∃ s, outlivingSystem.run (.start fresh.connectEstablished.1)
          (sendAndRun [] ++ [.changeString 8 [120, 121], .freeString 8])
        = some s
      ∧ s.passed.length = 2
      ∧ ∀ p ∈ s.passed, p.payload = some (p.call.content.drop p.offset) := by
  have hrun : (outlivingSystem.run (.start fresh.connectEstablished.1)
      (sendAndRun [] ++ [.changeString 8 [120, 121], .freeString 8])).map (·.passed.length) = some 2 := by
    decide +kernel
  rw [Option.map_eq_some_iff] at hrun
  rcases hrun with ⟨s, hrun, hlength⟩
  refine ⟨s, hrun, hlength, ?_⟩
  apply passed_is_content (LTS.Reachable.of_run _ (.init fresh_init) hrun)

theorem sent_after_change
    : ¬ ∀ s, system.Reachable s →
        ∀ p ∈ s.passed, p.payload = some (p.call.content.drop p.offset) := by
  intro h
  have hrun : (system.run (.start fresh.connectEstablished.1)
      (sendAndRun [.changeString 8 [120, 121]])).map
        (fun s => decide (∀ p ∈ s.passed, p.payload = some (p.call.content.drop p.offset)))
      = some false := by
    decide +kernel
  rw [Option.map_eq_some_iff] at hrun
  rcases hrun with ⟨s, hrun, hfalse⟩
  apply of_decide_eq_false hfalse
  exact h s (LTS.Reachable.of_run _ (.init fresh_init) hrun)

end CrossThread

end TcpConnection
