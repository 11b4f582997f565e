import Mmuduo.Lib.Transition
import Mmuduo.TcpConnection.SendInLoop

namespace TcpConnection

namespace Backlog

inductive Event where
  | sendInLoop (payload : List UInt8) (res : WriteResult)
  | handleWrite (res : WriteResult)
  | handleRead (received : ReadResult)
  -- `readBuffer` on the input buffer, by the message callback
  | readInput (outBuf : Option (List UInt8)) (outSize : UInt32)
  -- the part of `shutdown` in front of its `runInLoop`, by any thread
  | shutdown
  | shutdownInLoop

def handle (c : TcpConnection) : Event → Option (TcpConnection × List Action)
  | .sendInLoop payload res => c.sendInLoop payload res
  | .handleWrite res => c.handleWrite res
  | .handleRead received => c.handleRead received
  | .readInput outBuf outSize =>
    (c.inputBuffer.readBuffer outBuf outSize).map fun res => ({ c with inputBuffer := res.2.2 }, [])
  | .shutdown =>
    some (if c.state = .kConnected then { c with state := .kDisconnecting } else c, [])
  | .shutdownInLoop => some (c, c.shutdownInLoop)

/--
What the kernel can return; a `handleRead` of no bytes closes the connection.
-/
def Possible (c : TcpConnection) : Event → Prop
  | .sendInLoop payload res => Returned payload.length res
  | .handleWrite res => Returned c.outputBuffer.writeFdRange.2 res
  | .handleRead (.ok bytes) => 0 < bytes.length ∧ bytes.length ≤ c.inputBuffer.iovLen
  | _ => True

instance (c : TcpConnection) : ∀ e, Decidable (Possible c e)
  | .sendInLoop payload res => inferInstanceAs (Decidable (Returned payload.length res))
  | .handleWrite res => inferInstanceAs (Decidable (Returned c.outputBuffer.writeFdRange.2 res))
  | .handleRead (.ok bytes) =>
    inferInstanceAs (Decidable (0 < bytes.length ∧ bytes.length ≤ c.inputBuffer.iovLen))
  | .handleRead (.error _) => isTrue trivial
  | .readInput _ _ => isTrue trivial
  | .shutdown => isTrue trivial
  | .shutdownInLoop => isTrue trivial

def system : LTS TcpConnection Event where
  Init c := ∃ sockfd conn cb cb' mark, TcpConnection.new sockfd = some conn
    ∧ c = ((conn.setWriteCompleteCallback cb).setHighWaterMarkCallback cb' mark).connectEstablished.1
  next c e := if Possible c e then (handle c e).map (·.1) else none

theorem next_eq_some {c c' : TcpConnection} {e : Event}
    : system.next c e = some c' ↔ Possible c e ∧ ∃ actions, handle c e = some (c', actions) := by
  simp only [system]
  split
  . next h => simp [h]
  . next h => simp [h]

structure Inv (c : TcpConnection) : Prop where
  state : c.state ≠ .kDisconnected
  outputBuffer : c.outputBuffer.Inv

inductive Step (c : TcpConnection) : Event → TcpConnection → List Action → Prop where
  | sendInLoop {payload : List UInt8} {res : WriteResult} {c' : TcpConnection}
    {actions : List Action} (hsent : Sent c payload res c' actions)
    (houtput : ∀ a ∈ actions, a.isOutput = true)
    : Step c (.sendInLoop payload res) c' actions
  | disableWriting {res : WriteResult} {actions : List Action}
    (hwriting : c.channel.isWriting = true) (hempty : c.outputBuffer.unread = 0)
    : Step c (.handleWrite res) { c with channel := c.channel.disableWriting } actions
  | keep {e : Event} {state : StateE} {inputBuffer : Kfifo} {actions : List Action}
    (hevent : ∀ payload res, e ≠ .sendInLoop payload res) (hstate : state ≠ .kDisconnected)
    (hshutdown : .shutdownWrite ∈ actions → c.channel.isWriting = false)
    : Step c e { c with state, inputBuffer } actions

theorem Step.of_handle {c c' : TcpConnection} {e : Event} {actions : List Action} (h : Inv c)
    (hpossible : Possible c e) (hhandle : handle c e = some (c', actions))
    : Step c e c' actions := by
  cases e with
  | sendInLoop payload res =>
    rcases sendInLoop_spec h.state h.outputBuffer hpossible with ⟨c'', actions', hsend, hsent⟩
    have hsend' : c.sendInLoop payload res = some (c', actions) := hhandle
    have houtput := (sendInLoop_output hsend').2.1
    rw [hsend', Option.some.injEq, Prod.mk.injEq] at hsend
    rw [← hsend.1, ← hsend.2] at hsent
    exact .sendInLoop hsent houtput
  | handleWrite res =>
    rcases handleWrite_conn hhandle with heq | ⟨hwriting, hempty, heq⟩
    . cases heq
      apply Step.keep (by simp) h.state
      intro hmem
      rcases (handleWrite_output hhandle).2 with hnone | ⟨-, bytes, rest, hactions, hrest⟩
      . cases hnone
        cases hmem
      . dsimp only at hactions
        rw [hactions, List.mem_cons, or_iff_right (by simp)] at hmem
        rcases hrest _ hmem with hcomplete | ⟨-, -, -, hwriting⟩
        . cases hcomplete
        . exact hwriting
    . cases heq
      apply Step.disableWriting hwriting
      unfold Kfifo.unread
      rw [hempty]
      rfl
  | handleRead received =>
    cases received with
    | ok bytes =>
      rcases handleRead_pos hpossible.1 hhandle with ⟨inputBuffer, heq⟩
      cases heq
      apply Step.keep (by simp) h.state
      simp
    | error errno =>
      cases hhandle
      apply Step.keep (by simp) h.state
      simp
  | readInput outBuf outSize =>
    rcases Option.map_eq_some_iff.mp hhandle with ⟨res, -, heq⟩
    cases heq
    apply Step.keep (by simp) h.state
    simp
  | shutdown =>
    cases hhandle
    split
    . apply Step.keep
      . simp
      . simp
      . simp
    . apply Step.keep (by simp) h.state
      simp
  | shutdownInLoop =>
    cases hhandle
    apply Step.keep (by simp) h.state
    intro hmem
    exact (mem_shutdownInLoop hmem).2

theorem Inv.init {c : TcpConnection} (h : system.Init c)
    : Inv c ∧ c.outputBuffer.unread = 0 ∧ c.channel.isWriting = false := by
  rcases h with ⟨sockfd, conn, cb, cb', mark, hnew, rfl⟩
  rcases new_outputBuffer hnew with ⟨hinv, hcontent, -, hchannel⟩
  refine ⟨⟨?_, hinv⟩, ?_, ?_⟩
  . simp [connectEstablished]
  . have hlen := hinv.length_content
    rw [hcontent] at hlen
    exact hlen.symm
  . simp only [connectEstablished, setHighWaterMarkCallback, setWriteCompleteCallback, hchannel]
    simp only [Channel.isWriting, Channel.enableReading, Channel.new]
    decide

theorem Inv.step {c c' : TcpConnection} {e : Event} {actions : List Action} (h : Inv c)
    (hstep : Step c e c' actions)
    : Inv c' := by
  cases hstep with
  | sendInLoop hsent houtput =>
    refine ⟨?_, hsent.inv⟩
    rw [hsent.conn]
    exact h.state
  | disableWriting hwriting hempty => exact ⟨h.state, h.outputBuffer⟩
  | keep hevent hstate hshutdown => exact ⟨hstate, h.outputBuffer⟩

def Short : Event → Bool
  | .sendInLoop payload _ => payload.length < 2 ^ 32
  | _ => true

def Mirrors (c : TcpConnection) : Prop :=
  c.channel.isWriting = true ↔ 0 < c.outputBuffer.unread

theorem Mirrors.step {c c' : TcpConnection} {e : Event} {actions : List Action} (h : Mirrors c)
    (hinv : Inv c) (hshort : Short e = true) (hstep : Step c e c' actions)
    : Mirrors c' := by
  unfold Mirrors at *
  cases hstep with
  | @sendInLoop payload res _ _ hsent houtput =>
    rw [hsent.unread_eq hinv.outputBuffer, hsent.channel]
    split
    . next hpos =>
      have hwriting : c.storeChannel.isWriting = true := by
        unfold storeChannel
        split
        . assumption
        . apply Channel.isWriting_enableWriting
      rcases hinv.outputBuffer.alloc with ⟨mem, halloc⟩
      have hsize := halloc.size_pos
      have hleft := hsent.left
      simp only [Short, decide_eq_true_eq] at hshort
      have hmod : c.toStore payload res % 2 ^ 32 = c.toStore payload res := by
        apply Nat.mod_eq_of_lt
        omega
      apply iff_of_true hwriting
      omega
    . next hzero =>
      have hzero : c.toStore payload res = 0 := by omega
      rw [hzero, h]
      simp
  | disableWriting hwriting hempty =>
    rw [h] at hwriting
    omega
  | keep hevent hstate hshutdown => exact h

theorem reachable_mirrors {c : TcpConnection}
    (h : (system.restrict fun _ e => Short e = true).Reachable c)
    : Inv c ∧ Mirrors c := by
  apply LTS.Reachable.invariant _ _ _ h
  . intro c hinit
    rcases Inv.init hinit with ⟨hinv, hunread, hwriting⟩
    refine ⟨hinv, ?_⟩
    unfold Mirrors
    rw [hunread, hwriting]
    simp
  . rintro c e c' ⟨hinv, hmirrors⟩ hnext
    rw [LTS.restrict_next_eq_some, next_eq_some] at hnext
    rcases hnext with ⟨hshort, hpossible, actions, hhandle⟩
    have hstep := Step.of_handle hinv hpossible hhandle
    exact ⟨hinv.step hstep, hmirrors.step hinv hshort hstep⟩

structure InterestMirrorsBacklog (c : TcpConnection) : Prop where
  writing_iff : c.channel.isWriting = true ↔ c.outputBuffer.content ≠ []
  -- `sendInLoop` writes directly only in front of no buffered byte.
  direct : ∀ payload res r bytes, Possible c (.sendInLoop payload res) →
    handle c (.sendInLoop payload res) = some r → .write bytes ∈ r.2 → c.outputBuffer.content = []
  shutdown : ∀ e r, Possible c e → handle c e = some r → .shutdownWrite ∈ r.2 →
    c.outputBuffer.content = [] ∧ r.1.outputBuffer.content = []

theorem interest_mirrors_backlog (c : TcpConnection)
    (h : (system.restrict fun _ e => Short e = true).Reachable c)
    : InterestMirrorsBacklog c := by
  rcases reachable_mirrors h with ⟨hinv, hmirrors⟩
  have hempty : c.outputBuffer.content = [] ↔ c.outputBuffer.unread = 0 := by
    rw [← List.length_eq_zero_iff, hinv.outputBuffer.length_content]
  constructor
  . rw [Ne, hempty]
    exact hmirrors.trans Nat.pos_iff_ne_zero
  . rintro payload res ⟨c', actions⟩ bytes hpossible hhandle hmem
    cases Step.of_handle hinv hpossible hhandle with
    | sendInLoop hsent houtput => exact hempty.mpr (hsent.direct bytes hmem)
    | keep hevent hstate hshutdown => exact absurd rfl (hevent payload res)
  . rintro e ⟨c', actions⟩ hpossible hhandle hmem
    cases Step.of_handle hinv hpossible hhandle with
    | sendInLoop hsent houtput =>
      have := houtput _ hmem
      contradiction
    | disableWriting hwriting hunread => exact ⟨hempty.mpr hunread, hempty.mpr hunread⟩
    | keep hevent hstate hshutdown =>
      have hnone : c.outputBuffer.content = [] := by
        have hwriting : ¬c.channel.isWriting = true := by
          rw [hshutdown hmem]
          simp
        rw [hempty]
        apply Nat.eq_zero_of_not_pos
        exact fun hpos => hwriting (hmirrors.mpr hpos)
      exact ⟨hnone, hnone⟩

def established : TcpConnection := fresh.connectEstablished.1

theorem established_init : system.Init established :=
  ⟨6, fresh, false, false, _, new_fresh, by rw [fresh_setCallbacks, established]⟩

theorem interest_mirrors_backlog_shortWrite
    : ∃ c, (system.restrict fun _ e => Short e = true).run established
          [.sendInLoop [1, 2, 3] (.ok 1), .shutdown, .shutdownInLoop, .handleWrite (.ok 2)]
        = some c
      ∧ c.outputBuffer.unread = 2
      ∧ InterestMirrorsBacklog c := by
  have hrun : ((system.restrict fun _ e => Short e = true).run established
      [.sendInLoop [1, 2, 3] (.ok 1), .shutdown, .shutdownInLoop, .handleWrite (.ok 2)]).map
        (fun c => c.outputBuffer.unread) = some 2 := by
    decide +kernel
  rcases Option.map_eq_some_iff.mp hrun with ⟨c, hrun, hunread⟩
  refine ⟨c, hrun, hunread, ?_⟩
  apply interest_mirrors_backlog
  exact LTS.Reachable.of_run _ (.init established_init) hrun

def TellsTruth (c : TcpConnection) : Event → Prop
  | .sendInLoop payload res => ∀ r, handle c (.sendInLoop payload res) = some r →
    ((∃ size, .queueHighWaterMark size ∈ r.2)
      ↔ c.outputBuffer.unread < c.highWaterMark ∧ c.highWaterMark ≤ r.1.outputBuffer.unread)
    ∧ ∀ size, .queueHighWaterMark size ∈ r.2 → size = r.1.outputBuffer.unread
  | _ => True

def MarkFits (c : TcpConnection) : Event → Prop
  | .sendInLoop payload res =>
    c.outputBuffer.unread + c.toStore payload res ≤ c.outputBuffer.bufferSize.toNat
      ∨ c.highWaterMark ≤ c.outputBuffer.unread
      ∨ c.outputBuffer.unread + c.toStore payload res < c.highWaterMark
  | _ => True

instance (c : TcpConnection) : ∀ e, Decidable (MarkFits c e)
  | .sendInLoop _ _ => inferInstanceAs (Decidable (_ ∨ _ ∨ _))
  | .handleWrite _ => isTrue trivial
  | .handleRead _ => isTrue trivial
  | .readInput _ _ => isTrue trivial
  | .shutdown => isTrue trivial
  | .shutdownInLoop => isTrue trivial

theorem tellsTruth_iff {c : TcpConnection} {e : Event} (h : Inv c)
    (hcb : c.hasHighWaterMarkCallback = true) (hpossible : Possible c e)
    : TellsTruth c e ↔ MarkFits c e := by
  cases e with
  | sendInLoop payload res =>
    rcases sendInLoop_spec h.state h.outputBuffer hpossible with ⟨c', actions, hsend, hsent⟩
    have hunread := hsent.unread_eq h.outputBuffer
    have hle := h.outputBuffer.le
    have hsize : c.outputBuffer.bufferSize.toNat < 2 ^ 32 := c.outputBuffer.bufferSize.toNat_lt
    simp only [TellsTruth, MarkFits, handle, hsend, Option.some.injEq, forall_eq']
    simp only [hsent.highWater, mem_highWater, hcb, Action.queueHighWaterMark.injEq, and_true,
      exists_eq_left, and_imp, forall_eq]
    constructor
    . rintro ⟨hiff, hpassed⟩
      by_contra hnot
      rw [not_or, not_or] at hnot
      have := hpassed (by omega) (by omega)
      omega
    . intro hfits
      constructor
      . omega
      . omega
  | handleWrite res => rfl
  | handleRead received => rfl
  | readInput outBuf outSize => rfl
  | shutdown => rfl
  | shutdownInLoop => rfl

theorem Inv.next {c c' : TcpConnection} {e : Event} (h : Inv c) (hnext : system.next c e = some c')
    : Inv c' ∧ c'.hasHighWaterMarkCallback = c.hasHighWaterMarkCallback := by
  rcases next_eq_some.mp hnext with ⟨hpossible, actions, hhandle⟩
  have hstep := Step.of_handle h hpossible hhandle
  refine ⟨h.step hstep, ?_⟩
  cases hstep with
  | sendInLoop hsent houtput => rw [hsent.conn]
  | disableWriting hwriting hempty => rfl
  | keep hevent hstate hshutdown => rfl

theorem highWater_truthful_iff (c : TcpConnection) (hinit : system.Init c)
    (hcb : c.hasHighWaterMarkCallback = true) (es : List Event) (c' : TcpConnection)
    (hrun : system.run c es = some c')
    : system.Along TellsTruth c es ↔ system.Along MarkFits c es := by
  refine system.along_congr (I := fun c => Inv c ∧ c.hasHighWaterMarkCallback = true) ?_ ?_
    ⟨(Inv.init hinit).1, hcb⟩ hrun
  . rintro c e c' ⟨h, hcb⟩ hnext
    rcases h.next hnext with ⟨h', hcb'⟩
    exact ⟨h', hcb'.trans hcb⟩
  . rintro c e c' ⟨h, hcb⟩ hnext
    exact tellsTruth_iff h hcb (next_eq_some.mp hnext).1

def marked (mark : Nat) : TcpConnection :=
  (fresh.setHighWaterMarkCallback true mark).connectEstablished.1

theorem marked_init (mark : Nat) : system.Init (marked mark) :=
  ⟨6, fresh, false, true, mark, new_fresh, rfl⟩

theorem highWater_truthful_iff_reached
    : ∃ c', system.run (marked 4)
          [.sendInLoop [1, 2, 3] (.ok 1), .sendInLoop [4, 5] (.ok 0)]
        = some c'
      ∧ system.Along TellsTruth (marked 4)
        [.sendInLoop [1, 2, 3] (.ok 1), .sendInLoop [4, 5] (.ok 0)] := by
  have hrun : (system.run (marked 4)
      [.sendInLoop [1, 2, 3] (.ok 1), .sendInLoop [4, 5] (.ok 0)]).isSome = true := by
    decide +kernel
  rcases Option.isSome_iff_exists.mp hrun with ⟨c', hrun⟩
  refine ⟨c', hrun, ?_⟩
  apply (highWater_truthful_iff _ (marked_init 4) rfl _ c' hrun).mpr
  decide +kernel

theorem highWater_lies
    : ¬∀ c, system.Init c → c.hasHighWaterMarkCallback = true →
        ∀ es c', system.run c es = some c' → system.Along TellsTruth c es := by
  intro h
  have hinv := (Inv.init (marked_init 5000)).1
  have hpossible : Possible (marked 5000)
      (.sendInLoop (List.replicate 6000 0) (.error .EWOULDBLOCK)) := by
    decide
  rcases sendInLoop_spec hinv.state hinv.outputBuffer hpossible with ⟨c', actions, hsend, -⟩
  have hnext : system.next (marked 5000) (.sendInLoop (List.replicate 6000 0) (.error .EWOULDBLOCK))
      = some c' :=
    next_eq_some.mpr ⟨hpossible, actions, hsend⟩
  have halong := h _ (marked_init 5000) rfl [_] c' (by rw [LTS.run_cons, hnext]; rfl)
  have htruth := (tellsTruth_iff hinv rfl hpossible).mp halong.1
  revert htruth
  decide +kernel

end Backlog

end TcpConnection
