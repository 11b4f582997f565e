import Mmuduo.TcpConnection.SendInLoop
import Mmuduo.Lib.Transition

namespace TcpConnection

section HandleWrite

variable {c : TcpConnection} {res : WriteResult}

def buffered (c : TcpConnection) (res : WriteResult) : Nat :=
  if c.channel.isWriting then res.toOption.getD 0 else 0

theorem handleWrite_spec (hinv : c.outputBuffer.Inv) (hread : c.outputBuffer.read = 0)
    (hres : Offered c.outputBuffer.writeFdRange.2 res)
    : ∃ c' actions, c.handleWrite res = some (c', actions)
        ∧ c'.state = c.state
        ∧ c'.outputBuffer = c.outputBuffer
        ∧ (accepted actions).length = c.buffered res := by
  rcases hinv.alloc with ⟨mem, halloc⟩
  have hle := hinv.le
  have hlen := halloc.length_eq
  have hidx : (c.outputBuffer.index c.outputBuffer.read).toNat = 0 := by
    rw [halloc.toNat_index, hread, UInt32.toNat_zero, Nat.zero_mod]
  unfold handleWrite buffered
  by_cases hwriting : c.channel.isWriting
  . simp only [hwriting, ↓reduceIte]
    cases res with
    | error errno => exact ⟨c, _, rfl, rfl, rfl, rfl⟩
    | ok n =>
      simp only [Offered, Kfifo.writeFdRange] at hres
      unfold Kfifo.unread at hle
      have hsent : c.outputBuffer.writeFd (.ok n) = some (.ok ((mem.drop 0).take n)) := by
        unfold Kfifo.writeFd Kfifo.writeFdRange
        dsimp only [bind, Option.bind]
        rw [halloc.buffer_eq, hidx]
        dsimp only
        rw [Mem.read_eq_some (by omega)]
        rfl
      have hsentLen : ((mem.drop 0).take n).length = n := by
        rw [List.length_take, List.length_drop]
        omega
      rw [hsent]
      dsimp only [bind, Option.bind]
      generalize (mem.drop 0).take n = bytes at hsentLen
      split
      . refine ⟨_, _, rfl, rfl, rfl, ?_⟩
        simp only [accepted_cons_write, accepted_append, accepted_writeComplete, List.nil_append]
        split
        . simp [hsentLen, Except.toOption]
        . simp [hsentLen, Except.toOption]
      . refine ⟨_, _, rfl, rfl, rfl, ?_⟩
        simp [hsentLen, Except.toOption]
  . simp only [hwriting, Bool.false_eq_true, ↓reduceIte]
    exact ⟨c, _, rfl, rfl, rfl, rfl⟩

end HandleWrite

structure Outbound where
  conn : TcpConnection
  sent : List UInt8
  payloads : List UInt8
  deriving DecidableEq

namespace Outbound

inductive Event where
  | sendInLoop (payload : List UInt8) (res : WriteResult)
  | handleWrite (res : WriteResult)

def start (conn : TcpConnection) : Outbound :=
  { conn := conn.connectEstablished.1, sent := [], payloads := [] }

def system : LTS Outbound Event where
  Init s := ∃ sockfd conn cb cb' mark, TcpConnection.new sockfd = some conn
    ∧ s = start ((conn.setWriteCompleteCallback cb).setHighWaterMarkCallback cb' mark)
  next s
    | .sendInLoop payload res => (s.conn.sendInLoop payload res).map fun r =>
      { conn := r.1, sent := s.sent ++ accepted r.2, payloads := s.payloads ++ payload }
    | .handleWrite res => (s.conn.handleWrite res).map fun r =>
      { conn := r.1, sent := s.sent ++ accepted r.2, payloads := s.payloads }

def KernelOk (s : Outbound) : Event → Prop
  | .sendInLoop payload res => Offered payload.length res
  | .handleWrite res => Offered s.conn.outputBuffer.writeFdRange.2 res

def Backlog (s : Outbound) : Prop :=
  s.payloads.length - s.sent.length ≤ s.conn.outputBuffer.bufferSize.toNat

def Legal (s : Outbound) (e : Event) : Prop :=
  s.KernelOk e ∧ ∀ s', system.next s e = some s' → s'.Backlog

def Intact (s : Outbound) : Prop :=
  s.sent ++ s.conn.outputBuffer.content = s.payloads

/--
The kernel takes no byte out of the output buffer.
-/
def Unbuffered (s : Outbound) : Event → Prop
  | .sendInLoop _ _ => True
  | .handleWrite res => s.conn.buffered res = 0

instance (s : Outbound) : ∀ e, Decidable (s.KernelOk e)
  | .sendInLoop payload res => inferInstanceAs (Decidable (Offered payload.length res))
  | .handleWrite res => inferInstanceAs (Decidable (Offered s.conn.outputBuffer.writeFdRange.2 res))

instance (s : Outbound) (e : Event) : Decidable (s.Legal e) :=
  match h : system.next s e with
  | none => decidable_of_iff (s.KernelOk e) (by simp [Legal, h])
  | some s' =>
    decidable_of_iff (s.KernelOk e
        ∧ s'.payloads.length - s'.sent.length ≤ s'.conn.outputBuffer.bufferSize.toNat)
      (by simp [Legal, h, Backlog])

instance (s : Outbound) : ∀ e, Decidable (s.Unbuffered e)
  | .sendInLoop _ _ => isTrue trivial
  | .handleWrite res => inferInstanceAs (Decidable (s.conn.buffered res = 0))

structure Wf (s : Outbound) : Prop where
  state : s.conn.state ≠ .kDisconnected
  inv : s.conn.outputBuffer.Inv
  read : s.conn.outputBuffer.read = 0

theorem sendInLoop_step {s : Outbound} (h : s.Wf) {payload : List UInt8} {res : WriteResult}
    (hok : s.KernelOk (.sendInLoop payload res))
    : ∃ s', system.next s (.sendInLoop payload res) = some s' ∧ s'.Wf
        ∧ (s.Intact → s'.Backlog → s'.Intact) := by
  rcases sendInLoop_spec h.state h.inv hok.returned with ⟨conn', actions, hsend, hsent⟩
  simp only [system, hsend, Option.map_some]
  refine ⟨_, rfl, ⟨?_, hsent.inv, ?_⟩, ?_⟩
  . dsimp only
    rw [hsent.conn]
    apply h.state
  . rw [hsent.read]
    apply h.read
  . intro hintact hbacklog
    unfold Intact Backlog at *
    simp only [List.length_append] at hbacklog ⊢
    have hlen := congrArg List.length hintact
    rw [List.length_append, h.inv.length_content] at hlen
    rw [hsent.bufferSize] at hbacklog
    have hwhole := hsent.whole hok
    have hkeeps := (hsent.keeps_iff h.inv hok).mpr (by omega)
    rw [List.append_assoc, hkeeps, ← List.append_assoc, hintact]

theorem handleWrite_step {s : Outbound} (h : s.Wf) {res : WriteResult}
    (hok : s.KernelOk (.handleWrite res))
    : ∃ s', system.next s (.handleWrite res) = some s' ∧ s'.Wf
        ∧ (s.Intact → (s'.Intact ↔ s.conn.buffered res = 0)) := by
  rcases handleWrite_spec h.inv h.read hok with ⟨conn', actions, hwrite, hstate, hbuffer, hlen⟩
  simp only [system, hwrite, Option.map_some]
  refine ⟨_, rfl, ⟨?_, ?_, ?_⟩, ?_⟩
  . rw [hstate]
    apply h.state
  . rw [hbuffer]
    apply h.inv
  . rw [hbuffer]
    apply h.read
  . intro hintact
    unfold Intact at *
    dsimp only
    rw [hbuffer, ← hlen]
    constructor
    . intro hintact'
      have hlen' := congrArg List.length (hintact'.trans hintact.symm)
      simp only [List.length_append] at hlen'
      omega
    . intro hzero
      rw [List.length_eq_zero_iff] at hzero
      rw [hzero, List.append_nil]
      exact hintact

theorem step_intact_iff {s : Outbound} (h : s.Wf) {e : Event} (hlegal : s.Legal e)
    : ∃ s', system.next s e = some s' ∧ s'.Wf ∧ (s.Intact → (s'.Intact ↔ s.Unbuffered e)) := by
  rcases hlegal with ⟨hok, hbacklog⟩
  cases e with
  | sendInLoop payload res =>
    rcases sendInLoop_step h hok with ⟨s', hnext, hwf, hkeep⟩
    refine ⟨s', hnext, hwf, ?_⟩
    intro hintact
    simp [Unbuffered, hkeep hintact (hbacklog s' hnext)]
  | handleWrite res => apply handleWrite_step h hok

theorem run_eq_some {s : Outbound} (h : s.Wf) {es : List Event} (hlegal : system.Along Legal s es)
    : ∃ s', system.run s es = some s' := by
  induction es generalizing s with
  | nil => exact ⟨s, rfl⟩
  | cons e es ih =>
    rw [LTS.along_cons] at hlegal
    rcases step_intact_iff h hlegal.1 with ⟨s₁, hnext, hwf, _⟩
    rw [LTS.run_cons, hnext]
    exact ih hwf (hlegal.2 s₁ hnext)

theorem run_intact_iff {s : Outbound} (h : s.Wf) (hintact : s.Intact) {es : List Event}
    (hlegal : system.Along Legal s es)
    : (∀ fs s', fs <+: es → system.run s fs = some s' → s'.Intact)
        ↔
      system.Along Unbuffered s es := by
  induction es generalizing s with
  | nil =>
    simp only [LTS.Along, iff_true]
    intro fs s' hpre hrun
    rw [List.prefix_nil] at hpre
    subst hpre
    simp only [LTS.run_nil, Option.some.injEq] at hrun
    rw [← hrun]
    exact hintact
  | cons e es ih =>
    rw [LTS.along_cons] at hlegal ⊢
    rcases step_intact_iff h hlegal.1 with ⟨s₁, hnext, hwf, hstep⟩
    have hiff := hstep hintact
    constructor
    . intro hall
      have hintact₁ : s₁.Intact := by
        apply hall [e] s₁
        . simp
        . simp [LTS.run_cons, hnext]
      refine ⟨hiff.mp hintact₁, ?_⟩
      intro s' hnext'
      rw [hnext, Option.some.injEq] at hnext'
      subst hnext'
      rw [← ih hwf hintact₁ (hlegal.2 s₁ hnext)]
      intro fs s' hpre hrun
      apply hall (e :: fs) s'
      . simpa using hpre
      . rw [LTS.run_cons, hnext]
        exact hrun
    . rintro ⟨hunbuf, hrest⟩ fs s' hpre hrun
      have hintact₁ := hiff.mpr hunbuf
      cases fs with
      | nil =>
        simp only [LTS.run_nil, Option.some.injEq] at hrun
        rw [← hrun]
        exact hintact
      | cons f fs =>
        rw [List.cons_prefix_cons] at hpre
        rw [hpre.1, LTS.run_cons, hnext] at hrun
        have hrest₁ := hrest s₁ hnext
        rw [← ih hwf hintact₁ (hlegal.2 s₁ hnext)] at hrest₁
        exact hrest₁ fs s' hpre.2 hrun

theorem init_wf {s : Outbound} (h : system.Init s) : s.Wf ∧ s.Intact := by
  rcases h with ⟨sockfd, conn, cb, cb', mark, hnew, hs⟩
  subst hs
  rcases new_outputBuffer hnew with ⟨hinv, hcontent, hread, -⟩
  constructor
  . exact ⟨by simp [start, connectEstablished], hinv, hread⟩
  . simp only [Intact, start, List.nil_append]
    exact hcontent

theorem stream_intact_iff (s : Outbound) (hinit : system.Init s) (es : List Event)
    (hlegal : system.Along Legal s es)
    : (∃ s', system.run s es = some s')
      ∧ ((∀ fs s', fs <+: es → system.run s fs = some s'
            → s'.sent ++ s'.conn.outputBuffer.content = s'.payloads)
          ↔
        system.Along Unbuffered s es) := by
  rcases init_wf hinit with ⟨hwf, hintact⟩
  constructor
  . apply run_eq_some hwf hlegal
  . apply run_intact_iff hwf hintact hlegal

theorem fresh_init : system.Init (start fresh) :=
  ⟨6, fresh, false, false, _, new_fresh, by rw [fresh_setCallbacks]⟩

def shortWrites : List Event :=
  [.sendInLoop [1, 2, 3] (.ok 1), .sendInLoop [4] (.ok 0), .handleWrite (.error .EWOULDBLOCK)]

theorem stream_intact_short_writes
    : system.Along Unbuffered (start fresh) shortWrites
      ∧ ∀ fs s', fs <+: shortWrites
          → system.run (start fresh) fs = some s'
          → s'.sent ++ s'.conn.outputBuffer.content = s'.payloads := by
  have hunbuffered
      : system.Along Unbuffered (start fresh) shortWrites := by
    decide +kernel
  refine ⟨hunbuffered, ?_⟩
  apply (stream_intact_iff _ fresh_init shortWrites _).2.mpr hunbuffered
  decide +kernel

theorem stream_duplicated
    : ¬ ∀ s es, system.Init s → system.Along Legal s es → ∀ s', system.run s es = some s'
        → s'.sent ++ s'.conn.outputBuffer.content = s'.payloads := by
  intro h
  have hlegal : system.Along Legal (start fresh)
      [.sendInLoop [97, 98] (.ok 1), .handleWrite (.ok 1)] := by
    decide +kernel
  have hrun : (system.run (start fresh)
      [.sendInLoop [97, 98] (.ok 1), .handleWrite (.ok 1)]).map
        (fun s' => decide (s'.sent ++ s'.conn.outputBuffer.content = s'.payloads)) = some false := by
    decide +kernel
  rw [Option.map_eq_some_iff] at hrun
  rcases hrun with ⟨s', hrun, hne⟩
  apply of_decide_eq_false hne (h _ _ fresh_init hlegal s' hrun)

end Outbound

end TcpConnection
