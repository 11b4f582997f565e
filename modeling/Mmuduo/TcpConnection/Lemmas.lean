import Mmuduo.TcpConnection.Impl

namespace TcpConnection

def Action.isOutput : Action → Bool
  | .write _ => true
  | .queueWriteComplete => true
  | .queueHighWaterMark _ => true
  | _ => false

def Action.reportsDown : Action → Bool
  | .connectionCallback connected => !connected
  | .closeCallback => true
  | _ => false

theorem Action.reportsDown_of_isOutput {a : Action} (h : a.isOutput = true) : a.reportsDown = false := by
  cases a with
  | write accepted => rfl
  | shutdownWrite => rfl
  | queueWriteComplete => rfl
  | queueHighWaterMark size => rfl
  | connectionCallback connected => contradiction
  | messageCallback => rfl
  | closeCallback => contradiction

variable {c : TcpConnection} {res : WriteResult}

theorem isOutput_writeComplete : ∀ a ∈ c.writeComplete, a.isOutput = true := by
  unfold writeComplete
  split
  . simp [Action.isOutput]
  . simp

theorem isOutput_highWater (remaining : Nat) : ∀ a ∈ c.highWater remaining, a.isOutput = true := by
  unfold highWater
  dsimp only
  split
  . simp [Action.isOutput]
  . simp

theorem isOutput_firstWrite (data : List UInt8)
    : ∀ a ∈ (c.firstWrite data res).actions, a.isOutput = true := by
  unfold firstWrite writeDirect Direct.skipped
  split
  . cases res with
    | ok n =>
      dsimp only
      rw [List.forall_mem_cons]
      constructor
      . rfl
      . split
        . apply isOutput_writeComplete
        . simp
    | error errno => simp [Action.isOutput]
  . simp

theorem sendInLoop_output {data : List UInt8} {r : TcpConnection × List Action}
    (h : c.sendInLoop data res = some r)
    : r.1.state = c.state ∧ (∀ a ∈ r.2, a.isOutput = true)
      ∧ (c.state = .kDisconnected → r = (c, [])) := by
  unfold sendInLoop at h
  split at h
  . cases h
    refine ⟨rfl, ?_, fun _ => rfl⟩
    simp
  . next hstate =>
    dsimp only at h
    split at h
    . unfold storeRest at h
      simp only [Option.pure_def, Option.bind_eq_bind, Option.bind_eq_some_iff, Option.some.injEq] at h
      rcases h with ⟨stored, ⟨buffered, -, rfl⟩, rfl⟩
      refine ⟨rfl, ?_, fun hdown => absurd hdown hstate⟩
      rw [List.forall_mem_append]
      constructor
      . apply isOutput_firstWrite
      . apply isOutput_highWater
    . cases h
      refine ⟨rfl, ?_, fun hdown => absurd hdown hstate⟩
      apply isOutput_firstWrite

theorem sendInLoop_fd {data : List UInt8} {r : TcpConnection × List Action}
    (h : c.sendInLoop data res = some r)
    : r.1.channel.fd = c.channel.fd := by
  unfold sendInLoop at h
  split at h
  . cases h
    rfl
  . dsimp only at h
    split at h
    . unfold storeRest at h
      simp only [Option.pure_def, Option.bind_eq_bind, Option.bind_eq_some_iff, Option.some.injEq] at h
      rcases h with ⟨stored, ⟨buffered, -, rfl⟩, rfl⟩
      dsimp only
      split
      . rfl
      . rfl
    . cases h
      rfl

theorem mem_shutdownInLoop {a : Action} (h : a ∈ c.shutdownInLoop)
    : a = .shutdownWrite ∧ c.channel.isWriting = false := by
  unfold shutdownInLoop at h
  split at h
  . next hwriting =>
    rw [List.mem_singleton] at h
    rw [Bool.not_eq_true'] at hwriting
    exact ⟨h, hwriting⟩
  . simp at h

theorem handleWrite_output {r : TcpConnection × List Action} (h : c.handleWrite res = some r)
    : r.1.state = c.state
      ∧ (r = (c, [])
        ∨ (c.channel.isWriting = true ∧ ∃ bytes rest, r.2 = .write bytes :: rest
          ∧ ∀ a ∈ rest, a = .queueWriteComplete
            ∨ (a = .shutdownWrite ∧ c.state = .kDisconnecting
              ∧ c.outputBuffer.getReadableLen = 0 ∧ r.1.channel.isWriting = false))) := by
  unfold handleWrite at h
  split at h
  . next hwriting =>
    rw [Option.bind_eq_bind, Option.bind_eq_some_iff] at h
    rcases h with ⟨sent, -, h⟩
    split at h
    . next bytes =>
      dsimp only at h
      split at h
      . next hempty =>
        rw [Bool.and_eq_true, beq_iff_eq] at hempty
        cases h
        refine ⟨rfl, Or.inr ⟨hwriting, bytes, _, rfl, ?_⟩⟩
        rw [List.forall_mem_append]
        constructor
        . intro a ha
          left
          unfold writeComplete at ha
          split at ha
          . simpa using ha
          . simp at ha
        . intro a ha
          right
          split at ha
          . next hstate =>
            exact ⟨(mem_shutdownInLoop ha).1, hstate, hempty.2, (mem_shutdownInLoop ha).2⟩
          . simp at ha
      . cases h
        refine ⟨rfl, Or.inr ⟨hwriting, bytes, [], rfl, ?_⟩⟩
        simp
    . cases h
      refine ⟨rfl, Or.inr ⟨hwriting, [], [], rfl, ?_⟩⟩
      simp
  . cases h
    exact ⟨rfl, Or.inl rfl⟩

theorem handleWrite_conn {r : TcpConnection × List Action} (h : c.handleWrite res = some r)
    : r.1 = c
      ∨ c.channel.isWriting = true ∧ c.outputBuffer.getReadableLen = 0
        ∧ r.1 = { c with channel := c.channel.disableWriting } := by
  unfold handleWrite at h
  split at h
  . next hwriting =>
    rw [Option.bind_eq_bind, Option.bind_eq_some_iff] at h
    rcases h with ⟨sent, -, h⟩
    split at h
    . dsimp only at h
      split at h
      . next hempty =>
        rw [Bool.and_eq_true, beq_iff_eq] at hempty
        cases h
        exact Or.inr ⟨hwriting, hempty.2, rfl⟩
      . cases h
        exact Or.inl rfl
    . cases h
      exact Or.inl rfl
  . cases h
    exact Or.inl rfl

theorem handleWrite_fd {r : TcpConnection × List Action} (h : c.handleWrite res = some r)
    : r.1.channel.fd = c.channel.fd := by
  rcases handleWrite_conn h with heq | ⟨-, -, heq⟩
  . rw [heq]
  . rw [heq]
    rfl

theorem handleClose_eq (c : TcpConnection)
    : c.handleClose
        =
      ({ c with state := .kDisconnected, channel := c.channel.disableAll },
        [.connectionCallback false, .closeCallback]) := by
  rfl

theorem handleRead_eq {received : ReadResult} {r : TcpConnection × List Action}
    (h : c.handleRead received = some r)
    : ∃ inputBuffer, r = ({ c with inputBuffer }, [.messageCallback])
      ∨ r = ({ c with inputBuffer }, [])
      ∨ r = { c with inputBuffer }.handleClose := by
  unfold handleRead at h
  rw [Option.bind_eq_bind, Option.bind_eq_some_iff] at h
  rcases h with ⟨⟨n, inputBuffer⟩, -, h⟩
  refine ⟨inputBuffer, ?_⟩
  dsimp only at h
  split at h
  . split at h
    . cases h
      exact Or.inl rfl
    . cases h
      exact Or.inr (Or.inr rfl)
  . cases h
    exact Or.inr (Or.inl rfl)

theorem handleRead_cases {received : ReadResult} {r : TcpConnection × List Action}
    (h : c.handleRead received = some r)
    : (r.1.state = c.state ∧ r.1.channel = c.channel ∧ (r.2 = [.messageCallback] ∨ r.2 = []))
      ∨ ∃ inputBuffer, r = { c with inputBuffer }.handleClose := by
  rcases handleRead_eq h with ⟨inputBuffer, rfl | rfl | rfl⟩
  . exact Or.inl ⟨rfl, rfl, Or.inl rfl⟩
  . exact Or.inl ⟨rfl, rfl, Or.inr rfl⟩
  . exact Or.inr ⟨inputBuffer, rfl⟩

theorem handleRead_error (c : TcpConnection) (errno : Errno)
    : c.handleRead (.error errno) = some (c, []) := by
  rfl

theorem readFd_ok {k : Kfifo} {bytes : List UInt8} {r : Except Errno Nat × Kfifo}
    (h : k.readFd (.ok bytes) = some r)
    : r.1 = .ok bytes.length := by
  unfold Kfifo.readFd at h
  rw [Option.bind_eq_bind, Option.bind_eq_some_iff] at h
  rcases h with ⟨mem, -, h⟩
  split at h
  . rw [Option.bind_eq_some_iff] at h
    rcases h with ⟨mem', -, h⟩
    cases h
    rfl
  . rw [Option.bind_eq_some_iff] at h
    rcases h with ⟨mem', -, h⟩
    dsimp only at h
    rw [Option.bind_eq_bind, Option.bind_eq_some_iff] at h
    rcases h with ⟨res, -, h⟩
    cases h
    rfl

theorem handleRead_pos {bytes : List UInt8} {r : TcpConnection × List Action}
    (hpos : 0 < bytes.length) (h : c.handleRead (.ok bytes) = some r)
    : ∃ inputBuffer, r = ({ c with inputBuffer }, [.messageCallback]) := by
  unfold handleRead at h
  rw [Option.bind_eq_bind, Option.bind_eq_some_iff] at h
  rcases h with ⟨res, hres, h⟩
  dsimp only at h
  rw [readFd_ok hres] at h
  dsimp only at h
  rw [if_pos hpos] at h
  cases h
  exact ⟨res.2, rfl⟩

theorem handleRead_ok {bytes : List UInt8} {r : TcpConnection × List Action}
    (h : c.handleRead (.ok bytes) = some r)
    : .messageCallback ∈ r.2 ∨ .closeCallback ∈ r.2 := by
  unfold handleRead at h
  rw [Option.bind_eq_bind, Option.bind_eq_some_iff] at h
  rcases h with ⟨res, hres, h⟩
  dsimp only at h
  rw [readFd_ok hres] at h
  dsimp only at h
  split at h
  . cases h
    left
    apply List.mem_singleton_self
  . cases h
    right
    simp [handleClose_eq]

def fresh : TcpConnection := (TcpConnection.new 6).get rfl

theorem new_fresh : TcpConnection.new 6 = some fresh :=
  (Option.some_get _).symm

theorem fresh_setCallbacks
    : (fresh.setWriteCompleteCallback false).setHighWaterMarkCallback false defaultHighWaterMark
      =
      fresh := by
  rfl

end TcpConnection
