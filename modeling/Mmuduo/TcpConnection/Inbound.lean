import Mmuduo.Kfifo.Wrap
import Mmuduo.TcpConnection.Lemmas

namespace TcpConnection

structure Inbound where
  conn : TcpConnection
  received : List UInt8
  taken : List UInt8

namespace Inbound

inductive Event where
  | handleRead (delivered : ReadResult)
  -- `readBuffer` on the input buffer into an array of the given size, by the message callback
  | readInput (outSize : UInt32)

def start (conn : TcpConnection) : Inbound :=
  { conn := conn.connectEstablished.1, received := [], taken := [] }

def delivered : ReadResult → List UInt8
  | .ok bytes => bytes
  | .error _ => []

def handleRead (s : Inbound) (res : ReadResult) : Option Inbound := do
  let r ← s.conn.handleRead res
  return { s with conn := r.1, received := s.received ++ delivered res }

def readInput (s : Inbound) (outSize : UInt32) : Option Inbound := do
  let r ← s.conn.inputBuffer.readBuffer (some (List.replicate outSize.toNat 0)) outSize
  let out ← r.2.1
  return {
    s with
    conn := { s.conn with inputBuffer := r.2.2 }
    taken := s.taken ++ out.take r.1.toNat
  }

def system : LTS Inbound Event where
  Init s := ∃ sockfd conn cb cb' mark, TcpConnection.new sockfd = some conn
    ∧ s = start ((conn.setWriteCompleteCallback cb).setHighWaterMarkCallback cb' mark)
  next s
    | .handleRead res => s.handleRead res
    | .readInput outSize => s.readInput outSize

def Streams (s : Inbound) : Prop :=
  s.taken ++ s.conn.inputBuffer.content = s.received

structure Intact (s : Inbound) : Prop where
  inv : s.conn.inputBuffer.Inv
  stream : s.Streams

def FitsTail (s : Inbound) : Event → Prop
  | .handleRead res =>
    (delivered res).length ≤ s.conn.inputBuffer.getRemainLen.toNat
      ∧ (delivered res).length ≤ s.conn.inputBuffer.writableByte
  | .readInput _ => True

instance (s : Inbound) : ∀ e, Decidable (s.FitsTail e)
  | .handleRead _ => inferInstanceAs (Decidable (_ ∧ _))
  | .readInput _ => isTrue trivial

section ReadFd

variable {k : Kfifo}

theorem readFd_eq_some_iff (h : k.Inv) (bytes : List UInt8)
    : ∃ k', k.readFd (.ok bytes) = some (.ok bytes.length, k')
        ∧ (k'.content = k.content ++ bytes
          ↔ bytes.length ≤ k.getRemainLen.toNat ∧ bytes.length ≤ k.writableByte)
        ∧ (k'.content = k.content ++ bytes → k'.Inv) := by
  rcases h.alloc with ⟨mem, halloc⟩
  have hremain := h.toNat_getRemainLen
  have hle := h.le
  have hlen := halloc.length_eq
  by_cases htail : bytes.length ≤ k.writableByte
  . have hwhole : bytes.length ≤ mem.length := by
      have := halloc.writableByte_eq
      omega
    have hfits : (k.extend mem bytes).content = k.content ++ bytes →
        k.unread + bytes.length ≤ mem.length := by
      intro hcontent
      have hshort := (Kfifo.extend_alloc halloc hwhole).length_content_le
      rw [hcontent, List.length_append, h.length_content] at hshort
      rw [hlen]
      exact hshort
    refine ⟨_, Kfifo.readFd_eq_extend halloc htail, ?_, ?_⟩
    . constructor
      . intro hcontent
        have := hfits hcontent
        exact ⟨by omega, htail⟩
      . rintro ⟨hroom, -⟩
        exact Kfifo.content_extend halloc (by omega)
    . exact fun hcontent => Kfifo.extend_inv halloc (hfits hcontent)
  . have hsrc : (UInt32.ofNat (bytes.length - k.writableByte)).toNat
        ≤ (bytes.drop k.writableByte
          ++ List.replicate (Kfifo.extrabufSize - (bytes.drop k.writableByte).length) 0).length := by
      rw [UInt32.toNat_ofNat', List.length_append, List.length_drop]
      have := Nat.mod_le (bytes.length - k.writableByte) (2 ^ 32)
      omega
    rcases Kfifo.writeBuffer_spec (Kfifo.fillTail_inv h halloc) hsrc with ⟨n, k', hwrite, -⟩
    have hread := Kfifo.readFd_eq_writeBuffer halloc htail
    rw [hwrite, Option.map_some] at hread
    have hlost : k'.content ≠ k.content ++ bytes := by
      intro hcontent
      have hshort := Kfifo.length_content_readFd_le h htail hread
      have hpos : 0 < k.writableByte := by
        have := halloc.index_lt k.write
        have := halloc.writableByte_eq
        omega
      dsimp only at hshort
      rw [hcontent, List.length_append, h.length_content] at hshort
      omega
    refine ⟨k', hread, ?_, ?_⟩
    . exact iff_of_false hlost fun hfits => htail hfits.2
    . exact fun hcontent => absurd hcontent hlost

end ReadFd

theorem readBuffer_take {k : Kfifo} (h : k.Inv) (outSize : UInt32)
    : ∃ n out k',
      k.readBuffer (some (List.replicate outSize.toNat 0)) outSize = some (n, some out, k')
        ∧ k'.Inv ∧ out.take n.toNat ++ k'.content = k.content := by
  by_cases hzero : outSize = 0
  . subst hzero
    exact ⟨_, _, k, k.readBuffer_zero _, h, rfl⟩
  . have hdst : outSize.toNat ≤ (List.replicate outSize.toNat (0 : UInt8)).length := by
      rw [List.length_replicate]
    have hread := Kfifo.readBuffer_eq_consume h hzero hdst
    refine ⟨_, _, _, hread, Kfifo.consume_inv h (Nat.min_le_right _ _), ?_⟩
    have hcount : (Kfifo.minU32 outSize k.getReadableLen).toNat = min outSize.toNat k.unread :=
      Kfifo.toNat_minU32 _ _
    have hlen : (k.content.take (min outSize.toNat k.unread)).length
        = min outSize.toNat k.unread := by
      rw [List.length_take, h.length_content]
      omega
    rw [Kfifo.content_consume h (Nat.min_le_right _ _), hcount, List.take_left' hlen,
      List.take_append_drop]

theorem handleRead_ok_eq {c : TcpConnection} {bytes : List UInt8} {k' : Kfifo}
    (h : c.inputBuffer.readFd (.ok bytes) = some (.ok bytes.length, k'))
    : ∃ r, c.handleRead (.ok bytes) = some r ∧ r.1.inputBuffer = k' := by
  unfold TcpConnection.handleRead
  rw [h]
  dsimp only [bind, Option.bind]
  split
  . exact ⟨_, rfl, rfl⟩
  . exact ⟨_, rfl, rfl⟩

theorem handleRead_streams_iff {s : Inbound} (h : s.Intact) {res : ReadResult}
    : ∃ s', system.next s (.handleRead res) = some s'
      ∧ (s'.Streams ↔ s.FitsTail (.handleRead res)) ∧ (s'.Streams → s'.Intact) := by
  have hstream := h.stream
  unfold Streams at hstream
  cases res with
  | ok bytes =>
    rcases readFd_eq_some_iff h.inv bytes with ⟨k', hread, hiff, hinv⟩
    rcases handleRead_ok_eq hread with ⟨r, hhandle, hbuffer⟩
    have hnext : system.next s (.handleRead (.ok bytes))
        = some { s with conn := r.1, received := s.received ++ bytes } := by
      simp only [system, Inbound.handleRead, hhandle]
      rfl
    have hcontent : s.taken ++ r.1.inputBuffer.content = s.received ++ bytes
        ↔ k'.content = s.conn.inputBuffer.content ++ bytes := by
      rw [hbuffer, ← hstream, List.append_assoc, List.append_cancel_left_eq]
    refine ⟨_, hnext, hcontent.trans hiff, ?_⟩
    intro hstreams
    refine ⟨?_, hstreams⟩
    dsimp only
    rw [hbuffer]
    exact hinv (hcontent.mp hstreams)
  | error errno =>
    have hnext : system.next s (.handleRead (.error errno))
        = some { s with received := s.received ++ [] } := rfl
    have hintact : Intact { s with received := s.received ++ [] } := by
      refine ⟨h.inv, ?_⟩
      unfold Streams
      dsimp only
      rw [List.append_nil]
      exact hstream
    refine ⟨_, hnext, ?_, fun _ => hintact⟩
    exact iff_of_true hintact.stream ⟨Nat.zero_le _, Nat.zero_le _⟩

theorem readInput_intact {s : Inbound} (h : s.Intact) (outSize : UInt32)
    : ∃ s', system.next s (.readInput outSize) = some s' ∧ s'.Intact := by
  have hstream := h.stream
  unfold Streams at hstream
  rcases readBuffer_take h.inv outSize with ⟨n, out, k', hread, hinv, htake⟩
  have hnext : system.next s (.readInput outSize)
      = some { s with
        conn := { s.conn with inputBuffer := k' }
        taken := s.taken ++ out.take n.toNat } := by
    simp only [system, readInput, hread]
    rfl
  refine ⟨_, hnext, hinv, ?_⟩
  unfold Streams
  dsimp only
  rw [List.append_assoc, htake, hstream]

theorem step_streams_iff {s : Inbound} {e : Event} (h : s.Intact)
    : ∃ s', system.next s e = some s' ∧ (s'.Streams ↔ s.FitsTail e) ∧ (s'.Streams → s'.Intact) := by
  cases e with
  | handleRead res => exact handleRead_streams_iff h
  | readInput outSize =>
    rcases readInput_intact h outSize with ⟨s', hnext, hintact⟩
    exact ⟨s', hnext, iff_of_true hintact.stream trivial, fun _ => hintact⟩

theorem init_intact {s : Inbound} (h : system.Init s) : s.Intact := by
  rcases h with ⟨sockfd, conn, cb, cb', mark, hnew, rfl⟩
  unfold TcpConnection.new at hnew
  simp only [Option.pure_def, Option.bind_eq_bind, Option.bind_eq_some_iff, Option.some.injEq] at hnew
  rcases hnew with ⟨⟨b, input⟩, hinput, output, -, rfl⟩
  rcases Kfifo.initBuffer_eq_some hinput with ⟨hinv, hcontent, -⟩
  exact ⟨hinv, hcontent⟩

/--
The message callback gets the bytes of the peer in order, each one once, as long as every read fits into
the free room and into the tail of the array, and a read that does not breaks the stream.
-/
theorem inbound_intact_iff {s : Inbound} (hinit : system.Init s) (es : List Event)
    : ((∀ fs s', fs <+: es → system.run s fs = some s' →
          s'.taken ++ s'.conn.inputBuffer.content = s'.received)
        ↔
        system.Along FitsTail s es)
      ∧ (system.Along FitsTail s es →
        ∀ fs s', fs <+: es → system.run s fs = some s' → s'.Intact) := by
  have hstep : ∀ s e, s.Intact → ∃ s', system.next s e = some s'
      ∧ (s'.Streams ↔ s.FitsTail e) ∧ (s'.Streams → s'.Intact) :=
    fun s e hs => step_streams_iff hs
  have hkeep : ∀ s e, s.Intact → ∃ s', system.next s e = some s'
      ∧ (s'.Intact ↔ s.FitsTail e) ∧ (s'.Intact → s'.Intact) := by
    intro s e hs
    rcases hstep s e hs with ⟨s', hnext, hiff, hback⟩
    exact ⟨s', hnext, ⟨fun hs' => hiff.mp hs'.stream, fun hfits => hback (hiff.mpr hfits)⟩, id⟩
  refine ⟨?_, ?_⟩
  . exact system.always_iff_along (fun _ hs => hs.stream) hstep (init_intact hinit) es
  . exact (system.always_iff_along (fun _ => id) hkeep (init_intact hinit) es).mpr

theorem fresh_init : system.Init (start fresh) :=
  ⟨6, fresh, false, false, _, new_fresh, by rw [fresh_setCallbacks]⟩

def twoReads : List Event :=
  [.handleRead (.ok [1, 2, 3]), .readInput 2, .handleRead (.ok [4]), .readInput 9]

theorem inbound_intact_iff_twoReads
    : ∃ s', system.run (start fresh) twoReads = some s' ∧ s'.taken = [1, 2, 3, 4] ∧ s'.Intact := by
  have hrun : (system.run (start fresh) twoReads).map taken = some [1, 2, 3, 4] := by
    decide +kernel
  have hfits : system.Along FitsTail (start fresh) twoReads := by
    decide +kernel
  rcases Option.map_eq_some_iff.mp hrun with ⟨s', hrun, htaken⟩
  refine ⟨s', hrun, htaken, ?_⟩
  exact (inbound_intact_iff fresh_init twoReads).2 hfits twoReads s' List.prefix_rfl hrun

end Inbound

end TcpConnection
