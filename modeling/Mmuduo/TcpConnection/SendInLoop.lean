import Mmuduo.Kfifo.Lemmas
import Mmuduo.TcpConnection.Lemmas

namespace TcpConnection

@[simp]
theorem accepted_nil : accepted [] = [] := by
  rfl

@[simp]
theorem accepted_append (xs ys : List Action) : accepted (xs ++ ys) = accepted xs ++ accepted ys := by
  simp [accepted]

@[simp]
theorem accepted_cons_write (bytes : List UInt8) (actions : List Action)
    : accepted (.write bytes :: actions) = bytes ++ accepted actions := by
  simp [accepted]

@[simp]
theorem accepted_writeComplete (c : TcpConnection) : accepted c.writeComplete = [] := by
  unfold writeComplete
  split
  . simp [accepted]
  . simp

@[simp]
theorem accepted_highWater (c : TcpConnection) (remaining : Nat)
    : accepted (c.highWater remaining) = [] := by
  unfold highWater
  dsimp
  split
  . simp [accepted]
  . simp

@[simp]
theorem accepted_shutdownInLoop (c : TcpConnection) : accepted c.shutdownInLoop = [] := by
  unfold shutdownInLoop
  split
  . simp [accepted]
  . simp

/--
The results that the kernel can give for `n` offered bytes, short of a broken connection.
-/
def Offered (n : Nat) : WriteResult → Prop
  | .ok m => m ≤ n
  | .error errno => errno ≠ .EPIPE ∧ errno ≠ .ECONNRESET

instance (n : Nat) : ∀ res, Decidable (Offered n res)
  | .ok m => inferInstanceAs (Decidable (m ≤ n))
  | .error errno => inferInstanceAs (Decidable (errno ≠ .EPIPE ∧ errno ≠ .ECONNRESET))

def Returned (n : Nat) (res : WriteResult) : Prop :=
  ∀ m, res = .ok m → m ≤ n

instance (n : Nat) : ∀ res, Decidable (Returned n res)
  | .ok m => decidable_of_iff (m ≤ n) (by simp [Returned])
  | .error _ => isTrue (by simp [Returned])

theorem Offered.returned {n : Nat} {res : WriteResult} (h : Offered n res) : Returned n res := by
  intro m hm
  rw [hm] at h
  exact h

section SendInLoop

variable {c : TcpConnection} {data : List UInt8} {res : WriteResult}

def toStore (c : TcpConnection) (data : List UInt8) (res : WriteResult) : Nat :=
  if c.writesDirectly then
    match res with
    | .ok n => data.length - n
    | .error errno => if errno = .EPIPE ∨ errno = .ECONNRESET then 0 else data.length
  else
    data.length

theorem toStore_eq (c : TcpConnection) (data : List UInt8) (res : WriteResult)
    : c.toStore data res
      =
      if (c.firstWrite data res).hasRest then (c.firstWrite data res).remaining else 0 := by
  have hpos : ∀ n : Nat, (if decide (0 < n) = true then n else 0) = n := by
    intro n
    split
    . rfl
    . next h =>
      rw [decide_eq_true_eq] at h
      omega
  unfold toStore firstWrite Direct.hasRest
  split
  . cases res with
    | ok n =>
      simp only [writeDirect, Bool.not_false, Bool.true_and]
      exact (hpos _).symm
    | error errno =>
      by_cases hfault : errno = .EPIPE ∨ errno = .ECONNRESET
      . rcases hfault with hfault | hfault
        . simp [writeDirect, hfault]
        . simp [writeDirect, hfault]
      . rw [not_or] at hfault
        simp only [writeDirect, hfault, decide_false, Bool.or_self, Bool.not_false, Bool.true_and,
          or_self, if_false, hpos]
  . simp only [Direct.skipped, Bool.not_false, Bool.true_and]
    exact (hpos _).symm

theorem nwrote_add_toStore (hres : Offered data.length res)
    : (c.firstWrite data res).nwrote + c.toStore data res = data.length := by
  unfold toStore firstWrite
  split
  . cases res with
    | ok n =>
      simp only [Offered] at hres
      simp only [writeDirect]
      omega
    | error errno => simp [writeDirect, hres.1, hres.2]
  . simp [Direct.skipped]

theorem firstWrite_spec (hres : Returned data.length res)
    : (c.firstWrite data res).nwrote ≤ data.length
      ∧ accepted (c.firstWrite data res).actions = data.take (c.firstWrite data res).nwrote
      ∧ ((c.firstWrite data res).faultError = false →
        (c.firstWrite data res).nwrote + (c.firstWrite data res).remaining = data.length) := by
  unfold firstWrite
  split
  . cases res with
    | ok n =>
      have hn := hres n rfl
      refine ⟨hn, ?_, ?_⟩
      . simp only [writeDirect, accepted_cons_write]
        split
        . simp
        . simp
      . intro _
        simp only [writeDirect]
        omega
    | error errno => simp [writeDirect]
  . simp [Direct.skipped]

def storeChannel (c : TcpConnection) : Channel :=
  if c.channel.isWriting then c.channel else c.channel.enableWriting

theorem storeRest_spec (hinv : c.outputBuffer.Inv) (rest : List UInt8)
    : ∃ k', c.storeRest rest rest.length
          = some ({ c with outputBuffer := k', channel := c.storeChannel },
            c.highWater rest.length)
        ∧ k'.Inv
        ∧ k'.content = c.outputBuffer.content
          ++ rest.take (min (rest.length % 2 ^ 32)
            (c.outputBuffer.bufferSize.toNat - c.outputBuffer.unread))
        ∧ k'.bufferSize = c.outputBuffer.bufferSize
        ∧ k'.read = c.outputBuffer.read := by
  have hcount : (UInt32.ofNat rest.length).toNat = rest.length % 2 ^ 32 := UInt32.toNat_ofNat'
  have hle : (UInt32.ofNat rest.length).toNat ≤ rest.length := by
    rw [hcount]
    apply Nat.mod_le
  rcases Kfifo.writeBuffer_spec hinv hle with ⟨n, k', hwrite, hinv', hcontent, hsize, hread⟩
  rw [hcount] at hcontent
  refine ⟨k', ?_, hinv', hcontent, hsize, hread⟩
  unfold storeRest
  rw [hwrite]
  rfl

theorem mem_writeComplete {a : Action} (h : a ∈ c.writeComplete) : a = .queueWriteComplete := by
  unfold writeComplete at h
  split at h
  . exact List.mem_singleton.mp h
  . cases h

theorem mem_highWater {a : Action} {remaining : Nat}
    : a ∈ c.highWater remaining
      ↔
      a = .queueHighWaterMark (c.outputBuffer.unread + remaining)
        ∧ c.highWaterMark ≤ c.outputBuffer.unread + remaining
        ∧ c.outputBuffer.unread < c.highWaterMark
        ∧ c.hasHighWaterMarkCallback = true := by
  unfold highWater Kfifo.unread
  dsimp only
  split
  . next h =>
    simp only [Bool.and_eq_true, decide_eq_true_eq] at h
    simp [h]
  . next h =>
    simp only [Bool.and_eq_true, decide_eq_true_eq] at h
    simp only [List.not_mem_nil, false_iff]
    rintro ⟨-, hmark, hlt, hcb⟩
    exact h ⟨⟨hmark, hlt⟩, hcb⟩

theorem mem_firstWrite {a : Action} (h : a ∈ (c.firstWrite data res).actions)
    : (∃ bytes, a = .write bytes) ∧ c.outputBuffer.unread = 0 ∨ a = .queueWriteComplete := by
  unfold firstWrite at h
  split at h
  . next hdirect =>
    simp only [writesDirectly, Bool.and_eq_true, beq_iff_eq] at hdirect
    have hunread : c.outputBuffer.unread = 0 := by
      unfold Kfifo.unread
      rw [hdirect.2]
      rfl
    cases res with
    | ok n =>
      simp only [writeDirect, List.mem_cons] at h
      rcases h with h | h
      . exact Or.inl ⟨⟨_, h⟩, hunread⟩
      . split at h
        . exact Or.inr (mem_writeComplete h)
        . cases h
    | error errno => exact Or.inl ⟨⟨_, List.mem_singleton.mp h⟩, hunread⟩
  . cases h

theorem highWater_zero (c : TcpConnection) : c.highWater 0 = [] := by
  rw [List.eq_nil_iff_forall_not_mem]
  intro a hmem
  rcases mem_highWater.mp hmem with ⟨-, hle, hlt, -⟩
  omega

theorem sendInLoop_eq (hstate : c.state ≠ .kDisconnected) (hinv : c.outputBuffer.Inv)
    (hres : Returned data.length res)
    : ∃ k', c.sendInLoop data res
          = some (
            { c with
              outputBuffer := k'
              channel := if 0 < c.toStore data res then c.storeChannel else c.channel },
            (c.firstWrite data res).actions ++ c.highWater (c.toStore data res))
        ∧ k'.Inv
        ∧ k'.content = c.outputBuffer.content
          ++ (data.drop (c.firstWrite data res).nwrote).take (min (c.toStore data res % 2 ^ 32)
            (c.outputBuffer.bufferSize.toNat - c.outputBuffer.unread))
        ∧ k'.bufferSize = c.outputBuffer.bufferSize
        ∧ k'.read = c.outputBuffer.read := by
  have hstore := toStore_eq c data res
  unfold sendInLoop
  rw [if_neg hstate]
  dsimp only
  split
  . next hrest =>
    rw [if_pos hrest] at hstore
    rw [Direct.hasRest, Bool.and_eq_true, Bool.not_eq_true', decide_eq_true_eq] at hrest
    have hlen : (data.drop (c.firstWrite data res).nwrote).length
        = (c.firstWrite data res).remaining := by
      have := (firstWrite_spec hres).2.2 hrest.1
      rw [List.length_drop]
      omega
    rcases storeRest_spec hinv (data.drop (c.firstWrite data res).nwrote) with ⟨k', heq, hspec⟩
    rw [hlen] at heq hspec
    rw [hstore]
    refine ⟨k', ?_, hspec⟩
    rw [heq, if_pos hrest.2]
    rfl
  . next hrest =>
    rw [if_neg hrest] at hstore
    rw [hstore]
    refine ⟨c.outputBuffer, ?_, hinv, ?_, rfl, rfl⟩
    . rw [highWater_zero, List.append_nil]
      rfl
    . simp

structure Sent (c : TcpConnection) (data : List UInt8) (res : WriteResult) (c' : TcpConnection)
    (actions : List Action) : Prop where
  conn : c' = { c with outputBuffer := c'.outputBuffer, channel := c'.channel }
  inv : c'.outputBuffer.Inv
  bufferSize : c'.outputBuffer.bufferSize = c.outputBuffer.bufferSize
  read : c'.outputBuffer.read = c.outputBuffer.read
  taken : accepted actions = data.take (accepted actions).length
  whole : Offered data.length res → (accepted actions).length + c.toStore data res = data.length
  stored : c'.outputBuffer.content = c.outputBuffer.content
    ++ (data.drop (accepted actions).length).take (min (c.toStore data res % 2 ^ 32)
      (c.outputBuffer.bufferSize.toNat - c.outputBuffer.unread))
  left : (accepted actions).length + c.toStore data res ≤ data.length
  channel : c'.channel = if 0 < c.toStore data res then c.storeChannel else c.channel
  direct : ∀ bytes, .write bytes ∈ actions → c.outputBuffer.unread = 0
  highWater : ∀ size, .queueHighWaterMark size ∈ actions
    ↔ .queueHighWaterMark size ∈ c.highWater (c.toStore data res)

theorem sendInLoop_spec (hstate : c.state ≠ .kDisconnected) (hinv : c.outputBuffer.Inv)
    (hres : Returned data.length res)
    : ∃ c' actions, c.sendInLoop data res = some (c', actions) ∧ Sent c data res c' actions := by
  rcases firstWrite_spec (c := c) hres with ⟨hnwrote, hacc, hsum⟩
  rcases sendInLoop_eq hstate hinv hres with ⟨k', heq, hinv', hcontent, hsize, hread⟩
  have haccepted : accepted ((c.firstWrite data res).actions ++ c.highWater (c.toStore data res))
      = data.take (c.firstWrite data res).nwrote := by
    rw [accepted_append, accepted_highWater, List.append_nil, hacc]
  have hlen : (data.take (c.firstWrite data res).nwrote).length = (c.firstWrite data res).nwrote := by
    rw [List.length_take]
    omega
  refine ⟨_, _, heq, ?_⟩
  constructor
  . rfl
  . exact hinv'
  . exact hsize
  . exact hread
  . rw [haccepted, hlen]
  . intro hoffered
    rw [haccepted, hlen]
    exact nwrote_add_toStore hoffered
  . rw [haccepted, hlen]
    exact hcontent
  . rw [haccepted, hlen, toStore_eq]
    split
    . next hrest =>
      rw [Direct.hasRest, Bool.and_eq_true, Bool.not_eq_true'] at hrest
      apply (hsum hrest.1).le
    . exact hnwrote
  . rfl
  . intro bytes hmem
    rcases List.mem_append.mp hmem with hmem | hmem
    . rcases mem_firstWrite hmem with ⟨-, hunread⟩ | hcomplete
      . exact hunread
      . cases hcomplete
    . cases (mem_highWater.mp hmem).1
  . intro size
    rw [List.mem_append]
    apply or_iff_right
    intro hmem
    rcases mem_firstWrite hmem with ⟨⟨bytes, hwrite⟩, -⟩ | hcomplete
    . cases hwrite
    . cases hcomplete

theorem accepted_eq_nil {actions : List Action} (h : ∀ bytes, .write bytes ∉ actions)
    : accepted actions = [] := by
  unfold accepted
  rw [List.flatMap_eq_nil_iff]
  intro a ha
  cases a with
  | write bytes => exact absurd ha (h bytes)
  | _ => rfl

namespace Sent

variable {c' : TcpConnection} {actions : List Action}

theorem accepted_append_content (h : Sent c data res c' actions) (hinv : c.outputBuffer.Inv)
    : accepted actions ++ c.outputBuffer.content = c.outputBuffer.content ++ accepted actions := by
  by_cases hunread : c.outputBuffer.unread = 0
  . have hnil : c.outputBuffer.content = [] := by
      rw [← List.length_eq_zero_iff, hinv.length_content, hunread]
    rw [hnil, List.append_nil, List.nil_append]
  . have hnil : accepted actions = [] := by
      apply accepted_eq_nil
      intro bytes hmem
      exact hunread (h.direct bytes hmem)
    rw [hnil, List.append_nil, List.nil_append]

theorem unread_eq (h : Sent c data res c' actions) (hinv : c.outputBuffer.Inv)
    : c'.outputBuffer.unread
      =
      c.outputBuffer.unread + min (c.toStore data res % 2 ^ 32)
        (c.outputBuffer.bufferSize.toNat - c.outputBuffer.unread) := by
  have hleft := h.left
  have hmod := Nat.mod_le (c.toStore data res) (2 ^ 32)
  have hlen := congrArg List.length h.stored
  rw [List.length_append, List.length_take, List.length_drop] at hlen
  rw [h.inv.length_content, hinv.length_content] at hlen
  omega

theorem keeps_iff (h : Sent c data res c' actions) (hinv : c.outputBuffer.Inv)
    (hres : Offered data.length res)
    : accepted actions ++ c'.outputBuffer.content = c.outputBuffer.content ++ data
      ↔
      c.outputBuffer.unread + c.toStore data res ≤ c.outputBuffer.bufferSize.toNat := by
  have hwhole := h.whole hres
  have hle := hinv.le
  constructor
  . intro heq
    have hlen := congrArg List.length heq
    rw [List.length_append, List.length_append] at hlen
    rw [h.inv.length_content, hinv.length_content, h.unread_eq hinv] at hlen
    omega
  . intro hfits
    have hsize : c.outputBuffer.bufferSize.toNat < 2 ^ 32 := c.outputBuffer.bufferSize.toNat_lt
    have hmin : min (c.toStore data res % 2 ^ 32)
        (c.outputBuffer.bufferSize.toNat - c.outputBuffer.unread) = c.toStore data res := by
      omega
    rw [h.stored, hmin, ← List.append_assoc, h.accepted_append_content hinv, List.append_assoc]
    rw [List.take_of_length_le]
    . nth_rewrite 1 [h.taken]
      rw [List.take_append_drop]
    . rw [List.length_drop]
      omega

end Sent

end SendInLoop

theorem new_outputBuffer {sockfd : Nat} {conn : TcpConnection} (h : new sockfd = some conn)
    : conn.outputBuffer.Inv ∧ conn.outputBuffer.content = [] ∧ conn.outputBuffer.read = 0
      ∧ conn.channel = Channel.new sockfd := by
  unfold new at h
  simp only [Option.pure_def, Option.bind_eq_bind, Option.bind_eq_some_iff, Option.some.injEq] at h
  rcases h with ⟨input, -, ⟨b, output⟩, hinit, rfl⟩
  rcases Kfifo.initBuffer_eq_some hinit with ⟨hinv, hcontent, -, hread⟩
  exact ⟨hinv, hcontent, hread, rfl⟩

theorem fresh_inv : fresh.outputBuffer.Inv :=
  (new_outputBuffer new_fresh).1

theorem sendInLoop_keeps_iff (c : TcpConnection) (data : List UInt8) (res : WriteResult)
    (hstate : c.state ≠ .kDisconnected) (hinv : c.outputBuffer.Inv) (hres : Offered data.length res)
    : ∃ c' actions, c.sendInLoop data res = some (c', actions)
        ∧ (accepted actions ++ c'.outputBuffer.content = c.outputBuffer.content ++ data
          ↔
          c.outputBuffer.unread + c.toStore data res ≤ c.outputBuffer.bufferSize.toNat) := by
  rcases sendInLoop_spec hstate hinv hres.returned with ⟨c', actions, hsend, hsent⟩
  exact ⟨c', actions, hsend, hsent.keeps_iff hinv hres⟩

theorem sendInLoop_keeps_iff_short
    : ∃ c' actions, fresh.connectEstablished.1.sendInLoop [1, 2, 3] (.ok 1) = some (c', actions)
        ∧ accepted actions ++ c'.outputBuffer.content = [1, 2, 3] := by
  rcases sendInLoop_keeps_iff fresh.connectEstablished.1 [1, 2, 3] (.ok 1) (by decide) fresh_inv
    (by decide) with ⟨c', actions, hsend, hiff⟩
  refine ⟨c', actions, hsend, ?_⟩
  apply hiff.mpr
  decide +kernel

theorem sendInLoop_loses
    : ¬∀ (c : TcpConnection) (data : List UInt8) (res : WriteResult), c.state ≠ .kDisconnected →
        c.outputBuffer.Inv → Offered data.length res →
        ∃ c' actions, c.sendInLoop data res = some (c', actions)
          ∧ accepted actions ++ c'.outputBuffer.content = c.outputBuffer.content ++ data := by
  intro h
  have hoffered : Offered (List.replicate 5000 (0 : UInt8)).length (.error .EWOULDBLOCK) := by
    decide
  rcases h fresh.connectEstablished.1 (List.replicate 5000 0) (.error .EWOULDBLOCK) (by decide)
    fresh_inv hoffered with ⟨c', actions, hsend, hkeeps⟩
  rcases sendInLoop_spec (c := fresh.connectEstablished.1) (by decide) fresh_inv hoffered.returned
    with ⟨c'', actions', hsend', hsent⟩
  rw [hsend, Option.some.injEq, Prod.mk.injEq] at hsend'
  rw [← hsend'.1, ← hsend'.2] at hsent
  rw [hsent.keeps_iff fresh_inv hoffered] at hkeeps
  revert hkeeps
  decide +kernel

end TcpConnection
