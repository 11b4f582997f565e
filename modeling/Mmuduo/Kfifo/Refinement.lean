import Mmuduo.Kfifo.Lemmas
import Mmuduo.Lib.BoundedFifo

namespace Kfifo

structure CallerBuf where
  bytes : List UInt8
  pos : 0 < bytes.length
  lt : bytes.length < 2 ^ 32

def CallerBuf.size (buf : CallerBuf) : UInt32 :=
  UInt32.ofNat buf.bytes.length

theorem CallerBuf.toNat_size (buf : CallerBuf) : buf.size.toNat = buf.bytes.length := by
  unfold size
  rw [UInt32.toNat_ofNat']
  apply Nat.mod_eq_of_lt buf.lt

theorem CallerBuf.size_ne_zero (buf : CallerBuf) : buf.size ≠ 0 := by
  intro h
  have hsize := buf.toNat_size
  have hpos := buf.pos
  rw [h, UInt32.toNat_zero] at hsize
  omega

inductive Call where
  | writeBuffer (inBuf : CallerBuf)
  | readBuffer (outBuf : CallerBuf)
  | resetBuffer

structure Reply where
  count : Nat
  outBuf : List UInt8
  deriving DecidableEq, Repr

def call (k : Kfifo) (c : Call) : Option (Reply × Kfifo) :=
  match c with
  | .writeBuffer inBuf =>
    (k.writeBuffer (some inBuf.bytes) inBuf.size).map fun res => (⟨res.1.toNat, []⟩, res.2)
  | .readBuffer outBuf =>
    (k.readBuffer (some outBuf.bytes) outBuf.size).map fun res =>
      (⟨res.1.toNat, res.2.1.getD []⟩, res.2.2)
  | .resetBuffer => k.resetBuffer.map fun k => (⟨0, []⟩, k)

def calls (k : Kfifo) : List Call → Option (List Reply × Kfifo)
  | [] => some ([], k)
  | c :: cs => do
    let res ← k.call c
    let rest ← calls res.2 cs
    return (res.1 :: rest.1, rest.2)

def specCall (q : BoundedFifo UInt8 cap) (c : Call) : Reply × BoundedFifo UInt8 cap :=
  match c with
  | .writeBuffer inBuf => (⟨min inBuf.bytes.length q.room, []⟩, q.push inBuf.bytes)
  | .readBuffer outBuf =>
    let n := min outBuf.bytes.length q.cells.length
    (⟨n, q.cells.take n ++ outBuf.bytes.drop n⟩, q.pop n)
  | .resetBuffer => (⟨0, []⟩, .empty)

def specCalls (q : BoundedFifo UInt8 cap) : List Call → List Reply × BoundedFifo UInt8 cap
  | [] => ([], q)
  | c :: cs =>
    let res := specCall q c
    let rest := specCalls res.2 cs
    (res.1 :: rest.1, rest.2)

structure Refines (k : Kfifo) (q : BoundedFifo UInt8 cap) : Prop where
  inv : k.Inv
  cap_eq : k.bufferSize.toNat = cap
  content_eq : k.content = q.cells

theorem Refines.room_eq {k : Kfifo} {q : BoundedFifo UInt8 cap} (h : Refines k q)
    : k.getRemainLen.toNat = q.room := by
  rw [h.inv.toNat_getRemainLen, ← h.inv.length_content]
  rw [h.cap_eq, h.content_eq]
  rfl

theorem writeBuffer_refines {k : Kfifo} {q : BoundedFifo UInt8 cap} (h : Refines k q)
    (inBuf : CallerBuf)
    : ∃ k', k.call (.writeBuffer inBuf) = some ((specCall q (.writeBuffer inBuf)).1, k')
        ∧ Refines k' (specCall q (.writeBuffer inBuf)).2 := by
  rcases h.inv.alloc with ⟨mem, halloc⟩
  have hroom := h.room_eq
  have hremain := h.inv.toNat_getRemainLen
  have hlen := halloc.length_eq
  have htake : inBuf.bytes.take (min inBuf.bytes.length q.room) = inBuf.bytes.take q.room := by
    rw [Nat.min_comm, ← List.take_take, List.take_length]
  have hfit : k.unread + (inBuf.bytes.take q.room).length ≤ mem.length := by
    have := h.inv.le
    rw [List.length_take]
    omega
  unfold call
  dsimp
  rw [writeBuffer_eq_extend h.inv halloc inBuf.size_ne_zero (by rw [inBuf.toNat_size])]
  rw [inBuf.toNat_size, hroom, htake]
  refine ⟨k.extend mem (inBuf.bytes.take q.room), ?_, ?_⟩
  . simp only [Option.map_some, toNat_minU32, specCall]
    rw [inBuf.toNat_size, hroom]
  . refine ⟨extend_inv halloc hfit, h.cap_eq, ?_⟩
    rw [content_extend halloc hfit, h.content_eq]
    rfl

theorem readBuffer_refines {k : Kfifo} {q : BoundedFifo UInt8 cap} (h : Refines k q)
    (outBuf : CallerBuf)
    : ∃ k', k.call (.readBuffer outBuf) = some ((specCall q (.readBuffer outBuf)).1, k')
        ∧ Refines k' (specCall q (.readBuffer outBuf)).2 := by
  have hunread : k.unread = q.cells.length := by
    rw [← h.inv.length_content, h.content_eq]
  unfold call
  dsimp
  rw [readBuffer_eq_consume h.inv outBuf.size_ne_zero (by rw [outBuf.toNat_size])]
  rw [outBuf.toNat_size]
  refine ⟨k.consume (min outBuf.bytes.length k.unread), ?_, ?_⟩
  . simp only [Option.map_some, Option.getD_some, toNat_minU32, specCall]
    rw [outBuf.toNat_size, ← hunread, h.content_eq]
    rfl
  . refine ⟨consume_inv h.inv (Nat.min_le_right _ _), h.cap_eq, ?_⟩
    rw [content_consume h.inv (Nat.min_le_right _ _)]
    rw [h.content_eq, hunread]
    rfl

theorem resetBuffer_refines {k : Kfifo} {q : BoundedFifo UInt8 cap} (h : Refines k q)
    : ∃ k', k.call .resetBuffer = some ((specCall q .resetBuffer).1, k')
        ∧ Refines k' (specCall q .resetBuffer).2 := by
  rcases resetBuffer_eq_some h.inv with ⟨k', hreset, hinv, hcontent, hsize⟩
  unfold call
  dsimp
  rw [hreset]
  refine ⟨k', rfl, hinv, ?_, hcontent⟩
  rw [hsize]
  apply h.cap_eq

theorem call_refines {k : Kfifo} {q : BoundedFifo UInt8 cap} (h : Refines k q) (c : Call)
    : ∃ k', k.call c = some ((specCall q c).1, k') ∧ Refines k' (specCall q c).2 := by
  cases c with
  | writeBuffer inBuf => apply writeBuffer_refines h inBuf
  | readBuffer outBuf => apply readBuffer_refines h outBuf
  | resetBuffer => apply resetBuffer_refines h

theorem calls_refines {k : Kfifo} {q : BoundedFifo UInt8 cap} (h : Refines k q) (cs : List Call)
    : ∃ k', k.calls cs = some ((specCalls q cs).1, k') ∧ Refines k' (specCalls q cs).2 := by
  induction cs generalizing k q with
  | nil => exact ⟨k, rfl, h⟩
  | cons c cs ih =>
    rcases call_refines h c with ⟨k₁, hcall, h₁⟩
    rcases ih h₁ with ⟨k', hcalls, h'⟩
    refine ⟨k', ?_, h'⟩
    unfold calls
    rw [hcall]
    dsimp only [bind, Option.bind]
    rw [hcalls]
    rfl

theorem initBuffer_refines (k₀ : Kfifo) {size : UInt32} {i : Nat} (hsize : size.toNat = 2 ^ i)
    : ∃ k, k₀.initBuffer size = some (true, k)
        ∧ Refines k (BoundedFifo.empty : BoundedFifo UInt8 size.toNat) := by
  have hround : roundUp size = some size := by
    unfold roundUp
    rw [if_pos]
    rw [isPowerOfTwo_iff]
    exact ⟨i, hsize⟩
  have hinit : k₀.initBuffer size
      = some (true, ⟨some (List.replicate size.toNat 0), size, 0, 0⟩) := by
    unfold initBuffer
    rw [hround]
    rfl
  rcases initBuffer_eq_some hinit with ⟨hinv, hcontent, _⟩
  exact ⟨_, hinit, hinv, rfl, hcontent⟩

theorem calls_eq_specCalls (k₀ : Kfifo) (size : UInt32) (i : Nat) (hsize : size.toNat = 2 ^ i)
    : ∃ k, k₀.initBuffer size = some (true, k) ∧ ∀ cs, ∃ k', k.calls cs
          =
        some ((specCalls (BoundedFifo.empty : BoundedFifo UInt8 size.toNat) cs).1, k')
        ∧ k'.content
          =
        (specCalls (BoundedFifo.empty : BoundedFifo UInt8 size.toNat) cs).2.cells
        ∧ (k'.write - k'.read).toNat ≤ size.toNat := by
  rcases initBuffer_refines k₀ hsize with ⟨k, hinit, hrefines⟩
  refine ⟨k, hinit, ?_⟩
  intro cs
  rcases calls_refines hrefines cs with ⟨k', hcalls, href⟩
  refine ⟨k', hcalls, href.content_eq, ?_⟩
  have := href.inv.le
  rw [href.cap_eq] at this
  exact this

theorem calls_eq_specCalls_four
    : ∃ k, new.initBuffer 4 = some (true, k) ∧ ∃ k', k.calls
          [.writeBuffer ⟨[1, 2, 3], by decide, by decide⟩, .readBuffer ⟨[0, 0], by decide, by decide⟩,
            .writeBuffer ⟨[4, 5, 6, 7], by decide, by decide⟩]
          =
        some ([⟨3, []⟩, ⟨2, [1, 2]⟩, ⟨3, []⟩], k')
        ∧ k'.content = [3, 4, 5, 6]
        ∧ (k'.write - k'.read).toNat ≤ 4 := by
  rcases calls_eq_specCalls new 4 2 (by decide) with ⟨k, hinit, hcalls⟩
  exact ⟨k, hinit, hcalls _⟩

end Kfifo
