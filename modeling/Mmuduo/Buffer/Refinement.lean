import Mmuduo.Buffer.Impl
import Mmuduo.Lib.Transition

namespace Buffer

def content (b : Buffer) : List UInt8 :=
  (b.buffer.take b.writerIndex).drop b.readerIndex

def specCall (q : List UInt8) : Op → Reply × List UInt8
  | .append data => (.void, q ++ data)
  | .retrieve len => (.void, q.drop len)
  | .retrieveAll => (.void, [])
  | .retrieveAsString len => (.string (q.take len), q.drop len)
  | .retrieveAllAsString => (.string q, [])
  | .ensureWriteableBytes _ => (.void, q)
  | .readFd (.ok bytes) => (.read (.ok bytes.length), q ++ bytes)
  | .readFd (.error errno) => (.read (.error errno), q)
  | .writeFd (.ok n) => (.wrote (.ok (q.take n)), q)
  | .writeFd (.error errno) => (.wrote (.error errno), q)

def specCalls (q : List UInt8) : List Op → List Reply × List UInt8
  | [] => ([], q)
  | op :: ops =>
    let res := specCall q op
    let rest := specCalls res.2 ops
    (res.1 :: rest.1, rest.2)

def system : LTS Buffer Op where
  Init b := ∃ initialSize, b = new initialSize
  next b op := (b.call op).map (·.2)

structure Inv (b : Buffer) : Prop where
  prepend_le : kCheapPrepend ≤ b.readerIndex
  reader_le : b.readerIndex ≤ b.writerIndex
  writer_le : b.writerIndex ≤ b.buffer.length

def Moves (b : Buffer) (len : Nat) : Prop :=
  b.writableBytes < len ∧ b.mustGrow len = false

theorem new_inv (initialSize : Nat) : (new initialSize).Inv where
  prepend_le := Nat.le_refl _
  reader_le := Nat.le_refl _
  writer_le := by simp [new]

theorem content_new (initialSize : Nat) : (new initialSize).content = [] := by
  simp [content, new]

theorem lt_reader_of_moves {b : Buffer} {len : Nat} (hmoves : b.Moves len)
    : kCheapPrepend < b.readerIndex := by
  have hroom := hmoves.1
  have hgrow := hmoves.2
  unfold mustGrow prependableBytes at hgrow
  rw [decide_eq_false_iff_not] at hgrow
  omega

section Inv

variable {b : Buffer}

theorem Inv.length_content (h : b.Inv) : b.content.length = b.readableBytes := by
  have := h.writer_le
  simp only [content, readableBytes, List.length_drop, List.length_take]
  omega

theorem Inv.read_eq (h : b.Inv) {n : Nat} (hn : n ≤ b.readableBytes)
    : Mem.read b.buffer b.readerIndex n = some (b.content.take n) := by
  have hwriter := h.writer_le
  have hreader := h.reader_le
  unfold readableBytes at hn
  rw [Mem.read_eq_some (by omega)]
  unfold content
  rw [List.drop_take, List.take_take]
  rw [Nat.min_eq_left hn]

theorem retrieveAll_inv (b : Buffer) (h : b.Inv) : b.retrieveAll.Inv where
  prepend_le := Nat.le_refl _
  reader_le := Nat.le_refl _
  writer_le := by
    have := h.prepend_le
    have := h.reader_le
    have := h.writer_le
    simp only [retrieveAll]
    omega

theorem content_retrieveAll (b : Buffer) : b.retrieveAll.content = [] := by
  simp [content, retrieveAll]

theorem retrieve_spec (h : b.Inv) (len : Nat)
    : (b.retrieve len).Inv ∧ (b.retrieve len).content = b.content.drop len := by
  have hlen := h.length_content
  unfold retrieve
  split
  . next hlt =>
    unfold readableBytes at hlt
    refine ⟨⟨?_, ?_, h.writer_le⟩, ?_⟩
    . have := h.prepend_le
      dsimp only
      omega
    . dsimp only
      omega
    . simp [content, List.drop_drop]
  . next hge =>
    refine ⟨retrieveAll_inv b h, ?_⟩
    rw [content_retrieveAll, List.drop_of_length_le]
    omega

theorem retrieveAsString_spec (h : b.Inv) {len : Nat} (hlen : len ≤ b.readableBytes)
    : b.retrieveAsString len = some (b.content.take len, b.retrieve len) := by
  unfold retrieveAsString
  rw [h.read_eq hlen]
  rfl

theorem length_resize (buffer : List UInt8) (count : Nat) : (resize buffer count).length = count := by
  simp only [resize, List.length_append, List.length_take, List.length_replicate]
  omega

theorem grow_spec (h : b.Inv) (len : Nat)
    : Inv { b with buffer := resize b.buffer (b.writerIndex + len) }
      ∧ content { b with buffer := resize b.buffer (b.writerIndex + len) } = b.content
      ∧ len ≤ writableBytes { b with buffer := resize b.buffer (b.writerIndex + len) } := by
  have hwriter := h.writer_le
  have hlen := length_resize b.buffer (b.writerIndex + len)
  refine ⟨⟨h.prepend_le, h.reader_le, ?_⟩, ?_, ?_⟩
  . dsimp only
    omega
  . unfold content resize
    dsimp only
    rw [List.take_append_of_le_length]
    . rw [List.take_take, Nat.min_eq_left (by omega)]
    . rw [List.length_take]
      omega
  . unfold writableBytes
    dsimp only
    omega

theorem move_spec (h : b.Inv) {len : Nat} (hmoves : b.Moves len)
    : ∃ b', b.makeSpace len = some b' ∧ b'.Inv ∧ b'.content = b.content
      ∧ len ≤ b'.writableBytes := by
  have hdown := lt_reader_of_moves hmoves
  have hreader := h.reader_le
  have hwriter := h.writer_le
  have hlen := h.length_content
  have hread := h.read_eq (Nat.le_refl b.readableBytes)
  have hrange : b.readerIndex + b.readableBytes ≤ b.buffer.length := by
    unfold readableBytes
    omega
  rw [Mem.read_eq_some hrange, Option.some.injEq] at hread
  rw [List.take_of_length_le (Nat.le_of_eq hlen)] at hread
  have hsize : (Mem.overwrite b.buffer kCheapPrepend b.content).length = b.buffer.length := by
    apply Mem.length_overwrite
    rw [hlen]
    unfold readableBytes
    omega
  have hgrow := hmoves.2
  unfold makeSpace
  rw [hgrow]
  rw [if_neg (by simp)]
  dsimp only
  rw [Mem.copyWithin_eq_some hdown hrange]
  rw [hread]
  refine ⟨_, rfl, ⟨Nat.le_refl _, Nat.le_add_right _ _, ?_⟩, ?_, ?_⟩
  . dsimp only
    rw [hsize]
    unfold readableBytes
    omega
  . have hprepend : (b.buffer.take kCheapPrepend).length = kCheapPrepend := by
      rw [List.length_take]
      omega
    unfold content Mem.overwrite
    dsimp only
    rw [← List.append_assoc]
    rw [List.take_left' (by rw [List.length_append, hprepend, ← hlen]; rfl)]
    rw [List.drop_left' hprepend]
  . unfold mustGrow prependableBytes at hgrow
    rw [decide_eq_false_iff_not] at hgrow
    unfold writableBytes at hgrow ⊢
    dsimp only
    rw [hsize]
    unfold readableBytes
    omega

theorem ensureWriteableBytes_spec (h : b.Inv) (len : Nat)
    : ∃ b', b.ensureWriteableBytes len = some b' ∧ b'.Inv ∧ b'.content = b.content
      ∧ len ≤ b'.writableBytes := by
  unfold ensureWriteableBytes
  split
  . next hroom =>
    cases hgrow : b.mustGrow len with
    | false => exact move_spec h ⟨hroom, hgrow⟩
    | true =>
      unfold makeSpace
      rw [hgrow]
      exact ⟨_, rfl, grow_spec h len⟩
  . next hroom => exact ⟨b, rfl, h, rfl, Nat.not_lt.mp hroom⟩

def fill (b : Buffer) (bytes : List UInt8) : Buffer :=
  { b with
    buffer := Mem.overwrite b.buffer b.writerIndex bytes
    writerIndex := b.writerIndex + bytes.length }

theorem fill_spec (h : b.Inv) {bytes : List UInt8} (hroom : bytes.length ≤ b.writableBytes)
    : (b.fill bytes).Inv ∧ (b.fill bytes).content = b.content ++ bytes := by
  have hreader := h.reader_le
  have hwriter := h.writer_le
  unfold writableBytes at hroom
  have htake : (b.buffer.take b.writerIndex).length = b.writerIndex := by
    rw [List.length_take]
    omega
  refine ⟨⟨h.prepend_le, ?_, ?_⟩, ?_⟩
  . simp only [fill]
    omega
  . simp only [fill]
    rw [Mem.length_overwrite (by omega)]
    omega
  . unfold content fill Mem.overwrite
    dsimp only
    rw [← List.append_assoc]
    rw [List.take_left' (by rw [List.length_append, htake])]
    rw [List.drop_append_of_le_length (by omega)]

theorem append_spec (h : b.Inv) (data : List UInt8)
    : ∃ b', b.append data = some b' ∧ b'.Inv ∧ b'.content = b.content ++ data := by
  rcases ensureWriteableBytes_spec h data.length with ⟨b₁, hensure, hinv, hcontent, hroom⟩
  have hfill := fill_spec hinv hroom
  have hwriter := hinv.writer_le
  unfold writableBytes at hroom
  refine ⟨b₁.fill data, ?_, hfill.1, ?_⟩
  . unfold append
    rw [hensure]
    dsimp only [bind, Option.bind]
    rw [Mem.write_eq_some (by omega)]
    rfl
  . rw [hfill.2, hcontent]

theorem readFd_spec (h : b.Inv) {bytes : List UInt8} (hlegal : bytes.length ≤ b.iovLen)
    : ∃ b', b.readFd (.ok bytes) = some (.ok bytes.length, b') ∧ b'.Inv
      ∧ b'.content = b.content ++ bytes := by
  have hwriter := h.writer_le
  have hfst : (bytes.take b.writableBytes).length ≤ b.writableBytes := by
    rw [List.length_take]
    omega
  have hfill := fill_spec h hfst
  have hwrite : Mem.write b.buffer b.writerIndex (bytes.take b.writableBytes)
      = some (Mem.overwrite b.buffer b.writerIndex (bytes.take b.writableBytes)) := by
    apply Mem.write_eq_some
    unfold writableBytes at hfst
    unfold writableBytes
    omega
  unfold readFd
  dsimp only [bind, Option.bind]
  rw [hwrite]
  dsimp only
  split
  . next hfits =>
    rw [List.take_of_length_le hfits] at hfill ⊢
    exact ⟨_, rfl, hfill⟩
  . next hover =>
    have hrest : (bytes.drop b.writableBytes).length ≤ extrabufSize := by
      unfold iovLen at hlegal
      rw [List.length_drop]
      split at hlegal
      . omega
      . omega
    have hextra : 0 + (bytes.drop b.writableBytes).length
        ≤ (List.replicate extrabufSize (0 : UInt8)).length := by
      rw [List.length_replicate]
      omega
    have hfull : (Mem.overwrite b.buffer b.writerIndex (bytes.take b.writableBytes)).length
        = b.writerIndex + (bytes.take b.writableBytes).length := by
      unfold writableBytes at hover hfst ⊢
      rw [Mem.length_overwrite (by omega), List.length_take]
      omega
    rcases append_spec hfill.1 (bytes.drop b.writableBytes) with ⟨b', happend, hinv, hcontent⟩
    rw [Mem.write_eq_some hextra]
    dsimp only
    rw [← List.length_drop, Mem.read_overwrite hextra]
    dsimp only
    -- the vector is full, so `b.fill` is the buffer that `append` is called on
    rw [hfull]
    refine ⟨b', ?_, hinv, ?_⟩
    . unfold fill at happend
      rw [happend]
      rfl
    . rw [hcontent, hfill.2]
      rw [List.append_assoc, List.take_append_drop]

end Inv

theorem call_refines {b : Buffer} (h : b.Inv) {op : Op} (hlegal : b.Legal op)
    : ∃ b', b.call op = some ((specCall b.content op).1, b') ∧ b'.Inv
      ∧ b'.content = (specCall b.content op).2 := by
  cases op with
  | append data =>
    rcases append_spec h data with ⟨b', happend, hinv, hcontent⟩
    refine ⟨b', ?_, hinv, hcontent⟩
    simp [call, specCall, happend]
  | retrieve len => exact ⟨b.retrieve len, rfl, retrieve_spec h len⟩
  | retrieveAll => exact ⟨b.retrieveAll, rfl, retrieveAll_inv b h, content_retrieveAll b⟩
  | retrieveAsString len =>
    have hlen : len ≤ b.readableBytes := by simpa [Legal] using hlegal
    refine ⟨b.retrieve len, ?_, retrieve_spec h len⟩
    simp [call, specCall, retrieveAsString_spec h hlen]
  | retrieveAllAsString =>
    have hretrieve := retrieve_spec h b.readableBytes
    have hall : b.content.length ≤ b.readableBytes := Nat.le_of_eq h.length_content
    refine ⟨b.retrieve b.readableBytes, ?_, hretrieve.1, ?_⟩
    . unfold call retrieveAllAsString
      dsimp only
      rw [retrieveAsString_spec h (Nat.le_refl _), List.take_of_length_le hall]
      rfl
    . rw [hretrieve.2]
      exact List.drop_of_length_le hall
  | ensureWriteableBytes len =>
    rcases ensureWriteableBytes_spec h len with ⟨b', hensure, hinv, hcontent, _⟩
    refine ⟨b', ?_, hinv, hcontent⟩
    simp [call, specCall, hensure]
  | readFd received =>
    cases received with
    | error errno => exact ⟨b, rfl, h, rfl⟩
    | ok bytes =>
      have hbytes : bytes.length ≤ b.iovLen := by simpa [Legal] using hlegal
      rcases readFd_spec h hbytes with ⟨b', hread, hinv, hcontent⟩
      refine ⟨b', ?_, hinv, hcontent⟩
      simp [call, specCall, hread]
  | writeFd accepted =>
    cases accepted with
    | error errno => exact ⟨b, rfl, h, rfl⟩
    | ok n =>
      have hn : n ≤ b.readableBytes := by simpa [Legal] using hlegal
      refine ⟨b, ?_, h, rfl⟩
      simp [call, specCall, writeFd, h.read_eq hn]

theorem calls_refines {b : Buffer} (h : b.Inv) {ops : List Op}
    (hlegal : system.Along (fun b op => b.Legal op) b ops)
    : ∃ b', b.calls ops = some ((specCalls b.content ops).1, b') ∧ b'.Inv
      ∧ b'.content = (specCalls b.content ops).2 := by
  induction ops generalizing b with
  | nil => exact ⟨b, rfl, h, rfl⟩
  | cons op ops ih =>
    rw [LTS.along_cons] at hlegal
    rcases call_refines h hlegal.1 with ⟨b₁, hcall, hinv, hcontent⟩
    have hnext : system.next b op = some b₁ := by
      simp [system, hcall]
    rcases ih hinv (hlegal.2 b₁ hnext) with ⟨b', hcalls, hinv', hcontent'⟩
    rw [hcontent] at hcalls hcontent'
    refine ⟨b', ?_, hinv', hcontent'⟩
    unfold calls
    rw [hcall]
    dsimp only [bind, Option.bind]
    rw [hcalls]
    rfl

theorem calls_eq_fifo (initialSize : Nat) (ops : List Op)
    (hlegal : system.Along (fun b op => b.Legal op) (new initialSize) ops)
    : ∃ b, (new initialSize).calls ops = some ((specCalls [] ops).1, b) ∧
      b.content = (specCalls [] ops).2 ∧
      (kCheapPrepend ≤ b.readerIndex ∧ b.readerIndex ≤ b.writerIndex
        ∧ b.writerIndex ≤ b.buffer.length) ∧
      (∀ len, ∃ b', b.ensureWriteableBytes len = some b' ∧ b'.content = b.content
        ∧ len ≤ b'.writableBytes) ∧
      ∀ len, b.Moves len → kCheapPrepend < b.readerIndex := by
  rcases calls_refines (new_inv initialSize) hlegal with ⟨b, hcalls, hinv, hcontent⟩
  rw [content_new] at hcalls hcontent
  refine ⟨b, hcalls, hcontent, ⟨hinv.prepend_le, hinv.reader_le, hinv.writer_le⟩, ?_, ?_⟩
  . intro len
    rcases ensureWriteableBytes_spec hinv len with ⟨b', hensure, _, hsame, hroom⟩
    exact ⟨b', hensure, hsame, hroom⟩
  . intro len hmoves
    exact lt_reader_of_moves hmoves

theorem calls_eq_fifo_move
    : ∃ b, (new 4).calls [.readFd (.ok [1, 2]), .retrieveAsString 1, .append [3, 4, 5],
          .retrieveAllAsString]
        = some ([.read (.ok 2), .string [1], .void, .string [2, 3, 4, 5]], b)
      ∧ b.content = [] := by
  rcases calls_eq_fifo 4 [.readFd (.ok [1, 2]), .retrieveAsString 1, .append [3, 4, 5],
    .retrieveAllAsString] (by decide +kernel) with ⟨b, hcalls, hcontent, _⟩
  exact ⟨b, hcalls, hcontent⟩

end Buffer
