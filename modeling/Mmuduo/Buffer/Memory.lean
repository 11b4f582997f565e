import Mmuduo.Buffer.Refinement

namespace Buffer

structure Sized (b b' : Buffer) : Prop where
  inv : b'.Inv
  length_le : b'.buffer.length ≤ max b.buffer.length (kCheapPrepend + 2 * b'.readableBytes)

section Sized

variable {b b' : Buffer}

theorem Sized.of_length_eq (hinv : b'.Inv) (hlen : b'.buffer.length = b.buffer.length)
    : Sized b b' where
  inv := hinv
  length_le := by
    rw [hlen]
    exact Nat.le_max_left _ _

theorem length_ensureWriteableBytes_le (h : b.Inv) {len : Nat}
    (hensure : b.ensureWriteableBytes len = some b')
    : b'.buffer.length ≤ max b.buffer.length (kCheapPrepend + b.readableBytes + 2 * len) := by
  have hreader := h.reader_le
  unfold ensureWriteableBytes at hensure
  split at hensure
  . unfold makeSpace at hensure
    split at hensure
    . next hgrow =>
      -- growing means that there are fewer than `len` bytes between the prepend area and the reader
      unfold mustGrow prependableBytes at hgrow
      rw [decide_eq_true_eq] at hgrow
      rw [Option.some.injEq] at hensure
      rw [← hensure]
      dsimp only
      rw [length_resize]
      unfold readableBytes
      omega
    . simp only [Option.bind_eq_bind, Option.bind_eq_some_iff] at hensure
      rcases hensure with ⟨buffer, hcopy, heq⟩
      cases heq
      dsimp only
      rw [Mem.length_of_copyWithin hcopy]
      exact Nat.le_max_left _ _
  . cases hensure
    exact Nat.le_max_left _ _

theorem append_sized (h : b.Inv) {data : List UInt8} (happend : b.append data = some b')
    : Sized b b' := by
  rcases append_spec h data with ⟨b₁, heq, hinv, hcontent⟩
  rw [happend, Option.some.injEq] at heq
  rw [← heq] at hinv hcontent
  have hreadable : b'.readableBytes = b.readableBytes + data.length := by
    rw [← hinv.length_content, ← h.length_content, hcontent, List.length_append]
  unfold append at happend
  simp only [Option.bind_eq_bind, Option.bind_eq_some_iff] at happend
  rcases happend with ⟨b₂, hensure, buffer, hwrite, hb'⟩
  have hlen : b'.buffer.length = b₂.buffer.length := by
    rw [← Mem.length_of_write hwrite]
    cases hb'
    rfl
  refine ⟨hinv, ?_⟩
  calc
    b'.buffer.length = b₂.buffer.length := hlen
    _ ≤ max b.buffer.length (kCheapPrepend + b.readableBytes + 2 * data.length) :=
      length_ensureWriteableBytes_le h hensure
    _ ≤ max b.buffer.length (kCheapPrepend + 2 * b'.readableBytes) := by
      rw [hreadable]
      omega

theorem readFd_sized (h : b.Inv) {received : ReadResult} {res : Except Errno Nat × Buffer}
    (hread : b.readFd received = some res)
    : Sized b res.2 := by
  have hreader := h.reader_le
  have hwriter := h.writer_le
  cases received with
  | error errno =>
    cases hread
    exact .of_length_eq h rfl
  | ok bytes =>
    unfold readFd at hread
    simp only [Option.bind_eq_bind, Option.bind_eq_some_iff] at hread
    rcases hread with ⟨buffer, hwrite, hread⟩
    have hlen := Mem.length_of_write hwrite
    split at hread
    . next hfits =>
      cases hread
      unfold writableBytes at hfits
      refine .of_length_eq ⟨h.prepend_le, ?_, ?_⟩ hlen
      . dsimp only
        omega
      . dsimp only
        omega
    . simp only [Option.bind_eq_some_iff] at hread
      rcases hread with ⟨extrabuf, -, data, -, b₁, happend, heq⟩
      cases heq
      -- the vector is full when `append` is called
      have hfull : Inv { b with buffer, writerIndex := buffer.length } := by
        refine ⟨h.prepend_le, ?_, Nat.le_refl _⟩
        dsimp only
        omega
      have hsized := append_sized hfull happend
      refine ⟨hsized.inv, ?_⟩
      rw [← hlen]
      exact hsized.length_le

theorem retrieve_sized (h : b.Inv) (len : Nat) : Sized b (b.retrieve len) := by
  apply Sized.of_length_eq (retrieve_spec h len).1
  unfold retrieve
  split
  . rfl
  . rfl

theorem retrieveAsString_sized (h : b.Inv) {len : Nat} {res : List UInt8 × Buffer}
    (hretrieve : b.retrieveAsString len = some res)
    : Sized b res.2 := by
  unfold retrieveAsString at hretrieve
  simp only [Option.bind_eq_bind, Option.bind_eq_some_iff] at hretrieve
  rcases hretrieve with ⟨result, -, heq⟩
  cases heq
  exact retrieve_sized h len

end Sized

def Op.isEnsure : Op → Bool
  | .ensureWriteableBytes _ => true
  | _ => false

def storing : LTS Buffer Op :=
  system.restrict fun _ op => op.isEnsure = false

theorem storing_sized {b b' : Buffer} {op : Op} (h : b.Inv) (hnext : storing.next b op = some b')
    : Sized b b' := by
  rcases (LTS.restrict_next_eq_some system).mp hnext with ⟨hop, hcall⟩
  simp only [system, Option.map_eq_some_iff] at hcall
  rcases hcall with ⟨res, hcall, rfl⟩
  cases op with
  | append data =>
    simp only [call, Option.map_eq_some_iff] at hcall
    rcases hcall with ⟨b₁, happend, rfl⟩
    exact append_sized h happend
  | retrieve len =>
    cases hcall
    exact retrieve_sized h len
  | retrieveAll =>
    cases hcall
    exact .of_length_eq (retrieveAll_inv b h) rfl
  | retrieveAsString len =>
    simp only [call, Option.map_eq_some_iff] at hcall
    rcases hcall with ⟨r, hretrieve, rfl⟩
    exact retrieveAsString_sized h hretrieve
  | retrieveAllAsString =>
    simp only [call, Option.map_eq_some_iff] at hcall
    rcases hcall with ⟨r, hretrieve, rfl⟩
    exact retrieveAsString_sized h hretrieve
  | ensureWriteableBytes len => cases hop
  | readFd received =>
    simp only [call, Option.map_eq_some_iff] at hcall
    rcases hcall with ⟨r, hread, rfl⟩
    exact readFd_sized h hread
  | writeFd accepted =>
    simp only [call, Option.map_eq_some_iff] at hcall
    rcases hcall with ⟨sent, -, rfl⟩
    exact .of_length_eq h rfl

theorem length_le_peak (initialSize : Nat) (ops : List Op) {b : Buffer}
    (hrun : storing.run (new initialSize) ops = some b)
    : b.buffer.length
        ≤
      max (kCheapPrepend + initialSize)
        (kCheapPrepend + 2 * storing.peak readableBytes (new initialSize) ops) := by
  have hmono : ∀ m n, m ≤ n → kCheapPrepend + 2 * m ≤ kCheapPrepend + 2 * n := by
    intro m n hle
    omega
  have hstep : ∀ b op b', Inv b → storing.next b op = some b' →
      Inv b' ∧ b'.buffer.length ≤ max b.buffer.length (kCheapPrepend + 2 * b'.readableBytes) := by
    intro b op b' hinv hnext
    have hsized := storing_sized hinv hnext
    exact ⟨hsized.inv, hsized.length_le⟩
  have hlen : (new initialSize).buffer.length = kCheapPrepend + initialSize :=
    List.length_replicate
  have hle := storing.run_le_peak hmono hstep (new_inv initialSize) hrun
  rw [hlen] at hle
  exact hle

def growing : List Op :=
  [.append [1, 2, 3, 4], .retrieve 3, .append [5, 6, 7, 8, 9, 10], .retrieveAllAsString,
    .readFd (.ok [11])]

theorem length_le_peak_growing
    : ∃ b, storing.run (new 2) growing = some b
      ∧ b.buffer.length
          ≤
        max (kCheapPrepend + 2) (kCheapPrepend + 2 * storing.peak readableBytes (new 2) growing) := by
  have hrun : (storing.run (new 2) growing).isSome = true := by
    decide +kernel
  rcases Option.isSome_iff_exists.mp hrun with ⟨b, hb⟩
  exact ⟨b, hb, length_le_peak 2 growing hb⟩

end Buffer
