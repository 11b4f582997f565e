import Mathlib.Data.List.Rotate

/-!
This module contains regions of memory and cyclic windows into them. A region is a list of cells; an
access that leaves the region has no result. A window reads a region cyclically, so it is a prefix of
a rotation of the region.
-/

namespace Mem

variable {α : Type u}

def overwrite (mem : List α) (off : Nat) (xs : List α) : List α :=
  mem.take off ++ (xs ++ mem.drop (off + xs.length))

def read (mem : List α) (off n : Nat) : Option (List α) :=
  if off + n ≤ mem.length then
    some ((mem.drop off).take n)
  else
    none

def write (mem : List α) (off : Nat) (xs : List α) : Option (List α) :=
  if off + xs.length ≤ mem.length then
    some (overwrite mem off xs)
  else
    none

def copy (dst : List α) (dstOff : Nat) (src : List α) (srcOff n : Nat) : Option (List α) :=
  (read src srcOff n).bind fun xs => write dst dstOff xs

def copyLoop (mem : List α) (first dFirst : Nat) : Nat → Option (List α)
  | 0 => some mem
  | n + 1 =>
    match mem[first]? with
    | some x =>
      if dFirst < mem.length then
        copyLoop (mem.set dFirst x) (first + 1) (dFirst + 1) n
      else
        none
    | none => none

/--
A forward copy of `n` cells inside one region. Its destination must not start inside its source.
-/
def copyWithin (mem : List α) (first n dFirst : Nat) : Option (List α) :=
  if first ≤ dFirst ∧ dFirst < first + n then
    none
  else
    copyLoop mem first dFirst n

theorem read_eq_some {mem : List α} {off n : Nat} (h : off + n ≤ mem.length)
    : read mem off n = some ((mem.drop off).take n) := by
  simp [read, h]

theorem write_eq_some {mem : List α} {off : Nat} {xs : List α} (h : off + xs.length ≤ mem.length)
    : write mem off xs = some (overwrite mem off xs) := by
  simp [write, h]

theorem copy_eq_some {dst src : List α} {dstOff srcOff n : Nat} (hsrc : srcOff + n ≤ src.length)
    (hdst : dstOff + n ≤ dst.length)
    : copy dst dstOff src srcOff n = some (overwrite dst dstOff ((src.drop srcOff).take n)) := by
  have hlen : ((src.drop srcOff).take n).length = n := by
    rw [List.length_take, List.length_drop]
    omega
  unfold copy
  rw [read_eq_some hsrc]
  dsimp
  rw [write_eq_some]
  omega

theorem length_overwrite {mem : List α} {off : Nat} {xs : List α}
    (h : off + xs.length ≤ mem.length)
    : (overwrite mem off xs).length = mem.length := by
  simp only [overwrite, List.length_append, List.length_take, List.length_drop]
  omega

theorem length_of_write {mem mem' : List α} {off : Nat} {xs : List α}
    (h : write mem off xs = some mem')
    : mem'.length = mem.length := by
  unfold write at h
  split at h
  . next hend =>
    cases h
    apply length_overwrite hend
  . cases h

theorem length_of_copy {dst src dst' : List α} {dstOff srcOff n : Nat}
    (h : copy dst dstOff src srcOff n = some dst')
    : dst'.length = dst.length := by
  unfold copy at h
  rw [Option.bind_eq_some_iff] at h
  rcases h with ⟨xs, -, hwrite⟩
  exact length_of_write hwrite

theorem length_of_copyLoop {mem mem' : List α} {first dFirst n : Nat}
    (h : copyLoop mem first dFirst n = some mem')
    : mem'.length = mem.length := by
  induction n generalizing mem first dFirst with
  | zero =>
    cases h
    rfl
  | succ n ih =>
    unfold copyLoop at h
    split at h
    . split at h
      . rw [ih h, List.length_set]
      . cases h
    . cases h

theorem length_of_copyWithin {mem mem' : List α} {first n dFirst : Nat}
    (h : copyWithin mem first n dFirst = some mem')
    : mem'.length = mem.length := by
  unfold copyWithin at h
  split at h
  . cases h
  . exact length_of_copyLoop h

@[simp]
theorem overwrite_nil (mem : List α) (off : Nat) : overwrite mem off [] = mem := by
  simp [overwrite]

theorem read_overwrite {mem : List α} {off : Nat} {xs : List α} (h : off + xs.length ≤ mem.length)
    : read (overwrite mem off xs) off xs.length = some xs := by
  have htake : (mem.take off).length = off := by
    rw [List.length_take]
    omega
  rw [read_eq_some]
  . unfold overwrite
    rw [List.drop_left' htake, List.take_left' rfl]
  . rw [length_overwrite h]
    exact h

theorem overwrite_cons {mem : List α} {off : Nat} (h : off < mem.length) (x : α) (xs : List α)
    : overwrite mem off (x :: xs) = overwrite (mem.set off x) (off + 1) xs := by
  have htake : (mem.set off x).take (off + 1) = mem.take off ++ [x] := by
    rw [List.take_add_one]
    rw [List.take_set_of_le (Nat.le_refl off)]
    simp [h]
  have hdrop : (mem.set off x).drop (off + 1 + xs.length) = mem.drop (off + 1 + xs.length) := by
    apply List.drop_set_of_lt
    omega
  unfold overwrite
  rw [htake, hdrop]
  rw [List.length_cons, Nat.add_comm xs.length 1, ← Nat.add_assoc]
  simp

theorem copyLoop_eq_some {mem : List α} {first dFirst n : Nat} (hdown : dFirst ≤ first)
    (hlast : first + n ≤ mem.length)
    : copyLoop mem first dFirst n = some (overwrite mem dFirst ((mem.drop first).take n)) := by
  induction n generalizing mem first dFirst with
  | zero => simp [copyLoop]
  | succ n ih =>
    have hfirst : first < mem.length := by omega
    have hd : dFirst < mem.length := by omega
    unfold copyLoop
    rw [List.getElem?_eq_getElem hfirst]
    dsimp only
    rw [if_pos hd]
    rw [ih (by omega) (by rw [List.length_set]; omega)]
    rw [List.drop_set_of_lt (by omega)]
    rw [List.drop_eq_getElem_cons hfirst, List.take_succ_cons]
    rw [overwrite_cons hd]

theorem copyWithin_eq_some {mem : List α} {first dFirst n : Nat} (hdown : dFirst < first)
    (hlast : first + n ≤ mem.length)
    : copyWithin mem first n dFirst = some (overwrite mem dFirst ((mem.drop first).take n)) := by
  unfold copyWithin
  rw [if_neg (by omega)]
  apply copyLoop_eq_some (Nat.le_of_lt hdown) hlast

end Mem

namespace Ring

open Mem

variable {α : Type u}

def window (mem : List α) (pos n : Nat) : List α :=
  (mem.rotate pos).take n

def store (mem : List α) (pos : Nat) (xs : List α) : List α :=
  -- up to the end of the region first, the rest at its beginning
  let len := min xs.length (mem.length - pos)
  overwrite (overwrite mem pos (xs.take len)) 0 (xs.drop len)

theorem length_window {mem : List α} {pos n : Nat} (h : n ≤ mem.length)
    : (window mem pos n).length = n := by
  simp only [window, List.length_take, List.length_rotate]
  omega

@[simp]
theorem window_zero (mem : List α) (pos : Nat) : window mem pos 0 = [] := by
  simp [window]

theorem window_mod (mem : List α) (pos n : Nat)
    : window mem (pos % mem.length) n = window mem pos n := by
  simp [window, List.rotate_mod]

theorem take_window {mem : List α} {pos n k : Nat} (h : k ≤ n)
    : (window mem pos n).take k = window mem pos k := by
  simp only [window, List.take_take]
  congr 1
  omega

theorem drop_window {mem : List α} {pos n k : Nat} (hk : k ≤ n) (hn : n ≤ mem.length)
    : (window mem pos n).drop k = window mem (pos + k) (n - k) := by
  unfold window
  rw [← List.rotate_rotate]
  generalize hl : mem.rotate pos = l
  have hlen : l.length = mem.length := by
    rw [← hl]
    apply List.length_rotate
  rw [List.rotate_eq_drop_append_take (by omega)]
  rw [List.take_append_of_le_length]
  . rw [List.drop_take]
  . rw [List.length_drop]
    omega

theorem window_eq_append {mem : List α} {pos n : Nat} (hpos : pos < mem.length)
    (hn : n ≤ mem.length)
    : window mem pos n
        =
      (mem.drop pos).take (min n (mem.length - pos))
        ++ mem.take (n - min n (mem.length - pos)) := by
  unfold window
  rw [List.rotate_eq_drop_append_take (by omega)]
  rw [List.take_append]
  rw [List.length_drop]
  congr 1
  . cases Nat.le_total n (mem.length - pos) with
    | inl h => rw [Nat.min_eq_left h]
    | inr h =>
      rw [Nat.min_eq_right h]
      rw [List.take_of_length_le (by rw [List.length_drop]; omega)]
      rw [List.take_of_length_le (by rw [List.length_drop])]
  . rw [List.take_take]
    congr 1
    omega

theorem length_store {mem : List α} {pos : Nat} {xs : List α} (hpos : pos < mem.length)
    (hxs : xs.length ≤ mem.length)
    : (store mem pos xs).length = mem.length := by
  unfold store
  dsimp
  rw [length_overwrite]
  . rw [length_overwrite]
    rw [List.length_take]
    omega
  . rw [length_overwrite]
    . rw [List.length_drop]
      omega
    . rw [List.length_take]
      omega

theorem store_of_le {mem : List α} {pos : Nat} {xs : List α} (h : xs.length ≤ mem.length - pos)
    : store mem pos xs = overwrite mem pos xs := by
  unfold store
  dsimp
  rw [Nat.min_eq_left h]
  simp

theorem store_of_ge {mem : List α} {pos : Nat} {xs : List α} (hpos : pos < mem.length)
    (hxs : xs.length ≤ mem.length) (h : mem.length - pos ≤ xs.length)
    : store mem pos xs
        =
      (xs.drop (mem.length - pos) ++ (mem.take pos).drop (xs.length - (mem.length - pos)))
        ++ xs.take (mem.length - pos) := by
  have hend : mem.drop (pos + (xs.take (mem.length - pos)).length) = [] := by
    apply List.drop_of_length_le
    rw [List.length_take]
    omega
  unfold store overwrite
  dsimp
  rw [Nat.min_eq_right h, hend]
  rw [List.append_nil, List.append_assoc, Nat.zero_add]
  rw [List.length_drop]
  rw [List.drop_append_of_le_length]
  rw [List.length_take]
  omega

theorem rotate_store {mem : List α} {pos : Nat} {xs : List α} (hpos : pos < mem.length)
    (hxs : xs.length ≤ mem.length)
    : (store mem pos xs).rotate pos = xs ++ (mem.rotate pos).drop xs.length := by
  rw [List.rotate_eq_drop_append_take (by rw [length_store hpos hxs]; omega)]
  rw [List.rotate_eq_drop_append_take (by omega)]
  cases Nat.le_total xs.length (mem.length - pos) with
  | inl h =>
    have htake : (mem.take pos).length = pos := by
      rw [List.length_take]
      omega
    rw [store_of_le h]
    unfold overwrite
    rw [List.drop_left' htake, List.take_left' htake]
    rw [List.append_assoc, List.drop_append_of_le_length, List.drop_drop]
    rw [List.length_drop]
    omega
  | inr h =>
    have hfst : (xs.drop (mem.length - pos)
        ++ (mem.take pos).drop (xs.length - (mem.length - pos))).length = pos := by
      simp only [List.length_append, List.length_drop, List.length_take]
      omega
    rw [store_of_ge hpos hxs h]
    rw [List.drop_left' hfst, List.take_left' hfst]
    rw [← List.append_assoc, List.take_append_drop]
    have hnil : (mem.drop pos).drop xs.length = [] := by
      apply List.drop_of_length_le
      rw [List.length_drop]
      omega
    rw [List.drop_append, List.length_drop, hnil, List.nil_append]

theorem window_store {mem : List α} {pos n : Nat} {xs : List α} (hmem : 0 < mem.length)
    (h : n + xs.length ≤ mem.length)
    : window (store mem ((pos + n) % mem.length) xs) pos (n + xs.length)
        =
      window mem pos n ++ xs := by
  have hpos : (pos + n) % mem.length < mem.length := Nat.mod_lt _ hmem
  have hlen : (store mem ((pos + n) % mem.length) xs).length = mem.length :=
    length_store hpos (by omega)
  have hrot : (store mem ((pos + n) % mem.length) xs).rotate ((pos + n) % mem.length)
      = xs ++ (mem.rotate ((pos + n) % mem.length)).drop xs.length :=
    rotate_store hpos (by omega)
  generalize hmem' : store mem ((pos + n) % mem.length) xs = mem' at hlen hrot ⊢
  rw [List.rotate_mod] at hrot
  rw [← hlen, List.rotate_mod] at hrot
  rw [← List.rotate_rotate, ← List.rotate_rotate mem] at hrot
  unfold window
  generalize hl : mem.rotate pos = l at hrot ⊢
  generalize hl' : mem'.rotate pos = l' at hrot ⊢
  have hllen : l.length = mem.length := by rw [← hl]; apply List.length_rotate
  have hllen' : l'.length = mem.length := by rw [← hl', ← hlen]; apply List.length_rotate
  rw [List.rotate_eq_drop_append_take (by omega)] at hrot
  rw [List.rotate_eq_drop_append_take (by omega)] at hrot
  rw [List.drop_append_of_le_length (by rw [List.length_drop]; omega)] at hrot
  rw [← List.append_assoc] at hrot
  have hsplit := List.append_inj hrot (by
    simp only [List.length_append, List.length_drop]
    omega)
  have hfst : (l.take n ++ xs).length = n + xs.length := by
    rw [List.length_append, List.length_take]
    omega
  rw [← List.take_append_drop n l']
  rw [hsplit.1, hsplit.2]
  rw [← List.append_assoc]
  rw [List.take_left' hfst]

/--
A counter that runs modulo `span` makes passes over `size` cells. The last of `n` cells is in the
same pass as the first one iff the cells do not wrap around the end of the region.
-/
theorem pass_eq_iff {size span first n : Nat} (hsize : 0 < size) (hdvd : size ∣ span)
    (htwo : 2 * size ≤ span) (hfirst : first < span) (hpos : 0 < n) (hn : n ≤ size)
    : (first + n - 1) % span / size = first / size ↔ first % size + n ≤ size := by
  have hdiv := Nat.div_add_mod first size
  have hmod := Nat.mod_lt first hsize
  have hpass : size * (first / size) + size ≤ span := by
    rcases hdvd with ⟨passes, hpasses⟩
    have hlt : first / size < passes := by
      apply Nat.div_lt_of_lt_mul
      omega
    rw [hpasses, ← Nat.mul_succ]
    exact Nat.mul_le_mul_left size hlt
  rw [Nat.div_eq_iff hsize, Nat.mul_comm (first / size)]
  by_cases hwrap : first + n - 1 < span
  . rw [Nat.mod_eq_of_lt hwrap]
    omega
  . have hlast : (first + n - 1) % span = first + n - 1 - span := by
      rw [Nat.mod_eq_sub_mod (by omega), Nat.mod_eq_of_lt (by omega)]
    rw [hlast]
    omega

end Ring
