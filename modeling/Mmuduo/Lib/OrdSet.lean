import Mathlib.Data.List.Sort
import Mathlib.Data.Prod.Lex

/-!
This module contains ordered sets with the interface of a binary search tree: insertion and erasure
report whether they changed the set, and the elements below a bound form a prefix. A set is the
strictly increasing list of its elements.
-/

structure OrdSet (α : Type u) [LinearOrder α] where
  toList : List α
  sorted : toList.Pairwise (· < ·)

namespace OrdSet

variable {α : Type u} [LinearOrder α]

instance : Membership α (OrdSet α) where
  mem s a := a ∈ s.toList

instance (s : OrdSet α) (a : α) : Decidable (a ∈ s) :=
  inferInstanceAs (Decidable (a ∈ s.toList))

theorem mem_toList {s : OrdSet α} {a : α} : a ∈ s.toList ↔ a ∈ s := by
  rfl

def empty : OrdSet α := ⟨[], List.Pairwise.nil⟩

def size (s : OrdSet α) : Nat :=
  s.toList.length

def first (s : OrdSet α) : Option α :=
  s.toList.head?

@[simp]
theorem notMem_empty (a : α) : a ∉ (empty : OrdSet α) := by
  rw [← mem_toList]
  simp [empty]

theorem nodup (s : OrdSet α) : s.toList.Nodup := by
  apply s.sorted.imp
  intro a b h
  apply ne_of_lt h

theorem sorted_orderedInsert {l : List α} (h : l.Pairwise (· < ·)) {a : α} (ha : a ∉ l)
    : (l.orderedInsert (· ≤ ·) a).Pairwise (· < ·) := by
  have hle : (l.orderedInsert (· ≤ ·) a).Pairwise (· ≤ ·) := by
    apply List.Pairwise.orderedInsert
    apply h.imp
    intro a b
    apply le_of_lt
  have hne : (l.orderedInsert (· ≤ ·) a).Pairwise (· ≠ ·) := by
    apply (List.perm_orderedInsert (· ≤ ·) a l).nodup_iff.mpr
    rw [List.nodup_cons]
    refine ⟨ha, ?_⟩
    apply h.imp
    intro a b h
    apply ne_of_lt h
  apply (hle.and hne).imp
  rintro a b ⟨hle, hne⟩
  apply lt_of_le_of_ne hle hne

def insert (s : OrdSet α) (a : α) : Bool × OrdSet α :=
  if h : a ∈ s.toList then
    (false, s)
  else
    (true, ⟨s.toList.orderedInsert (· ≤ ·) a, sorted_orderedInsert s.sorted h⟩)

def erase (s : OrdSet α) (a : α) : Nat × OrdSet α :=
  if a ∈ s.toList then
    (1, ⟨s.toList.erase a, s.sorted.sublist List.erase_sublist⟩)
  else
    (0, s)

def lowerBound (s : OrdSet α) (a : α) : List α × OrdSet α :=
  (s.toList.takeWhile (· < a),
    ⟨s.toList.dropWhile (· < a), s.sorted.sublist (List.dropWhile_sublist _)⟩)

section Insert

variable {s : OrdSet α} {a : α}

theorem insert_fst (h : a ∉ s) : (s.insert a).1 = true := by
  rw [← mem_toList] at h
  simp [insert, h]

theorem mem_insert (h : a ∉ s) {b : α} : b ∈ (s.insert a).2 ↔ b = a ∨ b ∈ s := by
  rw [← mem_toList] at h
  unfold insert
  rw [dif_neg h, ← mem_toList]
  simp [List.mem_orderedInsert, mem_toList]

theorem insert_of_mem (h : a ∈ s) : (s.insert a).2 = s := by
  rw [← mem_toList] at h
  simp [insert, h]

theorem mem_insert_iff {b : α} : b ∈ (s.insert a).2 ↔ b = a ∨ b ∈ s := by
  by_cases h : a ∈ s
  . rw [insert_of_mem h]
    constructor
    . exact Or.inr
    . rintro (heq | hb)
      . rw [heq]
        exact h
      . exact hb
  . exact mem_insert h

theorem mem_insert_self (s : OrdSet α) (a : α) : a ∈ (s.insert a).2 :=
  mem_insert_iff.mpr (Or.inl rfl)

theorem mem_insert_of_mem {b : α} (h : b ∈ s) (a : α) : b ∈ (s.insert a).2 :=
  mem_insert_iff.mpr (Or.inr h)

theorem size_insert (h : a ∉ s) : (s.insert a).2.size = s.size + 1 := by
  rw [← mem_toList] at h
  unfold insert size
  rw [dif_neg h]
  simp [List.orderedInsert_length]

end Insert

section Erase

variable {s : OrdSet α} {a : α}

theorem erase_fst (h : a ∈ s) : (s.erase a).1 = 1 := by
  rw [← mem_toList] at h
  simp [erase, h]

theorem mem_erase (h : a ∈ s) {b : α} : b ∈ (s.erase a).2 ↔ b ≠ a ∧ b ∈ s := by
  rw [← mem_toList] at h
  unfold erase
  rw [if_pos h, ← mem_toList]
  dsimp
  rw [s.nodup.mem_erase_iff, mem_toList]

theorem size_erase (h : a ∈ s) : (s.erase a).2.size = s.size - 1 := by
  rw [← mem_toList] at h
  unfold erase size
  rw [if_pos h]
  dsimp
  rw [List.length_erase_of_mem h]

theorem size_pos (h : a ∈ s) : 0 < s.size := by
  rw [← mem_toList] at h
  apply List.length_pos_of_mem h

end Erase

theorem mem_of_first {s : OrdSet α} {a : α} (h : s.first = some a) : a ∈ s :=
  List.mem_of_mem_head? h

theorem notMem_of_first_none {s : OrdSet α} (h : s.first = none) (a : α) : a ∉ s := by
  unfold first at h
  rw [← mem_toList, List.head?_eq_none_iff.mp h]
  simp

theorem first_le {s : OrdSet α} {a b : α} (h : s.first = some a) (hb : b ∈ s) : a ≤ b := by
  rw [← mem_toList] at hb
  have hsorted := s.sorted
  unfold first at h
  cases hlist : s.toList with
  | nil => simp [hlist] at hb
  | cons x l =>
    rw [hlist] at h hb hsorted
    rw [List.head?_cons, Option.some.injEq] at h
    rw [List.pairwise_cons] at hsorted
    rw [← h]
    rcases List.mem_cons.mp hb with heq | hmem
    . rw [heq]
    . exact le_of_lt (hsorted.1 b hmem)

theorem lowerBound_append (s : OrdSet α) (a : α)
    : (s.lowerBound a).1 ++ (s.lowerBound a).2.toList = s.toList := by
  apply List.takeWhile_append_dropWhile

theorem lt_of_mem_lowerBound {s : OrdSet α} {a b : α} (h : b ∈ (s.lowerBound a).1) : b < a := by
  have hall := List.all_eq_true.mp List.all_takeWhile b h
  simpa using hall

theorem le_first_lowerBound {s : OrdSet α} {a b : α} (h : (s.lowerBound a).2.first = some b)
    : a ≤ b := by
  unfold lowerBound first at h
  dsimp at h
  have := List.head?_dropWhile_not (· < a) s.toList
  rw [h] at this
  simpa using this

end OrdSet
