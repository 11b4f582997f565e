import Mathlib.Data.List.Basic

structure BoundedFifo (α : Type u) (cap : Nat) where
  cells : List α
  le_cap : cells.length ≤ cap

namespace BoundedFifo

variable {α : Type u} {cap : Nat}

def empty : BoundedFifo α cap := ⟨[], Nat.zero_le cap⟩

def room (q : BoundedFifo α cap) : Nat :=
  cap - q.cells.length

def push (q : BoundedFifo α cap) (xs : List α) : BoundedFifo α cap where
  cells := q.cells ++ xs.take q.room
  le_cap := by
    have := q.le_cap
    rw [List.length_append, List.length_take]
    unfold room
    omega

def pop (q : BoundedFifo α cap) (n : Nat) : BoundedFifo α cap where
  cells := q.cells.drop n
  le_cap := by
    have := q.le_cap
    rw [List.length_drop]
    omega

end BoundedFifo
