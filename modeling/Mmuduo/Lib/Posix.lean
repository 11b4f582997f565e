import Mathlib.Control.Monad.Basic

inductive Errno where
  | EWOULDBLOCK
  | EPIPE
  | ECONNRESET
  | EINTR
  | other (code : Nat)
  deriving DecidableEq, Repr

/--
The received bytes, or the `errno` behind a return value of -1.
-/
abbrev ReadResult := Except Errno (List UInt8)

/--
The number of accepted bytes, or the `errno` behind a return value of -1.
-/
abbrev WriteResult := Except Errno Nat

def snprintf (size : Nat) (s : String) : String :=
  String.ofList (s.toList.take (size - 1))

theorem snprintf_of_length_lt {size : Nat} {s : String} (h : s.length < size)
    : snprintf size s = s := by
  unfold snprintf
  rw [List.take_of_length_le]
  . apply String.ofList_toList
  . rw [String.length_toList]
    omega
