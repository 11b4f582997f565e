import Mathlib.Data.Nat.Digits.Defs

/--
A `sockaddr_in`: the bytes of the address, and the port in network order.
-/
structure InetAddress where
  a : UInt8
  b : UInt8
  c : UInt8
  d : UInt8
  sinPort : UInt16
  deriving DecidableEq, Repr

def ntohs (x : UInt16) : UInt16 :=
  (x <<< 8) ||| (x >>> 8)

namespace InetAddress

def toIp (addr : InetAddress) : String :=
  addr.a.toNat.repr ++ "." ++ addr.b.toNat.repr ++ "." ++ addr.c.toNat.repr ++ "."
    ++ addr.d.toNat.repr

def toPort (addr : InetAddress) : Int16 :=
  (ntohs addr.sinPort).toInt16

def toIpPort (addr : InetAddress) : String :=
  addr.toIp ++ ":" ++ addr.toPort.toInt.repr

theorem length_byte_le (x : UInt8) : x.toNat.repr.length ≤ 3 := by
  apply Nat.repr_length
  . decide
  . have := x.toNat_lt
    omega

theorem length_toIp_le (addr : InetAddress) : addr.toIp.length ≤ 15 := by
  have ha := length_byte_le addr.a
  have hb := length_byte_le addr.b
  have hc := length_byte_le addr.c
  have hd := length_byte_le addr.d
  have hdot : ".".length = 1 := rfl
  unfold toIp
  simp only [String.length_append]
  omega

theorem length_short_le (x : Int16) : x.toInt.repr.length ≤ 6 := by
  have hlt := x.toInt_lt
  have hle := x.le_toInt
  have hdash : "-".length = 1 := rfl
  cases h : x.toInt with
  | ofNat n =>
    have hn : n.repr.length ≤ 5 := by
      apply Nat.repr_length
      . decide
      . rw [h] at hlt
        simp only [Int.ofNat_eq_natCast] at hlt
        omega
    simp only [Int.repr]
    omega
  | negSucc n =>
    have hn : n.succ.repr.length ≤ 5 := by
      apply Nat.repr_length
      . decide
      . rw [h] at hle
        omega
    simp only [Int.repr, String.length_append]
    omega

theorem length_toIpPort_le (addr : InetAddress) : addr.toIpPort.length ≤ 22 := by
  have hip := length_toIp_le addr
  have hport := length_short_le addr.toPort
  have hcolon : ":".length = 1 := rfl
  unfold toIpPort
  simp only [String.length_append]
  omega

end InetAddress
