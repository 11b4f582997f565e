import Mmuduo.InetAddress
import Mmuduo.Lib.Posix

def be16toh (x : UInt16) : UInt16 :=
  (x <<< 8) ||| (x >>> 8)

def networkToHost16 (net16 : UInt16) : UInt16 :=
  be16toh net16

namespace Sockets

def INET_ADDRSTRLEN : Nat := 16

/--
A buffer that is too small for the text and its terminator is left as it is.
-/
def inetNtop (addr : InetAddress) (buf : String) (size : Nat) : String :=
  if addr.toIp.length < size then
    addr.toIp
  else
    buf

def toIp (buf : String) (size : Nat) (addr : InetAddress) : Option String :=
  if INET_ADDRSTRLEN ≤ size then
    some (inetNtop addr buf size)
  else
    none

def toIpPort (size : Nat) (addr : InetAddress) : Option String := do
  let host ← toIp "INVALID" INET_ADDRSTRLEN addr
  let port := networkToHost16 addr.sinPort
  return snprintf size (host ++ ":" ++ port.toNat.repr)

end Sockets

namespace InetAddress

def port (addr : InetAddress) : Nat :=
  (ntohs addr.sinPort).toNat

def printed (addr : InetAddress) : String :=
  addr.toIp ++ ":" ++ addr.port.repr

theorem sockets_toIpPort_eq (addr : InetAddress) {size : Nat} (hsize : addr.printed.length < size)
    : Sockets.toIpPort size addr = some addr.printed := by
  have hlen : addr.toIp.length < Sockets.INET_ADDRSTRLEN := by
    have := length_toIp_le addr
    unfold Sockets.INET_ADDRSTRLEN
    omega
  unfold Sockets.toIpPort Sockets.toIp Sockets.inetNtop
  rw [if_pos (Nat.le_refl _), if_pos hlen]
  exact congrArg some (snprintf_of_length_lt hsize)

section Port

variable (addr : InetAddress)

theorem toPort_toInt
    : addr.toPort.toInt = if addr.port < 2 ^ 15 then (addr.port : Int) else addr.port - 2 ^ 16 := by
  have hlt := (ntohs addr.sinPort).toNat_lt
  have hbits : addr.toPort.toInt = (ntohs addr.sinPort).toBitVec.toInt := rfl
  unfold port
  rw [hbits, BitVec.toInt_eq_toNat_cond]
  simp only [UInt16.toNat_toBitVec]
  omega

theorem toPort_toInt_iff : addr.toPort.toInt = addr.port ↔ addr.port < 2 ^ 15 := by
  rw [toPort_toInt]
  split
  . next h => exact iff_of_true rfl h
  . next h =>
    apply iff_of_false _ h
    omega

end Port

section Separators

theorem append_sep_inj {sep : Char} {xs ys xs' ys' : List Char} (hxs : sep ∉ xs) (hxs' : sep ∉ xs')
    (h : xs ++ sep :: ys = xs' ++ sep :: ys')
    : xs = xs' ∧ ys = ys' := by
  induction xs generalizing xs' with
  | nil =>
    cases xs' with
    | nil => exact ⟨rfl, (List.cons.inj h).2⟩
    | cons x xs' =>
      have hhead := (List.cons.inj h).1
      rw [hhead] at hxs'
      exact absurd List.mem_cons_self hxs'
  | cons x xs ih =>
    cases xs' with
    | nil =>
      have hhead := (List.cons.inj h).1
      rw [hhead] at hxs
      exact absurd List.mem_cons_self hxs
    | cons x' xs' =>
      rw [List.cons_append, List.cons_append] at h
      rcases List.cons.inj h with ⟨hhead, htail⟩
      rw [List.mem_cons, not_or] at hxs hxs'
      rcases ih hxs.2 hxs'.2 htail with ⟨heq, hys⟩
      exact ⟨by rw [hhead, heq], hys⟩

theorem notMem_repr {sep : Char} (hsep : sep.isDigit = false) (n : Nat) : sep ∉ n.repr.toList := by
  intro hmem
  rw [Nat.toList_repr] at hmem
  have hdigit := Nat.isDigit_of_mem_toDigits (by decide) (by decide) hmem
  rw [hsep] at hdigit
  contradiction

theorem repr_toList_inj {m n : Nat} (h : m.repr.toList = n.repr.toList) : m = n := by
  have hdigits := congrArg (fun number => Nat.ofDigitChars 10 number 0) h
  simpa only [Nat.toList_repr, Nat.ofDigitChars_ten_toDigits] using hdigits

theorem int_repr_inj {m n : Int} (h : m.repr = n.repr) : m = n := by
  have hdash : '-'.isDigit = false := rfl
  have hlist := congrArg String.toList h
  cases m with
  | ofNat m =>
    cases n with
    | ofNat n => rw [repr_toList_inj hlist]
    | negSucc n =>
      simp only [Int.repr, String.toList_append] at hlist
      apply absurd _ (notMem_repr hdash m)
      rw [hlist]
      apply List.mem_append_left
      exact List.mem_singleton_self '-'
  | negSucc m =>
    cases n with
    | ofNat n =>
      simp only [Int.repr, String.toList_append] at hlist
      apply absurd _ (notMem_repr hdash n)
      rw [← hlist]
      apply List.mem_append_left
      exact List.mem_singleton_self '-'
    | negSucc n =>
      simp only [Int.repr, String.toList_append] at hlist
      rw [Nat.succ.inj (repr_toList_inj (List.append_cancel_left hlist))]

end Separators

theorem toIp_toList (addr : InetAddress)
    : addr.toIp.toList
      =
      addr.a.toNat.repr.toList ++ '.' :: (addr.b.toNat.repr.toList
        ++ '.' :: (addr.c.toNat.repr.toList ++ '.' :: addr.d.toNat.repr.toList)) := by
  have hdot : ".".toList = ['.'] := rfl
  unfold toIp
  simp only [String.toList_append, hdot, List.append_assoc, List.cons_append,
    List.nil_append]

theorem colon_notMem_toIp (addr : InetAddress) : ':' ∉ addr.toIp.toList := by
  have hcolon : ':'.isDigit = false := rfl
  have hne : ':' ≠ '.' := by decide
  rw [toIp_toList]
  simp only [List.mem_append, List.mem_cons, notMem_repr hcolon, hne, or_self, not_false_eq_true]

theorem toIp_inj {addr addr' : InetAddress} (h : addr.toIp.toList = addr'.toIp.toList)
    : addr.a = addr'.a ∧ addr.b = addr'.b ∧ addr.c = addr'.c ∧ addr.d = addr'.d := by
  have hdot : '.'.isDigit = false := rfl
  rw [toIp_toList, toIp_toList] at h
  rcases append_sep_inj (notMem_repr hdot _) (notMem_repr hdot _) h with ⟨ha, h⟩
  rcases append_sep_inj (notMem_repr hdot _) (notMem_repr hdot _) h with ⟨hb, h⟩
  rcases append_sep_inj (notMem_repr hdot _) (notMem_repr hdot _) h with ⟨hc, hd⟩
  refine ⟨?_, ?_, ?_, ?_⟩
  . exact UInt8.toNat_inj.mp (repr_toList_inj ha)
  . exact UInt8.toNat_inj.mp (repr_toList_inj hb)
  . exact UInt8.toNat_inj.mp (repr_toList_inj hc)
  . exact UInt8.toNat_inj.mp (repr_toList_inj hd)

theorem ntohs_ntohs (x : UInt16) : ntohs (ntohs x) = x := by
  have height : UInt16.toBitVec 8 = 8#16 := rfl
  unfold ntohs
  apply UInt16.toBitVec_inj.mp
  apply BitVec.eq_of_getLsbD_eq
  intro i hi
  have hhigh : x.toBitVec.getLsbD (8 + (8 + i)) = false := BitVec.getLsbD_of_ge _ _ (by omega)
  simp only [UInt16.toBitVec_or, UInt16.toBitVec_shiftLeft, UInt16.toBitVec_shiftRight, height]
  by_cases hlow : i < 8
  . have hlt : 8 + i < 16 := by omega
    simp [hlow, hlt, hhigh, hi]
  . have hge : ¬8 + i < 16 := by omega
    have hsub : 8 + (i - 8) = i := by omega
    have hback : i - 8 < 8 := by omega
    simp [hlow, hi, hge, hsub, hback, hhigh]

theorem toIpPort_inj {addr addr' : InetAddress} (h : addr.toIpPort = addr'.toIpPort)
    : addr = addr' := by
  have hcolon : ":".toList = [':'] := rfl
  have hlist := congrArg String.toList h
  unfold toIpPort at hlist
  simp only [String.toList_append, hcolon, List.append_assoc, List.singleton_append] at hlist
  rcases append_sep_inj (colon_notMem_toIp addr) (colon_notMem_toIp addr') hlist with ⟨hip, hport⟩
  rcases toIp_inj hip with ⟨ha, hb, hc, hd⟩
  have hsin : addr.sinPort = addr'.sinPort := by
    rw [← ntohs_ntohs addr.sinPort, ← ntohs_ntohs addr'.sinPort]
    apply congrArg ntohs
    apply UInt16.toBitVec_inj.mp
    exact congrArg Int16.toBitVec (Int16.toInt_inj.mp (int_repr_inj (String.toList_inj.mp hport)))
  cases addr
  cases addr'
  simp_all

structure FormatsAgree (addr : InetAddress) (size : Nat) : Prop where
  sockets : Sockets.toIpPort size addr = some addr.toIpPort
  printed : addr.toIpPort = addr.toIp ++ ":" ++ addr.port.repr
  port : addr.toPort.toInt = addr.port
  distinct : ∀ addr', InetAddress.toIpPort addr' = addr.toIpPort → addr' = addr

theorem formatsAgree_iff (addr : InetAddress) (size : Nat) (hsize : addr.printed.length < size)
    : addr.FormatsAgree size ↔ addr.port < 2 ^ 15 := by
  rw [← toPort_toInt_iff]
  constructor
  . intro h
    exact h.port
  . intro hport
    have hprinted : addr.toIpPort = addr.printed := by
      unfold toIpPort
      rw [hport]
      rfl
    refine ⟨?_, hprinted, hport, ?_⟩
    . rw [sockets_toIpPort_eq addr hsize, hprinted]
    . intro addr' h
      exact toIpPort_inj h

theorem formatsAgree_iff_8000
    : InetAddress.printed ⟨127, 0, 0, 1, 0x401f⟩ = "127.0.0.1:8000"
      ∧ InetAddress.FormatsAgree ⟨127, 0, 0, 1, 0x401f⟩ 22 := by
  refine ⟨rfl, ?_⟩
  apply (formatsAgree_iff _ 22 _).mpr
  . decide
  . decide

theorem formats_differ
    : InetAddress.toIpPort ⟨127, 0, 0, 1, 0x00c0⟩ = "127.0.0.1:-16384"
      ∧ Sockets.toIpPort 22 ⟨127, 0, 0, 1, 0x00c0⟩ = some "127.0.0.1:49152"
      ∧ ¬∀ (addr : InetAddress) (size : Nat), addr.printed.length < size → addr.FormatsAgree size := by
  refine ⟨rfl, rfl, ?_⟩
  intro h
  have hagree := (h ⟨127, 0, 0, 1, 0x00c0⟩ 22 (by decide)).port
  revert hagree
  decide

end InetAddress
