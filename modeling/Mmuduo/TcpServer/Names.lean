import Mmuduo.TcpServer.Impl

namespace TcpServer

def nameOf (server : TcpServer) (c : ConnId) : String :=
  server.name ++ ("-" ++ server.listenAddr.toIpPort ++ "#" ++ (c + 1).repr)

theorem length_number_le {n : Nat} (h : n < 2 ^ 31) : n.repr.length ≤ 10 := by
  apply Nat.repr_length
  . decide
  . omega

theorem connName_eq_nameOf {server : TcpServer} {c : ConnId} (hc : c + 1 < 2 ^ 31)
    (hnext : server.nextConnId = Int32.ofNat (c + 1))
    : server.connName = server.nameOf c := by
  have htoInt : server.nextConnId.toInt = ((c + 1 : Nat) : Int) := by
    rw [hnext]
    apply Int32.toInt_ofNat_of_lt
    exact hc
  have hrepr : server.nextConnId.toInt.repr = (c + 1).repr := by
    rw [htoInt]
    rfl
  have hnumber := length_number_le hc
  have haddr := server.listenAddr.length_toIpPort_le
  have hdash : "-".length = 1 := rfl
  have hhash : "#".length = 1 := rfl
  unfold connName nameOf
  rw [hrepr, snprintf_of_length_lt]
  simp only [String.length_append]
  omega

theorem nameOf_injective {server : TcpServer} {c d : ConnId} (h : server.nameOf c = server.nameOf d)
    : c = d := by
  unfold nameOf at h
  rw [String.append_right_inj, String.append_right_inj] at h
  have hdigits := congrArg (fun number => Nat.ofDigitChars 10 number.toList 0) h
  simp only [Nat.toList_repr, Nat.ofDigitChars_ten_toDigits] at hdigits
  apply Nat.succ.inj hdigits

section NewConn

variable (server : TcpServer) (c : ConnId)

theorem newConn_name : (server.newConn c).1.name = server.connName := by
  unfold newConn getNextLoop
  split
  . rfl
  . rfl

theorem newConn_nextConnId : (server.newConn c).2.nextConnId = server.nextConnId + 1 := by
  unfold newConn getNextLoop
  split
  . rfl
  . rfl

theorem newConn_connections
    : (server.newConn c).2.connections
      =
      Function.update server.connections server.connName (some c) := by
  unfold newConn getNextLoop
  split
  . rfl
  . rfl

theorem newConn_nameOf (d : ConnId) : (server.newConn c).2.nameOf d = server.nameOf d := by
  unfold newConn getNextLoop
  split
  . rfl
  . rfl

end NewConn

end TcpServer
