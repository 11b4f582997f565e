import Mmuduo.TcpServer.Names

namespace TcpServer

def State.EntryOk (s : State) : Entry → Prop
  | .established i c => ∃ conn, s.conns c = some conn ∧ conn.loop = i
  | .handler i c => ∃ conn, s.conns c = some conn ∧ conn.loop = i
  | .closed i c => ∃ conn, s.conns c = some conn ∧ conn.loop = i
  | .removed i c => i = 0 ∧ ∃ conn, s.conns c = some conn
  | .destroyed i c => ∃ conn, s.conns c = some conn ∧ conn.loop = i

def isEstablished (c : ConnId) : Entry → Bool
  | .established _ d => decide (d = c)
  | _ => false

structure Table (s : State) : Prop where
  fresh : ∀ c, s.conns c = none ↔ s.accepted ≤ c
  nextConnId : s.server.nextConnId = Int32.ofNat (s.accepted + 1)
  name_eq : ∀ c conn, s.conns c = some conn → conn.name = s.server.nameOf c
  connections_iff : ∀ name c, s.server.connections name = some c
    ↔ ∃ conn, s.conns c = some conn ∧ conn.name = name ∧ .removed 0 c ∉ s.log
  entries : ∀ e ∈ s.log, s.EntryOk e

variable {s s' : State}

theorem State.EntryOk.mono {e : Entry} (h : s.EntryOk e)
    (hconns : ∀ c conn, s.conns c = some conn → s'.conns c = some conn)
    : s'.EntryOk e := by
  cases e with
  | established i c => exact h.imp fun conn hconn => ⟨hconns c conn hconn.1, hconn.2⟩
  | handler i c => exact h.imp fun conn hconn => ⟨hconns c conn hconn.1, hconn.2⟩
  | closed i c => exact h.imp fun conn hconn => ⟨hconns c conn hconn.1, hconn.2⟩
  | removed i c => exact ⟨h.1, h.2.imp fun conn => hconns c conn⟩
  | destroyed i c => exact h.imp fun conn hconn => ⟨hconns c conn hconn.1, hconn.2⟩

theorem Table.established_eq_zero {c : ConnId} (h : Table s) (hnone : s.conns c = none)
    : s.log.countP (isEstablished c) = 0 := by
  rw [List.countP_eq_zero]
  intro e hmem hestablished
  cases e with
  | established i d =>
    simp only [isEstablished, decide_eq_true_eq] at hestablished
    rcases h.entries _ hmem with ⟨conn, hconn, -⟩
    rw [hestablished, hnone] at hconn
    cases hconn
  | _ => simp [isEstablished] at hestablished

theorem conns_addConnection (hfresh : s.conns s.accepted = none) (tcp : TcpConnection) {c : ConnId}
    {conn : Conn} (hconn : s.conns c = some conn)
    : (s.addConnection tcp).conns c = some conn := by
  have hne : c ≠ s.accepted := by
    intro heq
    rw [heq, hfresh] at hconn
    cases hconn
  simp only [State.addConnection]
  rw [Function.update_of_ne hne]
  exact hconn

theorem Table.extend {entries : List Entry} (h : Table s) (hserver : s'.server = s.server)
    (haccepted : s'.accepted = s.accepted) (hconns : s'.conns = s.conns)
    (hlog : s'.log = s.log ++ entries)
    (hentries : ∀ e ∈ entries, s.EntryOk e ∧ ∀ c, e ≠ .removed 0 c)
    : Table s' := by
  have hremoved : ∀ c, .removed 0 c ∈ s'.log ↔ .removed 0 c ∈ s.log := by
    intro c
    rw [hlog, List.mem_append]
    constructor
    . rintro (hmem | hmem)
      . exact hmem
      . exact absurd rfl ((hentries _ hmem).2 c)
    . exact Or.inl
  constructor
  . rw [hconns, haccepted]
    apply h.fresh
  . rw [hserver, haccepted]
    apply h.nextConnId
  . rw [hconns, hserver]
    apply h.name_eq
  . intro name c
    rw [hconns, hserver, hremoved]
    apply h.connections_iff name c
  . intro e he
    rw [hlog, List.mem_append] at he
    have hok : s.EntryOk e := by
      rcases he with he | he
      . apply h.entries e he
      . exact (hentries e he).1
    apply hok.mono
    rw [hconns]
    exact fun _ _ => id

theorem Table.record {e : Entry} (h : Table s) (hserver : s'.server = s.server)
    (haccepted : s'.accepted = s.accepted) (hconns : s'.conns = s.conns)
    (hlog : s'.log = s.log ++ [e]) (hok : s.EntryOk e) (hne : ∀ c, e ≠ .removed 0 c)
    : Table s' := by
  apply h.extend hserver haccepted hconns hlog
  simp only [List.mem_singleton, forall_eq]
  exact ⟨hok, hne⟩

theorem Table.keep (h : Table s) (hserver : s'.server = s.server)
    (haccepted : s'.accepted = s.accepted) (hconns : s'.conns = s.conns) (hlog : s'.log = s.log)
    : Table s' := by
  have hnil : s'.log = s.log ++ [] := by
    rw [hlog, List.append_nil]
  apply h.extend hserver haccepted hconns hnil
  simp

theorem Table.name_inj {c d : ConnId} {conn conn' : Conn} (h : Table s)
    (hc : s.conns c = some conn) (hd : s.conns d = some conn') (hname : conn.name = conn'.name)
    : c = d := by
  rw [h.name_eq c conn hc, h.name_eq d conn' hd] at hname
  apply nameOf_injective hname

theorem Table.erase_iff {c : ConnId} {conn : Conn} (h : Table s) (hconn : s.conns c = some conn)
    (name : String) (d : ConnId)
    : (s.server.erase conn.name).connections name = some d
      ↔
      s.server.connections name = some d ∧ d ≠ c := by
  change Function.update s.server.connections conn.name none name = some d ↔ _
  by_cases hn : name = conn.name
  . rw [hn, Function.update_self]
    constructor
    . intro hnone
      cases hnone
    . rintro ⟨hsome, hne⟩
      rcases (h.connections_iff _ d).mp hsome with ⟨conn', hconn', hname, -⟩
      exact absurd (h.name_inj hconn' hconn hname) hne
  . rw [Function.update_of_ne hn]
    constructor
    . intro hsome
      refine ⟨hsome, ?_⟩
      intro heq
      rcases (h.connections_iff _ d).mp hsome with ⟨conn', hconn', hname, -⟩
      rw [heq, hconn] at hconn'
      cases hconn'
      exact hn hname.symm
    . exact And.left

theorem Table.erase {c : ConnId} {conn : Conn} (h : Table s) (hconn : s.conns c = some conn)
    : Table (s.eraseConnection 0 c conn) := by
  have hremoved : ∀ d, .removed 0 d ∉ (s.eraseConnection 0 c conn).log
      ↔ .removed 0 d ∉ s.log ∧ d ≠ c := by
    intro d
    simp [State.eraseConnection, not_or]
  constructor
  . apply h.fresh
  . apply h.nextConnId
  . apply h.name_eq
  . intro name d
    simp only [hremoved]
    change (s.server.erase conn.name).connections name = some d
      ↔ ∃ conn', s.conns d = some conn' ∧ conn'.name = name ∧ .removed 0 d ∉ s.log ∧ d ≠ c
    rw [h.erase_iff hconn, h.connections_iff]
    simp only [← and_assoc, exists_and_right]
  . intro e he
    change e ∈ s.log ++ [.removed 0 c] at he
    rw [List.mem_append, List.mem_singleton] at he
    rcases he with he | he
    . exact (h.entries e he).mono fun _ _ => id
    . rw [he]
      exact ⟨rfl, conn, hconn⟩

theorem Table.connName_eq (h : Table s) (hfew : s.accepted + 1 < 2 ^ 31)
    : s.server.connName = s.server.nameOf s.accepted := by
  apply connName_eq_nameOf hfew h.nextConnId

theorem Table.connections_connName (h : Table s) (hfew : s.accepted + 1 < 2 ^ 31)
    : s.server.connections s.server.connName = none := by
  rw [h.connName_eq hfew, Option.eq_none_iff_forall_ne_some]
  intro c hc
  rcases (h.connections_iff _ c).mp hc with ⟨conn, hconn, hname, -⟩
  rw [h.name_eq c conn hconn] at hname
  have hne : s.conns c ≠ none := by
    simp [hconn]
  rw [Ne, h.fresh, nameOf_injective hname] at hne
  exact hne (Nat.le_refl _)

theorem Table.addConnection (h : Table s) (hfew : s.accepted + 1 < 2 ^ 31) (tcp : TcpConnection)
    : Table (s.addConnection tcp) := by
  have hfresh : s.conns s.accepted = none := by
    rw [h.fresh]
  have hremoved : .removed 0 s.accepted ∉ s.log := by
    intro hmem
    rcases h.entries _ hmem with ⟨-, conn, hconn⟩
    rw [hfresh] at hconn
    cases hconn
  constructor
  . intro c
    simp only [State.addConnection]
    by_cases hc : c = s.accepted
    . rw [hc, Function.update_self]
      simp
    . rw [Function.update_of_ne hc, h.fresh]
      constructor
      . intro hle
        apply Nat.lt_of_le_of_ne hle (Ne.symm hc)
      . apply Nat.le_of_succ_le
  . simp only [State.addConnection]
    rw [newConn_nextConnId, h.nextConnId]
    rw [Int32.ofNat_add (s.accepted + 1) 1]
    rfl
  . intro c conn hconn
    simp only [State.addConnection] at hconn ⊢
    rw [newConn_nameOf]
    by_cases hc : c = s.accepted
    . rw [hc, Function.update_self] at hconn
      cases hconn
      rw [newConn_name, hc]
      apply h.connName_eq hfew
    . rw [Function.update_of_ne hc] at hconn
      apply h.name_eq c conn hconn
  . intro name c
    simp only [State.addConnection]
    rw [newConn_connections]
    by_cases hn : name = s.server.connName
    . rw [hn, Function.update_self]
      constructor
      . intro heq
        cases heq
        refine ⟨(s.server.newConn s.accepted).1, ?_, newConn_name _ _, hremoved⟩
        rw [Function.update_self]
      . rintro ⟨conn, hconn, hname, -⟩
        by_cases hc : c = s.accepted
        . rw [hc]
        . rw [Function.update_of_ne hc] at hconn
          rw [h.name_eq c conn hconn, h.connName_eq hfew] at hname
          exact absurd (nameOf_injective hname) hc
    . rw [Function.update_of_ne hn, h.connections_iff]
      by_cases hc : c = s.accepted
      . constructor
        . rintro ⟨conn, hconn, -⟩
          rw [hc, hfresh] at hconn
          cases hconn
        . rintro ⟨conn, hconn, hname, -⟩
          rw [hc, Function.update_self] at hconn
          cases hconn
          rw [newConn_name] at hname
          exact absurd hname.symm hn
      . rw [Function.update_of_ne hc]
  . intro e he
    apply (h.entries e he).mono
    exact fun _ _ => conns_addConnection hfresh tcp

end TcpServer
