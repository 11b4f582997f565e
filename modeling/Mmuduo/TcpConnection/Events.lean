import Mmuduo.EpollPoller.Agreement
import Mmuduo.Lib.Transition
import Mmuduo.TcpConnection.Lemmas

namespace TcpConnection

def Action.isReport : Action → Bool
  | .connectionCallback _ => true
  | .messageCallback => true
  | .closeCallback => true
  | _ => false

namespace Events

inductive Branch where
  | close
  | error
  | read
  | write
  deriving DecidableEq, Repr

structure Handling where
  revents : UInt32
  branch : Branch
  deriving DecidableEq, Repr

structure State where
  conn : TcpConnection
  poller : EpollPoller Unit
  established : Bool
  destroyed : Bool
  handling : Option Handling
  -- The last test has called the user back.
  called : Bool
  log : List Action

inductive Event where
  | connectEstablished
  | connectDestroyed
  -- of a `send` on the loop thread, or queued by another thread
  | sendInLoop (data : List UInt8) (res : WriteResult)
  | shutdown
  | shutdownInLoop
  | handleEvent (revents : UInt32)
  | close
  | error
  | read (received : ReadResult)
  | write (res : WriteResult)

namespace State

def start (conn : TcpConnection) : State where
  conn := conn
  poller := .new fun _ => conn.channel.fd
  established := false
  destroyed := false
  handling := none
  called := false
  log := []

def userCode (s : State) : Bool :=
  s.handling.isNone || s.called

def index (s : State) : Index :=
  (s.poller.channels ()).index

def isRegistered (s : State) : Bool :=
  (s.poller.epollSet s.conn.channel.fd).isSome

def updates (s : State) (r : TcpConnection × List Action) : Bool :=
  decide (r.1.channel ≠ s.conn.channel ∨ .connectionCallback false ∈ r.2)

def updatePoller (s : State) (r : TcpConnection × List Action) : Option (EpollPoller Unit) :=
  if s.updates r then
    (s.poller.setChannel () r.1.channel).updateChannel ()
  else
    some s.poller

def act (s : State) (r : TcpConnection × List Action) : Option State := do
  let poller ← s.updatePoller r
  return {
    s with
    conn := r.1
    poller
    called := s.called || r.2.any Action.isReport
    log := s.log ++ r.2
  }

def next (s : State) (handling : Option Handling) : State :=
  { s with handling, called := false }

end State

def step (s : State) : Event → Option State
  | .connectEstablished =>
    if s.handling.isNone && !s.established then
      { s with established := true }.act s.conn.connectEstablished
    else
      none
  | .connectDestroyed =>
    if s.userCode && s.established && !s.destroyed then do
      let s ← { s with destroyed := true }.act s.conn.connectDestroyed
      let poller ← s.poller.removeChannel ()
      return { s with poller }
    else
      none
  | .sendInLoop data res =>
    if s.userCode && s.established then do
      let r ← s.conn.sendInLoop data res
      s.act r
    else
      none
  | .shutdown =>
    if s.userCode then
      if s.conn.state = .kConnected then
        s.act ({ s.conn with state := .kDisconnecting }, s.conn.shutdownInLoop)
      else
        some s
    else
      none
  | .shutdownInLoop =>
    if s.userCode then
      s.act (s.conn, s.conn.shutdownInLoop)
    else
      none
  | .handleEvent revents =>
    if s.handling.isNone && s.established && s.isRegistered then
      some (s.next (some ⟨revents, .close⟩))
    else
      none
  | .close =>
    match s.handling with
    | some ⟨revents, .close⟩ =>
      let s := s.next (some ⟨revents, .error⟩)
      if Channel.callsClose revents then s.act s.conn.handleClose else some s
    | _ => none
  | .error =>
    match s.handling with
    -- `handleError` only logs
    | some ⟨revents, .error⟩ => some (s.next (some ⟨revents, .read⟩))
    | _ => none
  | .read received =>
    match s.handling with
    | some ⟨revents, .read⟩ =>
      let s := s.next (some ⟨revents, .write⟩)
      if Channel.callsRead revents then do
        let r ← s.conn.handleRead received
        s.act r
      else
        some s
    | _ => none
  | .write res =>
    match s.handling with
    | some ⟨revents, .write⟩ =>
      let s := s.next none
      if Channel.callsWrite revents then do
        let r ← s.conn.handleWrite res
        s.act r
      else
        some s
    | _ => none

def system : LTS State Event where
  Init s := ∃ sockfd conn cb cb' mark, TcpConnection.new sockfd = some conn
    ∧ s = .start ((conn.setWriteCompleteCallback cb).setHighWaterMarkCallback cb' mark)
  next := step

inductive Step (s : State) : Event → State → Prop where
  | connectEstablished {s' : State} (hhandling : s.handling = none) (hnew : s.established = false)
    (hact : { s with established := true }.act s.conn.connectEstablished = some s')
    : Step s .connectEstablished s'
  | connectDestroyed {s₁ : State} {poller : EpollPoller Unit} (hcode : s.userCode = true)
    (hact : { s with destroyed := true }.act s.conn.connectDestroyed = some s₁)
    (hremove : s₁.poller.removeChannel () = some poller)
    : Step s .connectDestroyed { s₁ with poller }
  | sendInLoop {data : List UInt8} {res : WriteResult} {r : TcpConnection × List Action} {s' : State}
    (hcode : s.userCode = true) (hsend : s.conn.sendInLoop data res = some r)
    (hact : s.act r = some s')
    : Step s (.sendInLoop data res) s'
  | shutdown {s' : State} (hcode : s.userCode = true) (hstate : s.conn.state = .kConnected)
    (hact : s.act ({ s.conn with state := .kDisconnecting }, s.conn.shutdownInLoop) = some s')
    : Step s .shutdown s'
  | noShutdown
    : Step s .shutdown s
  | shutdownInLoop {s' : State} (hcode : s.userCode = true)
    (hact : s.act (s.conn, s.conn.shutdownInLoop) = some s')
    : Step s .shutdownInLoop s'
  | handleEvent {revents : UInt32} (hestablished : s.established = true)
    (hregistered : s.isRegistered = true)
    : Step s (.handleEvent revents) (s.next (some ⟨revents, .close⟩))
  | close {revents : UInt32} {s' : State} (hhandling : s.handling = some ⟨revents, .close⟩)
    (hcloses : Channel.callsClose revents = true)
    (hact : (s.next (some ⟨revents, .error⟩)).act s.conn.handleClose = some s')
    : Step s .close s'
  | noClose {revents : UInt32} (hhandling : s.handling = some ⟨revents, .close⟩)
    (hcloses : Channel.callsClose revents = false)
    : Step s .close (s.next (some ⟨revents, .error⟩))
  | error {revents : UInt32} (hhandling : s.handling = some ⟨revents, .error⟩)
    : Step s .error (s.next (some ⟨revents, .read⟩))
  | read {revents : UInt32} {received : ReadResult} {r : TcpConnection × List Action} {s' : State}
    (hhandling : s.handling = some ⟨revents, .read⟩) (hreads : Channel.callsRead revents = true)
    (hread : s.conn.handleRead received = some r)
    (hact : (s.next (some ⟨revents, .write⟩)).act r = some s')
    : Step s (.read received) s'
  | noRead {revents : UInt32} {received : ReadResult}
    (hhandling : s.handling = some ⟨revents, .read⟩) (hreads : Channel.callsRead revents = false)
    : Step s (.read received) (s.next (some ⟨revents, .write⟩))
  | write {revents : UInt32} {res : WriteResult} {r : TcpConnection × List Action} {s' : State}
    (hhandling : s.handling = some ⟨revents, .write⟩) (hwrite : s.conn.handleWrite res = some r)
    (hact : (s.next none).act r = some s')
    : Step s (.write res) s'
  | noWrite {revents : UInt32} {res : WriteResult}
    (hhandling : s.handling = some ⟨revents, .write⟩)
    : Step s (.write res) (s.next none)

theorem Step.of_step {s s' : State} {e : Event} (h : step s e = some s') : Step s e s' := by
  cases e with
  | connectEstablished =>
    simp only [step] at h
    split at h
    . next hguard =>
      rw [Bool.and_eq_true, Option.isNone_iff_eq_none, Bool.not_eq_true'] at hguard
      exact .connectEstablished hguard.1 hguard.2 h
    . contradiction
  | connectDestroyed =>
    simp only [step] at h
    split at h
    . next hguard =>
      rw [Bool.and_eq_true, Bool.and_eq_true] at hguard
      simp only [Option.bind_eq_bind, Option.bind_eq_some_iff] at h
      rcases h with ⟨s₁, hact, poller, hremove, hs'⟩
      cases hs'
      exact .connectDestroyed hguard.1.1 hact hremove
    . contradiction
  | sendInLoop data res =>
    simp only [step] at h
    split at h
    . next hguard =>
      rw [Bool.and_eq_true] at hguard
      rw [Option.bind_eq_bind, Option.bind_eq_some_iff] at h
      rcases h with ⟨r, hsend, hact⟩
      exact .sendInLoop hguard.1 hsend hact
    . contradiction
  | shutdown =>
    simp only [step] at h
    split at h
    . next hcode =>
      split at h
      . next hstate => exact .shutdown hcode hstate h
      . cases h
        exact .noShutdown
    . contradiction
  | shutdownInLoop =>
    simp only [step] at h
    split at h
    . next hcode => exact .shutdownInLoop hcode h
    . contradiction
  | handleEvent revents =>
    simp only [step] at h
    split at h
    . next hguard =>
      rw [Bool.and_eq_true, Bool.and_eq_true] at hguard
      cases h
      exact .handleEvent hguard.1.2 hguard.2
    . contradiction
  | close =>
    simp only [step] at h
    split at h
    . next revents hhandling =>
      split at h
      . next hcloses => exact .close hhandling hcloses h
      . next hcloses =>
        cases h
        rw [Bool.not_eq_true] at hcloses
        exact .noClose hhandling hcloses
    . contradiction
  | error =>
    simp only [step] at h
    split at h
    . next revents hhandling =>
      cases h
      exact .error hhandling
    . contradiction
  | read received =>
    simp only [step] at h
    split at h
    . next revents hhandling =>
      split at h
      . next hreads =>
        rw [Option.bind_eq_bind, Option.bind_eq_some_iff] at h
        rcases h with ⟨r, hread, hact⟩
        exact .read hhandling hreads hread hact
      . next hreads =>
        cases h
        rw [Bool.not_eq_true] at hreads
        exact .noRead hhandling hreads
    . contradiction
  | write res =>
    simp only [step] at h
    split at h
    . next revents hhandling =>
      split at h
      . rw [Option.bind_eq_bind, Option.bind_eq_some_iff] at h
        rcases h with ⟨r, hwrite, hact⟩
        exact .write hhandling hwrite hact
      . cases h
        exact .noWrite hhandling
    . contradiction

/--
No event closes the connection and then reads from it with success.
-/
def readsOpen (s : State) : Event → Bool
  | .read received =>
    match s.handling with
    | some ⟨revents, _⟩ =>
      !(Channel.callsClose revents && Channel.callsRead revents && received.isOk)
    | none => true
  | _ => true

def Quiet (log : List Action) : Prop :=
  log.Pairwise fun a b => a = .closeCallback → b.isReport = false

def Open (s : State) : Prop :=
  .closeCallback ∉ s.log ∧ s.index = .kAdded ∧ s.called = false

structure Inv (s : State) : Prop where
  agree : EpollPoller.Agree (fun _ => s.conn.channel.fd) s.poller
  established : .closeCallback ∈ s.log ∨ s.handling.isSome = true → s.established = true
  state : .closeCallback ∈ s.log → s.conn.state = .kDisconnected
  writing : .closeCallback ∈ s.log → s.conn.channel.isWriting = false
  index : .closeCallback ∈ s.log → s.index ≠ .kAdded
  -- Up to its read test, an event has closed the connection or found it open.
  unread : ∀ handling, s.handling = some handling → handling.branch ≠ .write →
    (Open s ∧ (handling.branch = .close ∨ Channel.callsClose handling.revents = false))
      ∨ (.closeCallback ∈ s.log ∧ handling.branch ≠ .close
        ∧ Channel.callsClose handling.revents = true)

def State.nextIndex (s : State) (r : TcpConnection × List Action) : Index :=
  if s.updates r then
    EpollPoller.nextIndex { toChannel := r.1.channel, index := s.index }
  else
    s.index

theorem act_spec {s s' : State} {r : TcpConnection × List Action}
    (hagree : EpollPoller.Agree (fun _ => s.conn.channel.fd) s.poller)
    (hfd : r.1.channel.fd = s.conn.channel.fd) (hact : s.act r = some s')
    : ∃ poller, s' = { s with
          conn := r.1
          poller
          called := s.called || r.2.any Action.isReport
          log := s.log ++ r.2 }
      ∧ EpollPoller.Agree (fun _ => r.1.channel.fd) poller
      ∧ (poller.channels ()).index = s.nextIndex r := by
  have hinjective : Function.Injective fun _ : Unit => s.conn.channel.fd := by
    intro c c' heq
    rfl
  rw [hfd]
  unfold State.act at hact
  rw [Option.bind_eq_bind, Option.bind_eq_some_iff] at hact
  rcases hact with ⟨poller, hpoller, hs'⟩
  cases hs'
  refine ⟨poller, rfl, ?_⟩
  unfold State.updatePoller at hpoller
  unfold State.nextIndex
  split at hpoller
  . next hupdates =>
    rw [hagree.setChannel_updateChannel () hfd, Option.some.injEq] at hpoller
    rw [if_pos hupdates, ← hpoller]
    refine ⟨hagree.register hinjective () hfd, ?_⟩
    simp [EpollPoller.register, State.index]
  . next hupdates =>
    cases hpoller
    rw [if_neg hupdates]
    exact ⟨hagree, rfl⟩

theorem quiet_append {log actions : List Action} (h : Quiet log)
    (hold : .closeCallback ∈ log → ∀ a ∈ actions, a.isReport = false)
    (hactions : .closeCallback ∉ actions)
    : Quiet (log ++ actions) := by
  apply List.pairwise_append.mpr
  refine ⟨h, ?_, ?_⟩
  . apply List.pairwise_of_forall_mem_list
    intro a ha b hb heq
    rw [heq] at ha
    contradiction
  . intro a ha b hb heq
    rw [heq] at ha
    apply hold ha b hb

theorem quiet_close {log : List Action} (h : Quiet log) (hnot : .closeCallback ∉ log)
    : Quiet (log ++ [.connectionCallback false, .closeCallback]) := by
  apply List.pairwise_append.mpr
  refine ⟨h, ?_, ?_⟩
  . simp
  . intro a ha b hb heq
    rw [heq] at ha
    contradiction

namespace Inv

variable {s s' : State} {r : TcpConnection × List Action}

theorem start (conn : TcpConnection) : Inv (.start conn) := by
  constructor
  . apply EpollPoller.agree_new
  . simp [State.start]
  . simp [State.start]
  . simp [State.start]
  . simp [State.start]
  . simp [State.start]

theorem notMem_of_index (h : Inv s) (hindex : s.index = .kAdded) : .closeCallback ∉ s.log := by
  intro hmem
  apply h.index hmem hindex

theorem handleEvent (h : Inv s) (hestablished : s.established = true)
    (hregistered : s.isRegistered = true) (revents : UInt32)
    : Inv (s.next (some ⟨revents, .close⟩)) := by
  have hindex : s.index = .kAdded := (h.agree.isSome_epollSet ()).mp hregistered
  refine ⟨h.agree, fun _ => hestablished, h.state, h.writing, h.index, ?_⟩
  intro handling heq hbranch
  cases heq
  left
  exact ⟨⟨h.notMem_of_index hindex, hindex, rfl⟩, Or.inl rfl⟩

theorem next {revents : UInt32} {branch : Branch} (h : Inv s)
    (hhandling : s.handling = some ⟨revents, branch⟩) (hbranch : branch ≠ .write)
    (hopen : branch = .close → Channel.callsClose revents = false)
    {branch' : Branch} (hclose : branch' ≠ .close)
    : Inv (s.next (some ⟨revents, branch'⟩)) := by
  have hestablished : s.established = true := by
    apply h.established
    right
    rw [hhandling]
    rfl
  refine ⟨h.agree, fun _ => hestablished, h.state, h.writing, h.index, ?_⟩
  intro handling heq hbranch'
  cases heq
  rcases h.unread _ hhandling hbranch with ⟨⟨hnot, hindex, -⟩, htest⟩ | ⟨hmem, -, hcloses⟩
  . left
    refine ⟨⟨hnot, hindex, rfl⟩, Or.inr ?_⟩
    apply htest.elim hopen id
  . exact Or.inr ⟨hmem, hclose, hcloses⟩

theorem finish (h : Inv s) {handling : Option Handling} (hsome : s.handling.isSome = true)
    (hwrite : ∀ last, handling = some last → last.branch = .write)
    : Inv (s.next handling) := by
  refine ⟨h.agree, fun _ => h.established (Or.inr hsome), h.state, h.writing, h.index, ?_⟩
  intro last heq hbranch
  have := hwrite last heq
  contradiction

theorem act (h : Inv s) (hfd : r.1.channel.fd = s.conn.channel.fd) (hact : s.act r = some s')
    (hkeep : .closeCallback ∈ s.log → r.1 = s.conn ∧ ∀ a ∈ r.2, a.isReport = false)
    (hactions : .closeCallback ∉ r.2)
    (hread : ∀ handling, s.handling = some handling → handling.branch ≠ .write → ¬ Open s)
    : Inv s' ∧ (Quiet s.log → Quiet s'.log) := by
  rcases act_spec h.agree hfd hact with ⟨poller, rfl, hagree, hindex⟩
  have hmem : .closeCallback ∈ s.log ++ r.2 → .closeCallback ∈ s.log := by
    intro hmem
    apply (List.mem_append.mp hmem).resolve_right hactions
  have hsame : .closeCallback ∈ s.log → s.nextIndex r = s.index := by
    intro hclosed
    unfold State.nextIndex
    rw [if_neg]
    unfold State.updates
    rw [decide_eq_true_eq, not_or, (hkeep hclosed).1]
    refine ⟨by simp, ?_⟩
    intro hdown
    have := (hkeep hclosed).2 _ hdown
    contradiction
  constructor
  . constructor
    . exact hagree
    . intro hclosed
      apply h.established
      apply hclosed.imp_left hmem
    . intro hclosed
      dsimp only
      rw [(hkeep (hmem hclosed)).1]
      apply h.state (hmem hclosed)
    . intro hclosed
      dsimp only
      rw [(hkeep (hmem hclosed)).1]
      apply h.writing (hmem hclosed)
    . intro hclosed
      rw [State.index, hindex, hsame (hmem hclosed)]
      apply h.index (hmem hclosed)
    . intro handling hhandling hbranch
      right
      rcases h.unread handling hhandling hbranch with ⟨hopen, -⟩ | ⟨hclosed, hrest⟩
      . apply absurd hopen (hread handling hhandling hbranch)
      . exact ⟨List.mem_append_left _ hclosed, hrest⟩
  . intro hquiet
    apply quiet_append hquiet _ hactions
    intro hclosed
    apply (hkeep hclosed).2

theorem close {handling : Option Handling} {inputBuffer : Kfifo} (h : Inv s)
    (hestablished : s.established = true) (hindex : s.index = .kAdded)
    (hact : (s.next handling).act { s.conn with inputBuffer }.handleClose = some s')
    (hhandling : ∀ last, handling = some last → last.branch ≠ .write →
      last.branch ≠ .close ∧ Channel.callsClose last.revents = true)
    : Inv s' ∧ (Quiet s.log → Quiet s'.log) := by
  have hbefore : EpollPoller.Agree (fun _ => (s.next handling).conn.channel.fd)
      (s.next handling).poller := h.agree
  rcases act_spec hbefore rfl hact with ⟨poller, rfl, hagree, hnext⟩
  have hdeleted : (s.next handling).nextIndex { s.conn with inputBuffer }.handleClose = .kDeleted := by
    have hindex : (s.next handling).index = .kAdded := hindex
    simp [State.nextIndex, State.updates, handleClose_eq, EpollPoller.nextIndex, hindex,
      Channel.isNoneEvent, Channel.disableAll]
  constructor
  . constructor
    . exact hagree
    . intro hclosed
      exact hestablished
    . intro hclosed
      rfl
    . intro hclosed
      apply Channel.isWriting_disableAll
    . intro hclosed
      rw [State.index, hnext, hdeleted]
      simp
    . intro last heq hbranch
      right
      refine ⟨?_, hhandling last heq hbranch⟩
      apply List.mem_append_right
      simp [handleClose_eq]
  . intro hquiet
    apply quiet_close hquiet (h.notMem_of_index hindex)

theorem not_open (hcode : s.userCode = true)
    : ∀ handling, s.handling = some handling → handling.branch ≠ .write → ¬ Open s := by
  rintro handling hhandling - ⟨-, -, hcalled⟩
  simp [State.userCode, hhandling, hcalled] at hcode

theorem connectEstablished (h : Inv s) (hnew : s.established = false) (hnone : s.handling = none)
    (hact : { s with established := true }.act s.conn.connectEstablished = some s')
    : Inv s' ∧ (Quiet s.log → Quiet s'.log) := by
  have hnot : .closeCallback ∉ s.log := by
    intro hmem
    rw [h.established (Or.inl hmem)] at hnew
    contradiction
  have hset : Inv { s with established := true } :=
    ⟨h.agree, fun _ => rfl, h.state, h.writing, h.index, h.unread⟩
  apply hset.act rfl hact
  . intro hmem
    contradiction
  . simp [TcpConnection.connectEstablished]
  . intro handling hhandling
    rw [show _ = _ from hnone] at hhandling
    contradiction

theorem remove {poller : EpollPoller Unit} (h : Inv s) (hcode : s.userCode = true)
    (hremove : s.poller.removeChannel () = some poller)
    : Inv { s with poller } := by
  have hfd : (s.poller.channels ()).fd = s.conn.channel.fd := h.agree.fd ()
  have hinjective : Function.Injective fun _ : Unit => s.conn.channel.fd := by
    intro c c' heq
    rfl
  rw [EpollPoller.removeChannel_eq] at hremove
  . cases hremove
    refine ⟨?_, h.established, h.state, h.writing, ?_, ?_⟩
    . refine h.agree.register hinjective () ?_
      exact hfd
    . intro hclosed
      simp [State.index, EpollPoller.register]
    . intro handling hhandling hbranch
      rcases h.unread handling hhandling hbranch with ⟨hopen, -⟩ | hclosed
      . apply absurd hopen (not_open hcode handling hhandling hbranch)
      . exact Or.inr hclosed
  . rw [hfd]
    apply h.agree.isSome_epollSet ()

theorem userCode_act (hcode : s.userCode = true) (hact : s.act r = some s') : s'.userCode = true := by
  unfold State.act at hact
  rw [Option.bind_eq_bind, Option.bind_eq_some_iff] at hact
  rcases hact with ⟨poller, -, hs'⟩
  cases hs'
  unfold State.userCode at hcode ⊢
  rw [Bool.or_eq_true] at hcode ⊢
  apply hcode.imp_right
  intro hcalled
  simp [hcalled]

theorem connectDestroyed {s₁ : State} {poller : EpollPoller Unit} (h : Inv s)
    (hcode : s.userCode = true)
    (hact : { s with destroyed := true }.act s.conn.connectDestroyed = some s₁)
    (hremove : s₁.poller.removeChannel () = some poller)
    : Inv { s₁ with poller } ∧ (Quiet s.log → Quiet s₁.log) := by
  have hset : Inv { s with destroyed := true } :=
    ⟨h.agree, h.established, h.state, h.writing, h.index, h.unread⟩
  have hdown : .closeCallback ∈ s.log → s.conn.connectDestroyed = (s.conn, []) := by
    intro hclosed
    unfold TcpConnection.connectDestroyed
    rw [if_neg]
    rw [h.state hclosed]
    simp
  have hinv : Inv s₁ ∧ (Quiet s.log → Quiet s₁.log) := by
    apply hset.act _ hact
    . intro hclosed
      rw [hdown hclosed]
      simp
    . unfold TcpConnection.connectDestroyed
      split
      . simp
      . simp
    . apply not_open hcode
    . unfold TcpConnection.connectDestroyed
      split
      . rfl
      . rfl
  refine ⟨?_, hinv.2⟩
  apply hinv.1.remove _ hremove
  apply userCode_act _ hact
  apply hcode

theorem sendInLoop {data : List UInt8} {res : WriteResult} (h : Inv s) (hcode : s.userCode = true)
    (hsend : s.conn.sendInLoop data res = some r) (hact : s.act r = some s')
    : Inv s' ∧ (Quiet s.log → Quiet s'.log) := by
  rcases sendInLoop_output hsend with ⟨-, houtput, hdown⟩
  apply h.act (sendInLoop_fd hsend) hact
  . intro hclosed
    rw [hdown (h.state hclosed)]
    simp
  . intro hmem
    have := houtput _ hmem
    contradiction
  . apply not_open hcode

theorem shutdown (h : Inv s) (hcode : s.userCode = true) (hstate : s.conn.state = .kConnected)
    (hact : s.act ({ s.conn with state := .kDisconnecting }, s.conn.shutdownInLoop) = some s')
    : Inv s' ∧ (Quiet s.log → Quiet s'.log) := by
  apply h.act rfl hact
  . intro hclosed
    rw [h.state hclosed] at hstate
    contradiction
  . intro hmem
    have := (mem_shutdownInLoop hmem).1
    contradiction
  . apply not_open hcode

theorem shutdownInLoop (h : Inv s) (hcode : s.userCode = true)
    (hact : s.act (s.conn, s.conn.shutdownInLoop) = some s')
    : Inv s' ∧ (Quiet s.log → Quiet s'.log) := by
  apply h.act rfl hact
  . intro hclosed
    refine ⟨rfl, ?_⟩
    intro a ha
    rw [(mem_shutdownInLoop ha).1]
    rfl
  . intro hmem
    have := (mem_shutdownInLoop hmem).1
    contradiction
  . apply not_open hcode

theorem established_of_handling {handling : Handling} (h : Inv s)
    (hhandling : s.handling = some handling)
    : s.established = true := by
  apply h.established
  right
  rw [hhandling]
  rfl

theorem closeBranch {revents : UInt32} (h : Inv s)
    (hhandling : s.handling = some ⟨revents, .close⟩) (hcloses : Channel.callsClose revents = true)
    (hact : (s.next (some ⟨revents, .error⟩)).act s.conn.handleClose = some s')
    : Inv s' ∧ (Quiet s.log → Quiet s'.log) := by
  have hestablished := h.established_of_handling hhandling
  rcases h.unread _ hhandling (by simp) with ⟨⟨-, hindex, -⟩, -⟩ | ⟨-, hbranch, -⟩
  . apply h.close hestablished hindex hact
    intro last heq hbranch
    cases heq
    exact ⟨by simp, hcloses⟩
  . contradiction

theorem readBranch {revents : UInt32} {received : ReadResult} (h : Inv s)
    (hhandling : s.handling = some ⟨revents, .read⟩) (hreads : Channel.callsRead revents = true)
    (hcond : readsOpen s (.read received) = true) (hread : s.conn.handleRead received = some r)
    (hact : (s.next (some ⟨revents, .write⟩)).act r = some s')
    : Inv s' ∧ (Quiet s.log → Quiet s'.log) := by
  have hestablished := h.established_of_handling hhandling
  have hnext : Inv (s.next (some ⟨revents, .write⟩)) := by
    apply h.next hhandling (by simp) (by simp) (by simp)
  have hunread : ∀ handling, (s.next (some ⟨revents, .write⟩)).handling = some handling →
      handling.branch ≠ .write → ¬ Open (s.next (some ⟨revents, .write⟩)) := by
    intro handling heq hbranch
    cases heq
    contradiction
  rcases h.unread _ hhandling (by simp) with ⟨⟨hnot, hindex, -⟩, -⟩ | ⟨hclosed, -, hcloses⟩
  . rcases handleRead_cases hread with ⟨-, hchannel, hactions⟩ | ⟨inputBuffer, rfl⟩
    . apply hnext.act (congrArg Channel.fd hchannel) hact
      . intro hmem
        contradiction
      . rcases hactions with hactions | hactions
        . simp [hactions]
        . simp [hactions]
      . exact hunread
    . apply h.close hestablished hindex hact
      intro last heq hbranch
      cases heq
      contradiction
  . cases received with
    | ok bytes => simp [readsOpen, hhandling, hcloses, hreads, Except.isOk, Except.toBool] at hcond
    | error errno =>
      rw [handleRead_error] at hread
      cases hread
      apply hnext.act rfl hact
      . simp [State.next]
      . simp
      . exact hunread

theorem writeBranch {handling : Handling} {res : WriteResult} (h : Inv s)
    (hhandling : s.handling = some handling) (hwrite : s.conn.handleWrite res = some r)
    (hact : (s.next none).act r = some s')
    : Inv s' ∧ (Quiet s.log → Quiet s'.log) := by
  have hnext : Inv (s.next none) := by
    apply h.finish
    . rw [hhandling]
      rfl
    . simp
  apply hnext.act (handleWrite_fd hwrite) hact
  . intro hclosed
    rcases (handleWrite_output hwrite).2 with rfl | ⟨hwriting, -⟩
    . simp [State.next]
    . rw [h.writing hclosed] at hwriting
      contradiction
  . rcases (handleWrite_output hwrite).2 with rfl | ⟨-, bytes, rest, hactions, hrest⟩
    . simp
    . rw [hactions]
      intro hmem
      rcases hrest _ ((List.mem_cons.mp hmem).resolve_left (by simp)) with heq | ⟨heq, -⟩
      . contradiction
      . contradiction
  . simp [State.next]

theorem step {e : Event} (h : Inv s) (hcond : readsOpen s e = true) (hstep : Step s e s')
    : Inv s' ∧ (Quiet s.log → Quiet s'.log) := by
  cases hstep with
  | connectEstablished hhandling hnew hact => apply h.connectEstablished hnew hhandling hact
  | connectDestroyed hcode hact hremove => apply h.connectDestroyed hcode hact hremove
  | sendInLoop hcode hsend hact => apply h.sendInLoop hcode hsend hact
  | shutdown hcode hstate hact => apply h.shutdown hcode hstate hact
  | noShutdown => exact ⟨h, id⟩
  | shutdownInLoop hcode hact => apply h.shutdownInLoop hcode hact
  | @handleEvent revents hestablished hregistered =>
    exact ⟨h.handleEvent hestablished hregistered revents, id⟩
  | close hhandling hcloses hact => apply h.closeBranch hhandling hcloses hact
  | noClose hhandling hcloses =>
    refine ⟨?_, id⟩
    apply h.next hhandling (by simp) (fun _ => hcloses) (by simp)
  | error hhandling =>
    refine ⟨?_, id⟩
    apply h.next hhandling (by simp) (by simp) (by simp)
  | read hhandling hreads hread hact => apply h.readBranch hhandling hreads hcond hread hact
  | noRead hhandling hreads =>
    refine ⟨?_, id⟩
    apply h.next hhandling (by simp) (by simp) (by simp)
  | write hhandling hwrite hact => apply h.writeBranch hhandling hwrite hact
  | noWrite hhandling =>
    refine ⟨?_, id⟩
    apply h.finish
    . rw [hhandling]
      rfl
    . simp

end Inv

section Quiet

variable {s s' : State} {e : Event}

theorem act_log {r : TcpConnection × List Action} (hact : s.act r = some s')
    : s'.log = s.log ++ r.2 := by
  unfold State.act at hact
  rw [Option.bind_eq_bind, Option.bind_eq_some_iff] at hact
  rcases hact with ⟨poller, -, hs'⟩
  cases hs'
  rfl

theorem Step.log_extends (hstep : Step s e s') : s.log <+: s'.log := by
  have hact : ∀ {s₁ s₂ : State} {r : TcpConnection × List Action}, s₁.act r = some s₂ →
      s₁.log = s.log → s.log <+: s₂.log := by
    intro s₁ s₂ r hact hlog
    rw [act_log hact, hlog]
    apply List.prefix_append
  cases hstep with
  | connectEstablished hhandling hnew h => apply hact h rfl
  | connectDestroyed hcode h hremove => apply hact h rfl
  | sendInLoop hcode hsend h => apply hact h rfl
  | shutdown hcode hstate h => apply hact h rfl
  | shutdownInLoop hcode h => apply hact h rfl
  | close hhandling hcloses h => apply hact h rfl
  | read hhandling hreads hread h => apply hact h rfl
  | write hhandling hwrite h => apply hact h rfl
  | _ => apply List.prefix_refl

theorem Inv.not_quiet (h : Inv s) (hcond : readsOpen s e = false) (hstep : Step s e s')
    : ¬ Quiet s'.log := by
  cases hstep with
  | noRead hhandling hreads => simp [readsOpen, hhandling, hreads] at hcond
  | @read revents received r s' hhandling hreads hread hact =>
    simp only [readsOpen, hhandling, Bool.not_eq_false', Bool.and_eq_true] at hcond
    rcases hcond with ⟨⟨hcloses, -⟩, hok⟩
    have hclosed : .closeCallback ∈ s.log := by
      rcases h.unread _ hhandling (by simp) with ⟨-, htest⟩ | ⟨hclosed, -⟩
      . simp [hcloses] at htest
      . exact hclosed
    cases received with
    | error errno => contradiction
    | ok bytes =>
      rw [act_log hact]
      intro hquiet
      have hafter := (List.pairwise_append.mp hquiet).2.2 _ hclosed
      rcases handleRead_ok hread with hmem | hmem
      . have := hafter _ hmem rfl
        contradiction
      . have := hafter _ hmem rfl
        contradiction
  | _ => contradiction

end Quiet

theorem quiet_after_close {s s' : State} {es : List Event} (hinit : system.Init s)
    (hrun : system.run s es = some s')
    : (s'.log.Pairwise fun a b => a = .closeCallback → b.isReport = false)
        ↔
      system.Along (fun s e => readsOpen s e = true) s es := by
  have hstep : ∀ s e s', Inv s → Quiet s.log → system.next s e = some s' →
      (Quiet s'.log ↔ readsOpen s e = true) := by
    intro s e s' h hquiet hnext
    cases hcond : readsOpen s e with
    | true => exact iff_of_true ((h.step hcond (.of_step hnext)).2 hquiet) rfl
    | false => exact iff_of_false (h.not_quiet hcond (.of_step hnext)) (by simp)
  have hinv : ∀ s e s', Inv s → Quiet s.log → system.next s e = some s' → Quiet s'.log → Inv s' :=
    fun s e s' h hquiet hnext hquiet' =>
      (h.step ((hstep s e s' h hquiet hnext).mp hquiet') (.of_step hnext)).1
  have hlost : ∀ s e s', system.next s e = some s' → Quiet s'.log → Quiet s.log :=
    fun s e s' hnext hquiet => hquiet.sublist (Step.of_step hnext).log_extends.sublist
  rcases hinit with ⟨sockfd, conn, cb, cb', mark, -, rfl⟩
  apply system.run_iff_along hinv hstep hlost (Inv.start _) _ hrun
  apply List.Pairwise.nil

theorem fresh_init : system.Init (.start fresh) :=
  ⟨6, fresh, false, false, _, new_fresh, by rw [fresh_setCallbacks]⟩

def closedByRead : List Event :=
  [.connectEstablished, .handleEvent EPOLLIN, .close, .error, .read (.ok [97]),
    .sendInLoop [98] (.ok 1), .write (.ok 0), .handleEvent (EPOLLIN ||| EPOLLHUP), .close, .error,
    .read (.ok []), .sendInLoop [99] (.ok 1), .write (.ok 0), .connectDestroyed]

theorem quiet_after_close_read
    : ∃ s, system.run (.start fresh) closedByRead = some s ∧ .closeCallback ∈ s.log
      ∧ s.log.Pairwise fun a b => a = .closeCallback → b.isReport = false := by
  have hrun : (system.run (.start fresh) closedByRead).any (fun s =>
      decide (.closeCallback ∈ s.log)) = true := by
    decide +kernel
  rcases (Option.any_eq_true _ _).mp hrun with ⟨s, hs, hclosed⟩
  refine ⟨s, hs, of_decide_eq_true hclosed, ?_⟩
  rw [quiet_after_close fresh_init hs]
  decide +kernel

def urgentHangup : List Event :=
  [.connectEstablished, .handleEvent (EPOLLHUP ||| EPOLLPRI), .close, .error, .read (.ok [97])]

theorem message_after_close
    : ∃ s, system.run (.start fresh) urgentHangup = some s
      ∧ s.log = [.connectionCallback true, .connectionCallback false, .closeCallback,
        .messageCallback] := by
  have hrun : (system.run (.start fresh) urgentHangup).any (fun s =>
      decide (s.log = [.connectionCallback true, .connectionCallback false, .closeCallback,
        .messageCallback])) = true := by
    decide +kernel
  rcases (Option.any_eq_true _ _).mp hrun with ⟨s, hs, hlog⟩
  exact ⟨s, hs, of_decide_eq_true hlog⟩

end Events

end TcpConnection
