import Mathlib.Logic.Function.Basic
import Mmuduo.Channel

/-!
This module contains the registration of the channels of one loop with its poller. It is kept three
times: in the map of the poller, in the index of the channel and in the epoll set of the kernel.
-/

inductive Index where
  | kNew
  | kAdded
  | kDeleted
  deriving DecidableEq, Repr

structure PolledChannel extends Channel where
  index : Index

inductive EpollCtl where
  | add
  | mod
  | del
  deriving DecidableEq, Repr

structure EpollEvent (ι : Type) where
  events : UInt32
  ptr : ι

/--
Only an `EPOLL_CTL_ADD` of a present fd and the other operations on an absent fd fail.
-/
def epollCtl {ι : Type} (epollSet : Nat → Option (EpollEvent ι)) (op : EpollCtl) (fd : Nat)
    (event : EpollEvent ι) : Option (Nat → Option (EpollEvent ι)) :=
  match op, epollSet fd with
  | .add, none => some (Function.update epollSet fd (some event))
  | .mod, some _ => some (Function.update epollSet fd (some event))
  | .del, some _ => some (Function.update epollSet fd none)
  | _, _ => none

structure EpollPoller (ι : Type) where
  channels : ι → PolledChannel
  channelMap : Nat → Option ι
  epollSet : Nat → Option (EpollEvent ι)
  -- the failed calls of `epoll_ctl` that are only logged
  ctlErrors : List EpollCtl

inductive ChannelCall where
  | enableReading
  | disableReading
  | enableWriting
  | disableWriting
  | disableAll
  | remove
  deriving DecidableEq, Repr

namespace EpollPoller

variable {ι : Type} [DecidableEq ι]

def new (fds : ι → Nat) : EpollPoller ι where
  channels := fun c => { toChannel := Channel.new (fds c), index := .kNew }
  channelMap := fun _ => none
  epollSet := fun _ => none
  ctlErrors := []

def setIndex (p : EpollPoller ι) (c : ι) (index : Index) : EpollPoller ι :=
  { p with channels := Function.update p.channels c { p.channels c with index } }

def setChannel (p : EpollPoller ι) (c : ι) (channel : Channel) : EpollPoller ι :=
  { p with channels := Function.update p.channels c { p.channels c with toChannel := channel } }

def hasChannel (p : EpollPoller ι) (c : ι) : Bool :=
  p.channelMap (p.channels c).fd == some c

/--
`LOG_FATAL` exits the process.
-/
def update (p : EpollPoller ι) (op : EpollCtl) (c : ι) : Option (EpollPoller ι) :=
  match epollCtl p.epollSet op (p.channels c).fd ⟨(p.channels c).events, c⟩ with
  | some epollSet => some { p with epollSet }
  | none =>
    if op = .del then
      some { p with ctlErrors := p.ctlErrors ++ [op] }
    else
      none

def removeChannel (p : EpollPoller ι) (c : ι) : Option (EpollPoller ι) := do
  let fd := (p.channels c).fd
  let p := { p with channelMap := Function.update p.channelMap fd none }
  let p ← if (p.channels c).index = .kAdded then p.update .del c else some p
  return p.setIndex c .kNew

def updateChannel (p : EpollPoller ι) (c : ι) : Option (EpollPoller ι) :=
  let index := (p.channels c).index
  let fd := (p.channels c).fd
  if index = .kNew ∨ index = .kDeleted then
    let p :=
      if index = .kNew then
        { p with channelMap := Function.update p.channelMap fd (some c) }
      else
        p
    (p.setIndex c .kAdded).update .add c
  else if (p.channels c).isNoneEvent then do
    let p ← p.update .del c
    return p.setIndex c .kDeleted
  else
    p.update .mod c

def call (p : EpollPoller ι) (c : ι) : ChannelCall → Option (EpollPoller ι)
  | .enableReading => (p.setChannel c (p.channels c).enableReading).updateChannel c
  | .disableReading => (p.setChannel c (p.channels c).disableReading).updateChannel c
  | .enableWriting => (p.setChannel c (p.channels c).enableWriting).updateChannel c
  | .disableWriting => (p.setChannel c (p.channels c).disableWriting).updateChannel c
  | .disableAll => (p.setChannel c (p.channels c).disableAll).updateChannel c
  | .remove => p.removeChannel c

def calls (p : EpollPoller ι) : List (ι × ChannelCall) → Option (EpollPoller ι)
  | [] => some p
  | (c, op) :: cs => do
    let p ← p.call c op
    p.calls cs

end EpollPoller
