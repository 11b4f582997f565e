import Mathlib.Logic.Basic

def EPOLLIN : UInt32 := 0x001
def EPOLLPRI : UInt32 := 0x002
def EPOLLOUT : UInt32 := 0x004
def EPOLLERR : UInt32 := 0x008
def EPOLLHUP : UInt32 := 0x010

structure Channel where
  fd : Nat
  events : UInt32
  deriving DecidableEq, Repr

namespace Channel

def kNoneEvent : UInt32 := 0
def kReadEvent : UInt32 := EPOLLIN ||| EPOLLPRI
def kWriteEvent : UInt32 := EPOLLOUT

def new (fd : Nat) : Channel := { fd, events := kNoneEvent }

def enableReading (ch : Channel) : Channel :=
  { ch with events := ch.events ||| kReadEvent }

def disableReading (ch : Channel) : Channel :=
  { ch with events := ch.events &&& ~~~kReadEvent }

def enableWriting (ch : Channel) : Channel :=
  { ch with events := ch.events ||| kWriteEvent }

def disableWriting (ch : Channel) : Channel :=
  { ch with events := ch.events &&& ~~~kWriteEvent }

def disableAll (ch : Channel) : Channel :=
  { ch with events := kNoneEvent }

def isNoneEvent (ch : Channel) : Bool :=
  ch.events == kNoneEvent

def isReading (ch : Channel) : Bool :=
  ch.events &&& kReadEvent != 0

def isWriting (ch : Channel) : Bool :=
  ch.events &&& kWriteEvent != 0

def callsClose (revents : UInt32) : Bool :=
  revents &&& EPOLLHUP != 0 && !(revents &&& EPOLLIN != 0)

def callsRead (revents : UInt32) : Bool :=
  revents &&& (EPOLLIN ||| EPOLLPRI) != 0

def callsWrite (revents : UInt32) : Bool :=
  revents &&& EPOLLOUT != 0

theorem or_and_distrib (x y z : UInt32) : (x ||| y) &&& z = x &&& z ||| y &&& z := by
  apply UInt32.toBitVec_inj.mp
  exact BitVec.and_or_distrib_right

theorem isWriting_enableReading (ch : Channel) : ch.enableReading.isWriting = ch.isWriting := by
  have hread : kReadEvent &&& kWriteEvent = 0 := by decide
  simp only [enableReading, isWriting, or_and_distrib, hread, UInt32.or_zero]

theorem isWriting_enableWriting (ch : Channel) : ch.enableWriting.isWriting = true := by
  have habsorb : (ch.events ||| kWriteEvent) &&& kWriteEvent = kWriteEvent := by
    apply UInt32.toBitVec_inj.mp
    ext i hi
    simp only [UInt32.toBitVec_and, UInt32.toBitVec_or, BitVec.getElem_and, BitVec.getElem_or]
    cases kWriteEvent.toBitVec[i] <;> simp
  simp only [enableWriting, isWriting, habsorb]
  decide

theorem isWriting_disableAll (ch : Channel) : ch.disableAll.isWriting = false := by
  simp [disableAll, isWriting, kNoneEvent]

end Channel
