import GDNet.ENet.Origin
import GDNet.Queue.Basic

/-!
# A GDNetHost and its thread

`Host` has the fields of `GDNetHost` that two threads can touch, `World` adds the
host thread and the number of sessions bound so far.  What the script holds of a
peer is a pointer into the peer array of one session.

The two queues hold their items with a stamp, which no function reads back: a
message carries what its slot was when it was written, an event the event of ENet
it was made from.  Undefined behaviour is a fault, and a faulted world has no
further steps.

Left out of the host: `_event_wait` and the two bandwidth limits, which only
decide how long ENet waits and how much it sends.
-/

namespace GDNet

/-- The script-facing ints are converted as C++ does it, modulo the width. -/
inductive MessageType where
  | unsequenced
  | sequenced
  | reliable
  | other (n : Int)
deriving DecidableEq, Repr

/-- The cast to `GDNetMessage::Type`. -/
def MessageType.ofInt (n : Int) : MessageType :=
  if n = 0 then .unsequenced else if n = 1 then .sequenced else if n = 2 then .reliable
  else .other n

structure Message where
  type : MessageType
  broadcast : Bool := false
  peerId : Int := 0
  channelId : Int := 0
  packet : List UInt8 := []
deriving DecidableEq, Repr

inductive EventType where
  | none
  | connect
  | disconnect
  | receive
deriving DecidableEq, Repr

structure Event where
  type : EventType := .none
  time : Int := 0
  peerId : Int := 0
  channelId : Int := 0
  packet : List UInt8 := []
  data : Int := 0
deriving DecidableEq, Repr

/-- What was so when a message was written into the queue. -/
structure MessageStamp where
  /-- The session in which the call that made the message started. -/
  session : Nat
  /-- The slot the message is for. -/
  slot : Option ENet.Slot
deriving DecidableEq, Repr

structure EventStamp where
  session : Nat
  origin : ENet.Event
deriving DecidableEq, Repr

structure Stamped (α β : Type*) where
  item : α
  stamp : β
deriving DecidableEq, Repr

abbrev QueuedMessage := Stamped Message MessageStamp
abbrev QueuedEvent := Stamped Event EventStamp

/-- The threads: the one the host starts, and those of the game. -/
inductive Thread where
  | host
  | game (n : Nat)
deriving DecidableEq, Repr

structure Mutex where
  owner : Option Thread
deriving DecidableEq, Repr

/-- The queue size of the template's default argument. -/
def queueSize : Nat := 1024

structure Host where
  /-- `_host`. -/
  enetHost : Option ENet.Host
  running : Bool
  /-- `_thread != NULL`. -/
  thread : Bool
  accessMutex : Option Mutex
  hostMutex : Option Mutex
  maxPeers : Int
  maxChannels : Int
  eventQueue : Queue QueuedEvent queueSize
  messageQueue : Queue QueuedMessage queueSize

/-- Where the host thread is. -/
inductive WorkerPc where
  /-- `while (_running)`. -/
  | loopTest
  | lockAccess
  | lockHost
  | unlockAccess
  /-- The test of the loop in `send_messages`. -/
  | isEmpty
  | popTest
  | popRead
  /-- Between `pop` and `memdelete` of a message. -/
  | handing (message : QueuedMessage)
  /-- About to call `enet_host_service`. -/
  | poll
  | service (pc : ENet.ServicePc)
  | pushTest (event : QueuedEvent)
  | pushWrite (event : QueuedEvent)
  /-- About to call `enet_host_check_events`. -/
  | check
  | unlockHost
  | finished

inductive Fault where
  | nullMutex
  | nullHost
  | nullMessage
  | nullAddress
  /-- A peer pointer into an array that was freed. -/
  | danglingPeer
  /-- An index beyond the peer array. -/
  | badIndex
deriving DecidableEq, Repr

structure World where
  host : Host
  /-- The host thread, from its creation until it is joined. -/
  worker : Option WorkerPc
  session : Nat
  fault : Option Fault

/-- `ENetPeer*`. -/
structure PeerPtr where
  session : Nat
  slot : Nat
deriving DecidableEq, Repr

namespace World

def goto (w : World) (pc : WorkerPc) : World := { w with worker := some pc }

def fail (w : World) (f : Fault) : World := { w with fault := some f }

def setENet (w : World) (h : ENet.Host) : World := { w with host.enetHost := some h }

@[simp] theorem goto_host (w : World) (pc : WorkerPc) : (w.goto pc).host = w.host := rfl
@[simp] theorem goto_worker (w : World) (pc : WorkerPc) : (w.goto pc).worker = some pc := rfl
@[simp] theorem goto_session (w : World) (pc : WorkerPc) : (w.goto pc).session = w.session := rfl
@[simp] theorem goto_fault (w : World) (pc : WorkerPc) : (w.goto pc).fault = w.fault := rfl
@[simp] theorem fail_host (w : World) (f : Fault) : (w.fail f).host = w.host := rfl
@[simp] theorem fail_worker (w : World) (f : Fault) : (w.fail f).worker = w.worker := rfl
@[simp] theorem fail_session (w : World) (f : Fault) : (w.fail f).session = w.session := rfl
@[simp] theorem fail_fault (w : World) (f : Fault) : (w.fail f).fault = some f := rfl
@[simp] theorem setENet_fault (w : World) (h : ENet.Host) : (w.setENet h).fault = w.fault := rfl

end World

/-! ## The two mutexes -/

inductive Which where
  | access
  | host
deriving DecidableEq

namespace Host

def mutex (h : Host) : Which → Option Mutex
  | .access => h.accessMutex
  | .host => h.hostMutex

def setMutex (h : Host) (m : Option Mutex) : Which → Host
  | .access => { h with accessMutex := m }
  | .host => { h with hostMutex := m }

end Host

namespace World

def grant (w : World) (t : Thread) (which : Which) : World :=
  { w with host := w.host.setMutex (some ⟨some t⟩) which }

def release (w : World) (which : Which) : World :=
  { w with host := w.host.setMutex (some ⟨none⟩) which }

@[simp] theorem grant_fault (w : World) (t : Thread) (which : Which) :
    (w.grant t which).fault = w.fault := rfl

@[simp] theorem release_fault (w : World) (which : Which) :
    (w.release which).fault = w.fault := rfl

variable {β : Type*}

/-- `lock` waits while the mutex is owned, and cannot be called on `NULL`. -/
def lock (w : World) (t : Thread) (which : Which) (broken next : World → β) : Option β :=
  match w.host.mutex which with
  | none => some (broken (w.fail .nullMutex))
  | some m => if m.owner = none then some (next (w.grant t which)) else none

def unlock (w : World) (which : Which) (broken next : World → β) : β :=
  match w.host.mutex which with
  | none => broken (w.fail .nullMutex)
  | some _ => next (w.release which)

theorem lock_cases {w : World} {t : Thread} {which : Which} {broken next : World → β} {b : β}
    (h : w.lock t which broken next = some b) :
    (w.host.mutex which = none ∧ b = broken (w.fail .nullMutex)) ∨
    (w.host.mutex which = some ⟨none⟩ ∧ b = next (w.grant t which)) := by
  rw [lock] at h
  cases hm : w.host.mutex which with
  | none => rw [hm] at h; exact Or.inl ⟨rfl, (Option.some.inj h).symm⟩
  | some m =>
    rw [hm] at h
    simp only [Option.ite_none_right_eq_some] at h
    refine Or.inr ⟨?_, (Option.some.inj h.2).symm⟩
    rw [← h.1]

theorem unlock_cases (w : World) (which : Which) (broken next : World → β) :
    (w.host.mutex which = none ∧ w.unlock which broken next = broken (w.fail .nullMutex)) ∨
    (w.host.mutex which ≠ none ∧ w.unlock which broken next = next (w.release which)) := by
  rw [unlock]
  cases hm : w.host.mutex which with
  | none => exact Or.inl ⟨rfl, rfl⟩
  | some m => exact Or.inr ⟨Option.some_ne_none m, rfl⟩

end World
end GDNet
