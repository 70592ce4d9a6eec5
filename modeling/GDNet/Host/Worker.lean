import GDNet.Host.World

/-!
# The host thread

`thread_loop` with `send_messages` and `poll_events`, one step for each block
between a lock and an unlock of a queue, each lock and unlock of the host and
each part of an ENet call.  `WorkerStep` lists the steps by name, and every
property of the thread is proved by cases on it.
-/

namespace GDNet

structure WorkerInput where
  /-- `enet_packet_create` succeeds. -/
  creates : Bool := true
  allocates : Nat → Bool := fun _ => true
  service : ENet.ServiceInput := {}
  /-- `OS::get_ticks_msec`. -/
  time : Int := 0

/-- The switch over the type in `send_messages`. -/
def packetFlags : MessageType → UInt32
  | .unsequenced => ENet.packetFlagUnsequenced
  | .reliable => ENet.packetFlagReliable
  | _ => 0

/-- The rest of a turn of `send_messages`; `none` is an index beyond the peers. -/
def handOver (h : ENet.Host) (m : Message) (input : WorkerInput) : Option ENet.Host :=
  let packet : ENet.Packet := ⟨packetFlags m.type, m.packet⟩
  if !input.creates then some h
  else if m.broadcast then
    some (ENet.hostBroadcast h (UInt8.ofInt m.channelId) packet input.allocates)
  else if 0 ≤ m.peerId ∧ m.peerId < h.peerCount then
    some (h.update m.peerId.toNat fun p =>
      (ENet.peerSend h p (UInt8.ofInt m.channelId) packet
        (input.allocates m.peerId.toNat)).getD p)
  else none

/-- `new_event`, with the conversion of `enet_uint32` to `int`. -/
def newEvent (time : Int) (e : ENet.Event) : Event :=
  match e.type with
  | .connect =>
    { type := .connect, time := time, peerId := e.peer, data := e.data.toInt32.toInt }
  | .receive =>
    { type := .receive, time := time, peerId := e.peer, channelId := e.channelID.toNat,
      packet := (e.packet.map ENet.Packet.data).getD [] }
  | .disconnect =>
    { type := .disconnect, time := time, peerId := e.peer, data := e.data.toInt32.toInt }

namespace World

def queuedEvent (w : World) (time : Int) (e : ENet.Event) : QueuedEvent :=
  ⟨newEvent time e, ⟨w.session, e⟩⟩

def setMessages (w : World) (q : Queue QueuedMessage queueSize) : World :=
  { w with host.messageQueue := q }

def setEvents (w : World) (q : Queue QueuedEvent queueSize) : World :=
  { w with host.eventQueue := q }

/-- A part of an ENet call of the thread, and what it does with the outcome. -/
def polled (w : World) (time : Int) (h : ENet.Host) : ENet.ServiceOutcome → World
  | .next pc => (w.setENet h).goto (.service pc)
  | .done none => (w.setENet h).goto .unlockHost
  | .done (some e) => (w.setENet h).goto (.pushTest (w.queuedEvent time e))

@[simp] theorem setMessages_fault (w : World) (q : Queue QueuedMessage queueSize) :
    (w.setMessages q).fault = w.fault := rfl

@[simp] theorem setEvents_fault (w : World) (q : Queue QueuedEvent queueSize) :
    (w.setEvents q).fault = w.fault := rfl

@[simp] theorem polled_fault (w : World) (time : Int) (h : ENet.Host)
    (outcome : ENet.ServiceOutcome) : (w.polled time h outcome).fault = w.fault := by
  unfold polled
  split <;> rfl

end World

def workerRun (w : World) (input : WorkerInput) : WorkerPc → Option World
  | .loopTest => some (w.goto (if w.host.running then .lockAccess else .finished))
  | .lockAccess => w.lock .host .access id (·.goto .lockHost)
  | .lockHost => w.lock .host .host id (·.goto .unlockAccess)
  | .unlockAccess => some (w.unlock .access id (·.goto .isEmpty))
  | .isEmpty => some (w.goto (if w.host.messageQueue.isEmpty then .poll else .popTest))
  | .popTest =>
    -- `pop` returns `NULL` and `message->get_type()` follows it.
    some (if w.host.messageQueue.isEmpty then w.fail .nullMessage else w.goto .popRead)
  | .popRead =>
    some ((w.setMessages w.host.messageQueue.read).goto (.handing w.host.messageQueue.front))
  | .handing m =>
    match w.host.enetHost with
    | none => some (w.fail .nullHost)
    | some h =>
      match handOver h m.item input with
      | none => some (w.fail .badIndex)
      | some h' => some ((w.setENet h').goto .isEmpty)
  | .poll => some (w.goto (.service .dispatch))
  | .service pc =>
    match w.host.enetHost with
    | none => some (w.fail .nullHost)
    | some h =>
      let r := ENet.serviceStep h pc input.service
      some (w.polled input.time r.1 r.2)
  | .pushTest e => some (w.goto (if w.host.eventQueue.isFull then .check else .pushWrite e))
  | .pushWrite e => some ((w.setEvents (w.host.eventQueue.write e)).goto .check)
  | .check =>
    match w.host.enetHost with
    | none => some (w.fail .nullHost)
    | some h =>
      let r := ENet.protocolDispatchIncomingCommands h
      some (w.polled input.time r.1 (.done r.2))
  | .unlockHost => some (w.unlock .host id (·.goto .loopTest))
  | .finished => none

def workerStep (w : World) (input : WorkerInput) : Option World :=
  w.worker.bind (workerRun w input)

/-! ## The steps by name -/

/-- The behaviour of the step at `pc` is undefined. -/
inductive WorkerFault (w : World) (input : WorkerInput) : WorkerPc → Fault → Prop
  | lockAccess (hm : w.host.accessMutex = none) : WorkerFault w input .lockAccess .nullMutex
  | lockHost (hm : w.host.hostMutex = none) : WorkerFault w input .lockHost .nullMutex
  | unlockAccess (hm : w.host.accessMutex = none) : WorkerFault w input .unlockAccess .nullMutex
  | unlockHost (hm : w.host.hostMutex = none) : WorkerFault w input .unlockHost .nullMutex
  | popTest (he : w.host.messageQueue.isEmpty = true) : WorkerFault w input .popTest .nullMessage
  | badIndex {m : QueuedMessage} {h : ENet.Host} (hh : w.host.enetHost = some h)
      (ho : handOver h m.item input = none) : WorkerFault w input (.handing m) .badIndex
  | handing {m : QueuedMessage} (hh : w.host.enetHost = none) :
      WorkerFault w input (.handing m) .nullHost
  | service {pc : ENet.ServicePc} (hh : w.host.enetHost = none) :
      WorkerFault w input (.service pc) .nullHost
  | check (hh : w.host.enetHost = none) : WorkerFault w input .check .nullHost

/-- A step of the host thread at `pc`. -/
inductive WorkerStep (w : World) (input : WorkerInput) : WorkerPc → World → Prop
  | enter (hr : w.host.running = true) : WorkerStep w input .loopTest (w.goto .lockAccess)
  | leave (hr : w.host.running = false) : WorkerStep w input .loopTest (w.goto .finished)
  | lockAccess (hm : w.host.accessMutex = some ⟨none⟩) :
      WorkerStep w input .lockAccess ((w.grant .host .access).goto .lockHost)
  | lockHost (hm : w.host.hostMutex = some ⟨none⟩) :
      WorkerStep w input .lockHost ((w.grant .host .host).goto .unlockAccess)
  | unlockAccess (hm : w.host.accessMutex ≠ none) :
      WorkerStep w input .unlockAccess ((w.release .access).goto .isEmpty)
  | drained (he : w.host.messageQueue.isEmpty = true) :
      WorkerStep w input .isEmpty (w.goto .poll)
  | more (he : w.host.messageQueue.isEmpty = false) :
      WorkerStep w input .isEmpty (w.goto .popTest)
  | popTest (he : w.host.messageQueue.isEmpty = false) :
      WorkerStep w input .popTest (w.goto .popRead)
  | popRead : WorkerStep w input .popRead
      ((w.setMessages w.host.messageQueue.read).goto (.handing w.host.messageQueue.front))
  | handing {m : QueuedMessage} {h h' : ENet.Host} (hh : w.host.enetHost = some h)
      (ho : handOver h m.item input = some h') :
      WorkerStep w input (.handing m) ((w.setENet h').goto .isEmpty)
  | poll : WorkerStep w input .poll (w.goto (.service .dispatch))
  | service {pc : ENet.ServicePc} {h : ENet.Host} (hh : w.host.enetHost = some h) :
      WorkerStep w input (.service pc)
        (w.polled input.time (ENet.serviceStep h pc input.service).1
          (ENet.serviceStep h pc input.service).2)
  | refused {e : QueuedEvent} (hf : w.host.eventQueue.isFull = true) :
      WorkerStep w input (.pushTest e) (w.goto .check)
  | pushTest {e : QueuedEvent} (hf : w.host.eventQueue.isFull = false) :
      WorkerStep w input (.pushTest e) (w.goto (.pushWrite e))
  | pushWrite {e : QueuedEvent} : WorkerStep w input (.pushWrite e)
      ((w.setEvents (w.host.eventQueue.write e)).goto .check)
  | check {h : ENet.Host} (hh : w.host.enetHost = some h) :
      WorkerStep w input .check
        (w.polled input.time (ENet.protocolDispatchIncomingCommands h).1
          (.done (ENet.protocolDispatchIncomingCommands h).2))
  | unlockHost (hm : w.host.hostMutex ≠ none) :
      WorkerStep w input .unlockHost ((w.release .host).goto .loopTest)
  | fails {pc : WorkerPc} {f : Fault} (hf : WorkerFault w input pc f) :
      WorkerStep w input pc (w.fail f)

theorem workerRun_cases {w w' : World} {input : WorkerInput} {pc : WorkerPc}
    (h : workerRun w input pc = some w') : WorkerStep w input pc w' := by
  cases pc with
  | loopTest =>
    cases hr : w.host.running <;> rw [workerRun, hr] at h <;> cases h
    · exact .leave hr
    · exact .enter hr
  | lockAccess =>
    rw [workerRun] at h
    rcases World.lock_cases h with ⟨hm, rfl⟩ | ⟨hm, rfl⟩
    · exact .fails (.lockAccess hm)
    · exact .lockAccess hm
  | lockHost =>
    rw [workerRun] at h
    rcases World.lock_cases h with ⟨hm, rfl⟩ | ⟨hm, rfl⟩
    · exact .fails (.lockHost hm)
    · exact .lockHost hm
  | unlockAccess =>
    rw [workerRun] at h
    rcases World.unlock_cases w .access id (·.goto .isEmpty) with ⟨hm, e⟩ | ⟨hm, e⟩ <;>
      rw [e] at h <;> cases h
    · exact .fails (.unlockAccess hm)
    · exact .unlockAccess hm
  | isEmpty =>
    cases he : w.host.messageQueue.isEmpty <;> rw [workerRun, he] at h <;> cases h
    · exact .more he
    · exact .drained he
  | popTest =>
    cases he : w.host.messageQueue.isEmpty <;> rw [workerRun, he] at h <;> cases h
    · exact .popTest he
    · exact .fails (.popTest he)
  | popRead => cases h; exact .popRead
  | handing m =>
    rw [workerRun] at h
    split at h
    · next hh => cases h; exact .fails (.handing hh)
    · next hh =>
      split at h
      · next ho => cases h; exact .fails (.badIndex hh ho)
      · next ho => cases h; exact .handing hh ho
  | poll => cases h; exact .poll
  | service pc =>
    rw [workerRun] at h
    split at h
    · next hh => cases h; exact .fails (.service hh)
    · next hh => cases h; exact .service hh
  | pushTest e =>
    cases hf : w.host.eventQueue.isFull <;> rw [workerRun, hf] at h <;> cases h
    · exact .pushTest hf
    · exact .refused hf
  | pushWrite e => cases h; exact .pushWrite
  | check =>
    rw [workerRun] at h
    split at h
    · next hh => cases h; exact .fails (.check hh)
    · next hh => cases h; exact .check hh
  | unlockHost =>
    rw [workerRun] at h
    rcases World.unlock_cases w .host id (·.goto .loopTest) with ⟨hm, e⟩ | ⟨hm, e⟩ <;>
      rw [e] at h <;> cases h
    · exact .fails (.unlockHost hm)
    · exact .unlockHost hm
  | finished => cases h

theorem workerStep_cases {w w' : World} {input : WorkerInput} (h : workerStep w input = some w') :
    ∃ pc, w.worker = some pc ∧ WorkerStep w input pc w' := by
  obtain ⟨pc, hpc, hr⟩ := Option.bind_eq_some_iff.mp h
  exact ⟨pc, hpc, workerRun_cases hr⟩

end GDNet
