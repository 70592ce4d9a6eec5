import GDNet.Host.Worker

/-!
# A game thread

The methods of `GDNetHost` and `GDNetPeer` as one thread of the game calls them,
cut into steps where the host thread can run in between.  `CallStep` lists what a
call does when it starts, `GoStep` what the later steps of a call do.

What the environment decides about a step is in `Env`.  The difference of two
pointers into different arrays is any number.
-/

namespace GDNet

/-- `GDNetAddress`. -/
structure NetAddress where
  host : String
  port : Int

/-- What the two calls of `encode_variant` return for a value: a length, bytes. -/
structure Variant where
  length : Option Nat
  bytes : Option (List UInt8)

/-- The methods of a peer that run between `acquireMutex` and `releaseMutex`. -/
inductive PeerMethod where
  | ping
  | reset
  | disconnect (data : Int)
  | disconnectLater (data : Int)
  | disconnectNow (data : Int)
  | setTimeout (limit minTimeout maxTimeout : Int)
deriving DecidableEq

inductive Call where
  | bind (addr : Option NetAddress)
  | unbind
  | setMaxPeers (max : Int)
  | setMaxChannels (max : Int)
  | getPeer (id : UInt32)
  | connect (addr : Option NetAddress) (data : Int)
  | broadcastPacket (packet : List UInt8) (channelId type : Int)
  | broadcastVar (var : Variant) (channelId type : Int)
  | isEventAvailable
  | getEventCount
  | getEvent
  | getPeerId (peer : PeerPtr)
  | getAddress (peer : PeerPtr)
  | getAvgRtt (peer : PeerPtr)
  | locked (method : PeerMethod) (peer : PeerPtr)
  | sendPacket (peer : PeerPtr) (packet : List UInt8) (channelId type : Int)
  | sendVar (peer : PeerPtr) (var : Variant) (channelId type : Int)

/-- The peer object a method is called on. -/
def Call.peer : Call → Option PeerPtr
  | .getPeerId peer => some peer
  | .getAddress peer => some peer
  | .getAvgRtt peer => some peer
  | .locked _ peer => some peer
  | .sendPacket peer _ _ _ => some peer
  | .sendVar peer _ _ _ => some peer
  | _ => none

/-- The arguments of `enet_host_connect`. -/
structure ConnectArgs where
  address : ENet.Address
  data : Int
deriving DecidableEq

/-- Where a game thread is. -/
inductive GamePc where
  | idle
  | lockAccess (method : PeerMethod) (peer : PeerPtr)
  | lockHost (method : PeerMethod) (peer : PeerPtr)
  | unlockAccess (method : PeerMethod) (peer : PeerPtr)
  /-- In the ENet function of the method. -/
  | inside (method : PeerMethod) (peer : PeerPtr)
  | unlockHost
  /-- `get_address` has read the port. -/
  | addressHost (peer : PeerPtr) (port : UInt16)
  /-- In `enet_host_connect`, before and after its search for a free slot. -/
  | searching (args : ConnectArgs)
  | found (slot : Nat) (args : ConnectArgs)
  /-- A message that lacks its peer id; whether the second encoding succeeds. -/
  | sending (peer : PeerPtr) (draft : Message) (encodes : Bool)
  | pushTest (message : Message)
  | pushWrite (message : Message)
  | popTest
  | popRead
  /-- The assignments of `thread_start`. -/
  | bindRunning
  | bindAccess
  | bindHost
  | bindThread
  | bindAssign
  /-- `thread_stop` and the rest of `unbind`. -/
  | unbindRunning
  | unbindWait
  | unbindThread
  | unbindAccess
  | unbindHost
  | unbindFlush
  | unbindDestroy
  | unbindMessages
  | unbindEvents
deriving DecidableEq

structure Game where
  pc : GamePc
  /-- The peer objects the thread has obtained. -/
  handles : List PeerPtr
  /-- The session in which its last call started. -/
  since : Nat

structure Env where
  /-- What a host name resolves to. -/
  resolves : Option UInt32 := some 0
  /-- `enet_host_create` gets its memory and its socket. -/
  opens : Bool := true
  seed : UInt32 := 0
  channels : Bool := true
  allocates : Bool := true
  passes : List (Nat → ENet.SendChoice) := []
  difference : Int := 0

inductive GameInput where
  | call (c : Call) (env : Env)
  | go (env : Env)

namespace Game

def goto (g : Game) (pc : GamePc) : Game := { g with pc := pc }

def obtain (g : Game) (p : PeerPtr) : Game := { g with handles := g.handles ++ [p] }

@[simp] theorem goto_pc (g : Game) (pc : GamePc) : (g.goto pc).pc = pc := rfl
@[simp] theorem goto_since (g : Game) (pc : GamePc) : (g.goto pc).since = g.since := rfl
@[simp] theorem obtain_pc (g : Game) (p : PeerPtr) : (g.obtain p).pc = g.pc := rfl
@[simp] theorem obtain_handles (g : Game) (p : PeerPtr) :
    (g.obtain p).handles = g.handles ++ [p] := rfl

end Game

namespace World

/-- The host behind a peer pointer, if the pointer is into its array. -/
def live (w : World) (p : PeerPtr) : Option ENet.Host :=
  match w.host.enetHost with
  | none => none
  | some h => if p.session = w.session ∧ p.slot < h.peerCount then some h else none

/-- `GDNetPeer::get_peer_id`. -/
def getPeerId (w : World) (p : PeerPtr) (env : Env) : Int :=
  match w.host.enetHost with
  | none => -1
  | some _ => if p.session = w.session then p.slot else env.difference

def isEventAvailable (w : World) : Bool := !w.host.eventQueue.isEmpty

def getEventCount (w : World) : Nat := w.host.eventQueue.size

/-- The slot a message is for, as it is now. -/
def slotOf (w : World) (m : Message) : Option ENet.Slot :=
  match w.host.enetHost with
  | none => none
  | some h =>
    if !m.broadcast ∧ 0 ≤ m.peerId ∧ m.peerId < h.peerCount then some (h.slot m.peerId.toNat)
    else none

def queuedMessage (w : World) (since : Nat) (m : Message) : QueuedMessage :=
  ⟨m, ⟨since, w.slotOf m⟩⟩

theorem live_eq {w : World} {p : PeerPtr} {h : ENet.Host} (hl : w.live p = some h) :
    w.host.enetHost = some h ∧ p.session = w.session ∧ p.slot < h.peerCount := by
  unfold live at hl
  split at hl
  · cases hl
  · next g hg =>
    simp only [Option.ite_none_right_eq_some] at hl
    obtain ⟨⟨hs, hp⟩, he⟩ := hl
    obtain rfl := Option.some.inj he
    exact ⟨hg, hs, hp⟩

end World

/-- The ENet function of a method.  The limits that `enet_peer_timeout` sets only
count towards timeouts. -/
def PeerMethod.run (method : PeerMethod) (h : ENet.Host) (i : Nat) (env : Env) : ENet.Host :=
  match method with
  | .ping => h.update i fun p => ENet.peerPing p env.allocates
  | .reset => ENet.peerReset h i
  | .disconnect data => ENet.peerDisconnect h i (UInt32.ofInt data) env.allocates env.passes
  | .disconnectLater data =>
    ENet.peerDisconnectLater h i (UInt32.ofInt data) env.allocates env.passes
  | .disconnectNow data => ENet.peerDisconnectNow h i (UInt32.ofInt data) env.allocates env.passes
  | .setTimeout _ _ _ => h

theorem method_moves {a : ENet.Allow} {method : PeerMethod} {h : ENet.Host} {i : Nat} {env : Env}
    (hf : a.frees) (hc : a.closes i) : ENet.HostMoves a h (method.run h i env) := by
  cases method with
  | ping =>
    show ENet.HostMoves a h (h.update i fun p => ENet.peerPing p env.allocates)
    exact ENet.HostMoves.update_slot (ENet.peerPing_slot _ _)
  | reset => exact ENet.reset_moves (fun _ => hf) fun _ => hc
  | disconnect data => exact ENet.disconnect_moves hf hc
  | disconnectLater data => exact ENet.disconnectLater_moves hf hc
  | disconnectNow data => exact ENet.disconnectNow_moves hf hc
  | setTimeout _ _ _ => exact ENet.HostMoves.refl h

/-- What `bind` hands to `enet_host_create` for its argument; a name that is in it has
to resolve. -/
def bindAddress (addr : Option NetAddress) (env : Env) : Option (Option ENet.Address) :=
  match addr with
  | none => some none
  | some a =>
    if a.host.isEmpty then some (some ⟨ENet.enetHostAny, UInt16.ofInt a.port⟩)
    else env.resolves.map fun host => some ⟨host, UInt16.ofInt a.port⟩

/-- `enet_host_create` with the limits of the host. -/
def World.create (w : World) (address : Option ENet.Address) (env : Env) : Option ENet.Host :=
  ENet.hostCreate address (UInt64.ofInt w.host.maxPeers).toNat
    (UInt64.ofInt w.host.maxChannels).toNat env.seed env.opens

/-- The first step of a call.  A call that returns at once leaves the thread idle. -/
def startCall (w : World) (g : Game) (env : Env) : Call → World × Game
  | .bind addr =>
    if w.host.enetHost.isSome then (w, g)
    else
      match bindAddress addr env with
      | none => (w, g)
      | some address =>
        match w.create address env with
        | none => (w, g)
        | some h => ({ w.setENet h with session := w.session + 1 }, g.goto .bindRunning)
  | .unbind => (w, if w.host.enetHost.isSome then g.goto .unbindRunning else g)
  | .setMaxPeers max => ({ w with host.maxPeers := max }, g)
  | .setMaxChannels max => ({ w with host.maxChannels := max }, g)
  | .getPeer id =>
    match w.host.enetHost with
    | none => (w, g)
    | some h => (w, if id.toNat < h.peerCount then g.obtain ⟨w.session, id.toNat⟩ else g)
  | .connect addr data =>
    if w.host.enetHost.isSome then
      match addr, env.resolves with
      | none, _ => (w.fail .nullAddress, g)
      | some _, none => (w, g)
      | some a, some host => (w, g.goto (.searching ⟨⟨host, UInt16.ofInt a.port⟩, data⟩))
    else (w, g)
  | .broadcastPacket packet channelId type =>
    (w, if w.host.enetHost.isSome then
        g.goto (.pushTest ⟨.ofInt type, true, 0, channelId, packet⟩)
      else g)
  | .broadcastVar var channelId type =>
    if w.host.enetHost.isSome then
      match var.length, var.bytes with
      | none, _ => (w, g)
      | some 0, _ => (w, g)
      -- The message that was made before the second call is not deleted.
      | some _, none => (w, g)
      | some _, some packet => (w, g.goto (.pushTest ⟨.ofInt type, true, 0, channelId, packet⟩))
    else (w, g)
  | .isEventAvailable => (w, g)
  | .getEventCount => (w, g)
  | .getEvent => (w, g.goto .popTest)
  | .getPeerId _ => (w, g)
  | .getAddress peer =>
    match w.live peer with
    | none => (w.fail .danglingPeer, g)
    | some h => (w, g.goto (.addressHost peer (h.peers peer.slot).address.port))
  | .getAvgRtt peer =>
    if w.host.enetHost.isSome ∧ (w.live peer).isNone then (w.fail .danglingPeer, g) else (w, g)
  | .locked method peer =>
    (w, if w.host.enetHost.isSome then g.goto (.lockAccess method peer) else g)
  | .sendPacket peer packet channelId type =>
    (w, if w.host.enetHost.isSome then
        g.goto (.sending peer ⟨.ofInt type, false, 0, channelId, packet⟩ true)
      else g)
  | .sendVar peer var channelId type =>
    if w.host.enetHost.isSome then
      match var.length with
      | none => (w, g)
      | some 0 => (w, g)
      | some _ =>
        (w, g.goto (.sending peer ⟨.ofInt type, false, 0, channelId, var.bytes.getD []⟩
          var.bytes.isSome))
    else (w, g)

/-- The next step of a call; `none` waits. -/
def goOn (me : Thread) (w : World) (g : Game) (env : Env) : GamePc → Option (World × Game)
  | .idle => none
  | .lockAccess method peer =>
    w.lock me .access (·, g) fun w => (w, g.goto (.lockHost method peer))
  | .lockHost method peer =>
    w.lock me .host (·, g) fun w => (w, g.goto (.unlockAccess method peer))
  | .unlockAccess method peer =>
    some (w.unlock .access (·, g) fun w => (w, g.goto (.inside method peer)))
  | .inside method peer =>
    match w.live peer with
    | none => some (w.fail .danglingPeer, g)
    | some h => some (w.setENet (method.run h peer.slot env), g.goto .unlockHost)
  | .unlockHost => some (w.unlock .host (·, g) fun w => (w, g.goto .idle))
  | .addressHost peer _ =>
    match w.live peer with
    | none => some (w.fail .danglingPeer, g)
    | some _ => some (w, g.goto .idle)
  | .searching args =>
    match w.host.enetHost with
    | none => some (w.fail .nullHost, g)
    | some h =>
      match ENet.hostConnectSearch h with
      | none => some (w, g.goto .idle)
      | some i => some (w, g.goto (.found i args))
  | .found i args =>
    match w.host.enetHost with
    | none => some (w.fail .nullHost, g)
    | some h =>
      match ENet.hostConnectClaim h i args.address (UInt64.ofInt w.host.maxChannels).toNat
          (UInt32.ofInt args.data) env.channels env.allocates with
      | none => some (w, g.goto .idle)
      | some h' => some (w.setENet h', (g.obtain ⟨w.session, i⟩).goto .idle)
  | .sending peer draft encodes =>
    some (w, g.goto
      (if encodes then .pushTest { draft with peerId := w.getPeerId peer env } else .idle))
  | .pushTest m =>
    some (w, g.goto (if w.host.messageQueue.isFull then .idle else .pushWrite m))
  | .pushWrite m =>
    some (w.setMessages (w.host.messageQueue.write (w.queuedMessage g.since m)), g.goto .idle)
  | .popTest => some (w, g.goto (if w.host.eventQueue.isEmpty then .idle else .popRead))
  | .popRead => some (w.setEvents w.host.eventQueue.read, g.goto .idle)
  | .bindRunning => some ({ w with host.running := true }, g.goto .bindAccess)
  | .bindAccess => some ({ w with host.accessMutex := some ⟨none⟩ }, g.goto .bindHost)
  | .bindHost => some ({ w with host.hostMutex := some ⟨none⟩ }, g.goto .bindThread)
  | .bindThread => some (w.goto .loopTest, g.goto .bindAssign)
  | .bindAssign => some ({ w with host.thread := true }, g.goto .idle)
  | .unbindRunning => some ({ w with host.running := false }, g.goto .unbindWait)
  | .unbindWait =>
    match w.worker with
    | some .finished => some ({ w with worker := none }, g.goto .unbindThread)
    | _ => none
  | .unbindThread => some ({ w with host.thread := false }, g.goto .unbindAccess)
  | .unbindAccess => some ({ w with host.accessMutex := none }, g.goto .unbindHost)
  | .unbindHost => some ({ w with host.hostMutex := none }, g.goto .unbindFlush)
  | .unbindFlush =>
    match w.host.enetHost with
    | none => some (w.fail .nullHost, g)
    | some h => some (w.setENet (ENet.hostFlush env.passes h), g.goto .unbindDestroy)
  | .unbindDestroy => some ({ w with host.enetHost := none }, g.goto .unbindMessages)
  | .unbindMessages => some (w.setMessages w.host.messageQueue.clear, g.goto .unbindEvents)
  | .unbindEvents => some (w.setEvents w.host.eventQueue.clear, g.goto .idle)

/-- A step of the game thread `me`.  A method needs the peer object it is called on. -/
def gameStep (me : Thread) (w : World) (g : Game) : GameInput → Option (World × Game)
  | .call c env =>
    match g.pc with
    | .idle =>
      if c.peer.all (· ∈ g.handles) then
        some (startCall w { g with since := w.session } env c)
      else none
    | _ => none
  | .go env => goOn me w g env g.pc

/-! ## The steps by name -/

/-- A call that starts. -/
inductive CallStep (w : World) (g : Game) (env : Env) : Call → World → Game → Prop
  /-- The call returns without an effect. -/
  | returns {c : Call} : CallStep w g env c w g
  | bind {addr : Option NetAddress} {address : Option ENet.Address} {h : ENet.Host}
      (hn : w.host.enetHost = none) (hc : w.create address env = some h) :
      CallStep w g env (.bind addr) { w.setENet h with session := w.session + 1 }
        (g.goto .bindRunning)
  | unbind (hb : w.host.enetHost.isSome) : CallStep w g env .unbind w (g.goto .unbindRunning)
  | setMaxPeers {max : Int} : CallStep w g env (.setMaxPeers max) { w with host.maxPeers := max } g
  | setMaxChannels {max : Int} :
      CallStep w g env (.setMaxChannels max) { w with host.maxChannels := max } g
  | getPeer {id : UInt32} {h : ENet.Host} (hh : w.host.enetHost = some h)
      (hi : id.toNat < h.peerCount) :
      CallStep w g env (.getPeer id) w (g.obtain ⟨w.session, id.toNat⟩)
  | connect {addr : Option NetAddress} {data : Int} {args : ConnectArgs}
      (hb : w.host.enetHost.isSome) (hr : addr.isSome ∧ env.resolves.isSome) :
      CallStep w g env (.connect addr data) w (g.goto (.searching args))
  | nullAddress {data : Int} : CallStep w g env (.connect none data) (w.fail .nullAddress) g
  | broadcast {c : Call} {m : Message} (hb : w.host.enetHost.isSome) (hm : m.broadcast = true)
      (hc : c.peer = none) : CallStep w g env c w (g.goto (.pushTest m))
  | getEvent : CallStep w g env .getEvent w (g.goto .popTest)
  | getAddress {p : PeerPtr} {h : ENet.Host} (hl : w.live p = some h) :
      CallStep w g env (.getAddress p) w
        (g.goto (.addressHost p (h.peers p.slot).address.port))
  | danglingPeer {c : Call} {p : PeerPtr}
      (hc : c = .getAddress p ∨ c = .getAvgRtt p ∧ w.host.enetHost.isSome)
      (hl : w.live p = none) : CallStep w g env c (w.fail .danglingPeer) g
  | locked {method : PeerMethod} {p : PeerPtr} (hb : w.host.enetHost.isSome) :
      CallStep w g env (.locked method p) w (g.goto (.lockAccess method p))
  | send {c : Call} {p : PeerPtr} {draft : Message} {encodes : Bool}
      (hb : w.host.enetHost.isSome) (hp : c.peer = some p) (hm : draft.broadcast = false) :
      CallStep w g env c w (g.goto (.sending p draft encodes))

theorem startCall_cases (w : World) (g : Game) (env : Env) (c : Call) :
    CallStep w g env c (startCall w g env c).1 (startCall w g env c).2 := by
  cases c with
  | bind addr =>
    simp only [startCall]
    split
    · exact .returns
    · next hn =>
      split
      · exact .returns
      · next address _ =>
        cases hc : w.create address env with
        | none => exact .returns
        | some h => exact .bind (Option.not_isSome_iff_eq_none.mp hn) hc
  | unbind =>
    simp only [startCall]
    split
    · next hb => exact .unbind hb
    · exact .returns
  | setMaxPeers max => exact .setMaxPeers
  | setMaxChannels max => exact .setMaxChannels
  | getPeer id =>
    simp only [startCall]
    cases hh : w.host.enetHost with
    | none => exact .returns
    | some h =>
      simp only
      split
      · next hi => exact .getPeer hh hi
      · exact .returns
  | connect addr data =>
    simp only [startCall]
    split
    · next hb =>
      split
      · exact .nullAddress
      · exact .returns
      · next hr => exact .connect hb ⟨rfl, by rw [hr]; rfl⟩
    · exact .returns
  | broadcastPacket packet channelId type =>
    simp only [startCall]
    split
    · next hb => exact .broadcast hb rfl rfl
    · exact .returns
  | broadcastVar var channelId type =>
    simp only [startCall]
    split
    · next hb =>
      split
      · exact .returns
      · exact .returns
      · exact .returns
      · exact .broadcast hb rfl rfl
    · exact .returns
  | isEventAvailable => exact .returns
  | getEventCount => exact .returns
  | getEvent => exact .getEvent
  | getPeerId peer => exact .returns
  | getAddress peer =>
    simp only [startCall]
    cases hl : w.live peer with
    | none => exact .danglingPeer (Or.inl rfl) hl
    | some h => exact .getAddress hl
  | getAvgRtt peer =>
    simp only [startCall]
    split
    · next hl => exact .danglingPeer (Or.inr ⟨rfl, hl.1⟩) (Option.isNone_iff_eq_none.mp hl.2)
    · exact .returns
  | locked method peer =>
    simp only [startCall]
    split
    · next hb => exact .locked hb
    · exact .returns
  | sendPacket peer packet channelId type =>
    simp only [startCall]
    split
    · next hb => exact .send hb rfl rfl
    · exact .returns
  | sendVar peer var channelId type =>
    simp only [startCall]
    split
    · next hb =>
      split
      · exact .returns
      · exact .returns
      · exact .send hb rfl rfl
    · exact .returns

/-- The behaviour of the step at `pc` is undefined. -/
inductive GoFault (w : World) : GamePc → Fault → Prop
  | lockAccess {method : PeerMethod} {p : PeerPtr} (hm : w.host.accessMutex = none) :
      GoFault w (.lockAccess method p) .nullMutex
  | lockHost {method : PeerMethod} {p : PeerPtr} (hm : w.host.hostMutex = none) :
      GoFault w (.lockHost method p) .nullMutex
  | unlockAccess {method : PeerMethod} {p : PeerPtr} (hm : w.host.accessMutex = none) :
      GoFault w (.unlockAccess method p) .nullMutex
  | unlockHost (hm : w.host.hostMutex = none) : GoFault w .unlockHost .nullMutex
  | inside {method : PeerMethod} {p : PeerPtr} (hl : w.live p = none) :
      GoFault w (.inside method p) .danglingPeer
  | addressHost {p : PeerPtr} {port : UInt16} (hl : w.live p = none) :
      GoFault w (.addressHost p port) .danglingPeer
  | searching {args : ConnectArgs} (hh : w.host.enetHost = none) :
      GoFault w (.searching args) .nullHost
  | found {i : Nat} {args : ConnectArgs} (hh : w.host.enetHost = none) :
      GoFault w (.found i args) .nullHost
  | unbindFlush (hh : w.host.enetHost = none) : GoFault w .unbindFlush .nullHost

/-- A later step of a call. -/
inductive GoStep (me : Thread) (w : World) (g : Game) (env : Env) :
    GamePc → World → Game → Prop
  | lockAccess {method : PeerMethod} {p : PeerPtr} (hm : w.host.accessMutex = some ⟨none⟩) :
      GoStep me w g env (.lockAccess method p) (w.grant me .access) (g.goto (.lockHost method p))
  | lockHost {method : PeerMethod} {p : PeerPtr} (hm : w.host.hostMutex = some ⟨none⟩) :
      GoStep me w g env (.lockHost method p) (w.grant me .host) (g.goto (.unlockAccess method p))
  | unlockAccess {method : PeerMethod} {p : PeerPtr} (hm : w.host.accessMutex ≠ none) :
      GoStep me w g env (.unlockAccess method p) (w.release .access) (g.goto (.inside method p))
  | inside {method : PeerMethod} {p : PeerPtr} {h : ENet.Host} (hl : w.live p = some h) :
      GoStep me w g env (.inside method p) (w.setENet (method.run h p.slot env))
        (g.goto .unlockHost)
  | unlockHost (hm : w.host.hostMutex ≠ none) :
      GoStep me w g env .unlockHost (w.release .host) (g.goto .idle)
  | addressHost {p : PeerPtr} {port : UInt16} {h : ENet.Host} (hl : w.live p = some h) :
      GoStep me w g env (.addressHost p port) w (g.goto .idle)
  | noSlot {args : ConnectArgs} : GoStep me w g env (.searching args) w (g.goto .idle)
  | searching {args : ConnectArgs} {h : ENet.Host} {i : Nat} (hh : w.host.enetHost = some h)
      (hi : ENet.hostConnectSearch h = some i) :
      GoStep me w g env (.searching args) w (g.goto (.found i args))
  | unclaimed {i : Nat} {args : ConnectArgs} : GoStep me w g env (.found i args) w (g.goto .idle)
  | found {i : Nat} {args : ConnectArgs} {h h' : ENet.Host} (hh : w.host.enetHost = some h)
      (hc : ENet.hostConnectClaim h i args.address (UInt64.ofInt w.host.maxChannels).toNat
        (UInt32.ofInt args.data) env.channels env.allocates = some h') :
      GoStep me w g env (.found i args) (w.setENet h') ((g.obtain ⟨w.session, i⟩).goto .idle)
  | notEncoded {p : PeerPtr} {draft : Message} :
      GoStep me w g env (.sending p draft false) w (g.goto .idle)
  | sending {p : PeerPtr} {draft : Message} :
      GoStep me w g env (.sending p draft true) w
        (g.goto (.pushTest { draft with peerId := w.getPeerId p env }))
  | refused {m : Message} (hf : w.host.messageQueue.isFull = true) :
      GoStep me w g env (.pushTest m) w (g.goto .idle)
  | pushTest {m : Message} (hf : w.host.messageQueue.isFull = false) :
      GoStep me w g env (.pushTest m) w (g.goto (.pushWrite m))
  | pushWrite {m : Message} :
      GoStep me w g env (.pushWrite m)
        (w.setMessages (w.host.messageQueue.write (w.queuedMessage g.since m))) (g.goto .idle)
  | noEvent (he : w.host.eventQueue.isEmpty = true) : GoStep me w g env .popTest w (g.goto .idle)
  | popTest (he : w.host.eventQueue.isEmpty = false) :
      GoStep me w g env .popTest w (g.goto .popRead)
  | popRead : GoStep me w g env .popRead (w.setEvents w.host.eventQueue.read) (g.goto .idle)
  | bindRunning : GoStep me w g env .bindRunning { w with host.running := true }
      (g.goto .bindAccess)
  | bindAccess : GoStep me w g env .bindAccess { w with host.accessMutex := some ⟨none⟩ }
      (g.goto .bindHost)
  | bindHost : GoStep me w g env .bindHost { w with host.hostMutex := some ⟨none⟩ }
      (g.goto .bindThread)
  | bindThread : GoStep me w g env .bindThread (w.goto .loopTest) (g.goto .bindAssign)
  | bindAssign : GoStep me w g env .bindAssign { w with host.thread := true } (g.goto .idle)
  | unbindRunning : GoStep me w g env .unbindRunning { w with host.running := false }
      (g.goto .unbindWait)
  | unbindWait (hw : w.worker = some .finished) :
      GoStep me w g env .unbindWait { w with worker := none } (g.goto .unbindThread)
  | unbindThread : GoStep me w g env .unbindThread { w with host.thread := false }
      (g.goto .unbindAccess)
  | unbindAccess : GoStep me w g env .unbindAccess { w with host.accessMutex := none }
      (g.goto .unbindHost)
  | unbindHost : GoStep me w g env .unbindHost { w with host.hostMutex := none }
      (g.goto .unbindFlush)
  | unbindFlush {h : ENet.Host} (hh : w.host.enetHost = some h) :
      GoStep me w g env .unbindFlush (w.setENet (ENet.hostFlush env.passes h))
        (g.goto .unbindDestroy)
  | unbindDestroy : GoStep me w g env .unbindDestroy { w with host.enetHost := none }
      (g.goto .unbindMessages)
  | unbindMessages : GoStep me w g env .unbindMessages
      (w.setMessages w.host.messageQueue.clear) (g.goto .unbindEvents)
  | unbindEvents : GoStep me w g env .unbindEvents (w.setEvents w.host.eventQueue.clear)
      (g.goto .idle)
  | fails {pc : GamePc} {f : Fault} (hf : GoFault w pc f) : GoStep me w g env pc (w.fail f) g

theorem goOn_cases {me : Thread} {w w' : World} {g g' : Game} {env : Env} {pc : GamePc}
    (h : goOn me w g env pc = some (w', g')) : GoStep me w g env pc w' g' := by
  cases pc with
  | idle => cases h
  | lockAccess method p =>
    rw [goOn] at h
    rcases World.lock_cases h with ⟨hm, e⟩ | ⟨hm, e⟩ <;> cases e
    · exact .fails (.lockAccess hm)
    · exact .lockAccess hm
  | lockHost method p =>
    rw [goOn] at h
    rcases World.lock_cases h with ⟨hm, e⟩ | ⟨hm, e⟩ <;> cases e
    · exact .fails (.lockHost hm)
    · exact .lockHost hm
  | unlockAccess method p =>
    rw [goOn] at h
    rcases World.unlock_cases w .access (·, g) fun w => (w, g.goto (.inside method p)) with
      ⟨hm, e⟩ | ⟨hm, e⟩ <;> rw [e] at h <;> cases h
    · exact .fails (.unlockAccess hm)
    · exact .unlockAccess hm
  | inside method p =>
    rw [goOn] at h
    split at h
    · next hl => cases h; exact .fails (.inside hl)
    · next hl => cases h; exact .inside hl
  | unlockHost =>
    rw [goOn] at h
    rcases World.unlock_cases w .host (·, g) fun w => (w, g.goto .idle) with
      ⟨hm, e⟩ | ⟨hm, e⟩ <;> rw [e] at h <;> cases h
    · exact .fails (.unlockHost hm)
    · exact .unlockHost hm
  | addressHost p port =>
    rw [goOn] at h
    split at h
    · next hl => cases h; exact .fails (.addressHost hl)
    · next hl => cases h; exact .addressHost hl
  | searching args =>
    rw [goOn] at h
    split at h
    · next hh => cases h; exact .fails (.searching hh)
    · next hh =>
      split at h
      · cases h; exact .noSlot
      · next hi => cases h; exact .searching hh hi
  | found i args =>
    rw [goOn] at h
    split at h
    · next hh => cases h; exact .fails (.found hh)
    · next hh =>
      split at h
      · cases h; exact .unclaimed
      · next hc => cases h; exact .found hh hc
  | sending p draft encodes =>
    cases encodes <;> cases h
    · exact .notEncoded
    · exact .sending
  | pushTest m =>
    cases hf : w.host.messageQueue.isFull <;> rw [goOn, hf] at h <;> cases h
    · exact .pushTest hf
    · exact .refused hf
  | pushWrite m => cases h; exact .pushWrite
  | popTest =>
    cases he : w.host.eventQueue.isEmpty <;> rw [goOn, he] at h <;> cases h
    · exact .popTest he
    · exact .noEvent he
  | popRead => cases h; exact .popRead
  | bindRunning => cases h; exact .bindRunning
  | bindAccess => cases h; exact .bindAccess
  | bindHost => cases h; exact .bindHost
  | bindThread => cases h; exact .bindThread
  | bindAssign => cases h; exact .bindAssign
  | unbindRunning => cases h; exact .unbindRunning
  | unbindWait =>
    rw [goOn] at h
    split at h
    · next hw => cases h; exact .unbindWait hw
    · cases h
  | unbindThread => cases h; exact .unbindThread
  | unbindAccess => cases h; exact .unbindAccess
  | unbindHost => cases h; exact .unbindHost
  | unbindFlush =>
    rw [goOn] at h
    split at h
    · next hh => cases h; exact .fails (.unbindFlush hh)
    · next hh => cases h; exact .unbindFlush hh
  | unbindDestroy => cases h; exact .unbindDestroy
  | unbindMessages => cases h; exact .unbindMessages
  | unbindEvents => cases h; exact .unbindEvents

theorem gameStep_cases {me : Thread} {w w' : World} {g g' : Game} {input : GameInput}
    (h : gameStep me w g input = some (w', g')) :
    (∃ c env, input = .call c env ∧ g.pc = .idle ∧ c.peer.all (· ∈ g.handles) ∧
      CallStep w { g with since := w.session } env c w' g') ∨
    (∃ env, input = .go env ∧ GoStep me w g env g.pc w' g') := by
  cases input with
  | call c env =>
    rw [gameStep] at h
    split at h
    · next hpc =>
      simp only [Option.ite_none_right_eq_some] at h
      have hs := startCall_cases w { g with since := w.session } env c
      rw [Option.some.inj h.2] at hs
      exact Or.inl ⟨c, env, rfl, hpc, h.1, hs⟩
    · cases h
  | go env => exact Or.inr ⟨env, rfl, goOn_cases h⟩

end GDNet
