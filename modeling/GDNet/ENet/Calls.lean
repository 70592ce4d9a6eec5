import GDNet.ENet.Connections

/-!
# The ENet functions the wrapper calls

Creating a host, connecting, broadcasting and the functions on a peer.  All but
`enet_host_connect` go through `HostMoves`; that one takes a free slot in two
parts, the search and the claim, since nothing keeps other threads out between
them, and the claim does not look at the slot again.
-/

namespace ENet

/-! ## Host -/

/-- A slot after `enet_peer_reset` in memory set to zero. -/
def Peer.initial : Peer where
  state := .disconnected
  connectID := 0
  address := ⟨0, 0⟩
  eventData := 0
  mtu := hostDefaultMtu
  channelCount := 0
  channels := fun _ => {}
  outgoingReliableSequenceNumber := 0
  outgoingUnsequencedGroup := 0
  acknowledgements := []
  sentReliableCommands := []
  outgoingReliableCommands := []
  outgoingUnreliableCommands := []
  dispatchedCommands := []
  needsDispatch := false
  connection := 0

/-- `enet_host_create`; `opens` says that memory and socket can be had. -/
def hostCreate (address : Option Address) (peerCount channelLimit : Nat) (randomSeed : UInt32)
    (opens : Bool) : Option Host :=
  if peerCount > protocolMaximumPeerID then none
  else if opens then some
    { peers := fun _ => Peer.initial
      peerCount := peerCount
      channelLimit :=
        if channelLimit = 0 ∨ channelLimit > protocolMaximumChannelCount then
          protocolMaximumChannelCount
        else channelLimit
      mtu := hostDefaultMtu
      randomSeed := randomSeed
      checksum := false
      duplicatePeers := protocolMaximumPeerID
      maximumPacketSize := hostDefaultMaximumPacketSize
      dispatchQueue := []
      connections := 1
      socketAddress := address }
  else none

/-- The first part of `enet_host_connect`: the first free slot. -/
def hostConnectSearch (h : Host) : Option Nat :=
  (List.range h.peerCount).find? fun i => (h.peers i).state == .disconnected

/-- The second part of `enet_host_connect`, with its two allocations. -/
def hostConnectClaim (h : Host) (i : Nat) (address : Address) (channelCount : Nat) (data : UInt32)
    (channels connects : Bool) : Option Host :=
  let channelCount :=
    max protocolMinimumChannelCount (min channelCount protocolMaximumChannelCount)
  if channels then
    some <| { h with
        randomSeed := h.randomSeed + 1
        connections := h.connections + 1 }.update i fun p =>
      let p := { p with
        channels := fun _ => {}
        channelCount := channelCount
        state := .connecting
        address := address
        connectID := h.randomSeed + 1
        connection := h.connections }
      (peerQueueOutgoingCommand p
        { command := .connect, acknowledge := true, channelID := 0xFF, data := data }
        connects).getD p
  else none

/-- The loop of `enet_host_broadcast`. -/
def broadcastLoop (channelID : UInt8) (packet : Packet) (allocates : Nat → Bool) :
    List Nat → Host → Host
  | [], h => h
  | i :: slots, h =>
    if (h.peers i).state ≠ .connected then broadcastLoop channelID packet allocates slots h
    else
      broadcastLoop channelID packet allocates slots
        (h.update i fun p => (peerSend h p channelID packet (allocates i)).getD p)

def hostBroadcast (h : Host) (channelID : UInt8) (packet : Packet) (allocates : Nat → Bool) :
    Host :=
  broadcastLoop channelID packet allocates (List.range h.peerCount) h

/-- The end of `enet_host_bandwidth_throttle`, where the limits are recalculated. -/
def bandwidthLoop (allocates : Nat → Bool) : List Nat → Host → Host
  | [], h => h
  | i :: slots, h =>
    if (h.peers i).state ≠ .connected ∧ (h.peers i).state ≠ .disconnectLater then
      bandwidthLoop allocates slots h
    else
      bandwidthLoop allocates slots (h.update i fun p =>
        (peerQueueOutgoingCommand p
          { command := .bandwidthLimit, acknowledge := true, channelID := 0xFF }
          (allocates i)).getD p)

/-- `enet_host_bandwidth_throttle`; `recalculate` is `recalculateBandwidthLimits`. -/
def hostBandwidthThrottle (h : Host) (recalculate : Bool) (allocates : Nat → Bool) : Host :=
  if recalculate then bandwidthLoop allocates (List.range h.peerCount) h else h

/-! ## Peers -/

/-- The command of a disconnection that the other side does not acknowledge, and
the flush behind it. -/
def flushDisconnect (h : Host) (i : Nat) (data : UInt32) (allocates : Bool)
    (passes : List (Nat → SendChoice)) : Host :=
  hostFlush passes ((peerResetQueues h i).update i fun p =>
    (peerQueueOutgoingCommand p
      { command := .disconnect, unsequenced := true, channelID := 0xFF, data := data }
      allocates).getD p)

/-- `enet_peer_disconnect`. -/
def peerDisconnect (h : Host) (i : Nat) (data : UInt32) (allocates : Bool)
    (passes : List (Nat → SendChoice)) : Host :=
  match (h.peers i).state with
  | .disconnecting | .disconnected | .acknowledgingDisconnect | .zombie => h
  | .connected | .disconnectLater => peerDisconnectConnected h i data allocates
  | _ => peerReset (flushDisconnect h i data allocates passes) i

/-- `enet_peer_disconnect_now`. -/
def peerDisconnectNow (h : Host) (i : Nat) (data : UInt32) (allocates : Bool)
    (passes : List (Nat → SendChoice)) : Host :=
  match (h.peers i).state with
  | .disconnected => h
  | .zombie | .disconnecting => peerReset h i
  | _ => peerReset (flushDisconnect h i data allocates passes) i

/-- `enet_peer_disconnect_later`. -/
def peerDisconnectLater (h : Host) (i : Nat) (data : UInt32) (allocates : Bool)
    (passes : List (Nat → SendChoice)) : Host :=
  if ((h.peers i).state = .connected ∨ (h.peers i).state = .disconnectLater) ∧
      !(h.peers i).drained then
    h.update i fun p => { p with state := .disconnectLater, eventData := data }
  else peerDisconnect h i data allocates passes

/-! ## What they do to the slots -/

variable {a : Allow} {h : Host} {i : Nat}

theorem broadcastLoop_moves {channelID : UInt8} {packet : Packet} {allocates : Nat → Bool} :
    ∀ (slots : List Nat) (h : Host),
    HostMoves a h (broadcastLoop channelID packet allocates slots h) := by
  intro slots
  induction slots with
  | nil => intro h; exact HostMoves.refl h
  | cons i slots ih =>
    intro h
    unfold broadcastLoop
    split
    · exact ih h
    · exact HostMoves.trans (HostMoves.update_slot (peerSend_getD_slot _ _ _ _ _)) (ih _)

theorem bandwidthLoop_moves {allocates : Nat → Bool} : ∀ (slots : List Nat) (h : Host),
    HostMoves a h (bandwidthLoop allocates slots h) := by
  intro slots
  induction slots with
  | nil => intro h; exact HostMoves.refl h
  | cons i slots ih =>
    intro h
    unfold bandwidthLoop
    split
    · exact ih h
    · exact HostMoves.trans (HostMoves.update_slot (queueOutgoing_getD_slot _ _ _)) (ih _)

theorem bandwidthThrottle_moves {recalculate : Bool} {allocates : Nat → Bool} :
    HostMoves a h (hostBandwidthThrottle h recalculate allocates) := by
  unfold hostBandwidthThrottle
  split
  · exact bandwidthLoop_moves _ h
  · exact HostMoves.refl h

theorem flushDisconnect_moves {data : UInt32} {allocates : Bool}
    {passes : List (Nat → SendChoice)} :
    HostMoves a h (flushDisconnect h i data allocates passes) :=
  (resetQueues_moves h i).trans
    (HostMoves.trans (HostMoves.update_slot (queueOutgoing_getD_slot _ _ _)) (flush_moves passes _))

/-- A flush leaves the slot of a connection that has not come up where it was, or
closes it. -/
theorem flushReset_moves {data : UInt32} {allocates : Bool} {passes : List (Nat → SendChoice)}
    (hf : a.frees) (hc : a.closes i) :
    HostMoves a h (peerReset (flushDisconnect h i data allocates passes) i) :=
  flushDisconnect_moves.trans (reset_moves (fun _ => hf) fun _ => hc)

theorem disconnect_moves {data : UInt32} {allocates : Bool} {passes : List (Nat → SendChoice)}
    (hf : a.frees) (hc : a.closes i) :
    HostMoves a h (peerDisconnect h i data allocates passes) := by
  unfold peerDisconnect
  cases hs : (h.peers i).state with
  | connected => exact disconnectConnected_moves (by rw [hs]; decide) fun _ => hc
  | disconnectLater => exact disconnectConnected_moves (by rw [hs]; decide) fun _ => hc
  | connecting => exact flushReset_moves hf hc
  | acknowledgingConnect => exact flushReset_moves hf hc
  | connectionPending => exact flushReset_moves hf hc
  | connectionSucceeded => exact flushReset_moves hf hc
  | _ => exact HostMoves.refl h

theorem disconnectNow_moves {data : UInt32} {allocates : Bool}
    {passes : List (Nat → SendChoice)} (hf : a.frees) (hc : a.closes i) :
    HostMoves a h (peerDisconnectNow h i data allocates passes) := by
  unfold peerDisconnectNow
  cases hs : (h.peers i).state with
  | disconnected => exact HostMoves.refl h
  | zombie => exact reset_moves (fun _ => hf) fun _ => hc
  | disconnecting => exact reset_moves (fun _ => hf) fun _ => hc
  | _ => exact flushReset_moves hf hc

theorem disconnectLater_moves {data : UInt32} {allocates : Bool}
    {passes : List (Nat → SendChoice)} (hf : a.frees) (hc : a.closes i) :
    HostMoves a h (peerDisconnectLater h i data allocates passes) := by
  unfold peerDisconnectLater
  split
  · next hs =>
    refine HostMoves.update (Moves.state (s := h.slot i) ?_ ?_ ?_ (fun _ _ _ => hc) ?_ ?_)
    · intro e
      change (h.peers i).state = _ at e
      rcases hs.1 with e' | e' <;> (rw [e] at e'; cases e')
    · show (h.peers i).state.rank ≤ 4
      rcases hs.1 with e | e <;> rw [e] <;> decide
    · intro _ e
      simp [PeerState.rank] at e
    · intro hok hm
      rcases hok hm with e | e <;>
        (change (h.peers i).state = _ at e; rw [e] at hs; simp at hs)
    · intro _ e
      simp [PeerState.rank] at e
  · exact disconnect_moves hf hc

/-- The other slots stay as they are, and this one goes to a new connection. -/
theorem connectClaim_slot {h' : Host} {address : Address} {channelCount : Nat} {data : UInt32}
    {channels connects : Bool}
    (hs : hostConnectClaim h i address channelCount data channels connects = some h') :
    h'.slot i = ⟨.connecting, h.connections, address, (h.peers i).acknowledgements⟩ ∧
      (∀ j, j ≠ i → h'.slot j = h.slot j) ∧ h'.peerCount = h.peerCount ∧
      h'.connections = h.connections + 1 := by
  unfold hostConnectClaim at hs
  simp only at hs
  split at hs
  · cases hs
    refine ⟨?_, fun j hj => ?_, rfl, rfl⟩
    · simp only [Host.slot, Host.update_peers_self, queueOutgoing_getD_slot]
      rfl
    · simp only [Host.slot, Host.update_peers_of_ne _ _ hj]
  · cases hs

theorem connectSearch_eq {i : Nat} (hs : hostConnectSearch h = some i) :
    i < h.peerCount ∧ (h.peers i).state = .disconnected := by
  unfold hostConnectSearch at hs
  have hm := List.mem_of_find?_eq_some hs
  have hp := List.find?_some hs
  exact ⟨List.mem_range.mp hm, by simpa using hp⟩

end ENet
