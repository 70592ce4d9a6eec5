import GDNet.ENet.Types

/-!
# Peers: outgoing commands, sending, reset

`enet_peer_setup_outgoing_command` numbers a command and puts it into one of the
two outgoing lists; `enet_peer_send` splits a packet into such commands.  Neither
changes who holds the slot, which the `slot` lemmas say once for all callers.
-/

namespace ENet

/-- What the connection protocol is about in a peer. -/
structure Slot where
  state : PeerState
  connection : Nat
  address : Address
  acknowledgements : List ProtocolCommand
deriving DecidableEq, Repr

def Peer.slot (p : Peer) : Slot := ⟨p.state, p.connection, p.address, p.acknowledgements⟩

/-! ## Outgoing commands -/

/-- Number an outgoing command. -/
def peerNumberOutgoingCommand (peer : Peer) (c : OutgoingCommand) : Peer × OutgoingCommand :=
  let i := c.channelID.toNat
  let channel := peer.channels i
  let reliable : Channel :=
    { outgoingReliableSequenceNumber := channel.outgoingReliableSequenceNumber + 1
      outgoingUnreliableSequenceNumber := 0 }
  if c.channelID = 0xFF then
    ({ peer with outgoingReliableSequenceNumber := peer.outgoingReliableSequenceNumber + 1 },
     { c with
        reliableSequenceNumber := peer.outgoingReliableSequenceNumber + 1
        unreliableSequenceNumber := 0 })
  else if c.acknowledge then
    ({ peer with channels := Function.update peer.channels i reliable },
     { c with
        reliableSequenceNumber := channel.outgoingReliableSequenceNumber + 1
        unreliableSequenceNumber := 0 })
  else if c.unsequenced then
    ({ peer with outgoingUnsequencedGroup := peer.outgoingUnsequencedGroup + 1 },
     { c with reliableSequenceNumber := 0, unreliableSequenceNumber := 0 })
  else
    -- The later fragments of a packet keep the number of its first one.
    let number := if c.fragmentOffset = 0 then channel.outgoingUnreliableSequenceNumber + 1
      else channel.outgoingUnreliableSequenceNumber
    let unreliable : Channel := { channel with outgoingUnreliableSequenceNumber := number }
    ({ peer with channels := Function.update peer.channels i unreliable },
     { c with
        reliableSequenceNumber := channel.outgoingReliableSequenceNumber
        unreliableSequenceNumber := number })

def peerSetupOutgoingCommand (peer : Peer) (c : OutgoingCommand) : Peer :=
  let n := peerNumberOutgoingCommand peer { c with sendAttempts := 0 }
  if c.acknowledge then
    { n.1 with outgoingReliableCommands := n.1.outgoingReliableCommands ++ [n.2] }
  else
    { n.1 with outgoingUnreliableCommands := n.1.outgoingUnreliableCommands ++ [n.2] }

/-- `enet_peer_queue_outgoing_command`; `allocates` says whether `enet_malloc`
succeeds. -/
def peerQueueOutgoingCommand (peer : Peer) (c : OutgoingCommand) (allocates : Bool) :
    Option Peer :=
  if allocates then some (peerSetupOutgoingCommand peer c) else none

@[simp] theorem number_slot (peer : Peer) (c : OutgoingCommand) :
    (peerNumberOutgoingCommand peer c).1.slot = peer.slot := by
  unfold peerNumberOutgoingCommand
  simp only
  split
  · rfl
  · split
    · rfl
    · split <;> rfl

@[simp] theorem setup_slot (peer : Peer) (c : OutgoingCommand) :
    (peerSetupOutgoingCommand peer c).slot = peer.slot := by
  rw [← number_slot peer { c with sendAttempts := 0 }]
  unfold peerSetupOutgoingCommand
  simp only
  split <;> rfl

theorem queueOutgoing_slot {peer peer' : Peer} {c : OutgoingCommand} {allocates : Bool}
    (h : peerQueueOutgoingCommand peer c allocates = some peer') : peer'.slot = peer.slot := by
  rw [peerQueueOutgoingCommand] at h
  split at h <;> cases h
  exact setup_slot peer c

@[simp] theorem queueOutgoing_getD_slot (peer : Peer) (c : OutgoingCommand) (allocates : Bool) :
    ((peerQueueOutgoingCommand peer c allocates).getD peer).slot = peer.slot := by
  cases h : peerQueueOutgoingCommand peer c allocates with
  | none => rfl
  | some p => exact queueOutgoing_slot h

/-! ## Sending -/

/-- `sizeof (ENetProtocolHeader) + sizeof (ENetProtocolSendFragment)`. -/
def fragmentOverhead : Nat := 4 + 24

def fragmentLength (host : Host) (peer : Peer) : Nat :=
  peer.mtu - fragmentOverhead - if host.checksum then 4 else 0

/-- The pieces of a packet, as offset and length, from `offset` on.  `fuel`
bounds the turns of the loop by the number of bytes left. -/
def fragmentPieces (dataLength length : Nat) : Nat → Nat → List (Nat × Nat)
  | 0, _ => []
  | fuel + 1, offset =>
    if offset < dataLength then
      let piece := min length (dataLength - offset)
      (offset, piece) :: fragmentPieces dataLength length fuel (offset + piece)
    else []

/-- `enet_peer_send`; `none` is a negative result. -/
def peerSend (host : Host) (peer : Peer) (channelID : UInt8) (packet : Packet)
    (allocates : Bool) : Option Peer :=
  if peer.state ≠ .connected ∨ channelID.toNat ≥ peer.channelCount ∨
      packet.dataLength > host.maximumPacketSize then none
  else
    let channel := peer.channels channelID.toNat
    let length := fragmentLength host peer
    if packet.dataLength > length then
      let fragmentCount := (packet.dataLength + length - 1) / length
      if fragmentCount > protocolMaximumFragmentCount then none
      else if allocates then
        let unreliable :=
          packet.flags &&& (packetFlagReliable ||| packetFlagUnreliableFragment) ==
            packetFlagUnreliableFragment && channel.outgoingUnreliableSequenceNumber < 0xFFFF
        let pieces := fragmentPieces packet.dataLength length packet.dataLength 0
        some (pieces.foldl (fun peer piece => peerSetupOutgoingCommand peer
          { command := if unreliable then .sendUnreliableFragment else .sendFragment
            acknowledge := !unreliable
            channelID := channelID
            fragmentOffset := piece.1
            fragmentLength := piece.2
            packet := some packet }) peer)
      else none
    else
      let command : OutgoingCommand :=
        { command := .sendUnreliable, channelID := channelID,
          fragmentLength := packet.dataLength, packet := some packet }
      if packet.flags &&& (packetFlagReliable ||| packetFlagUnsequenced) == packetFlagUnsequenced
      then peerQueueOutgoingCommand peer
        { command with command := .sendUnsequenced, unsequenced := true } allocates
      else if packet.flags &&& packetFlagReliable != 0 ||
          decide (channel.outgoingUnreliableSequenceNumber ≥ 0xFFFF) then
        peerQueueOutgoingCommand peer
          { command with command := .sendReliable, acknowledge := true } allocates
      else peerQueueOutgoingCommand peer command allocates

/-- A packet is accepted only by a connected peer, on one of its channels. -/
theorem peerSend_accepts {host : Host} {peer peer' : Peer} {channelID : UInt8} {packet : Packet}
    {allocates : Bool} (h : peerSend host peer channelID packet allocates = some peer') :
    peer.state = .connected ∧ channelID.toNat < peer.channelCount ∧
      packet.dataLength ≤ host.maximumPacketSize := by
  unfold peerSend at h
  split at h
  · cases h
  · next hc =>
    simp only [not_or, ne_eq, not_not, ge_iff_le, gt_iff_lt, Nat.not_le, Nat.not_lt] at hc
    exact hc

/-- A packet that fits into one command is accepted by a connected peer. -/
theorem peerSend_whole {host : Host} {peer : Peer} {channelID : UInt8} {packet : Packet}
    (hs : peer.state = .connected) (hc : channelID.toNat < peer.channelCount)
    (hm : packet.dataLength ≤ host.maximumPacketSize)
    (hl : packet.dataLength ≤ fragmentLength host peer) :
    (peerSend host peer channelID packet true).isSome := by
  have hok : ¬(peer.state ≠ .connected ∨ channelID.toNat ≥ peer.channelCount ∨
      packet.dataLength > host.maximumPacketSize) := by
    rintro (h | h | h)
    · exact h hs
    · omega
    · omega
  have hwhole : ¬packet.dataLength > fragmentLength host peer := Nat.not_lt.mpr hl
  rw [peerSend, if_neg hok]
  simp only [if_neg hwhole]
  split
  · rfl
  · split <;> rfl

theorem foldl_slot {β : Type*} (f : Peer → β → Peer) (hf : ∀ p b, (f p b).slot = p.slot) :
    ∀ (bs : List β) (peer : Peer), (bs.foldl f peer).slot = peer.slot := by
  intro bs
  induction bs with
  | nil => intro peer; rfl
  | cons b bs ih => intro peer; rw [List.foldl_cons, ih, hf]

theorem peerSend_slot {host : Host} {peer peer' : Peer} {channelID : UInt8} {packet : Packet}
    {allocates : Bool} (h : peerSend host peer channelID packet allocates = some peer') :
    peer'.slot = peer.slot := by
  unfold peerSend at h
  split at h
  · cases h
  · simp only at h
    split at h
    · split at h
      · cases h
      · split at h
        · cases h
          exact foldl_slot _ (fun p b => setup_slot p _) _ peer
        · cases h
    · split at h
      · exact queueOutgoing_slot h
      · split at h <;> exact queueOutgoing_slot h

@[simp] theorem peerSend_getD_slot (host : Host) (peer : Peer) (channelID : UInt8)
    (packet : Packet) (allocates : Bool) :
    ((peerSend host peer channelID packet allocates).getD peer).slot = peer.slot := by
  cases h : peerSend host peer channelID packet allocates with
  | none => rfl
  | some p => exact peerSend_slot h

/-- `enet_peer_ping`. -/
def peerPing (peer : Peer) (allocates : Bool) : Peer :=
  if peer.state ≠ .connected then peer
  else (peerQueueOutgoingCommand peer
    { command := .ping, acknowledge := true, channelID := 0xFF } allocates).getD peer

@[simp] theorem peerPing_slot (peer : Peer) (allocates : Bool) :
    (peerPing peer allocates).slot = peer.slot := by
  unfold peerPing
  split
  · rfl
  · exact queueOutgoing_getD_slot _ _ _

/-! ## Reset -/

/-- `enet_peer_reset_queues`. -/
def peerResetQueues (h : Host) (i : Nat) : Host :=
  { h with dispatchQueue :=
      if (h.peers i).needsDispatch then h.dispatchQueue.erase i else h.dispatchQueue }.update i
    fun p => { p with
      needsDispatch := false
      acknowledgements := []
      sentReliableCommands := []
      outgoingReliableCommands := []
      outgoingUnreliableCommands := []
      dispatchedCommands := []
      channels := fun _ => {}
      channelCount := 0 }

/-- `enet_peer_reset`.  The address stays. -/
def peerReset (h : Host) (i : Nat) : Host :=
  peerResetQueues (h.update i fun p => { p with
    connectID := 0
    state := .disconnected
    mtu := h.mtu
    outgoingReliableSequenceNumber := 0
    outgoingUnsequencedGroup := 0
    eventData := 0 }) i

/-- `enet_peer_disconnect` on a peer that is CONNECTED or DISCONNECT_LATER. -/
def peerDisconnectConnected (h : Host) (i : Nat) (data : UInt32) (allocates : Bool) : Host :=
  (peerResetQueues h i).update i fun p =>
    { (peerQueueOutgoingCommand p
        { command := .disconnect, acknowledge := true, channelID := 0xFF, data := data }
        allocates).getD p with
      state := .disconnecting }

/-- Nothing waits to be sent or acknowledged. -/
def Peer.drained (p : Peer) : Bool :=
  p.outgoingReliableCommands.isEmpty && p.outgoingUnreliableCommands.isEmpty &&
    p.sentReliableCommands.isEmpty

end ENet
