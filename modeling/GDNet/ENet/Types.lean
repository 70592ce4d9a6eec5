import Mathlib.Logic.Function.Basic

/-!
# The data of an ENet host

A host is an array of peer slots and a queue of the slots that have an event to
deliver.  A slot goes through connections one after the other, and nothing in it
says which connection it holds.  Two fields are added that the code does not
have and no function reads back: `Peer.connection` numbers the connections of a
host in the order in which they took a slot, and an `Event` carries the
connection and the address it was raised for.

Left out of a peer: timers, round trip times, bandwidth and window counters,
session numbers and the buffers that put incoming commands in order.  They
decide when something is sent, when a peer times out, which datagrams are for
it and which packets are complete; these decisions are inputs of the functions
that make them.
-/

namespace ENet

inductive PeerState where
  | disconnected
  | connecting
  | acknowledgingConnect
  | connectionPending
  | connectionSucceeded
  | connected
  | disconnectLater
  | disconnecting
  | acknowledgingDisconnect
  | zombie
deriving DecidableEq, Repr

/-- The value of the enumerator. -/
def PeerState.value : PeerState → Nat
  | .disconnected => 0
  | .connecting => 1
  | .acknowledgingConnect => 2
  | .connectionPending => 3
  | .connectionSucceeded => 4
  | .connected => 5
  | .disconnectLater => 6
  | .disconnecting => 7
  | .acknowledgingDisconnect => 8
  | .zombie => 9

structure Address where
  host : UInt32
  port : UInt16
deriving DecidableEq, Repr

def enetHostAny : UInt32 := 0
def enetHostBroadcast : UInt32 := 0xFFFFFFFF

def protocolMinimumMtu : Nat := 576
def protocolMaximumMtu : Nat := 4096
def protocolMinimumChannelCount : Nat := 1
def protocolMaximumChannelCount : Nat := 255
def protocolMaximumPeerID : Nat := 0xFFF
def protocolMaximumFragmentCount : Nat := 1024 * 1024
def hostDefaultMtu : Nat := 1400
def hostDefaultMaximumPacketSize : Nat := 32 * 1024 * 1024

def packetFlagReliable : UInt32 := 1
def packetFlagUnsequenced : UInt32 := 2
def packetFlagUnreliableFragment : UInt32 := 8

structure Packet where
  flags : UInt32
  data : List UInt8
deriving DecidableEq, Repr

def Packet.dataLength (p : Packet) : Nat := p.data.length

inductive ProtocolCommand where
  | none
  | acknowledge
  | connect
  | verifyConnect
  | disconnect
  | ping
  | sendReliable
  | sendUnreliable
  | sendFragment
  | sendUnsequenced
  | bandwidthLimit
  | throttleConfigure
  | sendUnreliableFragment
deriving DecidableEq, Repr

/-- A command waiting to be sent or to be acknowledged.  `acknowledge` and
`unsequenced` are the two flags of its header. -/
structure OutgoingCommand where
  command : ProtocolCommand
  acknowledge : Bool := false
  unsequenced : Bool := false
  channelID : UInt8
  data : UInt32 := 0
  reliableSequenceNumber : UInt16 := 0
  unreliableSequenceNumber : UInt16 := 0
  fragmentOffset : Nat := 0
  fragmentLength : Nat := 0
  sendAttempts : Nat := 0
  packet : Option Packet := Option.none
deriving DecidableEq, Repr

/-- A complete packet that waits in `dispatchedCommands`. -/
structure IncomingCommand where
  channelID : UInt8
  packet : Packet
deriving DecidableEq, Repr

structure Channel where
  outgoingReliableSequenceNumber : UInt16 := 0
  outgoingUnreliableSequenceNumber : UInt16 := 0
deriving DecidableEq, Repr

structure Peer where
  state : PeerState
  connectID : UInt32
  address : Address
  eventData : UInt32
  mtu : Nat
  channelCount : Nat
  channels : Nat → Channel
  outgoingReliableSequenceNumber : UInt16
  outgoingUnsequencedGroup : UInt16
  acknowledgements : List ProtocolCommand
  sentReliableCommands : List OutgoingCommand
  outgoingReliableCommands : List OutgoingCommand
  outgoingUnreliableCommands : List OutgoingCommand
  dispatchedCommands : List IncomingCommand
  needsDispatch : Bool
  /-- The connection that holds the slot, or held it last. -/
  connection : Nat

structure Host where
  peers : Nat → Peer
  peerCount : Nat
  channelLimit : Nat
  mtu : Nat
  randomSeed : UInt32
  checksum : Bool
  duplicatePeers : Nat
  maximumPacketSize : Nat
  dispatchQueue : List Nat
  /-- The number of connections that have taken a slot so far. -/
  connections : Nat
  /-- What the socket is bound to; `none` for a null address. -/
  socketAddress : Option Address := none

inductive EventType where
  | connect
  | disconnect
  | receive
deriving DecidableEq, Repr

/-- An event that was delivered; `ENET_EVENT_TYPE_NONE` is the absence of one. -/
structure Event where
  type : EventType
  peer : Nat
  channelID : UInt8 := 0
  data : UInt32 := 0
  packet : Option Packet := Option.none
  connection : Nat
  address : Address
deriving DecidableEq, Repr

namespace Host

/-- An event of a slot, for the connection and from the address it has now. -/
def event (h : Host) (type : EventType) (i : Nat) (data : UInt32) : Event :=
  { type := type, peer := i, data := data,
    connection := (h.peers i).connection, address := (h.peers i).address }

/-- Change one slot of the array. -/
def update (h : Host) (i : Nat) (f : Peer → Peer) : Host :=
  { h with peers := Function.update h.peers i (f (h.peers i)) }

@[simp] theorem update_peers_self (h : Host) (i : Nat) (f : Peer → Peer) :
    (h.update i f).peers i = f (h.peers i) := by simp [update]

@[simp] theorem update_peers_of_ne (h : Host) {i j : Nat} (f : Peer → Peer) (hij : j ≠ i) :
    (h.update i f).peers j = h.peers j := by simp [update, hij]

@[simp] theorem update_peerCount (h : Host) (i : Nat) (f : Peer → Peer) :
    (h.update i f).peerCount = h.peerCount := rfl

@[simp] theorem update_connections (h : Host) (i : Nat) (f : Peer → Peer) :
    (h.update i f).connections = h.connections := rfl

@[simp] theorem update_dispatchQueue (h : Host) (i : Nat) (f : Peer → Peer) :
    (h.update i f).dispatchQueue = h.dispatchQueue := rfl

end Host
end ENet
