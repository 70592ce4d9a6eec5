import GDNet.ENet.Calls
import GDNet.Transport.Datagram

/-!
# Bytes and handlers

`commandLoop` is the loop of `enet_protocol_handle_incoming_commands` over the bytes behind
a header, with the handlers of the connection protocol.  A turn ends the loop where a
handler fails, where a command other than CONNECT comes without a peer, and where a
datagram without a time of sending asks for an acknowledgement.

What the bytes of a command do not say (whether an allocation succeeds, what a clock or
the parameters of a peer say, which packets a send command completes) is in a `Reading`.
`memory` is how four bytes of memory read as a number.
-/

namespace Transport
open ENet (ProtocolCommand)

structure Reading where
  /-- The time of an ACKNOWLEDGE is not in the future. -/
  inTime : Bool := true
  /-- The two allocations of a CONNECT. -/
  channels : Bool := true
  verifies : Bool := true
  /-- A VERIFY_CONNECT repeats the throttle parameters. -/
  agrees : Bool := true
  /-- The packets a send command completes, `none` if it is refused. -/
  packets : Option (List ENet.Packet) := some []
  /-- An acknowledgement can be allocated and is in the window. -/
  acknowledges : Bool := true

/-- What the handler of a command is given. -/
def commandBody (memory : RawWord → UInt32) (r : Reading) :
    (c : ProtocolCommand) → c ≠ .none → Fields c → ENet.Body
  | .none, h, _ => absurd rfl h
  | .acknowledge, _, f => .acknowledge (Acknowledge.receivedReliableSequenceNumber f) r.inTime
  | .connect, _, f =>
    .connect
      { channelCount := (Connect.channelCount f).toNat
        connectID := memory (Connect.connectID f)
        mtu := (Connect.mtu f).toNat
        data := Connect.data f
        channels := r.channels
        verifies := r.verifies }
  | .verifyConnect, _, f =>
    .verifyConnect (VerifyConnect.channelCount f).toNat (memory (VerifyConnect.connectID f))
      (VerifyConnect.mtu f).toNat r.agrees
  | .disconnect, _, data => .disconnect data
  | .ping, _, _ => .ping
  | .sendReliable, _, _ => .send .reliable r.packets
  | .sendUnreliable, _, _ => .send .unreliable r.packets
  | .sendFragment, _, _ => .send .fragment r.packets
  | .sendUnsequenced, _, _ => .send .unsequenced r.packets
  | .bandwidthLimit, _, _ => .bandwidthLimit
  | .throttleConfigure, _, _ => .throttleConfigure
  | .sendUnreliableFragment, _, _ => .send .unreliableFragment r.packets

def Message.command (memory : RawWord → UInt32) (r : Reading) (m : Message) : ENet.Command where
  acknowledge := m.protocol.acknowledges
  channelID := m.protocol.channelID
  body := commandBody memory r m.protocol.command m.isCommand m.protocol.fields
  acknowledges := r.acknowledges

/-- Where the loop is: the peer, once there is one, the host, and the event so far. -/
structure Turn where
  peer : Option Nat
  host : ENet.Host
  event : Option ENet.Event

/-- A datagram with these commands. -/
def Header.datagram (header : Header) (known : Nat → Known) (address : ENet.Address)
    (source : address.host ≠ ENet.enetHostBroadcast) (commands : List ENet.Command) :
    ENet.Datagram where
  address := address
  peerID := header.peer
  session := header.inSession known
  sentTime := header.sentTime.isSome
  commands := commands
  source := source

variable {memory : RawWord → UInt32} {a : Arriving}

/-- A host of one slot that is up. -/
def aHost : ENet.Host where
  peers _ := { ENet.Peer.initial with state := .connected, address := ⟨9, 7000⟩ }
  peerCount := 1
  channelLimit := 1
  mtu := 1400
  randomSeed := 0
  checksum := false
  duplicatePeers := 1
  maximumPacketSize := 1024
  dispatchQueue := []
  connections := 1

/-- What the host knows of its peer. -/
def aPeer (_ : Nat) : Known := ⟨(1, 2, 3, 4), 0, 1⟩

end Transport
