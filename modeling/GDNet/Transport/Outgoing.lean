import GDNet.ENet.Peer
import GDNet.Transport.Incoming
import GDNet.Transport.Wire

/-!
# Outgoing commands

The half of a peer that numbers what is sent, keeps what has to be acknowledged and
sends it again.  A reliable command goes from `outgoingReliableCommands` into a
datagram and to `sentReliableCommands`, and back when its time is over.

`Batch` is the datagram that a host puts together for a peer: its `commands`,
`buffers`, `packetSize` and header flags.

Two fields are added that the code does not have and no function reads back:
`OutChannel.serial` counts the reliable numbers of a channel without wrapping, and
`Outgoing.serial` is the number of a command in this count.
-/

namespace Transport
open ENet (PeerState Packet ProtocolCommand packetFlagReliable packetFlagUnsequenced
  packetFlagUnreliableFragment protocolMaximumFragmentCount fragmentOverhead fragmentPieces
  hostDefaultMtu)

/-! ## Time -/

/-- `ENET_TIME_LESS`; the clock wraps. -/
def timeLess (a b : UInt32) : Bool := a - b ≥ 86400000

/-- `ENET_TIME_DIFFERENCE`. -/
def timeDifference (a b : UInt32) : UInt32 := if a - b ≥ 86400000 then b - a else a - b

/-! ## Data -/

/-- `ENetOutgoingCommand`, with the fields of its command that only some
commands have. -/
structure Outgoing extends ENet.OutgoingCommand where
  startSequenceNumber : UInt16 := 0
  fragmentCount : Nat := 0
  fragmentNumber : Nat := 0
  unsequencedGroup : UInt16 := 0
  sentTime : UInt32 := 0
  roundTripTimeout : UInt32 := 0
  roundTripTimeoutLimit : UInt32 := 0
  serial : Nat := 0
deriving DecidableEq

/-- The sending half of `ENetChannel`. -/
structure OutChannel where
  outgoingReliableSequenceNumber : UInt16 := 0
  outgoingUnreliableSequenceNumber : UInt16 := 0
  usedReliableWindows : Nat := 0
  reliableWindows : Nat → Nat := fun _ => 0
  serial : Nat := 0

/-- The sending half of `ENetPeer`. -/
structure Outbound where
  state : PeerState
  mtu : Nat
  channelCount : Nat
  channels : Nat → OutChannel
  outgoingReliableSequenceNumber : UInt16 := 0
  outgoingUnsequencedGroup : UInt16 := 0
  sentReliableCommands : List Outgoing := []
  outgoingReliableCommands : List Outgoing := []
  outgoingUnreliableCommands : List Outgoing := []
  packetThrottle : Nat := 32
  packetThrottleCounter : Nat := 0
  windowSize : Nat := 65536
  reliableDataInTransit : Nat := 0
  roundTripTime : UInt32 := 500
  roundTripTimeVariance : UInt32 := 0
  timeoutLimit : UInt32 := 32
  timeoutMinimum : UInt32 := 5000
  timeoutMaximum : UInt32 := 30000
  nextTimeout : UInt32 := 0
  earliestTimeout : UInt32 := 0
  packetsSent : Nat := 0
  packetsLost : Nat := 0

def Outbound.setChannel (p : Outbound) (i : Nat) (c : OutChannel) : Outbound :=
  { p with channels := Function.update p.channels i c }

/-! ## Sending -/

/-- A command with its numbers, not sent yet. -/
def Outgoing.number (c : Outgoing) (reliable unreliable : UInt16) (serial : Nat) : Outgoing :=
  { c with
    reliableSequenceNumber := reliable
    unreliableSequenceNumber := unreliable
    serial := serial
    sendAttempts := 0
    sentTime := 0
    roundTripTimeout := 0
    roundTripTimeoutLimit := 0 }

/-- The next reliable number of a channel is taken. -/
def OutChannel.next (channel : OutChannel) : OutChannel :=
  { channel with
    outgoingReliableSequenceNumber := channel.outgoingReliableSequenceNumber + 1
    outgoingUnreliableSequenceNumber := 0
    serial := channel.serial + 1 }

/-- `enet_peer_setup_outgoing_command`. -/
def peerSetupOutgoingCommand (p : Outbound) (c : Outgoing) : Outbound :=
  let i := c.channelID.toNat
  let channel := p.channels i
  let n : Outbound × Outgoing :=
    if c.channelID = 0xFF then
      let number := p.outgoingReliableSequenceNumber + 1
      ({ p with outgoingReliableSequenceNumber := number }, c.number number 0 c.serial)
    else if c.acknowledge then
      (p.setChannel i channel.next,
        c.number channel.next.outgoingReliableSequenceNumber 0 channel.next.serial)
    else if c.unsequenced then
      ({ p with outgoingUnsequencedGroup := p.outgoingUnsequencedGroup + 1 },
        { c.number 0 0 c.serial with unsequencedGroup := p.outgoingUnsequencedGroup + 1 })
    else
      let number := if c.fragmentOffset = 0 then channel.outgoingUnreliableSequenceNumber + 1
        else channel.outgoingUnreliableSequenceNumber
      (p.setChannel i { channel with outgoingUnreliableSequenceNumber := number },
        c.number channel.outgoingReliableSequenceNumber number c.serial)
  if c.acknowledge then
    { n.1 with outgoingReliableCommands := n.1.outgoingReliableCommands ++ [n.2] }
  else { n.1 with outgoingUnreliableCommands := n.1.outgoingUnreliableCommands ++ [n.2] }

/-- The longest piece of a packet that a command carries. -/
def Outbound.pieceLength (p : Outbound) (checksum : Bool) : Nat :=
  p.mtu - fragmentOverhead - if checksum then 4 else 0

/-- The command of one fragment. -/
def fragmentCommand (command : ProtocolCommand) (acknowledge : Bool) (channelID : UInt8)
    (start : UInt16) (count : Nat) (packet : Packet) (number : Nat) (piece : Nat × Nat) :
    Outgoing :=
  { command := command
    acknowledge := acknowledge
    channelID := channelID
    fragmentOffset := piece.1
    fragmentLength := piece.2
    packet := some packet
    startSequenceNumber := start
    fragmentCount := count
    fragmentNumber := number }

/-- The commands of the fragments, in order. -/
def fragmentCommands (command : ProtocolCommand) (acknowledge : Bool) (channelID : UInt8)
    (start : UInt16) (count : Nat) (packet : Packet) (pieces : List (Nat × Nat)) :
    List Outgoing :=
  pieces.mapIdx (fragmentCommand command acknowledge channelID start count packet)

/-- `enet_peer_send`; `none` is a negative result. -/
def peerSend (checksum : Bool) (maximumPacketSize : Nat) (p : Outbound) (channelID : UInt8)
    (packet : Packet) (allocates : Bool) : Option Outbound :=
  if p.state ≠ .connected ∨ channelID.toNat ≥ p.channelCount ∨
      packet.dataLength > maximumPacketSize then none
  else
    let channel := p.channels channelID.toNat
    let length := p.pieceLength checksum
    if packet.dataLength > length then
      let fragmentCount := (packet.dataLength + length - 1) / length
      if fragmentCount > protocolMaximumFragmentCount then none
      else if allocates then
        let pieces := fragmentPieces packet.dataLength length packet.dataLength 0
        let fragments :=
          if packet.flags &&& (packetFlagReliable ||| packetFlagUnreliableFragment) ==
              packetFlagUnreliableFragment && channel.outgoingUnreliableSequenceNumber < 0xFFFF then
            fragmentCommands .sendUnreliableFragment false channelID
              (channel.outgoingUnreliableSequenceNumber + 1) fragmentCount packet pieces
          else
            fragmentCommands .sendFragment true channelID
              (channel.outgoingReliableSequenceNumber + 1) fragmentCount packet pieces
        some (fragments.foldl peerSetupOutgoingCommand p)
      else none
    else if allocates then
      let command : Outgoing :=
        { command := .sendUnreliable, channelID := channelID
          fragmentLength := packet.dataLength, packet := some packet }
      some (peerSetupOutgoingCommand p
        (if packet.flags &&& (packetFlagReliable ||| packetFlagUnsequenced) ==
            packetFlagUnsequenced then
          { command with command := .sendUnsequenced, unsequenced := true }
        else if packet.flags &&& packetFlagReliable != 0 ||
            decide (channel.outgoingUnreliableSequenceNumber ≥ 0xFFFF) then
          { command with command := .sendReliable, acknowledge := true }
        else command))
    else none

/-! ## Putting a datagram together -/

/-- What the host counts while it puts a datagram together.  `sent` are the commands
in it, in order, the acknowledgements left out. -/
structure Batch where
  sent : List Outgoing := []
  commandCount : Nat := 0
  bufferCount : Nat := 1
  packetSize : Nat := 4
  sentTime : Bool := false
  continueSending : Bool := false

/-- `sizeof (host -> commands) / sizeof (ENetProtocol)`. -/
def maximumCommands : Nat := 32

/-- `sizeof (host -> buffers) / sizeof (ENetBuffer)`. -/
def maximumBuffers : Nat := 1 + 2 * maximumCommands

/-- `peer -> mtu - host -> packetSize`, in 64 bits. -/
def Outbound.space (p : Outbound) (b : Batch) : Nat :=
  (p.mtu + 18446744073709551616 - b.packetSize) % 18446744073709551616

def Outgoing.commandSize (c : Outgoing) : Nat := commandSizes (commandNumber c.command)

/-- Put a command and its data at the end of the datagram. -/
def Batch.add (b : Batch) (c : Outgoing) : Batch :=
  { b with
    sent := b.sent ++ [c]
    commandCount := b.commandCount + 1
    bufferCount := b.bufferCount + if c.packet.isSome then 2 else 1
    packetSize := b.packetSize + c.commandSize +
      if c.packet.isSome then c.fragmentLength else 0 }

/-- The window of a command. -/
def Outgoing.window (c : Outgoing) : Nat := c.reliableSequenceNumber.toNat / reliableWindowSize

/-- The windows that must be free before the window `w` is used. -/
def windowMask (w : Nat) : Nat :=
  ((1 <<< freeReliableWindows) - 1) <<< w |||
    ((1 <<< freeReliableWindows) - 1) >>> (reliableWindows - w)

/-- The first command of a window has to wait. -/
def windowBlocked (channel : OutChannel) (c : Outgoing) : Bool :=
  decide (c.sendAttempts < 1 ∧ c.reliableSequenceNumber.toNat % reliableWindowSize = 0 ∧
    (channel.reliableWindows ((c.window + reliableWindows - 1) % reliableWindows) ≥
        reliableWindowSize ∨
      channel.usedReliableWindows &&& windowMask c.window ≠ 0))

/-- The bytes that may be on their way. -/
def Outbound.dataLimit (p : Outbound) : Nat := max (p.packetThrottle * p.windowSize / 32) p.mtu

/-- The command does not fit into the datagram. -/
def Outbound.full (p : Outbound) (b : Batch) (c : Outgoing) : Bool :=
  decide (b.commandCount ≥ maximumCommands ∨ b.bufferCount + 1 ≥ maximumBuffers ∨
    p.space b < c.commandSize ∨ c.packet.isSome ∧
      p.space b % 65536 < (c.commandSize + c.fragmentLength) % 65536)

/-- The variables of `enet_protocol_send_reliable_outgoing_commands`. -/
structure Sending where
  peer : Outbound
  batch : Batch
  windowExceeded : Bool := false
  windowWrap : Bool := false
  canPing : Bool := true

/-- The command is counted in its window. -/
def OutChannel.use (channel : OutChannel) (w : Nat) : OutChannel :=
  { channel with
    usedReliableWindows := channel.usedReliableWindows ||| 1 <<< w
    reliableWindows := Function.update channel.reliableWindows w (channel.reliableWindows w + 1) }

/-- The command as it is sent. -/
def Outgoing.attempt (c : Outgoing) (p : Outbound) (serviceTime : UInt32) : Outgoing :=
  let roundTripTimeout := p.roundTripTime + 4 * p.roundTripTimeVariance
  { c with
    sendAttempts := c.sendAttempts + 1
    roundTripTimeout := if c.roundTripTimeout = 0 then roundTripTimeout else c.roundTripTimeout
    roundTripTimeoutLimit := if c.roundTripTimeout = 0 then p.timeoutLimit * roundTripTimeout
      else c.roundTripTimeoutLimit
    sentTime := serviceTime }

/-- The command goes into the datagram and to `sentReliableCommands`. -/
def Sending.send (s : Sending) (c : Outgoing) (serviceTime : UInt32) : Sending :=
  let p := s.peer
  let i := c.channelID.toNat
  let sent := c.attempt p serviceTime
  let p := if i < p.channelCount ∧ c.sendAttempts < 1 then
      p.setChannel i ((p.channels i).use c.window)
    else p
  { s with
    canPing := false
    batch := { s.batch.add sent with sentTime := true }
    peer := { p with
      nextTimeout := if p.sentReliableCommands = [] then serviceTime + sent.roundTripTimeout
        else p.nextTimeout
      sentReliableCommands := p.sentReliableCommands ++ [sent]
      reliableDataInTransit := p.reliableDataInTransit +
        if c.packet.isSome then c.fragmentLength else 0
      packetsSent := p.packetsSent + 1 } }

/-- One turn of the loop: the command stays, the loop ends, or the command is sent. -/
inductive SendTurn where
  | skip (s : Sending)
  | stop (s : Sending)
  | send (s : Sending)

def Sending.turn (s : Sending) (c : Outgoing) (serviceTime : UInt32) : SendTurn :=
  let p := s.peer
  let hasChannel := decide (c.channelID.toNat < p.channelCount)
  let windowWrap := s.windowWrap ||
    hasChannel && windowBlocked (p.channels c.channelID.toNat) c
  if hasChannel && windowWrap then .skip { s with windowWrap := windowWrap }
  else
    let windowExceeded := s.windowExceeded || c.packet.isSome &&
      decide (p.reliableDataInTransit + c.fragmentLength > p.dataLimit)
    if c.packet.isSome && windowExceeded then .skip { s with windowExceeded := windowExceeded }
    else if p.full s.batch c then
      .stop { s with canPing := false, batch := { s.batch with continueSending := true } }
    else .send (s.send c serviceTime)

/-- The loop, and the commands that stay. -/
def Sending.loop (serviceTime : UInt32) : List Outgoing → Sending → Sending × List Outgoing
  | [], s => (s, [])
  | c :: cs, s =>
    match s.turn c serviceTime with
    | .skip s =>
      let r := Sending.loop serviceTime cs s
      (r.1, c :: r.2)
    | .stop s => (s, c :: cs)
    | .send s => Sending.loop serviceTime cs s

/-- `enet_protocol_send_reliable_outgoing_commands`, with its result. -/
def protocolSendReliableOutgoingCommands (p : Outbound) (b : Batch) (serviceTime : UInt32) :
    Outbound × Batch × Bool :=
  let r := Sending.loop serviceTime p.outgoingReliableCommands { peer := p, batch := b }
  ({ r.1.peer with outgoingReliableCommands := r.2 }, r.1.batch, r.1.canPing)

/-! ## Acknowledgements and timeouts -/

/-- The command is no longer counted in its window. -/
def OutChannel.free (channel : OutChannel) (w : Nat) : OutChannel :=
  if channel.reliableWindows w > 0 then
    { channel with
      reliableWindows := Function.update channel.reliableWindows w (channel.reliableWindows w - 1)
      usedReliableWindows :=
        if channel.reliableWindows w - 1 = 0 then
          channel.usedReliableWindows &&& (0xFFFF ^^^ 1 <<< w)
        else channel.usedReliableWindows }
  else channel

/-- The command with this number on this channel. -/
def Outgoing.isIt (number : UInt16) (channelID : UInt8) (c : Outgoing) : Bool :=
  c.reliableSequenceNumber == number && c.channelID == channelID

/-- The end of `enet_protocol_remove_sent_reliable_command`: the next timeout is that
of the command sent first. -/
def Outbound.rearm (p : Outbound) : Outbound :=
  match p.sentReliableCommands with
  | [] => p
  | c :: _ => { p with nextTimeout := c.sentTime + c.roundTripTimeout }

/-- The window of the number on the channel has one command less. -/
def Outbound.freeWindow (p : Outbound) (number : UInt16) (channelID : UInt8) : Outbound :=
  if channelID.toNat < p.channelCount then
    p.setChannel channelID.toNat
      ((p.channels channelID.toNat).free (number.toNat / reliableWindowSize))
  else p

/-- `enet_protocol_remove_sent_reliable_command`. -/
def protocolRemoveSentReliableCommand (p : Outbound) (number : UInt16) (channelID : UInt8) :
    Outbound × ProtocolCommand :=
  match p.sentReliableCommands.find? (Outgoing.isIt number channelID) with
  | some c =>
    let p := p.freeWindow number channelID
    (Outbound.rearm { p with
      sentReliableCommands := p.sentReliableCommands.eraseP (Outgoing.isIt number channelID)
      reliableDataInTransit := p.reliableDataInTransit -
        if c.packet.isSome then c.fragmentLength else 0 }, c.command)
  | none =>
    match (p.outgoingReliableCommands.takeWhile fun c => decide (1 ≤ c.sendAttempts)).find?
        (Outgoing.isIt number channelID) with
    | some c =>
      let p := p.freeWindow number channelID
      (Outbound.rearm { p with
        outgoingReliableCommands :=
          p.outgoingReliableCommands.eraseP (Outgoing.isIt number channelID) }, c.command)
    | none => (p, .none)

/-- The variables of `enet_protocol_check_timeouts`: `kept` are the commands in time
and `late` those that go back, in order. -/
structure Timeouts where
  peer : Outbound
  kept : List Outgoing := []
  late : List Outgoing := []

/-- A command is late. -/
def Outbound.noteLate (p : Outbound) (c : Outgoing) : Outbound :=
  { p with
    earliestTimeout :=
      if p.earliestTimeout = 0 ∨ timeLess c.sentTime p.earliestTimeout then c.sentTime
      else p.earliestTimeout }

/-- The peer has not answered for too long. -/
def Outbound.timedOut (p : Outbound) (c : Outgoing) (serviceTime : UInt32) : Bool :=
  decide (p.earliestTimeout ≠ 0) &&
    (decide (timeDifference serviceTime p.earliestTimeout ≥ p.timeoutMaximum) ||
      decide (c.roundTripTimeout ≥ c.roundTripTimeoutLimit) &&
        decide (timeDifference serviceTime p.earliestTimeout ≥ p.timeoutMinimum))

/-- A late command goes back; `first` is the command that is in front then, if it
was behind. -/
def Outbound.putBack (p : Outbound) (c : Outgoing) (first : Option Outgoing) : Outbound :=
  { p with
    reliableDataInTransit := p.reliableDataInTransit -
      if c.packet.isSome then c.fragmentLength else 0
    packetsLost := p.packetsLost + 1
    nextTimeout :=
      match first with
      | some d => d.sentTime + d.roundTripTimeout
      | none => p.nextTimeout }

/-- The loop over the commands that were sent: what is left of them where it ends,
and whether the peer timed out. -/
def Timeouts.loop (serviceTime : UInt32) :
    List Outgoing → Timeouts → Timeouts × List Outgoing × Bool
  | [], t => (t, [], false)
  | c :: rest, t =>
    if timeDifference serviceTime c.sentTime < c.roundTripTimeout then
      loop serviceTime rest { t with kept := t.kept ++ [c] }
    else
      let p := t.peer.noteLate c
      if p.timedOut c serviceTime then ({ t with peer := p }, c :: rest, true)
      else
        loop serviceTime rest
          { t with
            peer := p.putBack c (if t.kept = [] then rest.head? else none)
            late := t.late ++ [{ c with roundTripTimeout := c.roundTripTimeout * 2 }] }

/-- `enet_protocol_check_timeouts`, up to the notification. -/
def protocolCheckTimeouts (p : Outbound) (serviceTime : UInt32) : Outbound × Bool :=
  let r := Timeouts.loop serviceTime p.sentReliableCommands { peer := p }
  ({ r.1.peer with
    sentReliableCommands := r.1.kept ++ r.2.1
    outgoingReliableCommands := r.1.late ++ p.outgoingReliableCommands }, r.2.2)

/-! ## Reset -/

/-- `enet_peer_reset_queues`, the sending half. -/
def peerResetQueues (p : Outbound) : Outbound :=
  { p with
    sentReliableCommands := []
    outgoingReliableCommands := []
    outgoingUnreliableCommands := []
    channels := fun _ => {}
    channelCount := 0 }

/-- `enet_peer_reset`, the sending half; a host keeps the MTU it is created with. -/
def peerReset (p : Outbound) : Outbound :=
  peerResetQueues { p with
    state := .disconnected
    nextTimeout := 0
    earliestTimeout := 0
    packetsSent := 0
    packetsLost := 0
    packetThrottle := 32
    packetThrottleCounter := 0
    timeoutLimit := 32
    timeoutMinimum := 5000
    timeoutMaximum := 30000
    roundTripTime := 500
    roundTripTimeVariance := 0
    mtu := hostDefaultMtu
    reliableDataInTransit := 0
    outgoingReliableSequenceNumber := 0
    windowSize := 65536
    outgoingUnsequencedGroup := 0 }

/-- `enet_protocol_notify_disconnect`, the sending half; `deliver` stands for
`event != NULL`. -/
def protocolNotifyDisconnect (p : Outbound) (deliver : Bool) : Outbound :=
  if p.state ≠ .connecting ∧ p.state.value < PeerState.connectionSucceeded.value ∨ deliver then
    peerReset p
  else { p with state := .zombie }

end Transport
